namespace Saps

-- A Rust string, as its characters.
abbrev Str := List Char

inductive FileError where
  | io (path message : Str)
  | path (path message : Str)
  | memFile (path message : Str)
  | graph (message : Str)
  deriving DecidableEq, Repr

inductive SapsErrorStatus where
  | notFound
  | forbidden
  | unknown
  | badRequest
  | conflict
  | unauthorized
  deriving DecidableEq, Repr

structure SapsError where
  message : Str
  status : SapsErrorStatus
  deriving DecidableEq, Repr

namespace SapsError

def notFound (message : Str) : SapsError :=
  ⟨message, .notFound⟩

def forbidden (message : Str) : SapsError :=
  ⟨message, .forbidden⟩

def unknown (message : Str) : SapsError :=
  ⟨message, .unknown⟩

def badRequest (message : Str) : SapsError :=
  ⟨message, .badRequest⟩

def conflict (message : Str) : SapsError :=
  ⟨message, .conflict⟩

def unauthorized (message : Str) : SapsError :=
  ⟨message, .unauthorized⟩

end SapsError

end Saps
