import Saps.Files.Paths

namespace Saps.Files

structure CursorIndex where
  col : Nat
  line : Nat
  deriving DecidableEq, Repr

inductive Operation where
  | insert (position : CursorIndex) (content : Str)
  | delete (position : CursorIndex) (length : Nat)
  | swap (position : CursorIndex) (length : Nat) (content : Str)
  deriving DecidableEq, Repr

structure Transaction where
  operations : List Operation
  deriving DecidableEq, Repr

end Saps.Files
