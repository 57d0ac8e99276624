import Saps.Errors

namespace Saps.Auth

-- The role enum of the application.
class UserRole (Role : Type) where
  toStr : Role → Str
  tryFrom : Str → Except SapsError Role

-- The enum that `construct_checks!` is called with here.
inductive DefaultRole where
  | superAdmin
  | admin
  | customer
  deriving DecidableEq

namespace DefaultRole

def toStr : DefaultRole → Str
  | superAdmin => "superadmin".toList
  | admin => "admin".toList
  | customer => "customer".toList

-- The comparison is on lower case.
def tryFrom (value : Str) : Except SapsError DefaultRole :=
  let lower := value.map Char.toLower
  if lower = toStr superAdmin then .ok superAdmin
  else if lower = toStr admin then .ok admin
  else if lower = toStr customer then .ok customer
  else .error (.badRequest ("Unknown role: ".toList ++ value))

instance : UserRole DefaultRole :=
  ⟨toStr, tryFrom⟩

theorem map_toLower_toStr (role : DefaultRole) : (toStr role).map Char.toLower = toStr role := by
  cases role <;> decide +kernel

theorem toStr_injective {left right : DefaultRole} (h : toStr left = toStr right) :
    left = right := by
  revert h
  cases left <;> cases right <;> decide +kernel

theorem tryFrom_toStr (role : DefaultRole) : tryFrom (toStr role) = .ok role := by
  rw [tryFrom, map_toLower_toStr]
  cases role with
  | superAdmin => exact if_pos rfl
  | admin =>
      have hne : toStr admin ≠ toStr superAdmin := fun h => nomatch toStr_injective h
      rw [if_neg hne, if_pos rfl]
  | customer =>
      have hsuper : toStr customer ≠ toStr superAdmin := fun h => nomatch toStr_injective h
      have hadmin : toStr customer ≠ toStr admin := fun h => nomatch toStr_injective h
      rw [if_neg hsuper, if_neg hadmin, if_pos rfl]

end DefaultRole

end Saps.Auth
