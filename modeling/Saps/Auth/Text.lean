import Saps.Errors
import Mathlib.Algebra.Ring.Int.Defs

namespace Saps.Auth

-- The integers of `bits` bits, signed.
def InRange (bits : Nat) (value : Int) : Prop :=
  -2 ^ (bits - 1) ≤ value ∧ value < 2 ^ (bits - 1)

instance (bits : Nat) (value : Int) : Decidable (InRange bits value) :=
  inferInstanceAs (Decidable (_ ∧ _))

-- The loop of `from_str_radix`, with `value` for the digits read so far.
def parseDigits (bits : Nat) (negative : Bool) (value : Int) : Str → Except Str Int
  | [] => .ok value
  | c :: rest =>
    if c.isDigit then
      let digit : Int := (c.toNat - '0'.toNat : Nat)
      let value := if negative then value * 10 - digit else value * 10 + digit
      if InRange bits value then parseDigits bits negative value rest
      else if negative then .error "number too small to fit in target type".toList
      else .error "number too large to fit in target type".toList
    else .error "invalid digit found in string".toList

-- `str::parse` of a signed integer.
def parseInt (bits : Nat) (text : Str) : Except Str Int :=
  match text with
  | [] => .error "cannot parse integer from empty string".toList
  | ['+'] | ['-'] => .error "invalid digit found in string".toList
  | '+' :: digits => parseDigits bits false 0 digits
  | '-' :: digits => parseDigits bits true 0 digits
  | digits => parseDigits bits false 0 digits

end Saps.Auth
