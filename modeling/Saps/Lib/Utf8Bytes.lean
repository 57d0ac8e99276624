import Mathlib.Data.List.Basic

-- Text as bytes, and where bytes stop being text.
namespace Utf8

def encode (text : List Char) : List UInt8 :=
  text.flatMap String.utf8EncodeChar

def decode (bytes : List UInt8) : Option (List Char) :=
  bytes.toByteArray.utf8Decode?.map Array.toList

theorem decode_encode (text : List Char) : decode (encode text) = some text := by
  have h : (encode text).toByteArray = text.utf8Encode := rfl
  rw [decode, h, List.utf8Decode?_utf8Encode]
  rfl

theorem decode_eq_some_iff {bytes : List UInt8} {text : List Char} :
    decode bytes = some text ↔ bytes = encode text := by
  constructor
  · intro h
    obtain ⟨chars, hchars, rfl⟩ := Option.map_eq_some_iff.mp h
    have hsome : bytes.toByteArray.utf8Decode?.isSome := by simp [hchars]
    obtain ⟨valid, hvalid⟩ := ByteArray.isSome_utf8Decode?_iff.mp hsome
    have hbytes : bytes = encode valid := by
      have hdata := congrArg (fun array => array.data.toList) hvalid
      simpa [encode, List.utf8Encode] using hdata
    rw [hbytes] at h
    rw [decode_encode] at h
    rw [hbytes, Option.some.inj h]
  · rintro rfl
    exact decode_encode text

-- The bytes that may follow in a sequence, the first one by what it follows.
def isContinuation (byte : UInt8) : Bool :=
  0x80 ≤ byte ∧ byte ≤ 0xBF

def isSecond (first second : UInt8) : Bool :=
  if first = 0xE0 then 0xA0 ≤ second ∧ second ≤ 0xBF
  else if first = 0xED then 0x80 ≤ second ∧ second ≤ 0x9F
  else if first = 0xF0 then 0x90 ≤ second ∧ second ≤ 0xBF
  else if first = 0xF4 then 0x80 ≤ second ∧ second ≤ 0x8F
  else isContinuation second

-- The length of the sequence that a byte starts.
def width (first : UInt8) : Nat :=
  if first < 0x80 then 1
  else if 0xC2 ≤ first ∧ first ≤ 0xDF then 2
  else if 0xE0 ≤ first ∧ first ≤ 0xEF then 3
  else if 0xF0 ≤ first ∧ first ≤ 0xF4 then 4
  else 0

-- How many bytes in front are wrong, or that they end too early.
def scanRest (read : Nat) : Nat → List UInt8 → Option (Option Nat)
  | 0, _ => none
  | _ + 1, [] => some none
  | count + 1, byte :: rest =>
    if isContinuation byte then scanRest (read + 1) count rest else some (some read)

def scanFirst (first : UInt8) (rest : List UInt8) : Option (Option Nat) :=
  match width first, rest with
  | 0, _ => some (some 1)
  | 1, _ => none
  | _ + 2, [] => some none
  | count + 2, second :: rest =>
    if isSecond first second then scanRest 2 count rest else some (some 1)

structure Error where
  validUpTo : Nat
  errorLen : Option Nat

-- `fuel` bytes at most.
def firstError (index : Nat) : Nat → List UInt8 → Option Error
  | 0, _ => none
  | _, [] => none
  | fuel + 1, first :: rest =>
    match scanFirst first rest with
    | some errorLen => some ⟨index, errorLen⟩
    | none => firstError (index + width first) fuel (rest.drop (width first - 1))

end Utf8
