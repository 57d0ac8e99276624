import Mathlib.Data.List.Nodup

-- Bytes written with sixty-four characters, three bytes in four characters, and
-- read back only as they are written.
namespace Base64

structure Alphabet where
  symbols : List Char
  length_eq : symbols.length = 64
  nodup : symbols.Nodup
  pad_free : '=' ∉ symbols

namespace Alphabet

variable (alphabet : Alphabet)

def toChar (value : Nat) : Char :=
  alphabet.symbols.getD value '='

def ofChar (c : Char) : Option Nat :=
  if c ∈ alphabet.symbols then some (alphabet.symbols.idxOf c) else none

variable {alphabet}

theorem toChar_eq {value : Nat} (h : value < 64) :
    ∃ hlt : value < alphabet.symbols.length, alphabet.toChar value = alphabet.symbols[value] := by
  have hlt : value < alphabet.symbols.length := by
    rw [alphabet.length_eq]
    exact h
  exact ⟨hlt, by simp [toChar, List.getD_eq_getElem?_getD, hlt]⟩

theorem toChar_mem {value : Nat} (h : value < 64) : alphabet.toChar value ∈ alphabet.symbols := by
  obtain ⟨hlt, hchar⟩ := toChar_eq h
  rw [hchar]
  exact List.getElem_mem hlt

theorem ofChar_toChar {value : Nat} (h : value < 64) :
    alphabet.ofChar (alphabet.toChar value) = some value := by
  obtain ⟨hlt, hchar⟩ := toChar_eq h
  rw [ofChar, if_pos (toChar_mem h), hchar, alphabet.nodup.idxOf_getElem]

theorem toChar_ne_pad {value : Nat} (h : value < 64) : alphabet.toChar value ≠ '=' := by
  intro heq
  have hvalue : alphabet.ofChar (alphabet.toChar value) = some value := ofChar_toChar h
  rw [heq, ofChar, if_neg alphabet.pad_free] at hvalue
  cases hvalue

theorem ofChar_some {c : Char} {value : Nat} (h : alphabet.ofChar c = some value) :
    value < 64 ∧ alphabet.toChar value = c := by
  unfold ofChar at h
  split at h
  · next hmem =>
    obtain rfl := Option.some.inj h
    have hlt := List.idxOf_lt_length_of_mem hmem
    refine ⟨by rw [← alphabet.length_eq]; exact hlt, ?_⟩
    simp [toChar, List.getD_eq_getElem?_getD, hlt]
  · cases h

end Alphabet

variable (alphabet : Alphabet)

-- What is left at the end is filled up with zero bits and padding.
def encode : List UInt8 → List Char
  | [] => []
  | [a] => [alphabet.toChar (a.toNat / 4), alphabet.toChar (a.toNat % 4 * 16), '=', '=']
  | [a, b] =>
    [alphabet.toChar (a.toNat / 4), alphabet.toChar (a.toNat % 4 * 16 + b.toNat / 16),
      alphabet.toChar (b.toNat % 16 * 4), '=']
  | a :: b :: c :: rest =>
    alphabet.toChar (a.toNat / 4) :: alphabet.toChar (a.toNat % 4 * 16 + b.toNat / 16) ::
      alphabet.toChar (b.toNat % 16 * 4 + c.toNat / 64) :: alphabet.toChar (c.toNat % 64) ::
      encode rest

-- The bits that padding stands for are zero.
def decodeOne (i j : Nat) : Option (List UInt8) :=
  if j % 16 = 0 then some [UInt8.ofNat (i * 4 + j / 16)] else none

def decodeTwo (i j k : Nat) : Option (List UInt8) :=
  if k % 4 = 0 then some [UInt8.ofNat (i * 4 + j / 16), UInt8.ofNat (j % 16 * 16 + k / 4)]
  else none

def decodeThree (i j k l : Nat) : List UInt8 :=
  [UInt8.ofNat (i * 4 + j / 16), UInt8.ofNat (j % 16 * 16 + k / 4), UInt8.ofNat (k % 4 * 64 + l)]

-- Only the last four characters can end in padding.
def decodeTail (i j : Nat) (y z : Char) (last : Bool) : Option (List UInt8) :=
  if z = '=' then
    if last = false then none
    else if y = '=' then decodeOne i j
    else (alphabet.ofChar y).bind (decodeTwo i j)
  else do
    let k ← alphabet.ofChar y
    let l ← alphabet.ofChar z
    return decodeThree i j k l

def decodeFour (w x y z : Char) (last : Bool) : Option (List UInt8) := do
  let i ← alphabet.ofChar w
  let j ← alphabet.ofChar x
  decodeTail alphabet i j y z last

def decode : List Char → Option (List UInt8)
  | [] => some []
  | w :: x :: y :: z :: rest => do
    let bytes ← decodeFour alphabet w x y z rest.isEmpty
    let others ← decode rest
    return bytes ++ others
  | _ => none

variable {alphabet}

theorem ofNat_of_eq {value : Nat} (byte : UInt8) (h : value = byte.toNat) :
    UInt8.ofNat value = byte := by
  rw [h, UInt8.ofNat_toNat]

theorem toNat_ofNat {value : Nat} (h : value < 256) : (UInt8.ofNat value).toNat = value := by
  rw [UInt8.toNat_ofNat', Nat.mod_eq_of_lt h]

-- A group of bytes comes back from its parts.
theorem decodeOne_parts (a : UInt8) : decodeOne (a.toNat / 4) (a.toNat % 4 * 16) = some [a] := by
  have hbits : a.toNat % 4 * 16 % 16 = 0 := by omega
  rw [decodeOne, if_pos hbits, ofNat_of_eq a (by omega)]

theorem decodeTwo_parts (a b : UInt8) :
    decodeTwo (a.toNat / 4) (a.toNat % 4 * 16 + b.toNat / 16) (b.toNat % 16 * 4) =
      some [a, b] := by
  have hb := b.toNat_lt
  have hbits : b.toNat % 16 * 4 % 4 = 0 := by omega
  rw [decodeTwo, if_pos hbits, ofNat_of_eq a (by omega),
    ofNat_of_eq b (by omega)]

theorem decodeThree_parts (a b c : UInt8) :
    decodeThree (a.toNat / 4) (a.toNat % 4 * 16 + b.toNat / 16)
      (b.toNat % 16 * 4 + c.toNat / 64) (c.toNat % 64) = [a, b, c] := by
  have hb := b.toNat_lt
  have hc := c.toNat_lt
  rw [decodeThree, ofNat_of_eq a (by omega), ofNat_of_eq b (by omega),
    ofNat_of_eq c (by omega)]

theorem decode_encode (bytes : List UInt8) : decode alphabet (encode alphabet bytes) = some bytes := by
  induction bytes using encode.induct with
  | case1 => rfl
  | case2 a =>
      have ha := a.toNat_lt
      rw [encode, decode, decodeFour, Alphabet.ofChar_toChar (by omega),
        Alphabet.ofChar_toChar (by omega)]
      simp [decodeTail, decodeOne_parts, decode]
  | case3 a b =>
      have ha := a.toNat_lt
      have hb := b.toNat_lt
      have hpad : alphabet.toChar (b.toNat % 16 * 4) ≠ '=' := Alphabet.toChar_ne_pad (by omega)
      have hthird : alphabet.ofChar (alphabet.toChar (b.toNat % 16 * 4)) =
          some (b.toNat % 16 * 4) := Alphabet.ofChar_toChar (by omega)
      rw [encode, decode, decodeFour, Alphabet.ofChar_toChar (by omega),
        Alphabet.ofChar_toChar (by omega)]
      simp [decodeTail, decodeTwo_parts, hpad, hthird, decode]
  | case4 a b c rest ih =>
      have ha := a.toNat_lt
      have hb := b.toNat_lt
      have hc := c.toNat_lt
      have hpad : alphabet.toChar (c.toNat % 64) ≠ '=' := Alphabet.toChar_ne_pad (by omega)
      have hthird : alphabet.ofChar (alphabet.toChar (b.toNat % 16 * 4 + c.toNat / 64)) =
          some (b.toNat % 16 * 4 + c.toNat / 64) := Alphabet.ofChar_toChar (by omega)
      have hfourth : alphabet.ofChar (alphabet.toChar (c.toNat % 64)) = some (c.toNat % 64) :=
        Alphabet.ofChar_toChar (by omega)
      rw [encode, decode, ih, decodeFour, Alphabet.ofChar_toChar (by omega),
        Alphabet.ofChar_toChar (by omega)]
      simp [decodeTail, decodeThree_parts, hpad, hthird, hfourth]

-- And the parts from the group.
theorem decodeOne_some {i j : Nat} (hi : i < 64) (hj : j < 64) {bytes : List UInt8}
    (h : decodeOne i j = some bytes) :
    ∃ a : UInt8, bytes = [a] ∧ i = a.toNat / 4 ∧ j = a.toNat % 4 * 16 := by
  unfold decodeOne at h
  split at h
  · next hbits =>
    have ha : (UInt8.ofNat (i * 4 + j / 16)).toNat = i * 4 + j / 16 := toNat_ofNat (by omega)
    exact ⟨_, (Option.some.inj h).symm, by omega, by omega⟩
  · cases h

theorem decodeTwo_some {i j k : Nat} (hi : i < 64) (hj : j < 64) (hk : k < 64)
    {bytes : List UInt8} (h : decodeTwo i j k = some bytes) :
    ∃ a b : UInt8, bytes = [a, b] ∧ i = a.toNat / 4 ∧ j = a.toNat % 4 * 16 + b.toNat / 16 ∧
      k = b.toNat % 16 * 4 := by
  unfold decodeTwo at h
  split at h
  · next hbits =>
    have ha : (UInt8.ofNat (i * 4 + j / 16)).toNat = i * 4 + j / 16 := toNat_ofNat (by omega)
    have hb : (UInt8.ofNat (j % 16 * 16 + k / 4)).toNat = j % 16 * 16 + k / 4 :=
      toNat_ofNat (by omega)
    exact ⟨_, _, (Option.some.inj h).symm, by omega, by omega, by omega⟩
  · cases h

theorem decodeThree_eq {i j k l : Nat} (hi : i < 64) (hj : j < 64) (hk : k < 64) (hl : l < 64) :
    ∃ a b c : UInt8, decodeThree i j k l = [a, b, c] ∧ i = a.toNat / 4 ∧
      j = a.toNat % 4 * 16 + b.toNat / 16 ∧ k = b.toNat % 16 * 4 + c.toNat / 64 ∧
      l = c.toNat % 64 := by
  have ha : (UInt8.ofNat (i * 4 + j / 16)).toNat = i * 4 + j / 16 := toNat_ofNat (by omega)
  have hb : (UInt8.ofNat (j % 16 * 16 + k / 4)).toNat = j % 16 * 16 + k / 4 :=
    toNat_ofNat (by omega)
  have hc : (UInt8.ofNat (k % 4 * 64 + l)).toNat = k % 4 * 64 + l := toNat_ofNat (by omega)
  exact ⟨_, _, _, rfl, by omega, by omega, by omega, by omega⟩

-- What four characters decode to is written with these four.
theorem decodeTail_some {i j : Nat} (hi : i < 64) (hj : j < 64) {y z : Char} {last : Bool}
    {bytes : List UInt8} (h : decodeTail alphabet i j y z last = some bytes)
    (rest : List UInt8) (hrest : last = true → rest = []) :
    encode alphabet (bytes ++ rest) =
      alphabet.toChar i :: alphabet.toChar j :: y :: z :: encode alphabet rest := by
  unfold decodeTail at h
  by_cases hz : z = '='
  · rw [if_pos hz] at h
    cases last with
    | false => simp at h
    | true =>
        obtain rfl := hrest rfl
        obtain rfl := hz
        rw [if_neg (by simp)] at h
        by_cases hy : y = '='
        · obtain rfl := hy
          rw [if_pos rfl] at h
          obtain ⟨a, rfl, rfl, rfl⟩ := decodeOne_some hi hj h
          rfl
        · rw [if_neg hy] at h
          obtain ⟨k, hk, htwo⟩ := Option.bind_eq_some_iff.mp h
          obtain ⟨hlt, rfl⟩ := Alphabet.ofChar_some hk
          obtain ⟨a, b, rfl, rfl, rfl, rfl⟩ := decodeTwo_some hi hj hlt htwo
          rfl
  · rw [if_neg hz] at h
    obtain ⟨k, hk, hthree⟩ := Option.bind_eq_some_iff.mp h
    obtain ⟨l, hl, hbytes⟩ := Option.bind_eq_some_iff.mp hthree
    obtain ⟨hklt, rfl⟩ := Alphabet.ofChar_some hk
    obtain ⟨hllt, rfl⟩ := Alphabet.ofChar_some hl
    obtain ⟨a, b, c, habc, rfl, rfl, rfl, rfl⟩ := decodeThree_eq hi hj hklt hllt
    rw [← Option.some.inj hbytes, habc]
    rfl

theorem decodeFour_some {w x y z : Char} {last : Bool} {bytes : List UInt8}
    (h : decodeFour alphabet w x y z last = some bytes) (rest : List UInt8)
    (hrest : last = true → rest = []) :
    encode alphabet (bytes ++ rest) = w :: x :: y :: z :: encode alphabet rest := by
  obtain ⟨i, hw, hi⟩ := Option.bind_eq_some_iff.mp h
  obtain ⟨j, hx, htail⟩ := Option.bind_eq_some_iff.mp hi
  obtain ⟨hilt, rfl⟩ := Alphabet.ofChar_some hw
  obtain ⟨hjlt, rfl⟩ := Alphabet.ofChar_some hx
  exact decodeTail_some hilt hjlt htail rest hrest

theorem encode_decode {text : List Char} {bytes : List UInt8}
    (h : decode alphabet text = some bytes) : encode alphabet bytes = text := by
  induction text using decode.induct generalizing bytes with
  | case1 =>
      rw [← Option.some.inj h]
      rfl
  | case2 w x y z rest ih =>
      rw [decode] at h
      obtain ⟨front, hfront, h⟩ := Option.bind_eq_some_iff.mp h
      obtain ⟨back, hback, h⟩ := Option.bind_eq_some_iff.mp h
      have hrest := ih hback
      rw [← Option.some.inj h, decodeFour_some hfront back ?_, hrest]
      intro hlast
      obtain rfl := List.isEmpty_iff.mp hlast
      exact (Option.some.inj hback).symm
  | case3 text hnil hcons =>
      rw [decode] at h
      · cases h
      · exact hnil
      · exact hcons

-- Decoding takes what encoding writes, and nothing else.
theorem decode_eq_some_iff {text : List Char} {bytes : List UInt8} :
    decode alphabet text = some bytes ↔ text = encode alphabet bytes := by
  constructor
  · intro h
    exact (encode_decode h).symm
  · rintro rfl
    exact decode_encode bytes

-- Nothing but symbols and padding is written.
theorem mem_encode {bytes : List UInt8} {c : Char} (h : c ∈ encode alphabet bytes) :
    c ∈ alphabet.symbols ∨ c = '=' := by
  have hchar : ∀ value, value < 64 → c = alphabet.toChar value → c ∈ alphabet.symbols ∨ c = '=' := by
    rintro value hvalue rfl
    exact .inl (Alphabet.toChar_mem hvalue)
  induction bytes using encode.induct with
  | case1 => cases h
  | case2 a =>
      have ha := a.toNat_lt
      simp only [encode, List.mem_cons, List.not_mem_nil, or_false] at h
      rcases h with h | h | h | h
      · exact hchar _ (by omega) h
      · exact hchar _ (by omega) h
      · exact .inr h
      · exact .inr h
  | case3 a b =>
      have ha := a.toNat_lt
      have hb := b.toNat_lt
      simp only [encode, List.mem_cons, List.not_mem_nil, or_false] at h
      rcases h with h | h | h | h
      · exact hchar _ (by omega) h
      · exact hchar _ (by omega) h
      · exact hchar _ (by omega) h
      · exact .inr h
  | case4 a b d rest ih =>
      have ha := a.toNat_lt
      have hb := b.toNat_lt
      have hd := d.toNat_lt
      simp only [encode, List.mem_cons] at h
      rcases h with h | h | h | h | h
      · exact hchar _ (by omega) h
      · exact hchar _ (by omega) h
      · exact hchar _ (by omega) h
      · exact hchar _ (by omega) h
      · exact ih h

end Base64
