import Saps.Auth.Token.Theorems
import Mathlib.Logic.Equiv.List

namespace Saps.Auth

-- A lossless stand-in for `jsonwebtoken` and for `uuid`: a token spells a number.
namespace Unary

def claimsCode (key : Str) (claims : JwtClaims) : Nat :=
  Encodable.encode (key.map Char.toNat, claims.uniqueId.map Char.toNat, claims.timeExpire)

def readClaims (key : Str) (code : Nat) : Except Str JwtClaims :=
  match (Encodable.decode code : Option (List Nat × List Nat × Int)) with
  | some (key', uniqueId, timeExpire) =>
    if key' = key.map Char.toNat then .ok ⟨uniqueId.map Char.ofNat, timeExpire⟩
    else .error "InvalidSignature".toList
  | none => .error "InvalidToken".toList

instance jsonwebtoken : Jsonwebtoken :=
  ⟨fun key claims => .ok (List.replicate (claimsCode key claims) '1'),
    fun key token => readClaims key token.length⟩

theorem readClaims_claimsCode (key : Str) (claims : JwtClaims) :
    readClaims key (claimsCode key claims) = .ok claims := by
  have hmap : (claims.uniqueId.map Char.toNat).map Char.ofNat = claims.uniqueId := by
    rw [List.map_map]
    exact (List.map_congr_left fun c _ => Char.ofNat_toNat c).trans (List.map_id _)
  simp only [readClaims, claimsCode, Encodable.encodek, ite_true, hmap]

instance lawful : LawfulJsonwebtoken where
  encode_ok key claims := ⟨_, rfl⟩
  decode_encode key claims token h := by
    obtain rfl := Except.ok.inj h
    refine ⟨?_, ?_⟩
    · change readClaims key (List.replicate _ '1').length = _
      rw [List.length_replicate, readClaims_claimsCode]
    · exact List.all_eq_true.mpr fun c hc => by rw [List.eq_of_mem_replicate hc]; decide

instance uuidText : UuidText Nat :=
  ⟨fun id => List.replicate id '1', fun text => .ok text.length⟩

instance : LawfulUuidText Nat :=
  ⟨fun _ => congrArg Except.ok (List.length_replicate)⟩

-- A configuration with a key and twenty minutes.
def config : Config := fun name =>
  if name = "TOKEN_EXPIRE_MINS".toList then .ok ['2', '0'] else .ok ['k']

theorem readable {now : Int} (h : InChrono (now + minutes 20)) : config.Readable now :=
  ⟨⟨_, if_neg (by decide +kernel)⟩, ⟨['2', '0'], 20, if_pos rfl, by decide +kernel, h⟩⟩

theorem names (id : Nat) : ∃ token, Names config token id := by
  have hreadable : config.Readable 0 := readable (by decide)
  obtain ⟨token, _, hdecode, _⟩ := hreadable.encode_ok ⟨UuidText.toStr id, 0⟩
  exact ⟨token, _, hdecode, rfl⟩

end Unary

end Saps.Auth
