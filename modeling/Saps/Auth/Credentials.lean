import Saps.Auth.Headers
import Saps.Lib.Base64
import Saps.Lib.Utf8Bytes

-- The Basic credentials of a request.
namespace Saps.Auth

-- `general_purpose::STANDARD` of the `base64` crate.
class Base64Engine where
  decode : Str → Except Str (List UInt8)

def Base64Engine.standard : Base64.Alphabet where
  symbols := "ABCDEFGHIJKLMNOPQRSTUVWXYZabcdefghijklmnopqrstuvwxyz0123456789+/".toList
  length_eq := by decide +kernel
  nodup := by decide +kernel
  pad_free := by decide +kernel

-- Padding is needed, and no bit is lost.
class LawfulBase64Engine [Base64Engine] : Prop where
  decode_iff : ∀ text bytes, Base64Engine.decode text = Except.ok bytes ↔
    Base64.decode Base64Engine.standard text = some bytes

structure Credentials where
  email : Str
  password : Str
  deriving DecidableEq

namespace Credentials

-- `FromUtf8Error`.
def utf8ErrorText (bytes : List UInt8) : Str :=
  match Utf8.firstError 0 bytes.length bytes with
  | none => []
  | some ⟨validUpTo, none⟩ =>
    "incomplete utf-8 byte sequence from index ".toList ++ (toString validUpTo).toList
  | some ⟨validUpTo, some errorLen⟩ =>
    "invalid utf-8 sequence of ".toList ++ (toString errorLen).toList ++
      " bytes from index ".toList ++ (toString validUpTo).toList

def fromUtf8 (bytes : List UInt8) : Except Str Str :=
  match Utf8.decode bytes with
  | some text => .ok text
  | none => .error (utf8ErrorText bytes)

-- `splitn(2, ':')`.
def ofText (credentials : Str) : Except SapsError Credentials :=
  match Trim.splitOnce ':' credentials with
  | none => .error (.unauthorized "Invalid credentials".toList)
  | some (email, password) =>
    if email.isEmpty || password.isEmpty then
      .error (.unauthorized "Invalid credentials".toList)
    else .ok ⟨email, password⟩

end Credentials

open HeaderMap

def extractCredentials [Base64Engine] (headers : HeaderMap) : Except SapsError Credentials :=
  match headers.get AUTHORIZATION with
  | none => .error (.unauthorized "No credentials provided".toList)
  | some headerValue =>
    match headerStr headerValue with
    | none => .error (.unauthorized "Invalid credentials".toList)
    | some encoded =>
      if !"Basic ".toList.isPrefixOf encoded then
        .error (.unauthorized "Invalid credentials".toList)
      else do
        let decoded ← (Base64Engine.decode (encoded.drop 6)).mapError SapsError.unauthorized
        let credentials ← (Credentials.fromUtf8 decoded).mapError SapsError.unauthorized
        Credentials.ofText credentials

namespace Credentials

-- What a client sends.
def headerText (credentials : Credentials) : Str :=
  "Basic ".toList ++ Base64.encode Base64Engine.standard
    (Utf8.encode (credentials.email ++ ':' :: credentials.password))

structure Sendable (credentials : Credentials) : Prop where
  email_nonempty : credentials.email ≠ []
  email_plain : ':' ∉ credentials.email
  password_nonempty : credentials.password ≠ []

theorem ofText_iff {text : Str} {credentials : Credentials} : ofText text = .ok credentials ↔
    text = credentials.email ++ ':' :: credentials.password ∧ credentials.Sendable := by
  constructor
  · intro h
    unfold ofText at h
    cases hsplit : Trim.splitOnce ':' text with
    | none => simp [hsplit] at h
    | some parts =>
        obtain ⟨email, password⟩ := parts
        obtain ⟨rfl, hplain⟩ := Trim.splitOnce_some hsplit
        simp only [hsplit] at h
        split at h
        · cases h
        · next hnonempty =>
          simp only [Bool.or_eq_true, List.isEmpty_iff, not_or] at hnonempty
          rw [← Except.ok.inj h]
          exact ⟨rfl, hnonempty.1, hplain, hnonempty.2⟩
  · rintro ⟨rfl, hsendable⟩
    have hemail : credentials.email.isEmpty = false := by simpa using hsendable.email_nonempty
    have hpassword : credentials.password.isEmpty = false := by
      simpa using hsendable.password_nonempty
    simp [ofText, Trim.splitOnce_pivot hsendable.email_plain, hemail, hpassword]

theorem fromUtf8_iff {bytes : List UInt8} {text : Str} :
    fromUtf8 bytes = .ok text ↔ bytes = Utf8.encode text := by
  rw [← Utf8.decode_eq_some_iff]
  unfold fromUtf8
  cases Utf8.decode bytes <;> simp

theorem headerText_visible (credentials : Credentials) :
    credentials.headerText.all isVisibleAscii = true := by
  have hsymbols : ∀ c ∈ Base64Engine.standard.symbols, isVisibleAscii c = true :=
    List.all_eq_true.mp (by decide +kernel)
  have hscheme : ∀ c ∈ "Basic ".toList, isVisibleAscii c = true :=
    List.all_eq_true.mp (by decide +kernel)
  refine List.all_eq_true.mpr fun c hc => ?_
  rcases List.mem_append.mp hc with hfront | hpayload
  · exact hscheme c hfront
  · rcases Base64.mem_encode hpayload with hsymbol | rfl
    · exact hsymbols c hsymbol
    · decide

theorem scheme_length : "Basic ".toList.length = 6 := by
  decide +kernel

-- Credentials are taken from a header exactly when it is the one that a client writes
-- for them, and they are what the client wrote.
theorem extracted_iff [Base64Engine] [LawfulBase64Engine] (headers : HeaderMap)
    (credentials : Credentials) : extractCredentials headers = .ok credentials ↔
      headers.get AUTHORIZATION = some credentials.headerText ∧ credentials.Sendable := by
  constructor
  · intro h
    unfold extractCredentials at h
    cases hget : headers.get AUTHORIZATION with
    | none => simp [hget] at h
    | some headerValue =>
        cases hstr : headerStr headerValue with
        | none => simp [hget, hstr] at h
        | some encoded =>
            have hsame : encoded = headerValue := by
              unfold headerStr at hstr
              split at hstr
              · exact (Option.some.inj hstr).symm
              · cases hstr
            simp only [hget, hstr] at h
            split at h
            · cases h
            · next hscheme =>
              have hstart : "Basic ".toList <+: encoded := by simpa using hscheme
              obtain ⟨payload, rfl⟩ := hstart
              have hdrop : ("Basic ".toList ++ payload).drop 6 = payload :=
                List.drop_left' scheme_length
              rw [hdrop] at h
              cases hdecode : Base64Engine.decode payload with
              | error e => simp [hdecode, bind, Except.bind, Except.mapError] at h
              | ok bytes =>
                  cases hutf8 : fromUtf8 bytes with
                  | error e => simp [hdecode, hutf8, bind, Except.bind, Except.mapError] at h
                  | ok text =>
                      simp only [hdecode, hutf8, bind, Except.bind, Except.mapError] at h
                      obtain ⟨rfl, hsendable⟩ := ofText_iff.mp h
                      have hbytes := (LawfulBase64Engine.decode_iff payload bytes).mp hdecode
                      rw [Base64.decode_eq_some_iff, fromUtf8_iff.mp hutf8] at hbytes
                      refine ⟨?_, hsendable⟩
                      exact congrArg some (hsame.symm.trans (congrArg _ hbytes))
  · rintro ⟨hget, hsendable⟩
    have hstr : headerStr credentials.headerText = some credentials.headerText :=
      if_pos credentials.headerText_visible
    have hstart : "Basic ".toList.isPrefixOf credentials.headerText = true := by
      rw [List.isPrefixOf_iff_prefix]
      exact List.prefix_append _ _
    have hdrop : credentials.headerText.drop 6 = Base64.encode Base64Engine.standard
        (Utf8.encode (credentials.email ++ ':' :: credentials.password)) :=
      List.drop_left' scheme_length
    have hdecode := (LawfulBase64Engine.decode_iff (credentials.headerText.drop 6) _).mpr
      (Base64.decode_eq_some_iff.mpr hdrop)
    have htext := ofText_iff.mpr ⟨rfl, hsendable⟩
    simp only [extractCredentials, hget, hstr, hstart, hdecode, fromUtf8_iff.mpr rfl, htext, bind,
      Except.bind, Except.mapError]
    rfl

-- An engine that does what the documents say.
@[reducible] def written : Base64Engine where
  decode text := (Base64.decode Base64Engine.standard text).elim (.error "Invalid".toList) .ok

theorem written_lawful : @LawfulBase64Engine written := by
  refine @LawfulBase64Engine.mk written fun text bytes => ?_
  change (Base64.decode Base64Engine.standard text).elim (.error "Invalid".toList) .ok =
    Except.ok bytes ↔ _
  cases Base64.decode Base64Engine.standard text <;> simp

theorem extracted_iff_written :
    @extractCredentials written [(AUTHORIZATION, "Basic dGVzdDpwYTpzcw==".toList)] =
      .ok ⟨"test".toList, "pa:ss".toList⟩ := by
  have htext : headerText ⟨"test".toList, "pa:ss".toList⟩ = "Basic dGVzdDpwYTpzcw==".toList := by
    decide +kernel
  refine (@extracted_iff written written_lawful _ _).mpr ⟨?_, ?_⟩
  · rw [htext]
    rfl
  · exact ⟨by decide +kernel, by decide +kernel, by decide +kernel⟩

end Credentials

end Saps.Auth
