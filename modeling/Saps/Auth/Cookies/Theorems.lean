import Mathlib
import Saps.Auth.Cookies

namespace Saps.Auth.Cookies

theorem trim_cookie (name value : Str) :
    trim (name ++ '=' :: value) =
      name.dropWhile isWhitespace ++ '=' :: value.rdropWhile isWhitespace :=
  Trim.trim_pivot (by decide) name value

-- The pair of a cookie, as far as it has one.
theorem cookiePair_text (crumb : Crumb) :
    cookiePair crumb.text = crumb.value.map fun value =>
      (crumb.name.dropWhile isWhitespace, value.rdropWhile isWhitespace) := by
  have hname := crumb.name_plain.1
  unfold cookiePair Crumb.text
  cases crumb.value with
  | none => exact Trim.splitOnce_missing fun h => hname (Trim.trim_subset _ _ h)
  | some value =>
      rw [trim_cookie]
      exact Trim.splitOnce_pivot (fun h => hname ((List.dropWhile_suffix _).subset h)) _

theorem crumb_plain (crumb : Crumb) : ';' ∉ crumb.text := by
  have hname := crumb.name_plain.2
  have hvalue := crumb.value_plain
  unfold Crumb.text
  cases hcases : crumb.value with
  | none => simpa using hname
  | some value => simp [hname, hvalue value hcases]

-- The parser finds the first auth cookie of a field.
theorem parse_field (field : List Crumb) :
    parseCookieValue (fieldText field) AUTH_TOKEN_COOKIE_KEY =
      (field.find? Crumb.isAuth).bind fun crumb => crumb.value.map trim := by
  have hpairs : parseCookieValue (fieldText field) AUTH_TOKEN_COOKIE_KEY =
      (((field.map Crumb.text).filterMap cookiePair).find? fun pair =>
        trim pair.1 = AUTH_TOKEN_COOKIE_KEY).map fun pair => trim pair.2 := by
    unfold parseCookieValue fieldText
    by_cases hnil : field = []
    · subst hnil
      decide +kernel
    · rw [List.splitOn_intercalate ';' (by simpa using fun crumb _ => crumb_plain crumb)
        (by simpa using hnil)]
  rw [hpairs]
  clear hpairs
  induction field with
  | nil => rfl
  | cons crumb field ih =>
      rw [List.map_cons]
      cases hvalue : crumb.value with
      | none =>
          have hauth : crumb.isAuth = false := by simp [Crumb.isAuth, hvalue]
          rw [List.filterMap_cons_none (by simp [cookiePair_text, hvalue]), ih,
            List.find?_cons_of_neg (by simp [hauth])]
      | some value =>
          have hpair : cookiePair crumb.text =
              some (crumb.name.dropWhile isWhitespace, value.rdropWhile isWhitespace) := by
            simp [cookiePair_text, hvalue]
          rw [List.filterMap_cons_some hpair]
          have hname : trim (crumb.name.dropWhile isWhitespace) = trim crumb.name :=
            Trim.trim_dropWhile _ _
          have htext : trim (value.rdropWhile isWhitespace) = trim value :=
            Trim.trim_rdropWhile _ _
          by_cases hauth : trim crumb.name = AUTH_TOKEN_COOKIE_KEY
          · rw [List.find?_cons_of_pos (by simpa [hname] using hauth),
              List.find?_cons_of_pos (by simp [Crumb.isAuth, hvalue, hauth])]
            simp [hvalue, htext]
          · rw [List.find?_cons_of_neg (by simpa [hname] using hauth), ih,
              List.find?_cons_of_neg (by simp [Crumb.isAuth, hauth])]

theorem tokenChar_range {c : Char} (h : isTokenChar c = true) :
    45 ≤ c.toNat ∧ c.toNat ≤ 122 ∧ c.toNat ≠ 59 := by
  have hcases : c.isAlphanum = true ∨ c = '_' ∨ c = '.' ∨ c = '-' := by
    simpa [isTokenChar] using h
  rcases hcases with h | rfl | rfl | rfl
  · simp only [Char.isAlphanum, Char.isAlpha, Char.isUpper, Char.isLower, Char.isDigit,
      Bool.or_eq_true, Bool.and_eq_true, decide_eq_true_eq, UInt32.le_iff_toNat_le] at h
    simp at h
    omega
  · decide
  · decide
  · decide

theorem tokenChar_solid {c : Char} (h : isTokenChar c = true) : isWhitespace c = false := by
  have hrange := tokenChar_range h
  simp [isWhitespace]
  omega

-- The client stores the token under the name of the auth cookie.
theorem stored_issued {token : Str} (h : ∀ c ∈ token, isTokenChar c = true) :
    stored (AuthTokenCookie.yieldCookieString token).text =
      some (AUTH_TOKEN_COOKIE_KEY, token) := by
  have htext : (AuthTokenCookie.yieldCookieString token).text =
      (AUTH_TOKEN_COOKIE_KEY ++ '=' :: token) ++
        ';' :: (" HttpOnly; Path=/; Max-Age=".toList ++ (toString 86400).toList) := by
    simp [SetCookie.text, AuthTokenCookie.yieldCookieString]
  have hname_plain : ∀ c ∈ AUTH_TOKEN_COOKIE_KEY ++ ['='], decide (c ≠ ';') = true :=
    List.all_eq_true.mp (by decide +kernel)
  have hplain : ∀ c ∈ AUTH_TOKEN_COOKIE_KEY ++ '=' :: token, decide (c ≠ ';') = true := by
    intro c hc
    have hcases : c ∈ AUTH_TOKEN_COOKIE_KEY ++ ['='] ∨ c ∈ token := by
      simp only [List.mem_append, List.mem_cons, List.not_mem_nil, or_false] at hc ⊢
      rcases hc with hkey | heq | htoken
      · exact .inl (.inl hkey)
      · exact .inl (.inr heq)
      · exact .inr htoken
    rcases hcases with hkey | htoken
    · exact hname_plain c hkey
    · have hrange := tokenChar_range (h c htoken)
      have hne : c ≠ ';' := by
        rintro rfl
        exact hrange.2.2 rfl
      simpa using hne
  have hkey : '=' ∉ AUTH_TOKEN_COOKIE_KEY := by decide +kernel
  have hname : trim AUTH_TOKEN_COOKIE_KEY = AUTH_TOKEN_COOKIE_KEY := by decide +kernel
  have hvalue : trim token = token := Trim.trim_plain fun c hc => tokenChar_solid (h c hc)
  rw [stored, htext, List.takeWhile_append_of_pos hplain, List.takeWhile_cons_of_neg (by simp),
    List.append_nil, Trim.splitOnce_pivot hkey, Option.map_some, hname, hvalue]

-- What is extracted from a readable request is the value of the first auth cookie in
-- the first field.
theorem extract_readable {first : List Crumb} {rest : List (List Crumb)}
    (h : (fieldText first).all isVisibleAscii = true) :
    extractTokenFromCookies ((first :: rest).map fieldText) =
      .ok ((first.filter Crumb.isAuth).head?.bind fun crumb => crumb.value.map trim) := by
  simp [extractTokenFromCookies, headerStr, h, parse_field, List.head?_filter]

theorem extract_unreadable {first : List Crumb} {rest : List (List Crumb)}
    (h : ¬(fieldText first).all isVisibleAscii = true) :
    extractTokenFromCookies ((first :: rest).map fieldText) =
      .error (.unauthorized "Invalid cookie format".toList) := by
  simp only [extractTokenFromCookies, List.map_cons, List.head?_cons, headerStr, if_neg h]

-- The token comes back exactly when the first `Cookie` field is visible ASCII and holds
-- the auth cookie. Without an auth cookie, that it is visible ASCII is enough.
theorem extract_iff (token : Str) (htoken : ∀ c ∈ token, isTokenChar c = true)
    (fields : List (List Crumb)) :
    (Carries token fields →
      (extractTokenFromCookies (fields.map fieldText) = .ok (some token) ↔
        Readable fields ∧ AuthFirst fields)) ∧
    (Lacks fields →
      (extractTokenFromCookies (fields.map fieldText) = .ok none ↔ Readable fields)) := by
  cases fields with
  | nil =>
      refine ⟨fun h => ?_, fun _ => ?_⟩
      · obtain ⟨auth, _, hfilter⟩ := h
        cases hfilter
      · simp [Readable, extractTokenFromCookies]
  | cons first rest =>
      have hreadable : Readable (first :: rest) ↔ (fieldText first).all isVisibleAscii = true := by
        simp [Readable]
      have hauth : AuthFirst (first :: rest) ↔ first.filter Crumb.isAuth ≠ [] := by
        simp [AuthFirst]
      rw [hreadable, hauth]
      by_cases hascii : (fieldText first).all isVisibleAscii = true
      · rw [extract_readable hascii]
        simp only [hascii, true_and, iff_true]
        unfold Carries Lacks
        rw [List.flatten_cons, List.filter_append]
        constructor
        · rintro ⟨auth, ⟨value, hvalue, hreturns⟩, hfilter⟩
          rw [stored_issued htoken, Option.some.injEq, Prod.mk.injEq] at hreturns
          rcases List.append_eq_singleton_iff.mp hfilter with ⟨hfirst, _⟩ | ⟨hfirst, _⟩
          · simp [hfirst]
          · simp [hfirst, hvalue, ← hreturns.2]
        · intro hfilter
          simp [(List.append_eq_nil_iff.mp hfilter).1]
      · rw [extract_unreadable hascii]
        simp [hascii]

def theme : Crumb where
  name := " theme".toList
  value := some "a=b ".toList
  name_plain := by decide +kernel
  value_plain := by
    rintro text ⟨⟩
    decide +kernel

def issued : Crumb where
  name := "saps-token".toList
  value := some "a.b-c".toList
  name_plain := by decide +kernel
  value_plain := by
    rintro text ⟨⟩
    decide +kernel

theorem issued_chars : ∀ c ∈ "a.b-c".toList, isTokenChar c = true :=
  List.all_eq_true.mp (by decide +kernel)

theorem issued_returns : issued.Returns "a.b-c".toList := by
  refine ⟨"a.b-c".toList, rfl, ?_⟩
  rw [stored_issued issued_chars]
  decide +kernel

theorem extract_iff_last :
    extractTokenFromCookies [" theme=a=b ;saps-token=a.b-c".toList] =
      .ok (some "a.b-c".toList) := by
  have hcarries : Carries "a.b-c".toList [[theme, issued]] := ⟨issued, issued_returns, by rfl⟩
  have hfirst : AuthFirst [[theme, issued]] := ⟨_, rfl, issued, by simp, by decide +kernel⟩
  have hreadable : Readable [[theme, issued]] := by
    rintro first ⟨⟩
    decide +kernel
  exact ((extract_iff _ issued_chars [[theme, issued]]).1 hcarries).mpr ⟨hreadable, hfirst⟩

-- Of two `Cookie` fields only the first is looked at.
theorem extract_second_field :
    Carries "a.b-c".toList [[theme], [issued]] ∧
      extractTokenFromCookies ([[theme], [issued]].map fieldText) = .ok none := by
  exact ⟨⟨issued, issued_returns, by rfl⟩, by decide +kernel⟩

end Saps.Auth.Cookies
