import Saps.Auth.Headers
import Saps.Auth.Cookies.Theorems

namespace Saps.Auth.Headers

open HeaderMap Words

-- A scheme is one word, and has no comma in it.
theorem isBearer_chars {scheme : Str} (h : IsBearer scheme) :
    ∀ c ∈ scheme, isWhitespace c = false ∧ c ≠ ',' := by
  have hlower : ∀ c ∈ "bearer".toList, (!isWhitespace c && c != ',') = true :=
    List.all_eq_true.mp (by decide +kernel)
  have hmap : scheme.map Char.toLower = "bearer".toList := by
    have hbearer : scheme.map Char.toLower = "bearer".toList.map Char.toLower := by
      simpa [IsBearer, eqIgnoreAsciiCase] using h
    rw [hbearer]
    decide +kernel
  intro c hc
  have hmem : c.toLower ∈ "bearer".toList := by
    rw [← hmap]
    exact List.mem_map_of_mem hc
  have hplain := hlower _ hmem
  by_cases hupper : 65 ≤ c.toNat ∧ c.toNat ≤ 90
  · refine ⟨?_, ?_⟩
    · simp [isWhitespace]
      omega
    · rintro rfl
      exact absurd hupper (by decide)
  · have hsame : c.toLower = c := by
      unfold Char.toLower
      split
      · next hrange =>
        exact absurd ⟨UInt32.le_iff_toNat_le.mp hrange.1, UInt32.le_iff_toNat_le.mp hrange.2⟩ hupper
      · rfl
    rw [hsame] at hplain
    simpa using hplain

theorem isBearer_word {scheme : Str} (h : IsBearer scheme) : IsWord isWhitespace scheme := by
  refine ⟨?_, fun c hc => (isBearer_chars h c hc).1⟩
  rintro rfl
  have hfalse : eqIgnoreAsciiCase [] "bearer".toList = false := by decide +kernel
  rw [IsBearer, hfalse] at h
  cases h

theorem splitWhitespace_iff {text token : Str} : Authorization text token ↔
    ∃ scheme others, splitWhitespace text = scheme :: token :: others ∧ IsBearer scheme := by
  constructor
  · rintro ⟨gap, scheme, between, _, rest, hgap, hscheme, hbetween, hapart, htoken, hrest⟩
    have hends : Ends isWhitespace (between ++ (token ++ rest)) := by
      intro c hc
      cases between with
      | nil => exact absurd rfl hapart
      | cons first between =>
          rw [← Option.some.inj hc]
          exact hbetween first List.mem_cons_self
    refine ⟨scheme, words isWhitespace rest, ?_, hscheme⟩
    rw [splitWhitespace, words_gap hgap, words_word (isBearer_word hscheme) hends,
      words_gap hbetween, words_word htoken hrest]
  · rintro ⟨scheme, others, hsplit, hscheme⟩
    obtain ⟨gap, tail, rfl, hgap, hword, hends, htail⟩ := words_eq_cons_iff.mp hsplit
    obtain ⟨between, rest, rfl, hbetween, htoken, hrest, _⟩ := words_eq_cons_iff.mp htail
    refine .intro gap scheme between token rest hgap hscheme hbetween ?_ htoken hrest
    -- else the two words were one
    rintro rfl
    cases token with
    | nil => exact htoken.nonempty rfl
    | cons first token =>
        have hblank : isWhitespace first = true := hends first rfl
        rw [htoken.solid first List.mem_cons_self] at hblank
        cases hblank

theorem protocolToken_iff {text token : Str} :
    protocolToken text = some token ↔ Protocol text token := by
  constructor
  · intro h
    unfold protocolToken at h
    cases hsplit : Trim.splitOnce ',' text with
    | none => simp [hsplit] at h
    | some parts =>
        obtain ⟨p1, p2⟩ := parts
        obtain ⟨rfl, _⟩ := Trim.splitOnce_some hsplit
        simp only [hsplit] at h
        split at h
        · next hscheme =>
          split at h
          · cases h
          · next hnonempty =>
            obtain rfl := Option.some.inj h
            obtain ⟨gap, between, hp1, hgap, hbetween⟩ := Trim.exists_trim isWhitespace p1
            obtain ⟨before, after, hp2, hbefore, hafter⟩ := Trim.exists_trim isWhitespace p2
            have hprotocol := Protocol.intro gap (trim p1) between before (trim p2) after hgap
              hscheme hbetween hbefore (by simpa using hnonempty) (Trim.trim_trim _ _) hafter
            have htext : gap ++ (trim p1 ++ (between ++ ',' :: (before ++ (trim p2 ++ after)))) =
                (gap ++ (trim p1 ++ between)) ++ ',' :: (before ++ (trim p2 ++ after)) := by simp
            have hp1' : gap ++ (trim p1 ++ between) = p1 := hp1.symm
            have hp2' : before ++ (trim p2 ++ after) = p2 := hp2.symm
            rw [htext, hp1', hp2'] at hprotocol
            exact hprotocol
        · cases h
  · rintro ⟨gap, scheme, between, before, _, after, hgap, hscheme, hbetween, hbefore, hnonempty,
      htoken, hafter⟩
    have hcomma : ',' ∉ gap ++ (scheme ++ between) := by
      have hgaps : ∀ gap : Str, IsGap isWhitespace gap → ',' ∉ gap := by
        intro gap hgap hmem
        exact absurd (hgap _ hmem) (by decide)
      simp only [List.mem_append, not_or]
      exact ⟨hgaps gap hgap, fun hmem => (isBearer_chars hscheme _ hmem).2 rfl,
        hgaps between hbetween⟩
    have hfront : trim (gap ++ (scheme ++ between)) = scheme := by
      rw [trim, Trim.trim_between hgap hbetween]
      exact Trim.trim_plain fun c hc => (isBearer_chars hscheme c hc).1
    have hback : trim (before ++ (token ++ after)) = token := by
      rw [trim, Trim.trim_between hbefore hafter]
      exact htoken
    have htext : gap ++ (scheme ++ (between ++ ',' :: (before ++ (token ++ after)))) =
        (gap ++ (scheme ++ between)) ++ ',' :: (before ++ (token ++ after)) := by simp
    rw [htext, protocolToken, Trim.splitOnce_pivot hcomma]
    simp only [hfront, hback]
    have hbearer : eqIgnoreAsciiCase scheme "bearer".toList = true := hscheme
    rw [if_pos hbearer, if_neg (by simpa using hnonempty)]

-- Every text is a list of cookies.
theorem exists_crumb {piece : Str} (h : ';' ∉ piece) : ∃ crumb : Cookies.Crumb, crumb.text = piece := by
  by_cases hmem : '=' ∈ piece
  · obtain ⟨name, value, rfl, hname⟩ := List.eq_append_cons_of_mem hmem
    simp only [List.mem_append, List.mem_cons, not_or] at h
    exact ⟨⟨name, some value, ⟨hname, h.1⟩, by simpa using h.2.2⟩, rfl⟩
  · exact ⟨⟨piece, none, ⟨hmem, h⟩, by simp⟩, rfl⟩

theorem exists_field (text : Str) :
    ∃ crumb field, Cookies.fieldText (crumb :: field) = text := by
  induction text with
  | nil =>
      obtain ⟨crumb, hcrumb⟩ := exists_crumb (List.not_mem_nil : ';' ∉ ([] : Str))
      exact ⟨crumb, [], by simp [Cookies.fieldText, hcrumb]⟩
  | cons c text ih =>
      obtain ⟨crumb, field, htext⟩ := ih
      by_cases hc : c = ';'
      · obtain ⟨empty, hempty⟩ := exists_crumb (List.not_mem_nil : ';' ∉ ([] : Str))
        refine ⟨empty, crumb :: field, ?_⟩
        rw [← htext, hc]
        simp [Cookies.fieldText, List.intercalate, hempty]
      · have hplain : ';' ∉ c :: crumb.text := by
          simpa [Ne.symm hc] using Cookies.crumb_plain crumb
        obtain ⟨longer, hlonger⟩ := exists_crumb hplain
        refine ⟨longer, field, ?_⟩
        rw [← htext]
        cases field with
        | nil => simp [Cookies.fieldText, hlonger]
        | cons other field => simp [Cookies.fieldText, hlonger]

theorem reads_iff {headers : HeaderMap} {name text : Str} : Reads headers name text ↔
    ∃ raw, headers.get name = some raw ∧ headerStr raw = some text := by
  constructor
  · rintro ⟨hget, hvisible⟩
    exact ⟨text, hget, if_pos hvisible⟩
  · rintro ⟨raw, hget, hstr⟩
    unfold headerStr at hstr
    split at hstr
    · next hvisible =>
      obtain rfl := Option.some.inj hstr
      exact ⟨hget, hvisible⟩
    · cases hstr

-- A field that can be read has the value of its first auth cookie.
theorem cookies_reads {headers : HeaderMap} {field : List Cookies.Crumb}
    (h : Reads headers COOKIE (Cookies.fieldText field)) :
    extractTokenFromCookies (headers.get COOKIE).toList =
      .ok ((field.find? Cookies.Crumb.isAuth).bind fun crumb => crumb.value.map trim) := by
  rw [h.1, ← Cookies.parse_field]
  simp [extractTokenFromCookies, headerStr, h.2]

theorem cookies_cases {headers : HeaderMap} {answer : Option Str}
    (h : extractTokenFromCookies (headers.get COOKIE).toList = .ok answer) :
    (Absent headers COOKIE ∧ answer = none) ∨
      ∃ field, Reads headers COOKIE (Cookies.fieldText field) := by
  cases hget : headers.get COOKIE with
  | none =>
      rw [hget] at h
      exact .inl ⟨hget, (Except.ok.inj h).symm⟩
  | some raw =>
      rw [hget] at h
      cases hstr : headerStr raw with
      | none => simp [extractTokenFromCookies, hstr] at h
      | some text =>
          obtain ⟨crumb, field, rfl⟩ := exists_field text
          exact .inr ⟨crumb :: field, reads_iff.mpr ⟨raw, hget, hstr⟩⟩

theorem cookies_token_iff {headers : HeaderMap} {token : Str} :
    extractTokenFromCookies (headers.get COOKIE).toList = .ok (some token) ↔
      ∃ front back, ∃ crumb : Cookies.Crumb, ∃ value,
        Reads headers COOKIE (Cookies.fieldText (front ++ crumb :: back)) ∧
          (∀ other ∈ front, other.isAuth = false) ∧ crumb.isAuth = true ∧
          crumb.value = some value ∧ token = trim value := by
  constructor
  · intro h
    rcases cookies_cases h with ⟨_, hnone⟩ | ⟨field, hreads⟩
    · cases hnone
    · rw [cookies_reads hreads] at h
      obtain ⟨crumb, hfind, hcrumb⟩ := Option.bind_eq_some_iff.mp (Except.ok.inj h)
      obtain ⟨value, hvalue, rfl⟩ := Option.map_eq_some_iff.mp hcrumb
      obtain ⟨hauth, front, back, rfl, hfront⟩ := List.find?_eq_some_iff_append.mp hfind
      exact ⟨front, back, crumb, value, hreads, by simpa using hfront, hauth, hvalue, rfl⟩
  · rintro ⟨front, back, crumb, value, hreads, hfirst, hauth, hvalue, rfl⟩
    have hfind : (front ++ crumb :: back).find? Cookies.Crumb.isAuth = some crumb :=
      List.find?_eq_some_iff_append.mpr ⟨hauth, front, back, rfl, by simpa using hfirst⟩
    rw [cookies_reads hreads, hfind, Option.bind_some, hvalue, Option.map_some]

theorem cookies_none_iff {headers : HeaderMap} :
    extractTokenFromCookies (headers.get COOKIE).toList = .ok none ↔ NoCookie headers := by
  constructor
  · intro h
    rcases cookies_cases h with ⟨habsent, _⟩ | ⟨field, hreads⟩
    · exact .inl habsent
    · refine .inr ⟨field, hreads, fun crumb hcrumb => ?_⟩
      rw [cookies_reads hreads] at h
      by_contra hauth
      cases hfind : field.find? Cookies.Crumb.isAuth with
      | none => exact List.find?_eq_none.mp hfind crumb hcrumb (by simpa using hauth)
      | some found =>
          -- an auth cookie has a value
          have hfound : found.isAuth = true := List.find?_some hfind
          rw [hfind, Option.bind_some] at h
          have hnone : found.value = none := by simpa using Except.ok.inj h
          simp [Cookies.Crumb.isAuth, hnone] at hfound
  · rintro (habsent | ⟨field, hreads, hplain⟩)
    · rw [habsent]
      rfl
    · have hfind : field.find? Cookies.Crumb.isAuth = none :=
        List.find?_eq_none.mpr fun crumb hcrumb => by simp [hplain crumb hcrumb]
      rw [cookies_reads hreads, hfind]
      rfl

theorem header_token_iff {headers : HeaderMap} {token : Str} :
    extractTokenFromHeader headers = .ok (some token) ↔ Reads headers TOKEN token := by
  rw [reads_iff]
  unfold extractTokenFromHeader
  cases headers.get TOKEN with
  | none => simp
  | some raw => cases hstr : headerStr raw <;> simp [hstr]

theorem header_none_iff {headers : HeaderMap} :
    extractTokenFromHeader headers = .ok none ↔ Absent headers TOKEN := by
  unfold extractTokenFromHeader Absent
  cases headers.get TOKEN with
  | none => simp
  | some raw => cases hstr : headerStr raw <;> simp [hstr]

theorem authorization_iff {headers : HeaderMap} {token : Str} :
    authorizationToken headers = .ok token ↔
      ∃ text, Reads headers AUTHORIZATION text ∧ Authorization text token := by
  constructor
  · intro h
    unfold authorizationToken at h
    cases hget : headers.get AUTHORIZATION with
    | none => simp [hget] at h
    | some raw =>
        cases hstr : headerStr raw with
        | none => simp [hget, hstr] at h
        | some text =>
            refine ⟨text, reads_iff.mpr ⟨raw, hget, hstr⟩, splitWhitespace_iff.mpr ?_⟩
            simp only [hget, hstr] at h
            split at h
            · cases h
            · next hboth =>
              simp only [Bool.or_eq_true, Bool.not_eq_true', not_or] at hboth
              obtain ⟨hscheme, htoken⟩ := hboth
              obtain rfl := Except.ok.inj h
              cases hsplit : splitWhitespace text with
              | nil => simp [hsplit] at htoken
              | cons scheme parts =>
                  cases parts with
                  | nil => simp [hsplit] at htoken
                  | cons token others =>
                      rw [hsplit] at hscheme
                      exact ⟨scheme, others, rfl, Bool.eq_true_of_not_eq_false hscheme⟩
  · rintro ⟨text, hreads, hauthorization⟩
    obtain ⟨raw, hget, hstr⟩ := reads_iff.mp hreads
    obtain ⟨scheme, others, hsplit, hscheme⟩ := splitWhitespace_iff.mp hauthorization
    obtain ⟨_, _, rfl, _, _, _, htail⟩ := words_eq_cons_iff.mp hsplit
    obtain ⟨_, _, _, _, htoken, _⟩ := words_eq_cons_iff.mp htail
    have hbearer : eqIgnoreAsciiCase scheme "bearer".toList = true := hscheme
    have hempty : token.isEmpty = false := by simpa using htoken.nonempty
    simp only [authorizationToken, hget, hstr, hsplit, List.head?_cons, Option.getD_some,
      List.tail_cons, hbearer, hempty]
    rfl

theorem no_protocol_iff {headers : HeaderMap} {text : Str}
    (h : Reads headers SEC_WEBSOCKET_PROTOCOL text) :
    NoProtocol headers ↔ protocolToken text = none := by
  constructor
  · rintro (habsent | ⟨other, hother, hnone⟩)
    · rw [Absent, h.1] at habsent
      cases habsent
    · obtain rfl := Option.some.inj (h.1.symm.trans hother.1)
      cases htoken : protocolToken text with
      | none => rfl
      | some token => exact absurd (protocolToken_iff.mp htoken) (hnone token)
  · intro hnone
    refine .inr ⟨text, h, fun token htoken => ?_⟩
    rw [← protocolToken_iff, hnone] at htoken
    cases htoken

theorem bearer_iff {headers : HeaderMap} {token : Str} : extractBearerToken headers = .ok token ↔
    (∃ text, Reads headers SEC_WEBSOCKET_PROTOCOL text ∧ Protocol text token) ∨
      (NoProtocol headers ∧ ∃ text, Reads headers AUTHORIZATION text ∧ Authorization text token) := by
  cases hget : headers.get SEC_WEBSOCKET_PROTOCOL with
  | none =>
      have hnone : ∀ text, ¬Reads headers SEC_WEBSOCKET_PROTOCOL text := by
        intro text hreads
        rw [hreads.1] at hget
        cases hget
      simp only [extractBearerToken, hget, authorization_iff]
      constructor
      · intro h
        exact .inr ⟨.inl hget, h⟩
      · rintro (⟨text, hreads, _⟩ | ⟨_, h⟩)
        · exact absurd hreads (hnone text)
        · exact h
  | some raw =>
      cases hstr : headerStr raw with
      | none =>
          have hnone : ∀ text, ¬Reads headers SEC_WEBSOCKET_PROTOCOL text := by
            intro text hreads
            obtain ⟨raw', hget', hstr'⟩ := reads_iff.mp hreads
            obtain rfl := Option.some.inj (hget.symm.trans hget')
            rw [hstr] at hstr'
            cases hstr'
          simp only [extractBearerToken, hget, hstr]
          constructor
          · intro h
            cases h
          · rintro (⟨text, hreads, _⟩ | ⟨habsent | ⟨text, hreads, _⟩, _⟩)
            · exact absurd hreads (hnone text)
            · rw [Absent, hget] at habsent
              cases habsent
            · exact absurd hreads (hnone text)
      | some text =>
          have hreads : Reads headers SEC_WEBSOCKET_PROTOCOL text :=
            reads_iff.mpr ⟨raw, hget, hstr⟩
          simp only [extractBearerToken, hget, hstr]
          cases htoken : protocolToken text with
          | none =>
              simp only [authorization_iff]
              constructor
              · intro h
                exact .inr ⟨(no_protocol_iff hreads).mpr htoken, h⟩
              · rintro (⟨other, hother, hprotocol⟩ | ⟨_, h⟩)
                · obtain rfl := Option.some.inj (hreads.1.symm.trans hother.1)
                  rw [← protocolToken_iff, htoken] at hprotocol
                  cases hprotocol
                · exact h
          | some found =>
              have hfound := protocolToken_iff.mp htoken
              constructor
              · intro h
                obtain rfl := Except.ok.inj h
                exact .inl ⟨text, hreads, hfound⟩
              · rintro (⟨other, hother, hprotocol⟩ | ⟨hno, _⟩)
                · obtain rfl := Option.some.inj (hreads.1.symm.trans hother.1)
                  rw [← protocolToken_iff, htoken] at hprotocol
                  exact congrArg Except.ok (Option.some.inj hprotocol)
                · rw [no_protocol_iff hreads, htoken] at hno
                  cases hno

-- The token that is found is the one of the first place that has any.
theorem token_located_iff (headers : HeaderMap) (token : Str) :
    locateToken headers = .ok token ↔ Located headers token := by
  constructor
  · intro h
    unfold locateToken at h
    cases hcookies : extractTokenFromCookies (headers.get COOKIE).toList with
    | error e => simp [hcookies] at h
    | ok cookie =>
        simp only [hcookies] at h
        cases cookie with
        | some found =>
            obtain rfl := Except.ok.inj h
            obtain ⟨front, back, crumb, value, hreads, hfirst, hauth, hvalue, rfl⟩ :=
              cookies_token_iff.mp hcookies
            exact .cookie front back crumb value hreads hfirst hauth hvalue
        | none =>
            have hcookie := cookies_none_iff.mp hcookies
            cases hheader : extractTokenFromHeader headers with
            | error e => simp [hheader] at h
            | ok header =>
                simp only [hheader] at h
                cases header with
                | some found =>
                    obtain rfl := Except.ok.inj h
                    exact .tokenHeader found hcookie (header_token_iff.mp hheader)
                | none =>
                    have habsent := header_none_iff.mp hheader
                    rcases bearer_iff.mp h with ⟨text, hreads, hprotocol⟩ |
                      ⟨hno, text, hreads, hauthorization⟩
                    · exact .protocol text token hcookie habsent hreads hprotocol
                    · exact .authorization text token hcookie habsent hno hreads hauthorization
  · intro h
    cases h with
    | cookie front back crumb value hreads hfirst hauth hvalue =>
        have hcookies := cookies_token_iff.mpr
          ⟨front, back, crumb, value, hreads, hfirst, hauth, hvalue, rfl⟩
        simp only [locateToken, hcookies]
    | tokenHeader _ hcookie hreads =>
        simp only [locateToken, cookies_none_iff.mpr hcookie, header_token_iff.mpr hreads]
    | protocol text _ hcookie htoken hreads hprotocol =>
        simp only [locateToken, cookies_none_iff.mpr hcookie, header_none_iff.mpr htoken]
        exact bearer_iff.mpr (.inl ⟨text, hreads, hprotocol⟩)
    | authorization text _ hcookie htoken hprotocol hreads hauthorization =>
        simp only [locateToken, cookies_none_iff.mpr hcookie, header_none_iff.mpr htoken]
        exact bearer_iff.mpr (.inr ⟨hprotocol, text, hreads, hauthorization⟩)

end Saps.Auth.Headers
