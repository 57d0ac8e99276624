import Saps.Auth.Token

namespace Saps.Auth

-- The configuration has what signing and dating a token needs at a time.
structure Config.Readable (config : Config) (now : Int) : Prop where
  secretKey : ∃ key, config "SECRET_KEY".toList = .ok key
  tokenExpireMins : ∃ text mins, config "TOKEN_EXPIRE_MINS".toList = .ok text ∧
    parseInt 64 text = .ok mins ∧ InChrono (now + minutes mins)

-- The minutes, if there are any, lead to a time that there is.
def Config.Fits (config : Config) (now : Int) : Prop :=
  ∀ text mins, config "TOKEN_EXPIRE_MINS".toList = .ok text → parseInt 64 text = .ok mins →
    InChrono (now + minutes mins)

theorem Config.Readable.fits {config : Config} {now : Int} (readable : config.Readable now) :
    config.Fits now := by
  intro text mins htext hmins
  obtain ⟨text', mins', htext', hmins', hfits⟩ := readable.tokenExpireMins
  obtain rfl := Except.ok.inj (htext.symm.trans htext')
  obtain rfl := Except.ok.inj (hmins.symm.trans hmins')
  exact hfits

theorem Config.Readable.later {config : Config} {now later : Int}
    (readable : config.Readable now) (fits : config.Fits later) : config.Readable later := by
  obtain ⟨text, mins, htext, hmins, _⟩ := readable.tokenExpireMins
  exact ⟨readable.secretKey, text, mins, htext, hmins, fits text mins htext hmins⟩

-- A token is dated exactly where the configuration allows it.
theorem tokenExpiry_iff {config : Config} {now expiry : Int} :
    tokenExpiry config now = .ok expiry ↔
      ∃ text mins, config "TOKEN_EXPIRE_MINS".toList = .ok text ∧ parseInt 64 text = .ok mins ∧
        InChrono (now + minutes mins) ∧ expiry = now + minutes mins := by
  unfold tokenExpiry
  cases htext : config "TOKEN_EXPIRE_MINS".toList with
  | error e => simp [bind, Except.bind]
  | ok text =>
      cases hmins : parseInt 64 text with
      | error e => simp [bind, Except.bind, Except.mapError, hmins]
      | ok mins =>
          by_cases hfits : InChrono (now + minutes mins)
          · simp [bind, Except.bind, Except.mapError, addMinutes, hmins, hfits, eq_comm]
          · simp [bind, Except.bind, Except.mapError, addMinutes, hmins, hfits]

theorem Config.Readable.tokenExpiry_ok {config : Config} {now : Int}
    (readable : config.Readable now) : ∃ expiry, tokenExpiry config now = .ok expiry := by
  obtain ⟨text, mins, htext, hmins, hfits⟩ := readable.tokenExpireMins
  exact ⟨now + minutes mins, tokenExpiry_iff.mpr ⟨text, mins, htext, hmins, hfits, rfl⟩⟩

theorem tokenExpiry_cases {config : Config} {now expiry : Int}
    (h : tokenExpiry config now = .ok expiry) :
    ∃ text mins, config "TOKEN_EXPIRE_MINS".toList = .ok text ∧ parseInt 64 text = .ok mins ∧
      InChrono (now + minutes mins) := by
  obtain ⟨text, mins, htext, hmins, hfits, _⟩ := tokenExpiry_iff.mp h
  exact ⟨text, mins, htext, hmins, hfits⟩

variable {Role Uuid : Type}

theorem loginSession_eq (id : Uuid) (role : Role) (now : Int) (metadata : Option Jsonb) :
    loginSession id role now metadata = ⟨id, role, now, now, metadata⟩ := by
  cases metadata <;> rfl

theorem fromRequestParts_ok {checkUserRole : Role → Except SapsError Unit}
    {answer : Except SapsError (RawAuthExtraction Role Uuid)}
    {token : HeaderToken Role Uuid}
    (h : HeaderToken.fromRequestParts checkUserRole answer = .ok token) :
    ∃ raw, answer = .ok raw ∧ token.uniqueId = raw.uniqueId ∧
      token.authSession = some raw.session := by
  cases answer with
  | error e => simp [HeaderToken.fromRequestParts, bind, Except.bind] at h
  | ok raw =>
      cases hcheck : checkUserRole raw.session.role with
      | error e => simp [HeaderToken.fromRequestParts, bind, Except.bind, hcheck] at h
      | ok _ =>
          simp only [HeaderToken.fromRequestParts, bind, Except.bind, hcheck, pure, Except.pure,
            Except.ok.injEq] at h
          exact ⟨raw, rfl, by rw [← h], by rw [← h]⟩

theorem createAuthSession_ok [DecidableEq Uuid] [UserRole Role] {session created : AuthSession Role Uuid}
    {table left : AuthSessions Uuid}
    (h : Dal.createAuthSession session table = (.ok created, left)) :
    left = createAuthSession session.id (UserRole.toStr session.role) session.dateCreated
        session.lastInteracted session.metadata table ∧
      ∃ role : Role, UserRole.tryFrom (UserRole.toStr session.role) = Except.ok role := by
  unfold Dal.createAuthSession at h
  dsimp only at h
  split at h
  · cases h
  · split at h
    · cases h
    · obtain ⟨hsession, rfl⟩ := Prod.mk.inj h
      refine ⟨rfl, ?_⟩
      cases hrole : (UserRole.tryFrom (UserRole.toStr session.role) : Except SapsError Role) with
      | ok role => exact ⟨role, rfl⟩
      | error e =>
          simp [Dal.sessionOf, AuthSession.fromRow, hrole, bind, Except.bind,
            Except.mapError] at hsession

theorem createAuthSession_table [DecidableEq Uuid] [UserRole Role]
    (session : AuthSession Role Uuid) (table : AuthSessions Uuid) :
    (Dal.createAuthSession session table).2 = table ∨
      (Dal.createAuthSession session table).2 =
        createAuthSession session.id (UserRole.toStr session.role) session.dateCreated
          session.lastInteracted session.metadata table := by
  unfold Dal.createAuthSession
  dsimp only
  split
  · exact .inl rfl
  · split
    · exact .inl rfl
    · exact .inr rfl

theorem sessionOfOption_ok [UserRole Role] {row : Option (Row Uuid)}
    {session : AuthSession Role Uuid} (h : Dal.sessionOfOption row = .ok (some session)) :
    ∃ found, row = some found ∧ session.id = found.id ∧
      ∃ role : Role, UserRole.tryFrom found.role = Except.ok role := by
  cases row with
  | none => simp [Dal.sessionOfOption] at h
  | some found =>
      cases hrole : (UserRole.tryFrom found.role : Except SapsError Role) with
      | error e =>
          simp [Dal.sessionOfOption, Dal.sessionOf, AuthSession.fromRow, hrole, bind, Except.bind,
            Except.mapError, Except.map] at h
      | ok role =>
          simp only [Dal.sessionOfOption, Dal.sessionOf, AuthSession.fromRow, hrole, bind,
            Except.bind, pure, Except.pure, Except.mapError, Except.map, Except.ok.injEq,
            Option.some.injEq] at h
          exact ⟨found, rfl, by rw [← h], role, hrole⟩

variable [UuidText Uuid]

theorem toStr_injective [LawfulUuidText Uuid] {left right : Uuid}
    (h : UuidText.toStr left = UuidText.toStr right) : left = right := by
  have hleft := LawfulUuidText.parse_toStr left
  rw [h, LawfulUuidText.parse_toStr right] at hleft
  exact (Except.ok.inj hleft).symm

theorem Config.Readable.new_ok {config : Config} {now : Int} (readable : config.Readable now)
    (Role : Type) (fresh : Uuid) :
    ∃ expiry, (HeaderToken.new config now fresh : Except SapsError (HeaderToken Role Uuid)) =
      .ok ⟨UuidText.toStr fresh, expiry, none, none⟩ := by
  obtain ⟨expiry, hexpiry⟩ := readable.tokenExpiry_ok
  exact ⟨expiry, by rw [HeaderToken.new, hexpiry]; rfl⟩

theorem new_cases {config : Config} {now : Int} {fresh : Uuid} {token : HeaderToken Role Uuid}
    (h : HeaderToken.new config now fresh = .ok token) :
    ∃ expiry, tokenExpiry config now = .ok expiry ∧
      token = ⟨UuidText.toStr fresh, expiry, none, none⟩ := by
  unfold HeaderToken.new at h
  cases hexpiry : tokenExpiry config now with
  | error e =>
      rw [hexpiry] at h
      cases h
  | ok expiry =>
      rw [hexpiry] at h
      exact ⟨expiry, rfl, (Except.ok.inj h).symm⟩

theorem lookupSession_ok [UserRole Role] [DecidableEq Uuid] {now : Int} {claims : JwtClaims}
    {table : AuthSessions Uuid} {raw : RawAuthExtraction Role Uuid}
    (h : lookupSession now claims table = .ok raw) : raw.uniqueId = claims.uniqueId := by
  unfold lookupSession at h
  split at h
  · cases h
  · split at h
    · cases h
    · cases h
    · rw [← Except.ok.inj h]

variable [Jsonwebtoken]

-- The token decodes to claims about the session id.
def Names (config : Config) (token : Str) (id : Uuid) : Prop :=
  ∃ claims, JwtClaims.decode config token = .ok claims ∧ claims.uniqueId = UuidText.toStr id

-- Signing loses nothing.
theorem encode_key {config : Config} {claims : JwtClaims} {token : Str}
    (h : claims.encode config = .ok token) : ∃ key, config "SECRET_KEY".toList = .ok key := by
  unfold JwtClaims.encode at h
  cases hkey : config "SECRET_KEY".toList with
  | error e =>
      rw [hkey] at h
      cases h
  | ok key => exact ⟨key, rfl⟩

omit [Jsonwebtoken] in
-- Text that is read back is text that can be sent.
theorem headerValue_visible {token : Str} (h : token.all isVisibleAscii = true) :
    AuthTokenCookie.headerValue (AuthTokenCookie.yieldCookieString token) =
      .ok (AuthTokenCookie.yieldCookieString token) := by
  have htext : token.all isHeaderText = true := by
    refine List.all_eq_true.mpr fun c hc => ?_
    have hvisible := List.all_eq_true.mp h c hc
    simp only [isVisibleAscii, isHeaderText, decide_eq_true_eq] at hvisible ⊢
    exact hvisible.imp_left fun h => ⟨h.1, by omega⟩
  exact if_pos htext

theorem encode_visible [LawfulJsonwebtoken] {config : Config} {claims : JwtClaims} {token : Str}
    (h : claims.encode config = .ok token) :
    JwtClaims.decode config token = .ok claims ∧ token.all isVisibleAscii = true := by
  obtain ⟨key, hkey⟩ := encode_key h
  unfold JwtClaims.encode at h
  unfold JwtClaims.decode
  rw [hkey] at h ⊢
  change (Jsonwebtoken.encode key claims).mapError SapsError.unauthorized = .ok token at h
  change (Jsonwebtoken.decode key token).mapError SapsError.unauthorized = .ok claims ∧ _
  cases hencode : Jsonwebtoken.encode key claims with
  | error e =>
      rw [hencode] at h
      cases h
  | ok encoded =>
      rw [hencode] at h
      obtain rfl := Except.ok.inj h
      obtain ⟨hdecode, hvisible⟩ := LawfulJsonwebtoken.decode_encode key claims encoded hencode
      exact ⟨by rw [hdecode]; rfl, hvisible⟩

theorem encode_decodes [LawfulJsonwebtoken] {config : Config} {claims : JwtClaims} {token : Str}
    (h : claims.encode config = .ok token) :
    JwtClaims.decode config token = .ok claims ∧
      AuthTokenCookie.headerValue (AuthTokenCookie.yieldCookieString token) =
        .ok (AuthTokenCookie.yieldCookieString token) := by
  obtain ⟨hdecode, hvisible⟩ := encode_visible h
  exact ⟨hdecode, headerValue_visible hvisible⟩

theorem Config.Readable.encode_ok [LawfulJsonwebtoken] {config : Config} {now : Int}
    (readable : config.Readable now) (claims : JwtClaims) :
    ∃ token, claims.encode config = .ok token ∧ JwtClaims.decode config token = .ok claims ∧
      AuthTokenCookie.headerValue (AuthTokenCookie.yieldCookieString token) =
        .ok (AuthTokenCookie.yieldCookieString token) := by
  obtain ⟨key, hkey⟩ := readable.secretKey
  obtain ⟨token, htoken⟩ := LawfulJsonwebtoken.encode_ok key claims
  have hencode : claims.encode config = .ok token := by
    unfold JwtClaims.encode
    rw [hkey]
    exact congrArg (Except.mapError _) htoken
  exact ⟨token, hencode, encode_decodes hencode⟩

theorem Names.unique [LawfulUuidText Uuid] {config : Config} {token : Str} {left right : Uuid}
    (hleft : Names config token left) (hright : Names config token right) : left = right := by
  obtain ⟨claims, hdecode, hid⟩ := hleft
  obtain ⟨claims', hdecode', hid'⟩ := hright
  obtain rfl := Except.ok.inj (hdecode.symm.trans hdecode')
  exact toStr_injective (hid.symm.trans hid')

theorem refreshToken_same (config : Config) (now : Int) {claims : JwtClaims}
    {session : AuthSession Role Uuid} (h : UuidText.toStr session.id = claims.uniqueId) :
    refreshToken config now claims session =
      .ok (⟨session, claims.uniqueId, claims.timeExpire, none⟩, none) := by
  simp [refreshToken, h]

-- An id the token does not name comes with a cookie that does.
theorem refreshToken_new [LawfulJsonwebtoken] {config : Config} {now : Int}
    (readable : config.Readable now) {claims : JwtClaims} {session : AuthSession Role Uuid}
    (h : UuidText.toStr session.id ≠ claims.uniqueId) :
    ∃ raw token, refreshToken config now claims session =
        .ok (raw, some (AuthTokenCookie.yieldCookieString token)) ∧ raw.session = session ∧
      raw.uniqueId = UuidText.toStr session.id ∧ Names config token session.id ∧
      AuthTokenCookie.headerValue (AuthTokenCookie.yieldCookieString token) =
        .ok (AuthTokenCookie.yieldCookieString token) := by
  obtain ⟨expiry, hexpiry⟩ := readable.tokenExpiry_ok
  obtain ⟨token, hencode, hdecode, hheader⟩ :=
    readable.encode_ok ⟨UuidText.toStr session.id, expiry⟩
  refine ⟨⟨session, UuidText.toStr session.id, expiry, some claims.uniqueId⟩, token, ?_, rfl, rfl,
    ⟨_, hdecode, rfl⟩, hheader⟩
  simp [refreshToken, h, hexpiry, hencode, bind, Except.bind, pure, Except.pure]

@[simp] theorem afterPing_table (config : Config) (now : Int) (claims : JwtClaims)
    (pinged : Except SqlxError (Option (AuthSession Role Uuid))) (table : AuthSessions Uuid) :
    (afterPing config now claims pinged table).table = table := by
  unfold afterPing
  split
  · rfl
  · rfl
  · split <;> rfl

-- All that a refresh can come to.
theorem refreshToken_cases {config : Config} {now : Int} {claims : JwtClaims}
    {session : AuthSession Role Uuid} {raw : RawAuthExtraction Role Uuid} {slot : Option SetCookie}
    (h : refreshToken config now claims session = .ok (raw, slot)) :
    (UuidText.toStr session.id = claims.uniqueId ∧
      raw = ⟨session, claims.uniqueId, claims.timeExpire, none⟩ ∧ slot = none) ∨
    ∃ expiry token, (⟨UuidText.toStr session.id, expiry⟩ : JwtClaims).encode config = .ok token ∧
      raw = ⟨session, UuidText.toStr session.id, expiry, some claims.uniqueId⟩ ∧
      slot = some (AuthTokenCookie.yieldCookieString token) := by
  by_cases hsame : UuidText.toStr session.id = claims.uniqueId
  · rw [refreshToken_same config now hsame] at h
    obtain ⟨rfl, rfl⟩ := Prod.mk.inj (Except.ok.inj h)
    exact .inl ⟨hsame, rfl, rfl⟩
  · cases hexpiry : tokenExpiry config now with
    | error e => simp [refreshToken, hsame, hexpiry, bind, Except.bind] at h
    | ok expiry =>
        cases hencode : (⟨UuidText.toStr session.id, expiry⟩ : JwtClaims).encode config with
        | error e => simp [refreshToken, hsame, hexpiry, hencode, bind, Except.bind] at h
        | ok token =>
            simp only [refreshToken, ne_eq, hsame, not_false_eq_true, ite_true, hexpiry, hencode,
              bind, Except.bind, pure, Except.pure, Except.ok.injEq, Prod.mk.injEq] at h
            obtain ⟨rfl, rfl⟩ := h
            exact .inr ⟨expiry, token, hencode, rfl, rfl⟩

theorem refreshToken_ok {config : Config} {now : Int} {claims : JwtClaims}
    {session : AuthSession Role Uuid} {raw : RawAuthExtraction Role Uuid} {slot : Option SetCookie}
    (h : refreshToken config now claims session = .ok (raw, slot)) :
    raw.session = session ∧ raw.uniqueId = UuidText.toStr session.id := by
  rcases refreshToken_cases h with ⟨hsame, rfl, _⟩ | ⟨expiry, token, _, rfl, _⟩
  · exact ⟨rfl, hsame.symm⟩
  · exact ⟨rfl, rfl⟩

variable [DecidableEq Uuid]

theorem runAuthExtraction_parsed (Role : Type) [UserRole Role] {config : Config} {token : Str}
    {claims : JwtClaims} (hdecode : JwtClaims.decode config token = .ok claims) {id : Uuid}
    (hparse : UuidText.parse claims.uniqueId = Except.ok id) (now : Int) (fresh : Uuid)
    (table : AuthSessions Uuid) :
    (runAuthExtraction config .auto now fresh token table : Extraction Role Uuid) =
      afterPing config now claims (Dal.sessionOfOption (ping now fresh 10 id table).1)
        (ping now fresh 10 id table).2 := by
  have hid : Dal.parseId claims.uniqueId = .ok id := by
    rw [Dal.parseId, hparse]
    rfl
  simp only [runAuthExtraction, hdecode, Dal.pingAuthSession, hid]

-- A token without an id fails before the database is asked.
theorem runAuthExtraction_unparsed (Role : Type) [UserRole Role] {config : Config} {token : Str}
    {now : Int} {fresh : Uuid} {table : AuthSessions Uuid}
    (h : ∀ claims, JwtClaims.decode config token = .ok claims →
      ∀ id : Uuid, UuidText.parse claims.uniqueId ≠ Except.ok id) :
    ∃ e, (runAuthExtraction config .auto now fresh token table : Extraction Role Uuid) =
      ⟨.error e, none, table⟩ := by
  cases hdecode : JwtClaims.decode config token with
  | error e => exact ⟨e, by simp only [runAuthExtraction, hdecode]⟩
  | ok claims =>
      cases hparse : (UuidText.parse claims.uniqueId : Except Str Uuid) with
      | ok id => exact absurd hparse (h claims hdecode id)
      | error e =>
          have hid : (Dal.parseId claims.uniqueId : Except SqlxError Uuid) =
              .error (.protocol ("invalid session_id UUID: ".toList ++ e)) := by
            rw [Dal.parseId, hparse]
            rfl
          exact ⟨.fromSqlx (.protocol ("invalid session_id UUID: ".toList ++ e)),
            by simp only [runAuthExtraction, hdecode, Dal.pingAuthSession, hid, afterPing]⟩

-- An accepted request has been told the id that its row has now.
theorem runAuthExtraction_ok [UserRole Role] {config : Config} {token : Str} {now : Int}
    {fresh : Uuid} {table : AuthSessions Uuid} {raw : RawAuthExtraction Role Uuid}
    (h : (runAuthExtraction config .auto now fresh token table).answer = .ok raw) :
    ∃ id row, (∃ claims, JwtClaims.decode config token = .ok claims ∧
        UuidText.parse claims.uniqueId = Except.ok id) ∧
      (ping now fresh 10 id table).1 = some row ∧ raw.session.id = row.id ∧
      raw.uniqueId = UuidText.toStr row.id ∧
      ∃ role : Role, UserRole.tryFrom row.role = Except.ok role := by
  by_cases hparsed : ∃ claims, JwtClaims.decode config token = .ok claims ∧
      ∃ id : Uuid, UuidText.parse claims.uniqueId = Except.ok id
  · obtain ⟨claims, hdecode, id, hparse⟩ := hparsed
    rw [runAuthExtraction_parsed Role hdecode hparse] at h
    unfold afterPing at h
    cases hsession : (Dal.sessionOfOption (ping now fresh 10 id table).1 :
        Except SqlxError (Option (AuthSession Role Uuid))) with
    | error e => simp [hsession] at h
    | ok found =>
        cases found with
        | none => simp [hsession] at h
        | some session =>
            obtain ⟨row, hping, hid, hrole⟩ := sessionOfOption_ok hsession
            rw [hsession] at h
            dsimp only at h
            cases hrefresh : refreshToken config now claims session with
            | error e => simp [hrefresh] at h
            | ok refreshed =>
                obtain ⟨raw', slot⟩ := refreshed
                rw [hrefresh] at h
                obtain rfl : raw' = raw := Except.ok.inj h
                obtain ⟨hraw, hunique⟩ := refreshToken_ok hrefresh
                exact ⟨id, row, ⟨claims, hdecode, hparse⟩, hping, by rw [hraw, hid],
                  by rw [hunique, hid], hrole⟩
  · obtain ⟨e, hfail⟩ := runAuthExtraction_unparsed Role
      fun claims hdecode id hparse => hparsed ⟨claims, hdecode, id, hparse⟩
    rw [hfail] at h
    simp at h

-- A slot is filled with a cookie for the row that the ping answered.
theorem runAuthExtraction_slot [UserRole Role] [LawfulJsonwebtoken] {config : Config}
    {token : Str} {now : Int} {fresh : Uuid} {table : AuthSessions Uuid} {cookie : SetCookie}
    (h : (runAuthExtraction config .auto now fresh token table : Extraction Role Uuid).slot =
      some cookie) :
    ∃ id row newToken, (∃ claims, JwtClaims.decode config token = .ok claims ∧
        UuidText.parse claims.uniqueId = Except.ok id) ∧
      (ping now fresh 10 id table).1 = some row ∧ Names config newToken row.id ∧
      cookie = AuthTokenCookie.yieldCookieString newToken ∧
      AuthTokenCookie.headerValue cookie = .ok cookie := by
  by_cases hparsed : ∃ claims, JwtClaims.decode config token = .ok claims ∧
      ∃ id : Uuid, UuidText.parse claims.uniqueId = Except.ok id
  · obtain ⟨claims, hdecode, id, hparse⟩ := hparsed
    rw [runAuthExtraction_parsed Role hdecode hparse] at h
    unfold afterPing at h
    cases hsession : (Dal.sessionOfOption (ping now fresh 10 id table).1 :
        Except SqlxError (Option (AuthSession Role Uuid))) with
    | error e => simp [hsession] at h
    | ok found =>
        cases found with
        | none => simp [hsession] at h
        | some session =>
            obtain ⟨row, hping, hid, _⟩ := sessionOfOption_ok hsession
            rw [hsession] at h
            dsimp only at h
            cases hrefresh : refreshToken config now claims session with
            | error e => simp [hrefresh] at h
            | ok refreshed =>
                obtain ⟨raw, slot⟩ := refreshed
                rw [hrefresh] at h
                obtain rfl : slot = some cookie := h
                rcases refreshToken_cases hrefresh with ⟨_, _, hnone⟩ | ⟨_, newToken, hencode, _, hsome⟩
                · cases hnone
                · obtain ⟨hdecode', hheader⟩ := encode_decodes hencode
                  obtain rfl := Option.some.inj hsome
                  exact ⟨id, row, newToken, ⟨claims, hdecode, hparse⟩, hping,
                    hid ▸ ⟨_, hdecode', rfl⟩, rfl, hheader⟩
  · obtain ⟨e, hfail⟩ := runAuthExtraction_unparsed Role
      fun claims hdecode id hparse => hparsed ⟨claims, hdecode, id, hparse⟩
    rw [hfail] at h
    cases h

variable [LawfulUuidText Uuid]

theorem runAuthExtraction_named (Role : Type) [UserRole Role] {config : Config} {token : Str}
    {id : Uuid} (hnames : Names config token id) (now : Int) (fresh : Uuid)
    (table : AuthSessions Uuid) :
    ∃ claims, JwtClaims.decode config token = .ok claims ∧
      claims.uniqueId = UuidText.toStr id ∧
      (runAuthExtraction config .auto now fresh token table : Extraction Role Uuid) =
        afterPing config now claims (Dal.sessionOfOption (ping now fresh 10 id table).1)
          (ping now fresh 10 id table).2 := by
  obtain ⟨claims, hdecode, hid⟩ := hnames
  have hparse : UuidText.parse claims.uniqueId = Except.ok id := by
    rw [hid, LawfulUuidText.parse_toStr]
  exact ⟨claims, hdecode, hid, runAuthExtraction_parsed Role hdecode hparse now fresh table⟩

-- An accepted ping is an accepted request, and its response carries a cookie
-- exactly when the row has another id than the token.
theorem runAuthExtraction_accepted [UserRole Role] [LawfulJsonwebtoken] {config : Config}
    {now : Int} (readable : config.Readable now) {token : Str} {id : Uuid}
    (hnames : Names config token id) {fresh : Uuid} {table : AuthSessions Uuid} {row : Row Uuid}
    (hping : (ping now fresh 10 id table).1 = some row) {role : Role}
    (hrole : UserRole.tryFrom row.role = Except.ok role) :
    ∃ raw slot, runAuthExtraction config .auto now fresh token table =
        (⟨.ok raw, slot, (ping now fresh 10 id table).2⟩ : Extraction Role Uuid) ∧
      raw.session.id = row.id ∧ raw.uniqueId = UuidText.toStr row.id ∧
      if row.id = id then slot = none
      else ∃ newToken, Names config newToken row.id ∧
        slot = some (AuthTokenCookie.yieldCookieString newToken) ∧
        AuthTokenCookie.headerValue (AuthTokenCookie.yieldCookieString newToken) =
          .ok (AuthTokenCookie.yieldCookieString newToken) := by
  obtain ⟨claims, _, hclaims, heq⟩ := runAuthExtraction_named Role hnames now fresh table
  let session : AuthSession Role Uuid :=
    ⟨row.id, role, row.dateCreated, row.lastInteracted, row.metadata⟩
  have hsession : Dal.sessionOfOption (some row) = .ok (some session) := by
    simp [Dal.sessionOfOption, Dal.sessionOf, AuthSession.fromRow, hrole, bind, Except.bind, pure,
      Except.pure, Except.mapError, Except.map, session]
  rw [heq, hping, hsession, afterPing]
  by_cases hid : row.id = id
  · have hsame : UuidText.toStr session.id = claims.uniqueId := by rw [hclaims, ← hid]
    rw [refreshToken_same config now hsame]
    exact ⟨_, _, rfl, rfl, hsame.symm, by rw [if_pos hid]⟩
  · have hnew : UuidText.toStr session.id ≠ claims.uniqueId := by
      rw [hclaims]
      exact fun h => hid (toStr_injective h)
    obtain ⟨raw, newToken, hrefresh, hraw, hunique, hnames', hheader⟩ :=
      refreshToken_new readable hnew
    rw [hrefresh]
    refine ⟨raw, _, rfl, by rw [hraw], hunique, ?_⟩
    rw [if_neg hid]
    exact ⟨newToken, hnames', rfl, hheader⟩

-- A login creates its row or leaves the table as it was.
theorem login_table [UserRole Role] (config : Config) (now : Int) (fresh : Uuid) (role : Role)
    (metadata : Option Jsonb) (table : AuthSessions Uuid) :
    (login config now fresh role metadata table).2 = table ∨
      (login config now fresh role metadata table).2 =
        createAuthSession fresh (UserRole.toStr role) now now metadata table := by
  unfold login
  cases hnew : (HeaderToken.new config now fresh : Except SapsError (HeaderToken Role Uuid)) with
  | error e => exact .inl rfl
  | ok token =>
      obtain ⟨expiry, _, rfl⟩ := new_cases hnew
      simp only [LawfulUuidText.parse_toStr, loginSession_eq]
      have htable := createAuthSession_table
        (⟨fresh, role, now, now, metadata⟩ : AuthSession Role Uuid) table
      cases hcreate : Dal.createAuthSession
          (⟨fresh, role, now, now, metadata⟩ : AuthSession Role Uuid) table with
      | mk created left =>
          rw [hcreate] at htable
          cases created with
          | error e => exact htable
          | ok session => exact htable

-- What an accepted login leaves: a row under the new id, and a cookie for it.
-- It has read the whole configuration.
theorem login_ok [UserRole Role] [LawfulJsonwebtoken] {config : Config} {now : Int} {fresh : Uuid}
    {role : Role} {metadata : Option Jsonb} {table : AuthSessions Uuid} {response : LoginResponse}
    (h : (login config now fresh role metadata table).1 = .ok response) :
    (login config now fresh role metadata table).2 =
      createAuthSession fresh (UserRole.toStr role) now now metadata table ∧
    config.Readable now ∧
    (∃ role' : Role, UserRole.tryFrom (UserRole.toStr role) = Except.ok role') ∧
    ∃ token, response.setCookie = AuthTokenCookie.yieldCookieString token ∧
      Names config token fresh := by
  unfold login at h ⊢
  cases hnew : (HeaderToken.new config now fresh : Except SapsError (HeaderToken Role Uuid)) with
  | error e =>
      rw [hnew] at h
      cases h
  | ok token =>
      rw [hnew] at h
      obtain ⟨expiry, hexpiry, rfl⟩ := new_cases hnew
      simp only [LawfulUuidText.parse_toStr, loginSession_eq] at h ⊢
      cases hcreate : Dal.createAuthSession
          (⟨fresh, role, now, now, metadata⟩ : AuthSession Role Uuid) table with
      | mk created left =>
          rw [hcreate] at h
          cases created with
          | error e => cases h
          | ok session =>
              obtain ⟨hleft, hrole⟩ := createAuthSession_ok hcreate
              cases hencode : (HeaderToken.encode config
                  (⟨UuidText.toStr fresh, expiry, none, none⟩ : HeaderToken Role Uuid)) with
              | error e => simp [hencode, bind, Except.bind] at h
              | ok encoded =>
                  obtain ⟨hdecode, hheader⟩ := encode_decodes hencode
                  simp only [hencode, hheader, bind, Except.bind, pure, Except.pure] at h
                  refine ⟨hleft, ⟨encode_key hencode, tokenExpiry_cases hexpiry⟩, hrole, encoded, ?_,
                    _, hdecode, rfl⟩
                  exact (congrArg LoginResponse.setCookie (Except.ok.inj h)).symm

-- With a readable configuration and a role that is read back, a new id is
-- all that a login needs.
theorem login_accepts [UserRole Role] [LawfulJsonwebtoken] {config : Config}
    {now : Int} (readable : config.Readable now) {fresh : Uuid} {role role' : Role}
    (hrole : UserRole.tryFrom (UserRole.toStr role) = Except.ok role')
    (hlength : (UserRole.toStr role).length ≤ 255) (metadata : Option Jsonb)
    {table : AuthSessions Uuid} (hfresh : fresh ∉ table.map Row.id) :
    ∃ response, (login config now fresh role metadata table).1 = .ok response := by
  obtain ⟨expiry, hnew⟩ := readable.new_ok Role fresh
  obtain ⟨token, hencode, _, hheader⟩ := readable.encode_ok ⟨UuidText.toStr fresh, expiry⟩
  have hencoded : (HeaderToken.encode config
      (⟨UuidText.toStr fresh, expiry, none, none⟩ : HeaderToken Role Uuid)) = .ok token := hencode
  have hcreate : Dal.createAuthSession (⟨fresh, role, now, now, metadata⟩ : AuthSession Role Uuid)
      table = (.ok ⟨fresh, role', now, now, metadata⟩,
        createAuthSession fresh (UserRole.toStr role) now now metadata table) := by
    simp [Dal.createAuthSession, hlength.not_gt, hfresh, Dal.sessionOf, AuthSession.fromRow, hrole,
      bind, Except.bind, pure, Except.pure, Except.mapError]
  refine ⟨⟨AuthTokenCookie.yieldCookieString token, token, UuidText.toStr fresh⟩, ?_⟩
  simp only [login, hnew, LawfulUuidText.parse_toStr, loginSession_eq, hcreate, hencoded, hheader,
    bind, Except.bind, pure, Except.pure]

end Saps.Auth
