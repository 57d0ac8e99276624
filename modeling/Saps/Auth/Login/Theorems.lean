import Saps.Auth.Login
import Saps.Auth.Token.Unary

namespace Saps.Auth.Login

section

variable {Uuid : Type} [Jsonwebtoken]

theorem loginResponse_key {Role : Type} {config : Config} {token : HeaderToken Role Uuid}
    {response : LoginResponse} (h : loginResponse config token = .ok response) :
    ∃ key, config "SECRET_KEY".toList = .ok key := by
  unfold loginResponse at h
  cases hencode : token.encode config with
  | error e => simp [hencode, bind, Except.bind] at h
  | ok encoded => exact encode_key hencode

theorem loginResponse_ok [UuidText Uuid] [LawfulJsonwebtoken] (Role : Type) {config : Config}
    {now : Int} (readable : config.Readable now) (fresh : Uuid) (expiry : Int) :
    ∃ token, loginResponse config
        (⟨UuidText.toStr fresh, expiry, none, none⟩ : HeaderToken Role Uuid) =
          .ok ⟨AuthTokenCookie.yieldCookieString token, token, UuidText.toStr fresh⟩ ∧
      Names config token fresh := by
  obtain ⟨token, hencode, hdecode, hheader⟩ := readable.encode_ok ⟨UuidText.toStr fresh, expiry⟩
  have hencoded : (HeaderToken.encode config
      (⟨UuidText.toStr fresh, expiry, none, none⟩ : HeaderToken Role Uuid)) = .ok token := hencode
  refine ⟨token, ?_, _, hdecode, rfl⟩
  simp only [loginResponse, hencoded, hheader, bind, Except.bind, pure, Except.pure]

end

section

variable {Role Uuid : Type} [UserRole Role] [DecidableEq Uuid]

-- An insert that the server refuses leaves no row.
theorem createAuthSessionUnder_refused {fault : Option InsertFault} {fresh : Uuid} {role : Role}
    {table : AuthSessions Uuid}
    (h : 255 < (UserRole.toStr role).length ∨ fresh ∈ table.map Row.id ∨
      ∃ error, fault = some (.refused error)) (now : Int) (metadata : Option Jsonb) :
    ∃ error, Dal.createAuthSessionUnder fault
      (⟨fresh, role, now, now, metadata⟩ : AuthSession Role Uuid) table = (.error error, table) := by
  have hcreate : 255 < (UserRole.toStr role).length ∨ fresh ∈ table.map Row.id →
      ∃ error, Dal.createAuthSession (⟨fresh, role, now, now, metadata⟩ : AuthSession Role Uuid)
        table = (.error error, table) := by
    intro hrefused
    unfold Dal.createAuthSession
    dsimp only
    by_cases hlength : 255 < (UserRole.toStr role).length
    · exact ⟨_, if_pos hlength⟩
    · rw [if_neg hlength, if_pos (hrefused.resolve_left hlength)]
      exact ⟨_, rfl⟩
  cases fault with
  | none => exact hcreate (h.imp_right fun h => h.resolve_right (by simp))
  | some fault =>
      cases fault with
      | refused error => exact ⟨error, rfl⟩
      | unacknowledged error =>
          obtain ⟨_, hrefused⟩ := hcreate (h.imp_right fun h => h.resolve_right (by simp))
          exact ⟨error, congrArg (Prod.mk _) (congrArg Prod.snd hrefused)⟩

-- An insert that the server carries out leaves the row, whatever it answers.
theorem createAuthSessionUnder_sent {config : Config} {fault : Option InsertFault} {fresh : Uuid}
    {now : Int} {role : Role} {table : AuthSessions Uuid}
    (h : Inserts config fault now role fresh table) (metadata : Option Jsonb) :
    ∃ answer, Dal.createAuthSessionUnder fault
        (⟨fresh, role, now, now, metadata⟩ : AuthSession Role Uuid) table =
          (answer, loginRow fresh role now metadata :: table) ∧
      ((∃ session, answer = .ok session) ↔
        (∃ role' : Role, UserRole.tryFrom (UserRole.toStr role) = Except.ok role') ∧
          fault = none) := by
  have hcreate : Dal.createAuthSession (⟨fresh, role, now, now, metadata⟩ : AuthSession Role Uuid)
      table = (Dal.sessionOf (loginRow fresh role now metadata),
        loginRow fresh role now metadata :: table) := by
    unfold Dal.createAuthSession
    dsimp only
    rw [if_neg h.length.not_gt, if_neg h.fresh]
    rfl
  cases fault with
  | none =>
      refine ⟨_, hcreate, ?_⟩
      cases hrole : (UserRole.tryFrom (UserRole.toStr role) : Except SapsError Role) with
      | error e => simp [Dal.sessionOf, AuthSession.fromRow, loginRow, hrole, bind, Except.bind,
          Except.mapError]
      | ok role' => simp [Dal.sessionOf, AuthSession.fromRow, loginRow, hrole, bind, Except.bind,
          pure, Except.pure, Except.mapError]
  | some fault =>
      cases fault with
      | refused error => exact absurd rfl (h.sent error)
      | unacknowledged error =>
          refine ⟨.error error, congrArg (Prod.mk _) (congrArg Prod.snd hcreate), ?_⟩
          simp

variable [UuidText Uuid] [Jsonwebtoken]

theorem loginUnder_undated {config : Config} {now : Int}
    (h : ¬∃ expiry, tokenExpiry config now = .ok expiry) (fault : Option InsertFault)
    (fresh : Uuid) (role : Role) (metadata : Option Jsonb) (table : AuthSessions Uuid) :
    ∃ error, loginUnder fault config now fresh role metadata table = (.error error, table) := by
  unfold loginUnder
  cases hnew : (HeaderToken.new config now fresh : Except SapsError (HeaderToken Role Uuid)) with
  | error e => exact ⟨e, rfl⟩
  | ok token =>
      obtain ⟨expiry, hexpiry, _⟩ := new_cases hnew
      exact absurd ⟨expiry, hexpiry⟩ h

variable [LawfulUuidText Uuid]

theorem loginUnder_dated {config : Config} {now expiry : Int}
    (h : tokenExpiry config now = .ok expiry) (fault : Option InsertFault) (fresh : Uuid)
    (role : Role) (metadata : Option Jsonb) (table : AuthSessions Uuid) :
    loginUnder fault config now fresh role metadata table =
      loginAnswer config (⟨UuidText.toStr fresh, expiry, none, none⟩ : HeaderToken Role Uuid)
        (Dal.createAuthSessionUnder fault ⟨fresh, role, now, now, metadata⟩ table) := by
  have hnew : (HeaderToken.new config now fresh : Except SapsError (HeaderToken Role Uuid)) =
      .ok ⟨UuidText.toStr fresh, expiry, none, none⟩ := by
    rw [HeaderToken.new, h]
    rfl
  simp only [loginUnder, hnew, LawfulUuidText.parse_toStr, loginSession_eq]

-- Where no row is written, no answer is given either.
theorem loginUnder_refused {config : Config} {fault : Option InsertFault} {now : Int}
    {role : Role} {fresh : Uuid} {table : AuthSessions Uuid}
    (h : ¬Inserts config fault now role fresh table) (metadata : Option Jsonb) :
    ∃ error, loginUnder fault config now fresh role metadata table = (.error error, table) := by
  by_cases hdated : ∃ expiry, tokenExpiry config now = .ok expiry
  · obtain ⟨expiry, hexpiry⟩ := hdated
    have hrefused : 255 < (UserRole.toStr role).length ∨ fresh ∈ table.map Row.id ∨
        ∃ error, fault = some (.refused error) := by
      by_contra hsent
      simp only [not_or, not_exists, Nat.not_lt] at hsent
      exact h ⟨tokenExpiry_cases hexpiry, hsent.1, hsent.2.1, hsent.2.2⟩
    obtain ⟨error, hcreate⟩ := createAuthSessionUnder_refused hrefused now metadata
    rw [loginUnder_dated hexpiry, hcreate]
    exact ⟨_, rfl⟩
  · exact loginUnder_undated hdated fault fresh role metadata table

variable [LawfulJsonwebtoken]

-- Where the row is written, an answer depends on what comes after it.
theorem loginUnder_sent {config : Config} {fault : Option InsertFault} {now : Int} {role : Role}
    {fresh : Uuid} {table : AuthSessions Uuid} (h : Inserts config fault now role fresh table)
    (metadata : Option Jsonb) :
    (loginUnder fault config now fresh role metadata table).2 =
        loginRow fresh role now metadata :: table ∧
      ((∃ response, (loginUnder fault config now fresh role metadata table).1 = .ok response) ↔
        Answers config fault role) := by
  obtain ⟨text, mins, htext, hmins, hfits⟩ := h.dated
  obtain ⟨answer, hcreate, hanswer⟩ := createAuthSessionUnder_sent h metadata
  rw [loginUnder_dated (tokenExpiry_iff.mpr ⟨text, mins, htext, hmins, hfits, rfl⟩), hcreate]
  cases answer with
  | error e =>
      refine ⟨rfl, iff_of_false (by simp [loginAnswer]) fun answers => ?_⟩
      obtain ⟨session, hsession⟩ := hanswer.mpr ⟨answers.parses, answers.acknowledged⟩
      cases hsession
  | ok session =>
      obtain ⟨hparses, hfault⟩ := hanswer.mp ⟨session, rfl⟩
      refine ⟨rfl, ?_, fun answers => ?_⟩
      · rintro ⟨response, hresponse⟩
        exact ⟨loginResponse_key hresponse, hparses, hfault⟩
      · obtain ⟨token, hresponse, _⟩ :=
          loginResponse_ok Role ⟨answers.secretKey, h.dated⟩ fresh (now + minutes mins)
        exact ⟨_, hresponse⟩

-- A response is about the row that was written.
theorem loginUnder_named {config : Config} {fault : Option InsertFault} {now : Int} {role : Role}
    {fresh : Uuid} {table : AuthSessions Uuid} (h : Inserts config fault now role fresh table)
    (metadata : Option Jsonb) {response : LoginResponse}
    (hresponse : (loginUnder fault config now fresh role metadata table).1 = .ok response) :
    response.uniqueId = UuidText.toStr fresh ∧ Names config response.token fresh ∧
      Names config response.setCookie.token fresh := by
  have answers := (loginUnder_sent h metadata).2.mp ⟨response, hresponse⟩
  obtain ⟨text, mins, htext, hmins, hfits⟩ := h.dated
  obtain ⟨answer, hcreate, hanswer⟩ := createAuthSessionUnder_sent h metadata
  obtain ⟨session, rfl⟩ := hanswer.mpr ⟨answers.parses, answers.acknowledged⟩
  obtain ⟨token, htoken, hnames⟩ :=
    loginResponse_ok Role ⟨answers.secretKey, h.dated⟩ fresh (now + minutes mins)
  rw [loginUnder_dated (tokenExpiry_iff.mpr ⟨text, mins, htext, hmins, hfits, rfl⟩), hcreate] at hresponse
  obtain rfl := Except.ok.inj (htoken.symm.trans hresponse)
  exact ⟨rfl, hnames, hnames⟩

-- A login is all or nothing exactly when an insert that is carried out is always
-- followed by an answer.
theorem login_all_or_nothing_iff (config : Config) (fault : Option InsertFault) (now : Int)
    (fresh : Uuid) (role : Role) (metadata : Option Jsonb) (table : AuthSessions Uuid) :
    AllOrNothing config role metadata table
        (loginUnder fault config now fresh role metadata table) ↔
      (Inserts config fault now role fresh table → Answers config fault role) := by
  by_cases hsent : Inserts config fault now role fresh table
  · obtain ⟨htable, hanswers⟩ := loginUnder_sent hsent metadata
    have hnamed : ∀ response,
        (loginUnder fault config now fresh role metadata table).1 = .ok response →
          response.uniqueId = UuidText.toStr fresh ∧ Names config response.token fresh ∧
            Names config response.setCookie.token fresh :=
      fun _ => loginUnder_named hsent metadata
    generalize loginUnder fault config now fresh role metadata table = outcome at *
    obtain ⟨answer, left⟩ := outcome
    obtain rfl : left = loginRow fresh role now metadata :: table := htable
    cases answer with
    | error e =>
        refine iff_of_false (by simp [AllOrNothing]) fun h => ?_
        obtain ⟨response, hresponse⟩ := hanswers.mpr (h hsent)
        cases hresponse
    | ok response =>
        refine iff_of_true ?_ fun _ => hanswers.mp ⟨response, rfl⟩
        obtain ⟨hid, htoken, hcookie⟩ := hnamed response rfl
        exact ⟨_, rfl, hsent.fresh, hid, rfl, rfl, htoken, hcookie⟩
  · obtain ⟨error, hrefused⟩ := loginUnder_refused hsent metadata
    rw [hrefused]
    exact iff_of_true rfl fun h => absurd h hsent

end

-- An administrator logs in with a readable configuration.
theorem login_all_or_nothing_readable :
    AllOrNothing Unary.config DefaultRole.admin none ([] : AuthSessions Nat)
      (loginUnder none Unary.config 0 7 DefaultRole.admin none []) := by
  have hiff := login_all_or_nothing_iff Unary.config none 0 (7 : Nat) DefaultRole.admin none []
  have hparses : ∃ role' : DefaultRole,
      UserRole.tryFrom (UserRole.toStr DefaultRole.admin) = Except.ok role' :=
    ⟨.admin, DefaultRole.tryFrom_toStr .admin⟩
  have hanswers : Answers Unary.config none DefaultRole.admin :=
    ⟨(Unary.readable (by decide : InChrono (0 + minutes 20))).secretKey, hparses, rfl⟩
  rw [hiff]
  exact fun _ => hanswers

-- `TOKEN_EXPIRE_MINS` is set and `SECRET_KEY` is not.
def keyless : Config := fun name =>
  if name = "TOKEN_EXPIRE_MINS".toList then .ok ['2', '0']
  else .error (.unknown "SECRET_KEY not set".toList)

theorem keyless_secretKey : ¬∃ key, keyless "SECRET_KEY".toList = .ok key := by
  rintro ⟨key, hkey⟩
  have hmissing : keyless "SECRET_KEY".toList = .error (.unknown "SECRET_KEY not set".toList) :=
    if_neg (by decide +kernel)
  rw [hmissing] at hkey
  cases hkey

-- The session stays, and nobody has a token for it.
theorem login_leaves_session :
    (¬∃ response, (loginUnder none keyless 0 7 DefaultRole.admin none
        ([] : AuthSessions Nat)).1 = .ok response) ∧
      (loginUnder none keyless 0 7 DefaultRole.admin none ([] : AuthSessions Nat)).2 =
        [loginRow 7 DefaultRole.admin 0 none] ∧
      ¬AllOrNothing keyless DefaultRole.admin none ([] : AuthSessions Nat)
        (loginUnder none keyless 0 7 DefaultRole.admin none []) := by
  have hsent : Inserts keyless none 0 DefaultRole.admin 7 ([] : AuthSessions Nat) :=
    ⟨⟨['2', '0'], 20, if_pos rfl, by decide +kernel, by decide⟩, by decide +kernel, by simp, by simp⟩
  obtain ⟨htable, hanswers⟩ := loginUnder_sent hsent none
  have hnone : ¬∃ response, (loginUnder none keyless 0 7 DefaultRole.admin none
      ([] : AuthSessions Nat)).1 = .ok response :=
    fun h => keyless_secretKey (hanswers.mp h).secretKey
  refine ⟨hnone, htable, ?_⟩
  generalize loginUnder none keyless 0 7 DefaultRole.admin none ([] : AuthSessions Nat) =
    outcome at *
  obtain ⟨answer, left⟩ := outcome
  cases answer with
  | ok response => exact absurd ⟨response, rfl⟩ hnone
  | error e =>
      obtain rfl : left = _ := htable
      simp [AllOrNothing]

end Saps.Auth.Login
