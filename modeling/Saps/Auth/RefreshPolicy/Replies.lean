import Saps.Auth.RefreshPolicy

namespace Saps.Auth.RefreshPolicy

open Ping Transition World

section

variable {Role Uuid : Type}

-- The handler runs: the extraction went through and so did the check.
theorem fromRequestParts_iff {checkUserRole : Role → Except SapsError Unit}
    {answer : Except SapsError (RawAuthExtraction Role Uuid)} :
    (∃ token, HeaderToken.fromRequestParts checkUserRole answer = .ok token) ↔
      ∃ raw, answer = .ok raw ∧ checkUserRole raw.session.role = .ok () := by
  cases answer with
  | error e =>
      simp [HeaderToken.fromRequestParts, bind, Except.bind]
  | ok raw =>
      cases hcheck : checkUserRole raw.session.role with
      | error e => simp [HeaderToken.fromRequestParts, bind, Except.bind, hcheck]
      | ok _ => simp [HeaderToken.fromRequestParts, bind, Except.bind, hcheck, pure, Except.pure]

section

variable [UserRole Role]

theorem sessionOf_iff {row : Row Uuid} {session : AuthSession Role Uuid} :
    Dal.sessionOf row = .ok session ↔ ∃ role : Role, UserRole.tryFrom row.role = Except.ok role ∧
      session = ⟨row.id, role, row.dateCreated, row.lastInteracted, row.metadata⟩ := by
  cases hrole : (UserRole.tryFrom row.role : Except SapsError Role) with
  | error e =>
      simp [Dal.sessionOf, AuthSession.fromRow, hrole, bind, Except.bind, Except.mapError]
  | ok role =>
      simp [Dal.sessionOf, AuthSession.fromRow, hrole, bind, Except.bind, pure, Except.pure,
        Except.mapError, eq_comm]

theorem sessionOfOption_iff {row : Option (Row Uuid)} {session : AuthSession Role Uuid} :
    Dal.sessionOfOption row = .ok (some session) ↔
      ∃ found, row = some found ∧ Dal.sessionOf found = .ok session := by
  cases row with
  | none => simp [Dal.sessionOfOption]
  | some found =>
      cases hsession : (Dal.sessionOf found : Except SqlxError (AuthSession Role Uuid)) with
      | error e => simp [Dal.sessionOfOption, hsession, Except.map]
      | ok session' => simp [Dal.sessionOfOption, hsession, Except.map]

end

variable [UuidText Uuid] [Jsonwebtoken]

theorem Presents.unique {config : Config} {headers : HeaderMap} {claims claims' : JwtClaims}
    {id id' : Uuid} (h : Presents config headers claims id)
    (h' : Presents config headers claims' id') : claims = claims' ∧ id = id' := by
  obtain ⟨rawToken, hlocated, hdecode⟩ := h.located
  obtain ⟨rawToken', hlocated', hdecode'⟩ := h'.located
  obtain rfl := Except.ok.inj (hlocated.symm.trans hlocated')
  obtain rfl := Except.ok.inj (hdecode.symm.trans hdecode')
  exact ⟨rfl, Except.ok.inj (h.named.symm.trans h'.named)⟩

theorem Presents.key {config : Config} {headers : HeaderMap} {claims : JwtClaims} {id : Uuid}
    (h : Presents config headers claims id) : ∃ key, config "SECRET_KEY".toList = .ok key := by
  obtain ⟨rawToken, _, hdecode⟩ := h.located
  unfold JwtClaims.decode at hdecode
  cases hkey : config "SECRET_KEY".toList with
  | error e =>
      rw [hkey] at hdecode
      cases hdecode
  | ok key => exact ⟨key, rfl⟩

-- A new token needs the whole configuration, the old one nothing.
theorem refreshToken_iff [LawfulJsonwebtoken] {config : Config} {now : Int} {claims : JwtClaims}
    {session : AuthSession Role Uuid} (hkey : ∃ key, config "SECRET_KEY".toList = .ok key) :
    (∃ raw slot, refreshToken config now claims session = .ok (raw, slot)) ↔
      (UuidText.toStr session.id ≠ claims.uniqueId → config.Readable now) := by
  constructor
  · rintro ⟨raw, slot, h⟩ hne
    refine ⟨hkey, ?_⟩
    simp only [refreshToken, hne, ne_eq, not_false_eq_true, ite_true] at h
    cases hexpiry : tokenExpiry config now with
    | error e =>
        rw [hexpiry] at h
        cases h
    | ok expiry => exact tokenExpiry_cases hexpiry
  · intro h
    by_cases hsame : UuidText.toStr session.id = claims.uniqueId
    · exact ⟨_, _, refreshToken_same config now hsame⟩
    · obtain ⟨raw, token, hrefresh, _⟩ := refreshToken_new (h hsame) hsame
      exact ⟨raw, _, hrefresh⟩

variable [UserRole Role]

-- What comes after the ping lets the row through that the ping answered.
theorem afterPing_iff [LawfulJsonwebtoken] {config : Config} {now : Int} {claims : JwtClaims}
    (hkey : ∃ key, config "SECRET_KEY".toList = .ok key)
    (checkUserRole : Role → Except SapsError Unit) (row : Option (Row Uuid))
    (table : AuthSessions Uuid) :
    (∃ token, HeaderToken.fromRequestParts checkUserRole
        (afterPing config now claims (Dal.sessionOfOption row) table).answer = .ok token) ↔
      ∃ found, row = some found ∧ Allowed checkUserRole found ∧
        (UuidText.toStr found.id ≠ claims.uniqueId → config.Readable now) := by
  rw [fromRequestParts_iff]
  constructor
  · rintro ⟨raw, hraw, hcheck⟩
    unfold afterPing at hraw
    split at hraw
    · cases hraw
    · cases hraw
    · rename_i session hsession
      obtain ⟨found, hrow, hfound⟩ := sessionOfOption_iff.mp hsession
      obtain ⟨role, hrole, rfl⟩ := sessionOf_iff.mp hfound
      split at hraw
      · cases hraw
      · rename_i raw' slot hrefresh
        obtain rfl := Except.ok.inj hraw
        rw [(refreshToken_ok hrefresh).1] at hcheck
        exact ⟨found, hrow, ⟨role, hrole, hcheck⟩, (refreshToken_iff hkey).mp ⟨_, _, hrefresh⟩⟩
  · rintro ⟨found, rfl, ⟨role, hrole, hcheck⟩, hissues⟩
    have hsession := sessionOfOption_iff.mpr ⟨found, rfl, sessionOf_iff.mpr ⟨role, hrole, rfl⟩⟩
    have hrefreshed : ∃ raw slot, refreshToken config now claims
        (⟨found.id, role, found.dateCreated, found.lastInteracted, found.metadata⟩ :
          AuthSession Role Uuid) = .ok (raw, slot) := (refreshToken_iff hkey).mpr hissues
    obtain ⟨raw, slot, hrefresh⟩ := hrefreshed
    refine ⟨raw, ?_, ?_⟩
    · rw [hsession]
      simp only [afterPing, hrefresh]
    · rw [(refreshToken_ok hrefresh).1]
      exact hcheck

variable [DecidableEq Uuid]

theorem reply_never {config : Config} {headers : HeaderMap} {claims : JwtClaims} {id : Uuid}
    (h : Presents config headers claims id) (checkUserRole : Role → Except SapsError Unit)
    (now : Int) (fresh : Uuid) (table : AuthSessions Uuid) :
    (reply config .never checkUserRole now headers fresh table).answer =
      HeaderToken.fromRequestParts checkUserRole (lookupSession now claims table) := by
  obtain ⟨rawToken, hlocated, hdecode⟩ := h.located
  simp only [reply, extractRequest, hlocated, runAuthExtraction, hdecode]

theorem reply_auto {config : Config} {headers : HeaderMap} {claims : JwtClaims} {id : Uuid}
    (h : Presents config headers claims id) (checkUserRole : Role → Except SapsError Unit)
    (now : Int) (fresh : Uuid) (table : AuthSessions Uuid) :
    (reply config .auto checkUserRole now headers fresh table).answer =
      HeaderToken.fromRequestParts checkUserRole
        (afterPing config now claims (Dal.sessionOfOption (ping now fresh 10 id table).1)
          (ping now fresh 10 id table).2).answer := by
  obtain ⟨rawToken, hlocated, hdecode⟩ := h.located
  simp only [reply, extractRequest, hlocated, runAuthExtraction_parsed Role hdecode h.named]

-- A request without a token, or with one that names no session, is refused.
theorem extract_unpresented (Role : Type) [UserRole Role] (mode : RefreshMode) {config : Config}
    {headers : HeaderMap}
    (h : ∀ claims, ∀ id : Uuid, ¬Presents config headers claims id) (now : Int) (fresh : Uuid)
    (table : AuthSessions Uuid) :
    ∃ e, (extractRequest config mode now fresh headers table : Extraction Role Uuid) =
      ⟨.error e, none, table⟩ := by
  unfold extractRequest
  cases hlocated : locateToken headers with
  | error e => exact ⟨e, rfl⟩
  | ok rawToken =>
      have hnamed : ∀ claims, JwtClaims.decode config rawToken = .ok claims →
          ∀ id : Uuid, UuidText.parse claims.uniqueId ≠ Except.ok id :=
        fun claims hdecode id hid => h claims id ⟨⟨rawToken, hlocated, hdecode⟩, hid⟩
      cases mode with
      | auto => exact runAuthExtraction_unparsed Role hnamed
      | never =>
          cases hdecode : JwtClaims.decode config rawToken with
          | error e => exact ⟨e, by simp only [runAuthExtraction, hdecode]⟩
          | ok claims =>
              have hnone := hnamed claims hdecode
              cases hid : (UuidText.parse claims.uniqueId : Except Str Uuid) with
              | ok id => exact absurd hid (hnone id)
              | error e =>
                  simp only [runAuthExtraction, hdecode, lookupSession, Dal.getAuthSession,
                    Dal.parseId, hid, Except.mapError, bind, Except.bind]
                  by_cases hexpired : claims.timeExpire < now
                  · exact ⟨_, by rw [if_pos hexpired]⟩
                  · exact ⟨_, by rw [if_neg hexpired]⟩

omit [Jsonwebtoken] in
-- The read-only lookup takes the current id and nothing else.
theorem lookup_iff {checkUserRole : Role → Except SapsError Unit} {config : Config} {now : Int}
    {claims : JwtClaims} {id : Uuid} (hnamed : UuidText.parse claims.uniqueId = Except.ok id)
    {world : World Uuid} (valid : world.Valid) :
    (∃ token, HeaderToken.fromRequestParts checkUserRole
        (lookupSession now claims world.table) = .ok token) ↔
      Admits (config.Readable now) checkUserRole world.table now claims id .never := by
  have hlookup : Dal.getAuthSession claims.uniqueId world.table =
      (Dal.sessionOfOption (world.table.find? (·.id = id)) :
        Except SqlxError (Option (AuthSession Role Uuid))) := by
    simp only [Dal.getAuthSession, Dal.parseId, hnamed, Except.mapError, bind, Except.bind]
  rw [fromRequestParts_iff]
  unfold lookupSession
  rw [hlookup]
  constructor
  · rintro ⟨raw, hraw, hcheck⟩
    split at hraw
    · cases hraw
    · rename_i hunexpired
      split at hraw
      · cases hraw
      · cases hraw
      · rename_i session hsession
        obtain ⟨found, hfind, hfound⟩ := sessionOfOption_iff.mp hsession
        obtain ⟨role, hrole, rfl⟩ := sessionOf_iff.mp hfound
        rw [← Except.ok.inj hraw] at hcheck
        exact .never found (List.mem_of_find?_eq_some hfind)
          (by simpa using List.find?_some hfind) ⟨role, hrole, hcheck⟩ (by omega)
  · intro h
    cases h with
    | never row hrow hid hallowed hunexpired =>
        obtain ⟨role, hrole, hcheck⟩ := hallowed
        obtain ⟨found, hfind⟩ : ∃ found, world.table.find? (·.id = id) = some found :=
          Option.isSome_iff_exists.mp (List.find?_isSome.mpr ⟨row, hrow, by simpa using hid⟩)
        have hsame : found = row := valid.row_unique (List.mem_of_find?_eq_some hfind) hrow (by
          have hfound : found.id = id := by simpa using List.find?_some hfind
          rw [hfound, hid])
        subst hsame
        have hsession := sessionOfOption_iff.mpr ⟨found, rfl, sessionOf_iff.mpr ⟨role, hrole, rfl⟩⟩
        rw [if_neg (by omega), hfind, hsession]
        exact ⟨_, rfl, hcheck⟩

omit [Jsonwebtoken] in
-- The one row that a ping sees, and what is asked of it.
theorem onRow_iff [LawfulUuidText Uuid] {checkUserRole : Role → Except SapsError Unit}
    {config : Config} {now : Int} {claims : JwtClaims} {id fresh : Uuid}
    (hnamed : UuidText.parse claims.uniqueId = Except.ok id) (hfresh : fresh ≠ id) {row : Row Uuid}
    (hmatches : Matches id row) :
    (∃ found, (onRow now fresh 10 id row).1 = some found ∧ Allowed checkUserRole found ∧
        (UuidText.toStr found.id ≠ claims.uniqueId → config.Readable now)) ↔
      ¬TimedOut now 10 row ∧ Allowed checkUserRole row ∧
        (row.id = id ∧ (Due now row ∨ UuidText.toStr id ≠ claims.uniqueId → config.Readable now) ∨
          IsGrace id row ∧ ¬Lapsed now row ∧ config.Readable now) := by
  have hspelled : ∀ other : Uuid, other ≠ id → UuidText.toStr other ≠ claims.uniqueId := by
    intro other hother heq
    have hparse := LawfulUuidText.parse_toStr other
    rw [heq, hnamed] at hparse
    exact hother (Except.ok.inj hparse).symm
  by_cases htime : TimedOut now 10 row
  · simp [onRow, htime]
  · by_cases hgrace : IsGrace id row
    · have hrenewed : (renew now row).id = row.id := rfl
      by_cases hlapsed : Lapsed now row
      · simp [onRow, htime, hgrace, hlapsed, hgrace.1]
      · simp only [onRow, htime, hgrace, hlapsed, ite_true, ite_false, Option.some.injEq,
          exists_eq_left', hrenewed, hgrace.1, hspelled row.id hgrace.1, not_false_eq_true,
          false_and, false_or, true_and, ne_eq, forall_const]
        exact Iff.rfl
    · have hid : row.id = id := by
        by_contra hne
        exact hgrace ⟨hne, hmatches.resolve_left hne⟩
      by_cases hdue : Due now row
      · have hrotated : (rotate now fresh row).id = fresh := rfl
        simp only [onRow, htime, hgrace, hdue, ite_true, ite_false, Option.some.injEq,
          exists_eq_left', hrotated, hspelled fresh hfresh, hid, true_and, not_false_eq_true,
          false_and, or_false, true_or, forall_const, ne_eq]
        exact Iff.rfl
      · have hrenewed : (renew now row).id = row.id := rfl
        simp only [onRow, htime, hgrace, hdue, ite_false, Option.some.injEq, exists_eq_left',
          hrenewed, hid, true_and, not_false_eq_true, false_and, or_false, false_or, ne_eq]
        exact Iff.rfl

omit [Jsonwebtoken] in
theorem pinged_iff [LawfulUuidText Uuid] {checkUserRole : Role → Except SapsError Unit}
    {config : Config} {now : Int} {claims : JwtClaims} {id fresh : Uuid}
    (hnamed : UuidText.parse claims.uniqueId = Except.ok id) {world : World Uuid}
    (valid : world.Valid) (hfresh : fresh ∉ world.issued) :
    (∃ found, (ping now fresh 10 id world.table).1 = some found ∧ Allowed checkUserRole found ∧
        (UuidText.toStr found.id ≠ claims.uniqueId → config.Readable now)) ↔
      Admits (config.Readable now) checkUserRole world.table now claims id .auto := by
  have hrowwise : ∀ row ∈ world.table, Matches id row →
      ((∃ found, (ping now fresh 10 id world.table).1 = some found ∧
          Allowed checkUserRole found ∧
          (UuidText.toStr found.id ≠ claims.uniqueId → config.Readable now)) ↔
        ¬TimedOut now 10 row ∧ Allowed checkUserRole row ∧
          (row.id = id ∧ (Due now row ∨ UuidText.toStr id ≠ claims.uniqueId → config.Readable now) ∨
            IsGrace id row ∧ ¬Lapsed now row ∧ config.Readable now)) := by
    intro row hrow hmatches
    obtain ⟨_, _, _, hping⟩ := valid.ping_row hrow hmatches now fresh 10
    rw [hping]
    refine onRow_iff hnamed ?_ hmatches
    rintro rfl
    rcases hmatches with hid | hold
    · exact hfresh (hid ▸ valid.idIssued row hrow)
    · exact hfresh (hold ▸ valid.oldIssued hrow)
  constructor
  · rintro ⟨found, hping, hfound⟩
    obtain ⟨front, row, back, hsplit, hmatches, _⟩ := valid.accepted hping
    have hrow : row ∈ world.table := by simp [hsplit]
    obtain ⟨hactive, hallowed, hcase⟩ := (hrowwise row hrow hmatches).mp ⟨found, hping, hfound⟩
    rcases hcase with ⟨hid, hissues⟩ | ⟨hgrace, hopen, hissues⟩
    · exact .current row hrow hid hallowed (Int.not_lt.mp hactive) hissues
    · refine .grace row hrow hgrace.1 hgrace.2 hallowed (Int.not_lt.mp hactive) ?_ hissues
      unfold Lapsed at hopen
      omega
  · intro h
    cases h with
    | current row hrow hid hallowed hactive hissues =>
        exact (hrowwise row hrow (.inl hid)).mpr
          ⟨Int.not_lt.mpr hactive, hallowed, .inl ⟨hid, hissues⟩⟩
    | grace row hrow hid hold hallowed hactive hopen hissues =>
        refine (hrowwise row hrow (.inr hold)).mpr
          ⟨Int.not_lt.mpr hactive, hallowed, .inr ⟨⟨hid, hold⟩, ?_, hissues⟩⟩
        unfold Lapsed
        omega

theorem replied_iff [LawfulUuidText Uuid] [LawfulJsonwebtoken] {config : Config}
    {world : World Uuid} (valid : world.Valid) (mode : RefreshMode)
    (checkUserRole : Role → Except SapsError Unit) (now : Int) (headers : HeaderMap) {fresh : Uuid}
    (hfresh : mode = .auto → fresh ∉ world.issued) :
    (∃ token, (reply config mode checkUserRole now headers fresh world.table).answer = .ok token) ↔
      ∃ claims id, Presents config headers claims id ∧
        Admits (config.Readable now) checkUserRole world.table now claims id mode := by
  by_cases hpresents : ∃ claims, ∃ id : Uuid, Presents config headers claims id
  · obtain ⟨claims, id, h⟩ := hpresents
    have hone : (∃ claims id, Presents config headers claims id ∧
        Admits (config.Readable now) checkUserRole world.table now claims id mode) ↔
          Admits (config.Readable now) checkUserRole world.table now claims id mode := by
      constructor
      · rintro ⟨claims', id', h', hadmits⟩
        obtain ⟨rfl, rfl⟩ := h.unique h'
        exact hadmits
      · exact fun hadmits => ⟨claims, id, h, hadmits⟩
    rw [hone]
    cases mode with
    | never =>
        rw [reply_never h]
        exact lookup_iff h.named valid
    | auto =>
        rw [reply_auto h, afterPing_iff h.key]
        exact pinged_iff h.named valid (hfresh rfl)
  · have hnone : ∀ claims, ∀ id : Uuid, ¬Presents config headers claims id :=
      fun claims id h => hpresents ⟨claims, id, h⟩
    obtain ⟨e, hfail⟩ := extract_unpresented Role mode hnone now fresh world.table
    constructor
    · rintro ⟨token, htoken⟩
      simp [reply, hfail, HeaderToken.fromRequestParts, bind, Except.bind] at htoken
    · rintro ⟨claims, id, h, _⟩
      exact absurd h (hnone claims id)

-- The read-only policy leaves the table and the cookies alone.
theorem extract_never (Role : Type) [UserRole Role] (config : Config) (now : Int) (fresh : Uuid)
    (headers : HeaderMap) (table : AuthSessions Uuid) :
    (extractRequest config .never now fresh headers table : Extraction Role Uuid).slot = none ∧
      (extractRequest config .never now fresh headers table : Extraction Role Uuid).table =
        table := by
  unfold extractRequest
  cases locateToken headers with
  | error e => exact ⟨rfl, rfl⟩
  | ok rawToken =>
      simp only [runAuthExtraction]
      cases JwtClaims.decode config rawToken with
      | error e => exact ⟨rfl, rfl⟩
      | ok claims => exact ⟨rfl, rfl⟩

theorem asked_never (Role : Type) [UserRole Role] (config : Config) (now : Int)
    (headers : HeaderMap) (fresh : Uuid) (world : World Uuid) :
    asked Role config .never now headers fresh world = { world with clock := now } := by
  simp only [asked, (extract_never Role config now fresh headers world.table).2]

theorem asked_unpresented (Role : Type) [UserRole Role] {config : Config} {headers : HeaderMap}
    (h : ∀ claims, ∀ id : Uuid, ¬Presents config headers claims id) (mode : RefreshMode) (now : Int)
    (fresh : Uuid) (world : World Uuid) :
    asked Role config mode now headers fresh world = { world with clock := now } := by
  cases mode with
  | never => exact asked_never Role config now headers fresh world
  | auto =>
      obtain ⟨e, hfail⟩ := extract_unpresented Role .auto h now fresh world.table
      simp only [asked, hfail]
      cases hlocated : locateToken headers with
      | error e => rfl
      | ok rawToken =>
          have hnone : (presentedId config rawToken : Option Uuid) = none := by
            cases hpresented : (presentedId config rawToken : Option Uuid) with
            | none => rfl
            | some id =>
                obtain ⟨claims, hdecode, hid⟩ := presentedId_some hpresented
                exact absurd ⟨⟨rawToken, hlocated, hdecode⟩, hid⟩ (h claims id)
          simp only [served, hnone]

-- A request is one command on the table, a ping of the id it presents or none at all.
theorem asked_next (Role : Type) [UserRole Role] (config : Config) (mode : RefreshMode) (now : Int)
    (headers : HeaderMap) {fresh : Uuid} {world : World Uuid}
    (hfresh : mode = .auto → fresh ∉ world.issued) :
    ∃ command, world.Fresh command ∧ (isPing command = false ∨ ∃ id, command = .ping fresh 10 id) ∧
      asked Role config mode now headers fresh world = world.next now command := by
  have hidle : { world with clock := now } = world.next now (.delete fun _ => false) := by
    simp [next]
  cases mode with
  | never =>
      refine ⟨.delete fun _ => false, trivial, .inl rfl, ?_⟩
      rw [asked_never, hidle]
  | auto =>
      by_cases hpresents : ∃ claims, ∃ id : Uuid, Presents config headers claims id
      · obtain ⟨claims, id, h⟩ := hpresents
        obtain ⟨rawToken, hlocated, hdecode⟩ := h.located
        refine ⟨.ping fresh 10 id, hfresh rfl, .inr ⟨id, rfl⟩, ?_⟩
        simp only [asked, extractRequest, hlocated]
        exact served_ping Role hdecode h.named world now fresh
      · refine ⟨.delete fun _ => false, trivial, .inl rfl, ?_⟩
        rw [← hidle]
        exact asked_unpresented Role (fun claims id h => hpresents ⟨claims, id, h⟩) .auto now fresh world

end

end Saps.Auth.RefreshPolicy
