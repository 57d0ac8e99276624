import Saps.Auth.Visitor

namespace Saps.Auth

open Ping

variable {Role Uuid : Type}

-- Every row of the session is one it had before, as far as it goes here.
structure Kept (session : Option Uuid) (before after : World Uuid) : Prop where
  issued : ∀ id ∈ before.issued, id ∈ after.issued
  rows : ∀ own ∈ session, ∀ left ∈ after.table, after.origin left.id = own →
    ∃ row ∈ before.table, before.origin row.id = own ∧ left.role = row.role ∧ left.id = row.id

theorem kept_clock (session : Option Uuid) (world : World Uuid) (now : Int) :
    Kept session world { world with clock := now } :=
  ⟨fun _ h => h, fun _ _ left hleft horigin => ⟨left, hleft, horigin, rfl, rfl⟩⟩

-- The layer puts its cookie in the place of whatever the handler set.
theorem adopt_refreshed (cookie : Option Str) {refreshed : SetCookie} {token : Str}
    (hheader : AuthTokenCookie.headerValue refreshed = .ok refreshed)
    (htoken : refreshed = AuthTokenCookie.yieldCookieString token) (setCookies : List SetCookie) :
    adopt cookie (attachRefreshedCookie (some refreshed) setCookies) = some token := by
  simp only [attachRefreshedCookie, hheader]
  rw [htoken]
  rfl

variable [UuidText Uuid] [Jsonwebtoken]

-- The cookie names the row of the session, if there is one.
structure Bound (config : Config) (world : World Uuid) (session : Option Uuid)
    (cookie : Option Str) : Prop where
  none : session = none → cookie = none
  rows : ∀ own ∈ session, ∀ row ∈ world.table, world.origin row.id = own →
    ∃ token, cookie = some token ∧ Names config token row.id

-- A cookie in the slot is well formed and names an id that there was.
def Filled (config : Config) (issued : List Uuid) (slot : Option SetCookie) : Prop :=
  ∀ cookie ∈ slot, AuthTokenCookie.headerValue cookie = .ok cookie ∧
    ∃ token, cookie = AuthTokenCookie.yieldCookieString token ∧ ∃ id ∈ issued, Names config token id

-- What the client will hold unless the handler has a say.
def offered (cookie : Option Str) (slot : Option SetCookie) : Option Str :=
  adopt cookie (attachRefreshedCookie slot [])

def InPhase (config : Config) (world : World Uuid) (session : Option Uuid) (cookie : Option Str) :
    Phase Role Uuid → Prop
  | .idle last => Agreement config world session cookie last
  | .handling task slot =>
    Filled config world.issued slot ∧ Bound config world session (offered cookie slot) ∧
      ∀ token, task = .logout token → ∀ own ∈ session, ∀ row ∈ world.table,
        world.origin row.id = own → token.uniqueId = UuidText.toStr row.id
  | .answered .other slot setCookies =>
    Filled config world.issued slot ∧ setCookies = [] ∧
      Bound config world session (offered cookie slot)
  | .answered (.login id) slot setCookies =>
    (∀ cookie ∈ slot, AuthTokenCookie.headerValue cookie = .ok cookie ∧
      ∃ token, cookie = AuthTokenCookie.yieldCookieString token ∧ ¬Names config token id) ∧
      session = some id ∧
      (∃ token, setCookies = [AuthTokenCookie.yieldCookieString token] ∧ Names config token id) ∧
      ∀ row ∈ world.table, world.origin row.id = id → row.id = id
  | .answered .logout slot setCookies =>
    Filled config world.issued slot ∧ setCookies = [AuthTokenCookie.wipeFromCookies] ∧
      ∀ own ∈ session, ∀ row ∈ world.table, world.origin row.id ≠ own

namespace Visitor

structure Good [UserRole Role] (config : Config) (visitor : Visitor Role Uuid) : Prop where
  valid : visitor.world.Valid
  readable : ∀ own ∈ visitor.session, ∃ now, config.Readable now
  issued : ∀ own ∈ visitor.session, own ∈ visitor.world.issued
  held : visitor.session = none → visitor.cookie = none
  roles : ∀ own ∈ visitor.session, ∀ row ∈ visitor.world.table,
    visitor.world.origin row.id = own → ∃ role : Role, UserRole.tryFrom row.role = Except.ok role
  phase : InPhase config visitor.world visitor.session visitor.cookie visitor.phase

end Visitor

variable {config : Config} {session : Option Uuid} {before after : World Uuid}

theorem Filled.follow {issued issued' : List Uuid} {slot : Option SetCookie}
    (filled : Filled config issued slot) (h : ∀ id ∈ issued, id ∈ issued') :
    Filled config issued' slot := by
  intro cookie hcookie
  obtain ⟨hheader, token, htoken, id, hid, hnames⟩ := filled cookie hcookie
  exact ⟨hheader, token, htoken, id, h id hid, hnames⟩

theorem filled_none (config : Config) (issued : List Uuid) : Filled config issued none :=
  fun _ h => nomatch h

theorem Bound.follow {cookie : Option Str} (bound : Bound config before session cookie)
    (kept : Kept session before after) : Bound config after session cookie := by
  refine ⟨bound.none, ?_⟩
  intro own hown left hleft horigin
  obtain ⟨row, hrow, hsame, _, hid⟩ := kept.rows own hown left hleft horigin
  rw [hid]
  exact bound.rows own hown row hrow hsame

variable {cookie : Option Str}

theorem Agreement.bound {last : Answer Uuid} (agreement : Agreement config before session cookie last)
    (hheld : session = none → cookie = none) : Bound config before session (offered cookie none) :=
  ⟨hheld, agreement.live⟩

theorem InPhase.follow {phase : Phase Role Uuid}
    (h : InPhase config before session cookie phase) (kept : Kept session before after) :
    InPhase config after session cookie phase := by
  have hback : ∀ own ∈ session, ∀ left ∈ after.table, after.origin left.id = own →
      ∃ row ∈ before.table, before.origin row.id = own ∧ left.id = row.id := by
    intro own hown left hleft horigin
    obtain ⟨row, hrow, hsame, _, hid⟩ := kept.rows own hown left hleft horigin
    exact ⟨row, hrow, hsame, hid⟩
  cases phase with
  | idle last =>
      refine ⟨?_, h.logout, h.login⟩
      intro own hown left hleft horigin
      obtain ⟨row, hrow, hsame, hid⟩ := hback own hown left hleft horigin
      rw [hid]
      exact h.live own hown row hrow hsame
  | handling task slot =>
      obtain ⟨hfilled, hbound, htells⟩ := h
      refine ⟨hfilled.follow kept.issued, hbound.follow kept, ?_⟩
      intro token htask own hown left hleft horigin
      obtain ⟨row, hrow, hsame, hid⟩ := hback own hown left hleft horigin
      rw [hid]
      exact htells token htask own hown row hrow hsame
  | answered answer slot setCookies =>
      cases answer with
      | other =>
          obtain ⟨hfilled, hempty, hbound⟩ := h
          exact ⟨hfilled.follow kept.issued, hempty, hbound.follow kept⟩
      | login id =>
          obtain ⟨hfilled, hsession, hset, hrows⟩ := h
          refine ⟨hfilled, hsession, hset, ?_⟩
          intro left hleft horigin
          obtain ⟨row, hrow, hsame, hid⟩ := hback id hsession left hleft horigin
          rw [hid]
          exact hrows row hrow hsame
      | logout =>
          obtain ⟨hfilled, hset, hrows⟩ := h
          refine ⟨hfilled.follow kept.issued, hset, ?_⟩
          intro own hown left hleft horigin
          obtain ⟨row, hrow, hsame, _⟩ := hback own hown left hleft horigin
          exact hrows own hown row hrow hsame

namespace Visitor

variable {visitor : Visitor Role Uuid} [UserRole Role]

theorem Good.follow (good : visitor.Good config) (valid : after.Valid)
    (kept : Kept visitor.session visitor.world after) :
    Good config { visitor with world := after } := by
  refine ⟨valid, good.readable, fun own hown => kept.issued own (good.issued own hown), good.held,
    ?_, good.phase.follow kept⟩
  intro own hown left hleft horigin
  obtain ⟨row, hrow, hsame, hrole, _⟩ := kept.rows own hown left hleft horigin
  rw [hrole]
  exact good.roles own hown row hrow hsame

-- Time passes and the request is in another phase.
theorem Good.enter (good : visitor.Good config) (now : Int) {phase : Phase Role Uuid}
    (h : InPhase config visitor.world visitor.session visitor.cookie phase) :
    (visitor.enter now phase).Good config := by
  have kept := kept_clock visitor.session visitor.world now
  have hlater := good.follow (good.valid.sublist now _ (.refl _)) kept
  exact ⟨hlater.valid, hlater.readable, hlater.issued, hlater.held, hlater.roles, h.follow kept⟩

theorem Good.answered (good : visitor.Good config) {answer : Answer Uuid} {slot : Option SetCookie}
    {setCookies : List SetCookie} (hphase : visitor.phase = .answered answer slot setCookies) :
    InPhase config visitor.world visitor.session visitor.cookie
      (.answered answer slot setCookies : Phase Role Uuid) := by
  have hgood := good.phase
  rwa [hphase] at hgood

-- What an extraction leaves.
structure Extracted (config : Config) (visitor : Visitor Role Uuid) (after : World Uuid)
    (extraction : Extraction Role Uuid) : Prop where
  valid : after.Valid
  issued : ∀ id ∈ visitor.world.issued, id ∈ after.issued
  roles : ∀ own ∈ visitor.session, ∀ row ∈ after.table, after.origin row.id = own →
    ∃ role : Role, UserRole.tryFrom row.role = Except.ok role
  filled : Filled config after.issued extraction.slot
  bound : Bound config after visitor.session (offered visitor.cookie extraction.slot)
  tells : ∀ raw, extraction.answer = .ok raw → ∀ own ∈ visitor.session, ∀ row ∈ after.table,
    after.origin row.id = own → raw.uniqueId = UuidText.toStr row.id

theorem Extracted.good {after : World Uuid} {extraction : Extraction Role Uuid}
    (extracted : visitor.Extracted config after extraction) (good : visitor.Good config)
    {phase : Phase Role Uuid} (h : InPhase config after visitor.session visitor.cookie phase) :
    Good config { visitor with world := after, phase := phase } :=
  ⟨extracted.valid, good.readable, fun own hown => extracted.issued own (good.issued own hown),
    good.held, extracted.roles, h⟩

theorem Extracted.handling {after : World Uuid} {extraction : Extraction Role Uuid}
    (extracted : visitor.Extracted config after extraction) (good : visitor.Good config)
    (task : Task Role Uuid)
    (h : ∀ token, task = .logout token → ∀ own ∈ visitor.session, ∀ row ∈ after.table,
      after.origin row.id = own → token.uniqueId = UuidText.toStr row.id) :
    ({ visitor with world := after, phase := .handling task extraction.slot } :
      Visitor Role Uuid).Good config := by
  have hphase : InPhase config after visitor.session visitor.cookie
      (.handling task extraction.slot) := ⟨extracted.filled, extracted.bound, h⟩
  exact extracted.good good hphase

theorem Extracted.rejected {after : World Uuid} {extraction : Extraction Role Uuid}
    (extracted : visitor.Extracted config after extraction) (good : visitor.Good config) :
    ({ visitor with world := after, phase := .answered .other extraction.slot [] } :
      Visitor Role Uuid).Good config := by
  let phase : Phase Role Uuid := .answered .other extraction.slot []
  have hphase : InPhase config after visitor.session visitor.cookie phase :=
    ⟨extracted.filled, rfl, extracted.bound⟩
  exact extracted.good good hphase

variable {last : Answer Uuid} {rawToken : Str}

-- An extraction that hands out no cookie and leaves the table alone.
theorem Good.extracts_nothing (good : visitor.Good config)
    (agreement : Agreement config visitor.world visitor.session visitor.cookie last) (now : Int)
    {extraction : Extraction Role Uuid} (hslot : extraction.slot = none)
    (htells : ∀ raw, extraction.answer = .ok raw → ∀ own ∈ visitor.session,
      ∀ row ∈ visitor.world.table, visitor.world.origin row.id = own →
        raw.uniqueId = UuidText.toStr row.id) :
    visitor.Extracted config { visitor.world with clock := now } extraction := by
  have kept := kept_clock visitor.session visitor.world now
  have hlater := good.follow (good.valid.sublist now _ (.refl _)) kept
  refine ⟨hlater.valid, fun _ h => h, hlater.roles, ?_, ?_, htells⟩
  · rw [hslot]
    exact filled_none _ _
  · rw [hslot]
    exact (agreement.bound good.held).follow kept

variable [DecidableEq Uuid]

theorem starts_good (h : visitor.Starts) : visitor.Good config := by
  obtain ⟨clock, trace, hrun, hcookie, hsession, hphase⟩ := h
  have hvalid := World.run_valid hrun (World.valid_empty clock)
  refine ⟨hvalid, ?_, ?_, fun _ => hcookie, ?_, ?_⟩
  · simp [hsession]
  · simp [hsession]
  · simp [hsession]
  · rw [hphase]
    exact ⟨by simp [hsession], nofun, nofun⟩

-- The lookup tells the id of the token, which is the id of the row.
theorem Good.looks_up (good : visitor.Good config)
    (agreement : Agreement config visitor.world visitor.session visitor.cookie last)
    (hcookie : visitor.cookie = some rawToken) (now : Int) (fresh : Uuid) :
    let extraction : Extraction Role Uuid :=
      runAuthExtraction config .never now fresh rawToken visitor.world.table
    visitor.Extracted config { visitor.world with clock := now, table := extraction.table }
      extraction := by
  intro extraction
  have hnothing : extraction.slot = none ∧ extraction.table = visitor.world.table := by
    unfold extraction runAuthExtraction
    split <;> exact ⟨rfl, rfl⟩
  rw [hnothing.2]
  refine good.extracts_nothing agreement now hnothing.1 ?_
  intro raw hraw own hown row hrow horigin
  obtain ⟨token, htoken, claims, hdecode, hid⟩ := agreement.live own hown row hrow horigin
  obtain rfl : rawToken = token := Option.some.inj (hcookie.symm.trans htoken)
  unfold extraction runAuthExtraction at hraw
  rw [hdecode] at hraw
  exact (lookupSession_ok hraw).trans hid

variable [LawfulUuidText Uuid]

-- A login that fails leaves at most a row that no one knows of.
theorem Good.login_fails (good : visitor.Good config) (now : Int) {fresh : Uuid}
    (hfresh : fresh ∉ visitor.world.issued) (role : Role) (metadata : Option Jsonb)
    {task : Task Role Uuid} {slot : Option SetCookie}
    (hphase : InPhase config visitor.world visitor.session visitor.cookie (.handling task slot)) :
    ({ visitor with
      world := visitor.world.loggedIn now fresh (UserRole.toStr role) metadata
        (login config now fresh role metadata visitor.world.table).2
      phase := .answered .other slot [] } : Visitor Role Uuid).Good config := by
  have hcommand : visitor.world.Fresh (.create fresh (UserRole.toStr role) now now metadata) := hfresh
  have hcreated := World.next_valid good.valid now _ hcommand
  have hsublist : (login config now fresh role metadata visitor.world.table).2.Sublist
      (visitor.world.next now (.create fresh (UserRole.toStr role) now now metadata)).table := by
    rcases login_table config now fresh role metadata visitor.world.table with h | h
    · rw [h]
      exact List.sublist_cons_self _ _
    · rw [h]
      exact List.Sublist.refl _
  have kept : Kept visitor.session visitor.world
      (visitor.world.loggedIn now fresh (UserRole.toStr role) metadata
        (login config now fresh role metadata visitor.world.table).2) := by
    refine ⟨fun id hid => List.mem_cons_of_mem _ hid, ?_⟩
    intro own hown left hleft horigin
    exact good.valid.next_unpinged now hcommand (good.issued own hown) trivial
      (hsublist.subset hleft) horigin
  have hlater := good.follow (hcreated.sublist now _ hsublist) kept
  obtain ⟨hfilled, hbound, _⟩ := hphase.follow kept
  exact ⟨hlater.valid, hlater.readable, hlater.issued, hlater.held, hlater.roles, hfilled, rfl,
    hbound⟩

-- The token names the row of the session, so a logout removes it.
theorem Good.logs_out (good : visitor.Good config) (now : Int) (fresh : Uuid)
    {token : HeaderToken Role Uuid}
    {slot : Option SetCookie}
    (hphase : InPhase config visitor.world visitor.session visitor.cookie
      (.handling (.logout token) slot)) :
    (visitor.handled config now fresh (.logout token) slot).Good config := by
  obtain ⟨hfilled, hbound, htells⟩ := hphase
  cases hparse : (UuidText.parse token.uniqueId : Except Str Uuid) with
  | error e =>
      simp only [Visitor.handled, HeaderToken.deleteAuthSession, hparse]
      exact good.enter now ⟨hfilled, rfl, hbound⟩
  | ok id =>
      have kept : Kept visitor.session visitor.world { visitor.world with
          clock := now, table := visitor.world.table.filter (·.id ≠ id) } :=
        ⟨fun _ h => h, fun _ _ left hleft horigin =>
          ⟨left, List.mem_of_mem_filter hleft, horigin, rfl, rfl⟩⟩
      have hlater := good.follow (good.valid.sublist now _ List.filter_sublist) kept
      simp only [Visitor.handled, HeaderToken.deleteAuthSession, hparse, Dal.deleteAuthSession]
      refine ⟨hlater.valid, hlater.readable, hlater.issued, hlater.held, hlater.roles, hfilled, rfl, ?_⟩
      intro own hown row hrow horigin
      obtain ⟨hmem, hne⟩ := List.mem_filter.mp hrow
      have hunique := htells token rfl own hown row hmem horigin
      rw [hunique, LawfulUuidText.parse_toStr] at hparse
      simp [Except.ok.inj hparse] at hne

variable [LawfulJsonwebtoken]

-- A row that the ping left to the session is the answer of the ping, and the
-- client is told its id.
theorem Good.ping_row (good : visitor.Good config)
    (agreement : Agreement config visitor.world visitor.session visitor.cookie last)
    (hcookie : visitor.cookie = some rawToken) {now : Int} (hfits : config.Fits now) {fresh : Uuid}
    (hfresh : fresh ∉ visitor.world.issued) {id : Uuid}
    (hpresented : presentedId config rawToken = some id) {own : Uuid} (hown : own ∈ visitor.session)
    {left : Row Uuid} (hleft : left ∈ (visitor.world.next now (.ping fresh 10 id)).table)
    (horigin : (visitor.world.next now (.ping fresh 10 id)).origin left.id = own) :
    ∃ raw slot, runAuthExtraction config .auto now fresh rawToken visitor.world.table =
        (⟨.ok raw, slot, (ping now fresh 10 id visitor.world.table).2⟩ : Extraction Role Uuid) ∧
      raw.uniqueId = UuidText.toStr left.id ∧
      (∃ token, offered visitor.cookie slot = some token ∧ Names config token left.id) ∧
      ∃ role : Role, UserRole.tryFrom left.role = Except.ok role := by
  have hcommand : visitor.world.Fresh (.ping fresh 10 id) := hfresh
  obtain ⟨row, hrow, hsame, _, _⟩ :=
    good.valid.next_back now hcommand (good.issued own hown) hleft horigin
  obtain ⟨token, htoken, hnames⟩ := agreement.live own hown row hrow hsame
  obtain rfl : rawToken = token := Option.some.inj (hcookie.symm.trans htoken)
  obtain rfl : id = row.id := by
    obtain ⟨claims, hdecode, hparse⟩ := presentedId_some hpresented
    obtain ⟨claims', hdecode', hid⟩ := hnames
    obtain rfl := Except.ok.inj (hdecode.symm.trans hdecode')
    rw [hid, LawfulUuidText.parse_toStr] at hparse
    exact (Except.ok.inj hparse).symm
  obtain ⟨hping, hrole, _⟩ :=
    good.valid.ping_current hrow now hfresh 10 hleft (horigin.trans hsame.symm)
  obtain ⟨role, hparsed⟩ := good.roles own hown row hrow hsame
  rw [← hrole] at hparsed
  obtain ⟨_, hreadable⟩ := good.readable own hown
  obtain ⟨raw, slot, hextraction, _, hunique, hslot⟩ :=
    runAuthExtraction_accepted (hreadable.later hfits) hnames hping hparsed
  refine ⟨raw, slot, hextraction, hunique, ?_, role, hparsed⟩
  by_cases hkept : left.id = row.id
  · rw [if_pos hkept] at hslot
    rw [hslot, hkept]
    exact ⟨rawToken, hcookie, hnames⟩
  · rw [if_neg hkept] at hslot
    obtain ⟨newToken, hnew, rfl, hheader⟩ := hslot
    refine ⟨newToken, ?_, hnew⟩
    simp only [offered, attachRefreshedCookie, hheader]
    rfl

theorem Good.pings (good : visitor.Good config)
    (agreement : Agreement config visitor.world visitor.session visitor.cookie last)
    (hcookie : visitor.cookie = some rawToken) {now : Int} (hfits : config.Fits now) {fresh : Uuid}
    (hfresh : fresh ∉ visitor.world.issued) :
    let extraction : Extraction Role Uuid :=
      runAuthExtraction config .auto now fresh rawToken visitor.world.table
    visitor.Extracted config
      (visitor.world.served config now fresh rawToken extraction.table) extraction := by
  intro extraction
  cases hpresented : (presentedId config rawToken : Option Uuid) with
  | none =>
      obtain ⟨e, hfail⟩ := runAuthExtraction_unpresented Role now fresh visitor.world.table hpresented
      have hworld : visitor.world.served config now fresh rawToken extraction.table =
          { visitor.world with clock := now } := by
        unfold World.served extraction
        rw [hpresented, hfail]
      rw [hworld]
      refine good.extracts_nothing agreement now (by unfold extraction; rw [hfail]) ?_
      intro raw hraw
      unfold extraction at hraw
      rw [hfail] at hraw
      cases hraw
  | some id =>
      obtain ⟨claims, hdecode, hparse⟩ := presentedId_some hpresented
      have hworld : visitor.world.served config now fresh rawToken extraction.table =
          visitor.world.next now (.ping fresh 10 id) :=
        World.served_ping Role hdecode hparse visitor.world now fresh
      have hcommand : visitor.world.Fresh (.ping fresh 10 id) := hfresh
      have hvalid := World.next_valid good.valid now (.ping fresh 10 id) hcommand
      rw [hworld]
      refine ⟨hvalid, fun _ h => World.next_issued h, ?_, ?_, ⟨?_, ?_⟩, ?_⟩
      · intro own hown left hleft horigin
        obtain ⟨_, _, _, _, _, hrole⟩ :=
          good.ping_row agreement hcookie hfits hfresh hpresented hown hleft horigin
        exact hrole
      · intro cookie hslot
        obtain ⟨id', row, token, ⟨claims', hdecode', hparse'⟩, hping, hnames, hcookie', hheader⟩ :=
          runAuthExtraction_slot hslot
        refine ⟨hheader, token, hcookie', row.id, hvalid.idIssued row ?_, hnames⟩
        obtain rfl := Except.ok.inj (hdecode.symm.trans hdecode')
        obtain rfl := Except.ok.inj (hparse.symm.trans hparse')
        obtain ⟨front, _, back, _, _, _, _, hleft⟩ := good.valid.accepted hping
        rw [World.next_ping_table, hleft]
        simp
      · intro hnone
        rw [good.held hnone] at hcookie
        cases hcookie
      · intro own hown left hleft horigin
        obtain ⟨raw, slot, hextraction, _, hoffered, _⟩ :=
          good.ping_row agreement hcookie hfits hfresh hpresented hown hleft horigin
        unfold extraction
        rw [hextraction]
        exact hoffered
      · intro raw hraw own hown left hleft horigin
        obtain ⟨raw', slot, hextraction, hunique, _⟩ :=
          good.ping_row agreement hcookie hfits hfresh hpresented hown hleft horigin
        unfold extraction at hraw
        rw [hextraction] at hraw
        obtain rfl := Except.ok.inj hraw
        exact hunique

theorem Good.extracts (good : visitor.Good config)
    (agreement : Agreement config visitor.world visitor.session visitor.cookie last)
    (hcookie : visitor.cookie = some rawToken) (mode : RefreshMode) {now : Int}
    (hfits : config.Fits now) {fresh : Uuid}
    (hfresh : fresh ∉ visitor.world.issued) :
    let extraction : Extraction Role Uuid :=
      runAuthExtraction config mode now fresh rawToken visitor.world.table
    visitor.Extracted config
      (visitor.world.extracted config mode now fresh rawToken extraction.table) extraction := by
  cases mode with
  | auto => exact good.pings agreement hcookie hfits hfresh
  | never => exact good.looks_up agreement hcookie now fresh

theorem Good.guarded (good : visitor.Good config)
    (agreement : Agreement config visitor.world visitor.session visitor.cookie last) {now : Int}
    (hfits : config.Fits now) (guard : Guard Role) {fresh : Uuid} (hfresh : fresh ∉ visitor.world.issued)
    {task : HeaderToken Role Uuid → Task Role Uuid}
    (htask : ∀ token token', task token = .logout token' → token = token') :
    (visitor.guarded config now guard fresh task).Good config := by
  unfold Visitor.guarded
  cases hcookie : visitor.cookie with
  | none => exact good.enter now ⟨filled_none _ _, rfl, agreement.bound good.held⟩
  | some rawToken =>
      dsimp only
      have extracted := good.extracts agreement hcookie guard.mode hfits hfresh
      split
      · next token hanswer =>
          obtain ⟨raw, hraw, hunique, _⟩ := fromRequestParts_ok hanswer
          rw [← hcookie]
          refine extracted.handling good (task token) ?_
          intro token' htoken' own hown left hleft horigin
          rw [← htask token token' htoken', hunique]
          exact extracted.tells raw hraw own hown left hleft horigin
      · rw [← hcookie]
        exact extracted.rejected good

theorem Good.requested (good : visitor.Good config) (hphase : visitor.phase = .idle last)
    {now : Int} (hfits : config.Fits now) (route : Route Role) {fresh : Uuid}
    (hfresh : fresh ∉ visitor.world.issued) : (visitor.requested config now route fresh).Good config := by
  have agreement : Agreement config visitor.world visitor.session visitor.cookie last := by
    have hgood := good.phase
    rwa [hphase] at hgood
  have hopen : ∀ task : Task Role Uuid, (∀ token, task ≠ .logout token) →
      (visitor.enter now (.handling task none)).Good config := by
    intro task htask
    refine good.enter now ⟨filled_none _ _, agreement.bound good.held, ?_⟩
    exact fun token h => absurd h (htask token)
  cases route with
  | plain guard =>
      cases guard with
      | none => exact hopen .plain nofun
      | some guard =>
          refine good.guarded agreement hfits guard hfresh ?_
          intro token token' h
          cases h
  | login guard role metadata =>
      cases guard with
      | none => exact hopen (.login role metadata) nofun
      | some guard =>
          refine good.guarded agreement hfits guard hfresh ?_
          intro token token' h
          cases h
  | logout guard =>
      refine good.guarded agreement hfits guard hfresh ?_
      intro token token' h
      exact Task.logout.inj h

-- The row of the new session is the one the login has just created.
theorem Good.logs_in (good : visitor.Good config) (now : Int) {fresh : Uuid}
    (hfresh : fresh ∉ visitor.world.issued) {role : Role} {metadata : Option Jsonb}
    {slot : Option SetCookie} (hfilled : Filled config visitor.world.issued slot)
    {response : LoginResponse}
    (hlogin : (login config now fresh role metadata visitor.world.table).1 = .ok response) :
    ({ visitor with
      world := visitor.world.loggedIn now fresh (UserRole.toStr role) metadata
        (login config now fresh role metadata visitor.world.table).2
      session := some fresh
      phase := .answered (.login fresh) slot [response.setCookie] } :
        Visitor Role Uuid).Good config := by
  obtain ⟨htable, hreadable, hrole, token, hcookie, hnames⟩ := login_ok hlogin
  have hcommand : visitor.world.Fresh (.create fresh (UserRole.toStr role) now now metadata) := hfresh
  have hvalid := World.next_valid good.valid now _ hcommand
  have hworld : visitor.world.loggedIn now fresh (UserRole.toStr role) metadata
      (login config now fresh role metadata visitor.world.table).2 =
        visitor.world.next now (.create fresh (UserRole.toStr role) now now metadata) := by
    rw [World.loggedIn, htable]
    rfl
  have hown : ∀ row ∈ (visitor.world.next now
      (.create fresh (UserRole.toStr role) now now metadata)).table,
      (visitor.world.next now (.create fresh (UserRole.toStr role) now now metadata)).origin row.id
        = fresh → row.id = fresh ∧ row.role = UserRole.toStr role := by
    intro row hrow horigin
    rcases List.mem_cons.mp hrow with rfl | hold
    · exact ⟨rfl, rfl⟩
    · have hissued := good.valid.idIssued row hold
      rw [World.Valid.next_origin hcommand hissued] at horigin
      exact absurd (horigin ▸ good.valid.originIssued row.id hissued) hfresh
  rw [hworld]
  refine ⟨hvalid, fun _ _ => ⟨now, hreadable⟩, ?_, nofun, ?_, ?_, rfl, ⟨token, by rw [hcookie], hnames⟩, ?_⟩
  · intro own h
    obtain rfl := Option.some.inj h
    exact List.mem_cons_self
  · intro own h row hrow horigin
    obtain rfl := Option.some.inj h
    rw [(hown row hrow horigin).2]
    exact hrole
  · intro cookie hslot
    obtain ⟨hheader, token', htoken', id, hid, hnames'⟩ := hfilled cookie hslot
    refine ⟨hheader, token', htoken', ?_⟩
    intro hsame
    obtain rfl := hnames'.unique hsame
    exact hfresh hid
  · exact fun row hrow horigin => (hown row hrow horigin).1

theorem Good.handled (good : visitor.Good config) (now : Int) {fresh : Uuid}
    (hfresh : fresh ∉ visitor.world.issued) {task : Task Role Uuid} {slot : Option SetCookie}
    (hphase : visitor.phase = .handling task slot) :
    (visitor.handled config now fresh task slot).Good config := by
  have hhandling : InPhase config visitor.world visitor.session visitor.cookie
      (.handling task slot) := by
    have hgood := good.phase
    rwa [hphase] at hgood
  have hfilled := hhandling.1
  cases task with
  | plain => exact good.enter now ⟨hfilled, rfl, hhandling.2.1⟩
  | login role metadata =>
      cases hlogin : (login config now fresh role metadata visitor.world.table).1 with
      | ok response =>
          simp only [Visitor.handled, hlogin]
          exact good.logs_in now hfresh hfilled hlogin
      | error e =>
          simp only [Visitor.handled, hlogin]
          exact good.login_fails now hfresh role metadata hhandling
  | logout token => exact good.logs_out now fresh hhandling

end Visitor

end Saps.Auth
