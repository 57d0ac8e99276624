import Saps.Auth.MetaCache
import Saps.Auth.Requests.Operations
import Saps.Auth.Token.Unary
import Saps.Lib.Transition

namespace Saps.Auth.MetaCache

open Transition

variable {Role Uuid : Type}

section

variable [DecidableEq Uuid]

theorem rowMeta_located {table : AuthSessions Uuid} {front back : List (Row Uuid)} {row : Row Uuid}
    (h : Located table front row back) : rowMeta row.id table = some row.metadata := by
  have hfind := find_located h fun _ => true
  simp only [and_true, ite_true] at hfind
  rw [rowMeta, hfind]
  rfl

theorem rowMeta_none {id : Uuid} {table : AuthSessions Uuid} :
    rowMeta id table = none ↔ ∀ row ∈ table, row.id ≠ id := by
  simp [rowMeta, List.find?_eq_none]

end

theorem located_replace {table : AuthSessions Uuid} {front back : List (Row Uuid)} {row : Row Uuid}
    (h : Located table front row back) (metadata : Option Jsonb) :
    Located (front ++ { row with metadata := metadata } :: back) front
      { row with metadata := metadata } back :=
  ⟨rfl, h.unique⟩

-- Among rows with different ids a row stands alone with its own.
theorem located_of_mem {table : AuthSessions Uuid} (hids : (table.map Row.id).Nodup)
    {row : Row Uuid} (hrow : row ∈ table) : ∃ front back, Located table front row back := by
  obtain ⟨front, back, rfl⟩ := List.append_of_mem hrow
  refine ⟨front, back, rfl, fun other hother => ?_⟩
  simp only [List.map_append, List.map_cons] at hids
  have hnot := (List.nodup_middle.mp hids).notMem
  rw [← List.map_append] at hnot
  exact fun heq => hnot (List.mem_map.mpr ⟨other, hother, heq⟩)

section

variable [DecidableEq Uuid] [UserRole Role] [UuidText Uuid] [LawfulUuidText Uuid]

theorem refreshing_located {α : Type} {table : AuthSessions Uuid} {front back : List (Row Uuid)}
    {row : Row Uuid} (h : Located table front row back) {token : HeaderToken Role Uuid}
    (hid : token.uniqueId = UuidText.toStr row.id) {role : Role}
    (hrole : UserRole.tryFrom row.role = Except.ok role)
    (read : HeaderToken Role Uuid → Except SapsError α) :
    (token.refreshing read table).token =
        { token with
          authSession := some ⟨row.id, role, row.dateCreated, row.lastInteracted, row.metadata⟩ } ∧
      (token.refreshing read table).table = table := by
  have hfind := find_located h fun _ => true
  simp only [and_true, ite_true] at hfind
  have hstrict : Dal.getAuthSessionStrict token.uniqueId table =
      .ok (⟨row.id, role, row.dateCreated, row.lastInteracted, row.metadata⟩ :
        AuthSession Role Uuid) := by
    simp [Dal.getAuthSessionStrict, Dal.parseId, hid, LawfulUuidText.parse_toStr, hfind,
      Dal.sessionOf, AuthSession.fromRow, hrole, bind, Except.bind, pure, Except.pure,
      Except.mapError]
  simp [HeaderToken.refreshing, hstrict]

theorem refreshing_missed {α : Type} {table : AuthSessions Uuid} {id : Uuid}
    {token : HeaderToken Role Uuid} (hid : token.uniqueId = UuidText.toStr id)
    (hmiss : ∀ row ∈ table, row.id ≠ id) (read : HeaderToken Role Uuid → Except SapsError α) :
    (token.refreshing read table).token = token ∧ (token.refreshing read table).table = table := by
  have hfind : table.find? (·.id = id) = none :=
    List.find?_eq_none.mpr fun row hrow => by simpa using hmiss row hrow
  have hstrict : (Dal.getAuthSessionStrict token.uniqueId table :
      Except SqlxError (AuthSession Role Uuid)) = .error .rowNotFound := by
    simp [Dal.getAuthSessionStrict, Dal.parseId, hid, LawfulUuidText.parse_toStr, hfind, bind,
      Except.bind, Except.mapError]
  simp [HeaderToken.refreshing, hstrict]

-- The session that an operation on the row of its token leaves in the token, and
-- the meta that it leaves in the row.
theorem operate_located {table : AuthSessions Uuid} {front back : List (Row Uuid)} {row : Row Uuid}
    (h : Located table front row back) {token : HeaderToken Role Uuid}
    (hid : token.uniqueId = UuidText.toStr row.id) {role : Role}
    (hrole : UserRole.tryFrom row.role = Except.ok role) {session : AuthSession Role Uuid}
    (hsession : token.authSession = some session) (operation : Operation) :
    if (Call.operate operation : Call Role Uuid).touches row.metadata then
      ∃ metadata, (operation.run token table).table =
          front ++ { row with metadata := metadata } :: back ∧
        ∃ kept, (operation.run token table).token.authSession = some kept ∧
          kept.metadata = metadata
    else (operation.run token table).token.authSession = some session := by
  cases operation with
  | delete =>
      simp [Call.touches, Operation.run, HeaderToken.deleteAuthSession, hid,
        LawfulUuidText.parse_toStr, Dal.deleteAuthSession, hsession]
  | updateMeta metadata =>
      simp only [Operation.run, HeaderToken.updateAuthSessionMeta, Dal.updateAuthSessionMeta,
        updateMeta_located h hid, ite_true, Except.map, Call.touches, Operation.newMeta,
        Except.isOk, Except.toBool, hsession, Option.map_some]
      exact ⟨some metadata, rfl, _, rfl, rfl⟩
  | upsertMetaKey key value =>
      simp only [Operation.run, HeaderToken.upsertAuthSessionMetaKey, Dal.upsertAuthSessionMetaKey,
        updateMeta_located h hid, ite_true, Call.touches, Operation.newMeta]
      cases hnew : ((row.metadata.getD (.object [])).set key value).map some with
      | error e => simp [Except.isOk, Except.toBool, Except.bind, hsession]
      | ok metadata =>
          simp only [Except.bind, sessionOf_ok hrole, Except.isOk, Except.toBool, ite_true,
            HeaderToken.remember]
          exact ⟨metadata, rfl, _, rfl, rfl⟩
  | deleteMetaKey key =>
      simp only [Operation.run, HeaderToken.deleteAuthSessionMetaKey, Dal.deleteAuthSessionMetaKey,
        updateMeta_located h hid, ite_true, Call.touches, Operation.newMeta]
      cases hnew : row.metadata.mapM (·.remove key) with
      | error e => simp [Except.isOk, Except.toBool, Except.bind, hsession]
      | ok metadata =>
          simp only [Except.bind, sessionOf_ok hrole, Except.isOk, Except.toBool, ite_true,
            HeaderToken.remember]
          exact ⟨metadata, rfl, _, rfl, rfl⟩
  | compareAndSwap key expected newValue =>
      simp only [Operation.run, HeaderToken.compareAndSwapAuthSessionMeta,
        Dal.compareAndSwapAuthSessionMeta, updateMeta_located h hid, Call.touches,
        Operation.newMeta]
      by_cases hkeep : row.metadata.bind (·.get key) = some expected
      · simp only [hkeep, decide_true, ite_true, Bool.true_and]
        cases hnew : row.metadata.mapM (·.set key newValue) with
        | error e => simp [Except.isOk, Except.toBool, Except.bind, hsession]
        | ok metadata =>
            simp only [Except.bind, sessionOf_ok hrole, Except.isOk, Except.toBool, ite_true,
              HeaderToken.remember]
            exact ⟨metadata, rfl, _, rfl, rfl⟩
      · simp [hkeep, Except.bind, Dal.sessionOfOption, HeaderToken.remember, hsession]

theorem operate_missed {table : AuthSessions Uuid} {id : Uuid} {token : HeaderToken Role Uuid}
    (hid : token.uniqueId = UuidText.toStr id) (hmiss : ∀ row ∈ table, row.id ≠ id)
    {session : AuthSession Role Uuid} (hsession : token.authSession = some session)
    (operation : Operation) :
    ∃ kept, (operation.run token table).token.authSession = some kept ∧
      (kept = session ∨
        ∃ metadata, operation = .updateMeta metadata ∧ kept.metadata = some metadata) := by
  cases operation with
  | delete =>
      simp [Operation.run, HeaderToken.deleteAuthSession, hid, LawfulUuidText.parse_toStr,
        hsession]
  | updateMeta metadata =>
      simp [Operation.run, HeaderToken.updateAuthSessionMeta, Dal.updateAuthSessionMeta,
        updateMeta_missed hid hmiss, Except.map, hsession]
  | upsertMetaKey key value =>
      simp [Operation.run, HeaderToken.upsertAuthSessionMetaKey, Dal.upsertAuthSessionMetaKey,
        updateMeta_missed hid hmiss, Except.bind, Dal.sessionOfOption, HeaderToken.remember,
        hsession]
  | deleteMetaKey key =>
      simp [Operation.run, HeaderToken.deleteAuthSessionMetaKey, Dal.deleteAuthSessionMetaKey,
        updateMeta_missed hid hmiss, Except.bind, Dal.sessionOfOption, HeaderToken.remember,
        hsession]
  | compareAndSwap key expected newValue =>
      simp [Operation.run, HeaderToken.compareAndSwapAuthSessionMeta,
        Dal.compareAndSwapAuthSessionMeta, updateMeta_missed hid hmiss, Except.bind,
        Dal.sessionOfOption, HeaderToken.remember, hsession]

-- What a call makes of a row that is there.
theorem run_located {table : AuthSessions Uuid} {front back : List (Row Uuid)} {row : Row Uuid}
    (h : Located table front row back) {token : HeaderToken Role Uuid}
    (hid : token.uniqueId = UuidText.toStr row.id) {role : Role}
    (hrole : UserRole.tryFrom row.role = Except.ok role) {session : AuthSession Role Uuid}
    (hsession : token.authSession = some session) (call : Call Role Uuid) :
    if call.touches row.metadata then
      ∃ kept, (call.run token table).1.authSession = some kept ∧
        rowMeta row.id (call.run token table).2 = some kept.metadata
    else (call.run token table).1.authSession = some session := by
  cases call with
  | operate operation =>
      have hoperate := operate_located h hid hrole hsession operation
      split at hoperate
      · next htouches =>
        obtain ⟨metadata, htable, kept, hkept, rfl⟩ := hoperate
        rw [if_pos htouches]
        refine ⟨kept, hkept, ?_⟩
        simp only [Call.run, htable]
        exact rowMeta_located (located_replace h kept.metadata)
      · next huntouched =>
        rw [if_neg huntouched]
        exact hoperate
  | refreshing read =>
      obtain ⟨htoken, htable⟩ := refreshing_located h hid hrole read
      simp only [Call.touches, ite_true, Call.run, htoken, htable]
      exact ⟨_, rfl, rowMeta_located h⟩

theorem run_absent {table : AuthSessions Uuid} {id : Uuid} {token : HeaderToken Role Uuid}
    (hid : token.uniqueId = UuidText.toStr id) (hmiss : ∀ row ∈ table, row.id ≠ id)
    {session : AuthSession Role Uuid} (hsession : token.authSession = some session)
    (call : Call Role Uuid) :
    ∃ kept, (call.run token table).1.authSession = some kept ∧
      (kept = session ∨ ∃ metadata, call = .operate (.updateMeta metadata) ∧
        kept.metadata = some metadata) := by
  cases call with
  | operate operation =>
      obtain ⟨kept, hkept, hsame | ⟨metadata, rfl, hmeta⟩⟩ :=
        operate_missed hid hmiss hsession operation
      · exact ⟨kept, hkept, .inl hsame⟩
      · exact ⟨kept, hkept, .inr ⟨metadata, rfl, hmeta⟩⟩
  | refreshing read =>
      obtain ⟨htoken, _⟩ := refreshing_missed hid hmiss read
      exact ⟨session, by simp [Call.run, htoken, hsession], .inl rfl⟩

omit [LawfulUuidText Uuid] in
theorem run_token (call : Call Role Uuid) (token : HeaderToken Role Uuid)
    (table : AuthSessions Uuid) : (call.run token table).1.uniqueId = token.uniqueId := by
  cases call with
  | operate operation => exact run_uniqueId token table operation
  | refreshing read =>
      simp only [Call.run, HeaderToken.refreshing]
      split <;> rfl

omit [LawfulUuidText Uuid] in
-- For the table a call is what the others can do as well.
theorem run_change (call : Call Role Uuid) (token : HeaderToken Role Uuid)
    (table : AuthSessions Uuid) :
    ∃ change : Change Uuid, (call.run token table).2 = change.apply table := by
  cases call with
  | operate operation =>
      rcases run_table token table operation with ⟨gone, h⟩ | ⟨metadata, h⟩
      · exact ⟨.delete gone, h⟩
      · exact ⟨.updateMeta metadata, h⟩
  | refreshing read =>
      refine ⟨.delete fun _ => false, ?_⟩
      simp only [Call.run, HeaderToken.refreshing, Change.apply]
      split <;> simp

end

-- A run of one token and the others.
section

theorem apply_ids (change : Change Uuid) (table : AuthSessions Uuid) :
    ((change.apply table).map Row.id).Sublist (table.map Row.id) := by
  cases change with
  | delete gone => exact List.filter_sublist.map Row.id
  | updateMeta metadata => simp [Change.apply, Function.comp_def]

theorem mem_apply {change : Change Uuid} {table : AuthSessions Uuid} {row : Row Uuid}
    (h : row ∈ change.apply table) : ∃ old ∈ table, old.id = row.id ∧ old.role = row.role := by
  cases change with
  | delete gone => exact ⟨row, (List.mem_filter.mp h).1, rfl, rfl⟩
  | updateMeta metadata =>
      obtain ⟨old, hold, rfl⟩ := List.mem_map.mp h
      exact ⟨old, hold, rfl, rfl⟩

variable [DecidableEq Uuid]

-- The state when a call in flight returns.
def State.resumed (flight : Flight Role Uuid) (state : State Role Uuid) : State Role Uuid :=
  { state with token := flight.token, flight := none, settled := flight.left }

theorem Coherent.withTable {state : State Role Uuid} (h : Coherent state) (id : Uuid)
    (table : AuthSessions Uuid) : Coherent (state.withTable id table) := by
  obtain ⟨session, hsession, hheld⟩ := h.cached
  exact ⟨⟨session, hsession, List.mem_append_right _ hheld⟩, h.settled⟩

variable [UserRole Role] [UuidText Uuid]

structure Inv (id : Uuid) (state : State Role Uuid) : Prop where
  ids : (state.table.map Row.id).Nodup
  uniqueId : state.token.uniqueId = UuidText.toStr id
  parses : ∀ row ∈ state.table, row.id = id →
    ∃ role : Role, UserRole.tryFrom row.role = Except.ok role
  present : ∀ metadata, rowMeta id state.table = some metadata → metadata ∈ state.held
  coherent : Coherent state
  flight : ∀ flight, state.flight = some flight →
    flight.token.uniqueId = UuidText.toStr id ∧ Coherent (state.resumed flight)

omit [DecidableEq Uuid] [UuidText Uuid] in
theorem sessionOf_cases {row : Row Uuid} {session : AuthSession Role Uuid}
    (h : Dal.sessionOf row = .ok session) :
    (∃ role : Role, UserRole.tryFrom row.role = Except.ok role) ∧
      session.metadata = row.metadata := by
  cases hrole : (UserRole.tryFrom row.role : Except SapsError Role) with
  | error e =>
      simp [Dal.sessionOf, AuthSession.fromRow, hrole, bind, Except.bind, Except.mapError] at h
  | ok role =>
      simp only [Dal.sessionOf, AuthSession.fromRow, hrole, bind, Except.bind, pure, Except.pure,
        Except.mapError, Except.ok.injEq] at h
      exact ⟨⟨role, rfl⟩, by rw [← h]⟩

theorem inv_loaded {id : Uuid} {state : State Role Uuid} (h : Loaded id state) : Inv id state := by
  obtain ⟨row, hrow, rfl, hheld, session, hfrom, hsession⟩ := h.loaded
  obtain ⟨front, back, hlocated⟩ := located_of_mem h.ids hrow
  obtain ⟨hrole, hmeta⟩ := sessionOf_cases hfrom
  refine ⟨h.ids, h.uniqueId, fun other hother hid => ?_, ?_, ⟨?_, ?_⟩, ?_⟩
  · exact List.inj_on_of_nodup_map h.ids hother hrow hid ▸ hrole
  · intro metadata hmetadata
    rw [rowMeta_located hlocated] at hmetadata
    simp [hheld, ← Option.some.inj hmetadata]
  · exact ⟨session, hsession, by simp [hheld, hmeta]⟩
  · simp [h.unsettled]
  · simp [h.idle]

theorem Inv.withTable {id : Uuid} {state : State Role Uuid} (inv : Inv id state)
    (change : Change Uuid) : Inv id (state.withTable id (change.apply state.table)) where
  ids := inv.ids.sublist (apply_ids change state.table)
  uniqueId := inv.uniqueId
  parses row hrow hid := by
    obtain ⟨old, hold, hsame, hrole⟩ := mem_apply hrow
    exact hrole ▸ inv.parses old hold (hsame.trans hid)
  present metadata hmetadata := List.mem_append_left _ (Option.mem_toList.mpr hmetadata)
  coherent := inv.coherent.withTable id _
  flight flight hflight :=
    ⟨(inv.flight flight hflight).1, (inv.flight flight hflight).2.withTable id _⟩

variable [LawfulUuidText Uuid]

-- When its call returns, the token has what it should have.
theorem issued_coherent {id : Uuid} {state : State Role Uuid} (inv : Inv id state)
    (call : Call Role Uuid) (hmeets : Meets id state (.issue call)) :
    Coherent ((state.issued id call).resumed
      ⟨(call.run state.token state.table).1,
        leftBy id call state.table (call.run state.token state.table).2⟩) := by
  obtain ⟨session, hsession, hheld⟩ := inv.coherent.cached
  by_cases hrow : ∃ row ∈ state.table, row.id = id
  · obtain ⟨row, hmem, rfl⟩ := hrow
    obtain ⟨front, back, hlocated⟩ := located_of_mem inv.ids hmem
    obtain ⟨role, hrole⟩ := inv.parses row hmem rfl
    have hrun := run_located hlocated inv.uniqueId hrole hsession call
    split at hrun
    · next htouches =>
      obtain ⟨kept, hkept, hmeta⟩ := hrun
      have hleft : leftBy row.id call state.table (call.run state.token state.table).2 =
          some kept.metadata := by
        rw [leftBy, rowMeta_located hlocated, Option.bind_some, if_pos htouches, hmeta]
      refine ⟨⟨kept, hkept, ?_⟩, fun metadata hmetadata => ⟨kept, hkept, ?_⟩⟩
      · simp [State.resumed, State.issued, State.withTable, hmeta]
      · simpa [State.resumed, hleft] using hmetadata
    · next huntouched =>
      have hleft : leftBy row.id call state.table (call.run state.token state.table).2 = none := by
        rw [leftBy, rowMeta_located hlocated, Option.bind_some, if_neg huntouched]
      refine ⟨⟨session, hrun, List.mem_append_right _ hheld⟩, fun metadata hmetadata => ?_⟩
      simp [State.resumed, hleft] at hmetadata
  · have hmiss : ∀ row ∈ state.table, row.id ≠ id := fun row hmem hid => hrow ⟨row, hmem, hid⟩
    obtain ⟨kept, hkept, hcase⟩ := run_absent inv.uniqueId hmiss hsession call
    have hleft : leftBy id call state.table (call.run state.token state.table).2 = none := by
      rw [leftBy, rowMeta_none.mpr hmiss]
      rfl
    refine ⟨⟨kept, hkept, List.mem_append_right _ ?_⟩, fun metadata hmetadata => ?_⟩
    · rcases hcase with rfl | ⟨metadata, rfl, hmeta⟩
      · exact hheld
      · rw [hmeta]
        exact hmeets.resolve_left hrow
    · simp [State.resumed, hleft] at hmetadata

-- And a call that does not meet the condition leaves the token with a meta that
-- the row has never had.
theorem unmet_incoherent {id : Uuid} {state : State Role Uuid} (inv : Inv id state)
    {call : Call Role Uuid} (hunmet : ¬Meets id state (.issue call)) :
    ¬Coherent ((state.issued id call).resumed
      ⟨(call.run state.token state.table).1,
        leftBy id call state.table (call.run state.token state.table).2⟩) := by
  obtain ⟨metadata, rfl⟩ : ∃ metadata, call = .operate (.updateMeta metadata) := by
    cases call with
    | refreshing read => exact absurd trivial hunmet
    | operate operation =>
        cases operation with
        | updateMeta metadata => exact ⟨metadata, rfl⟩
        | delete | upsertMetaKey | deleteMetaKey | compareAndSwap => exact absurd trivial hunmet
  obtain ⟨hrow, hnew⟩ := not_or.mp hunmet
  have hmiss : ∀ row ∈ state.table, row.id ≠ id := fun row hmem hid => hrow ⟨row, hmem, hid⟩
  obtain ⟨session, hsession, _⟩ := inv.coherent.cached
  intro hcoherent
  obtain ⟨kept, hkept, hheld⟩ := hcoherent.cached
  have hupdated : kept.metadata = some metadata := by
    simp only [State.resumed, Call.run, Operation.run, HeaderToken.updateAuthSessionMeta,
      Dal.updateAuthSessionMeta, updateMeta_missed inv.uniqueId hmiss, Except.map, hsession,
      Option.map_some, Option.some.injEq] at hkept
    rw [← hkept]
  have htable : (Call.run (.operate (.updateMeta metadata)) state.token state.table).2 =
      state.table := (run_missed inv.uniqueId hmiss (.updateMeta metadata)).1
  have hsame : (state.issued id (.operate (.updateMeta metadata))).held = state.held := by
    simp only [State.issued, State.withTable, htable, rowMeta_none.mpr hmiss, Option.toList_none,
      List.nil_append]
  rw [hupdated] at hheld
  exact hnew (hsame ▸ hheld)

theorem step_inv {id : Uuid} {before after : State Role Uuid} {label : Label Role Uuid}
    (inv : Inv id before) (h : Step id before label after) (hmeets : Meets id before label) :
    Inv id after := by
  cases h with
  | issue call hidle =>
      obtain ⟨change, hchange⟩ := run_change call before.token before.table
      have base := inv.withTable change
      rw [← hchange] at base
      refine ⟨base.ids, inv.uniqueId, base.parses, base.present, ⟨base.coherent.cached, ?_⟩, ?_⟩
      · simp [State.issued]
      · intro flight hflight
        obtain rfl := Option.some.inj hflight
        exact ⟨(run_token call before.token before.table).trans inv.uniqueId,
          issued_coherent inv call hmeets⟩
  | resume flight hflight =>
      obtain ⟨hid, hcoherent⟩ := inv.flight flight hflight
      exact ⟨inv.ids, hid, inv.parses, inv.present, hcoherent, by simp⟩
  | others change => exact inv.withTable change

-- A run of the calls of one token and of whatever the others do to the row.
theorem cache_coherent {id : Uuid} {start finish : State Role Uuid} (loaded : Loaded id start)
    {trace : List (Label Role Uuid)}
    (run : Run (fun before label after => Step id before label after ∧ Meets id before label)
      start trace finish) : Coherent finish := by
  have hinv : Inv id finish := by
    induction run with
    | nil => exact inv_loaded loaded
    | snoc _ last ih => exact step_inv ih last.1 last.2
  exact hinv.coherent

end

-- Session 1, just loaded.
def loadedRow : Row Nat :=
  ⟨1, 1, "admin".toList, 0, 0, 0, none⟩

def loadedState : State DefaultRole Nat :=
  ⟨[loadedRow], ⟨['1'], 0, some ⟨1, .admin, 0, 0, none⟩, none⟩, none, [none], none⟩

theorem loadedState_loaded : Loaded 1 loadedState := by
  have hfrom : Dal.sessionOf loadedRow =
      (.ok ⟨1, .admin, 0, 0, none⟩ : Except SqlxError (AuthSession DefaultRole Nat)) := by
    have hrole : (UserRole.tryFrom loadedRow.role : Except SapsError DefaultRole) = .ok .admin :=
      DefaultRole.tryFrom_toStr .admin
    simp only [Dal.sessionOf, AuthSession.fromRow, hrole, bind, Except.bind, pure, Except.pure,
      Except.mapError]
    rfl
  exact ⟨by simp [loadedState], rfl,
    ⟨loadedRow, by simp [loadedState], rfl, rfl, _, hfrom, rfl⟩, rfl, rfl⟩

-- The whole meta is replaced.
def replaceMeta : Call DefaultRole Nat :=
  .operate (.updateMeta (.bool true))

-- The row is deleted before the call returns. The same meta again is one it has had.
theorem cache_coherent_deleted : ∃ finish : State DefaultRole Nat,
    Run (fun before label after => Step 1 before label after ∧ Meets 1 before label) loadedState
      [.issue replaceMeta, .others (.delete fun _ => true), .resume, .issue replaceMeta, .resume]
        finish ∧ finish.table = [] ∧ Coherent finish := by
  have hrow : ∃ row ∈ loadedState.table, row.id = 1 := ⟨loadedRow, List.mem_singleton_self _, rfl⟩
  have run : Run (fun before label after => Step 1 before label after ∧ Meets 1 before label)
      loadedState [.issue replaceMeta, .others (.delete fun _ => true), .resume,
        .issue replaceMeta, .resume] _ :=
    .snoc (.snoc (.snoc (.snoc (.snoc .nil ⟨.issue replaceMeta rfl, .inl hrow⟩)
      ⟨.others (.delete fun _ => true), trivial⟩) ⟨.resume _ rfl, trivial⟩)
        ⟨.issue replaceMeta rfl, .inr (by decide)⟩) ⟨.resume _ rfl, trivial⟩
  exact ⟨_, run, rfl, cache_coherent loadedState_loaded run⟩

-- But after the deletion it is new to the row.
theorem cache_invented : ∃ finish : State DefaultRole Nat,
    Run (Step 1) loadedState [.others (.delete fun _ => true), .issue replaceMeta, .resume]
        finish ∧
      (∃ session, finish.token.authSession = some session ∧
        session.metadata = some (.bool true)) ∧
      finish.held = [none] ∧ ¬Coherent finish := by
  have run : Run (Step 1) loadedState
      [.others (.delete fun _ => true), .issue replaceMeta, .resume] _ :=
    .snoc (.snoc (.snoc .nil (.others (.delete fun _ => true))) (.issue replaceMeta rfl))
      (.resume _ rfl)
  refine ⟨_, run, ⟨⟨1, .admin, 0, 0, some (.bool true)⟩, rfl, rfl⟩, rfl, fun h => ?_⟩
  obtain ⟨session, hsession, hheld⟩ := h.cached
  obtain rfl := Option.some.inj hsession
  exact absurd (List.mem_singleton.mp hheld) (by simp)

end Saps.Auth.MetaCache
