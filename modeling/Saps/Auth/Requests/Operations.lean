import Saps.Auth.Requests
import Mathlib.Data.List.Perm.Basic

-- One operation on a table that has the row it is meant for.
namespace Saps.Auth

variable {Role Uuid : Type}

-- The row that an id belongs to, among rows with other ids.
structure Located (table : AuthSessions Uuid) (front : List (Row Uuid)) (row : Row Uuid)
    (back : List (Row Uuid)) : Prop where
  split : table = front ++ row :: back
  unique : ∀ other ∈ front ++ back, other.id ≠ row.id

-- What was written is read back.
theorem sessionOf_ok [UserRole Role] {row : Row Uuid} {role : Role}
    (hrole : UserRole.tryFrom row.role = Except.ok role) (metadata : Option Jsonb) :
    Dal.sessionOfOption (some { row with metadata := metadata }) =
      .ok (some (⟨row.id, role, row.dateCreated, row.lastInteracted, metadata⟩ :
        AuthSession Role Uuid)) := by
  simp [Dal.sessionOfOption, Dal.sessionOf, AuthSession.fromRow, hrole, bind, Except.bind, pure,
    Except.pure, Except.mapError, Except.map]

variable [DecidableEq Uuid]

theorem find_located {table : AuthSessions Uuid} {front back : List (Row Uuid)} {row : Row Uuid}
    (h : Located table front row back) (keep : Option Jsonb → Bool) :
    table.find? (fun other => other.id = row.id ∧ keep other.metadata) =
      if keep row.metadata then some row else none := by
  have hside : ∀ rows : List (Row Uuid), (∀ other ∈ rows, other.id ≠ row.id) →
      rows.find? (fun other => other.id = row.id ∧ keep other.metadata) = none := by
    intro rows hrows
    simp only [List.find?_eq_none]
    intro other hother
    simp [hrows other hother]
  rw [h.split, List.find?_append, List.find?_cons,
    hside front fun other hother => h.unique other (List.mem_append_left _ hother),
    hside back fun other hother => h.unique other (List.mem_append_right _ hother)]
  by_cases hkeep : keep row.metadata <;> simp [hkeep]

theorem map_located {table : AuthSessions Uuid} {front back : List (Row Uuid)} {row : Row Uuid}
    (h : Located table front row back) (change : Row Uuid → Row Uuid) :
    table.map (fun other => if other.id = row.id then change other else other) =
      front ++ change row :: back := by
  have hupdate := Ping.updateById_hit front back row row.id change rfl h.unique
  rw [h.split]
  exact congrArg Prod.snd hupdate

theorem filter_located {table : AuthSessions Uuid} {front back : List (Row Uuid)} {row : Row Uuid}
    (h : Located table front row back) : table.filter (·.id ≠ row.id) = front ++ back := by
  have hside : ∀ rows : List (Row Uuid), (∀ other ∈ rows, other.id ≠ row.id) →
      rows.filter (·.id ≠ row.id) = rows := by
    intro rows hrows
    exact List.filter_eq_self.mpr fun other hother => by simpa using hrows other hother
  rw [h.split, List.filter_append, List.filter_cons,
    hside front fun other hother => h.unique other (List.mem_append_left _ hother),
    hside back fun other hother => h.unique other (List.mem_append_right _ hother)]
  simp

-- What an `UPDATE` of `meta` by id comes to, for the row it finds.
theorem updateMetaWhere_located {table : AuthSessions Uuid} {front back : List (Row Uuid)}
    {row : Row Uuid} (h : Located table front row back) (keep : Option Jsonb → Bool)
    (change : Option Jsonb → Except (Str × Str) (Option Jsonb)) :
    Dal.updateMetaWhere row.id keep change table =
      if keep row.metadata then
        match change row.metadata with
        | .error (code, message) => (.error (.database code message), table)
        | .ok metadata => (.ok (some { row with metadata := metadata }),
            front ++ { row with metadata := metadata } :: back)
      else (.ok none, table) := by
  rw [Dal.updateMetaWhere, find_located h keep]
  by_cases hkeep : keep row.metadata
  · simp only [hkeep, ite_true]
    cases hchange : change row.metadata with
    | error e => rfl
    | ok metadata =>
        dsimp only
        rw [map_located h fun other => { other with metadata := metadata }]
  · simp [hkeep]

theorem run_uniqueId [UserRole Role] [UuidText Uuid] (token : HeaderToken Role Uuid)
    (table : AuthSessions Uuid) (operation : Operation) :
    (operation.run token table).token.uniqueId = token.uniqueId := by
  have hremember : ∀ updated, (token.remember updated).uniqueId = token.uniqueId := by
    intro updated
    cases updated <;> rfl
  cases operation with
  | delete =>
      simp only [Operation.run, HeaderToken.deleteAuthSession]
      split <;> rfl
  | updateMeta metadata =>
      simp only [Operation.run, HeaderToken.updateAuthSessionMeta]
      split <;> rfl
  | upsertMetaKey key value =>
      simp only [Operation.run, HeaderToken.upsertAuthSessionMetaKey]
      split
      · rfl
      · exact hremember _
  | deleteMetaKey key =>
      simp only [Operation.run, HeaderToken.deleteAuthSessionMetaKey]
      split
      · rfl
      · exact hremember _
  | compareAndSwap key expected newValue =>
      simp only [Operation.run, HeaderToken.compareAndSwapAuthSessionMeta]
      split
      · rfl
      · exact hremember _

theorem updateMeta_table [UuidText Uuid] (sessionId : Str) (keep : Option Jsonb → Bool)
    (change : Option Jsonb → Except (Str × Str) (Option Jsonb)) (table : AuthSessions Uuid) :
    ∃ metadata : Row Uuid → Option Jsonb, (Dal.updateMeta sessionId keep change table).2 =
      table.map fun row => { row with metadata := metadata row } := by
  have hsame : ∃ metadata : Row Uuid → Option Jsonb,
      table = table.map fun row => { row with metadata := metadata row } :=
    ⟨Row.metadata, (List.map_id _).symm⟩
  unfold Dal.updateMeta Dal.updateMetaWhere
  split
  · exact hsame
  · next id _ =>
    split
    · exact hsame
    · split
      · exact hsame
      · next metadata _ =>
        refine ⟨fun row => if row.id = id then metadata else row.metadata, ?_⟩
        refine List.map_congr_left fun row _ => ?_
        by_cases h : row.id = id <;> simp [h]

-- For the table an operation is a deletion or a change of `meta`.
theorem run_table [UserRole Role] [UuidText Uuid] (token : HeaderToken Role Uuid)
    (table : AuthSessions Uuid) (operation : Operation) :
    (∃ gone : Row Uuid → Bool, (operation.run token table).table = table.filter (! gone ·)) ∨
    ∃ metadata : Row Uuid → Option Jsonb, (operation.run token table).table =
      table.map fun row => { row with metadata := metadata row } := by
  cases operation with
  | delete =>
      left
      simp only [Operation.run, HeaderToken.deleteAuthSession]
      cases (UuidText.parse token.uniqueId : Except Str Uuid) with
      | error e => exact ⟨fun _ => false, by simp⟩
      | ok id => exact ⟨fun row => row.id = id, by simp [Dal.deleteAuthSession]⟩
  | updateMeta new =>
      right
      obtain ⟨metadata, h⟩ := updateMeta_table token.uniqueId (fun _ => true)
        (fun _ => .ok (some new)) table
      refine ⟨metadata, ?_⟩
      simp only [Operation.run, HeaderToken.updateAuthSessionMeta, Dal.updateAuthSessionMeta]
      rw [← h]
      split <;> next heq => exact (congrArg Prod.snd heq).symm
  | upsertMetaKey key value =>
      right
      obtain ⟨metadata, h⟩ := updateMeta_table token.uniqueId (fun _ => true)
        (fun metadata => ((metadata.getD (.object [])).set key value).map some) table
      refine ⟨metadata, ?_⟩
      simp only [Operation.run, HeaderToken.upsertAuthSessionMetaKey, Dal.upsertAuthSessionMetaKey]
      rw [← h]
      split <;> next heq => exact (congrArg Prod.snd heq).symm
  | deleteMetaKey key =>
      right
      obtain ⟨metadata, h⟩ := updateMeta_table token.uniqueId (fun _ => true)
        (fun metadata => metadata.mapM (·.remove key)) table
      refine ⟨metadata, ?_⟩
      simp only [Operation.run, HeaderToken.deleteAuthSessionMetaKey, Dal.deleteAuthSessionMetaKey]
      rw [← h]
      split <;> next heq => exact (congrArg Prod.snd heq).symm
  | compareAndSwap key expected newValue =>
      right
      obtain ⟨metadata, h⟩ := updateMeta_table token.uniqueId
        (fun metadata => metadata.bind (·.get key) = some expected)
        (fun metadata => metadata.mapM (·.set key newValue)) table
      refine ⟨metadata, ?_⟩
      simp only [Operation.run, HeaderToken.compareAndSwapAuthSessionMeta,
        Dal.compareAndSwapAuthSessionMeta]
      rw [← h]
      split <;> next heq => exact (congrArg Prod.snd heq).symm

variable [UserRole Role] [UuidText Uuid] [LawfulUuidText Uuid]

theorem updateMeta_located {table : AuthSessions Uuid} {front back : List (Row Uuid)}
    {row : Row Uuid} (h : Located table front row back) {sessionId : Str}
    (hid : sessionId = UuidText.toStr row.id) (keep : Option Jsonb → Bool)
    (change : Option Jsonb → Except (Str × Str) (Option Jsonb)) :
    Dal.updateMeta sessionId keep change table =
      if keep row.metadata then
        match change row.metadata with
        | .error (code, message) => (.error (.database code message), table)
        | .ok metadata => (.ok (some { row with metadata := metadata }),
            front ++ { row with metadata := metadata } :: back)
      else (.ok none, table) := by
  have hparse : Dal.parseId sessionId = .ok row.id := by
    rw [hid, Dal.parseId, LawfulUuidText.parse_toStr]
    rfl
  rw [Dal.updateMeta, hparse]
  exact updateMetaWhere_located h keep change

-- An operation does its work when its token has the id of the row.
theorem acts_located {table : AuthSessions Uuid} {front back : List (Row Uuid)} {row : Row Uuid}
    (h : Located table front row back) {token : HeaderToken Role Uuid}
    (hid : token.uniqueId = UuidText.toStr row.id) {role : Role}
    (hrole : UserRole.tryFrom row.role = Except.ok role) (operation : Operation) :
    Acts row table (operation.run token table).table operation
      (operation.run token table).answer := by
  cases operation with
  | delete =>
      have hcount : 0 < table.countP (·.id = row.id) := by
        rw [List.countP_pos_iff]
        exact ⟨row, by simp [h.split], by simp⟩
      simp only [Operation.run, HeaderToken.deleteAuthSession, hid, LawfulUuidText.parse_toStr,
        Dal.deleteAuthSession, filter_located h, hcount, decide_true]
      exact .deleted front back h.split rfl
  | updateMeta metadata =>
      simp only [Operation.run, HeaderToken.updateAuthSessionMeta, Dal.updateAuthSessionMeta,
        updateMeta_located h hid, ite_true, Except.map]
      exact .stored _ (some metadata) front back (by simp) (by simp) rfl h.split rfl
  | upsertMetaKey key value =>
      simp only [Operation.run, HeaderToken.upsertAuthSessionMetaKey, Dal.upsertAuthSessionMetaKey,
        updateMeta_located h hid, ite_true]
      cases hnew : ((row.metadata.getD (.object [])).set key value).map some with
      | error e => exact .refused _ e.1 e.2 hnew rfl
      | ok metadata =>
          simp only [Except.bind, sessionOf_ok hrole, Except.map]
          exact .stored _ metadata front back (by simp) (by simp) hnew h.split rfl
  | deleteMetaKey key =>
      simp only [Operation.run, HeaderToken.deleteAuthSessionMetaKey, Dal.deleteAuthSessionMetaKey,
        updateMeta_located h hid, ite_true]
      cases hnew : row.metadata.mapM (·.remove key) with
      | error e => exact .refused _ e.1 e.2 hnew rfl
      | ok metadata =>
          simp only [Except.bind, sessionOf_ok hrole, Except.map]
          exact .stored _ metadata front back (by simp) (by simp) hnew h.split rfl
  | compareAndSwap key expected newValue =>
      simp only [Operation.run, HeaderToken.compareAndSwapAuthSessionMeta,
        Dal.compareAndSwapAuthSessionMeta, updateMeta_located h hid]
      by_cases hkeep : row.metadata.bind (·.get key) = some expected
      · simp only [hkeep, decide_true, ite_true]
        cases hnew : row.metadata.mapM (·.set key newValue) with
        | error e => exact .refused _ e.1 e.2 hnew rfl
        | ok metadata =>
            simp only [Except.bind, sessionOf_ok hrole, Option.isSome]
            exact .stored _ metadata front back (by simp) (by simp [hkeep]) hnew h.split rfl
      · simp only [hkeep, decide_false]
        exact .differs key expected newValue hkeep rfl

theorem updateMeta_missed {table : AuthSessions Uuid} {sessionId : Str} {id : Uuid}
    (hid : sessionId = UuidText.toStr id) (hmiss : ∀ row ∈ table, row.id ≠ id)
    (keep : Option Jsonb → Bool) (change : Option Jsonb → Except (Str × Str) (Option Jsonb)) :
    Dal.updateMeta sessionId keep change table = (.ok none, table) := by
  have hfind : table.find? (fun row => row.id = id ∧ keep row.metadata) = none := by
    rw [List.find?_eq_none]
    intro row hrow
    simp [hmiss row hrow]
  have hparse : Dal.parseId sessionId = .ok id := by
    rw [hid, Dal.parseId, LawfulUuidText.parse_toStr]
    rfl
  rw [Dal.updateMeta, hparse]
  simp only [Dal.updateMetaWhere, hfind]

-- An operation whose token has the id of no row does nothing, and says `Ok`.
theorem run_missed {table : AuthSessions Uuid} {token : HeaderToken Role Uuid} {id : Uuid}
    (hid : token.uniqueId = UuidText.toStr id) (hmiss : ∀ row ∈ table, row.id ≠ id)
    (operation : Operation) :
    (operation.run token table).table = table ∧
      ∃ answer, (operation.run token table).answer = .ok answer ∧
        (operation = .delete → answer = false) := by
  cases operation with
  | delete =>
      have hfilter : table.filter (·.id ≠ id) = table :=
        List.filter_eq_self.mpr fun row hrow => by simpa using hmiss row hrow
      have hcount : table.countP (·.id = id) = 0 :=
        List.countP_eq_zero.mpr fun row hrow => by simpa using hmiss row hrow
      simp only [Operation.run, HeaderToken.deleteAuthSession, hid, LawfulUuidText.parse_toStr,
        Dal.deleteAuthSession, hfilter, hcount]
      exact ⟨trivial, false, rfl, fun _ => rfl⟩
  | updateMeta metadata =>
      simp only [Operation.run, HeaderToken.updateAuthSessionMeta, Dal.updateAuthSessionMeta,
        updateMeta_missed hid hmiss]
      exact ⟨rfl, true, rfl, fun h => by cases h⟩
  | upsertMetaKey key value =>
      simp only [Operation.run, HeaderToken.upsertAuthSessionMetaKey, Dal.upsertAuthSessionMetaKey,
        updateMeta_missed hid hmiss]
      exact ⟨rfl, true, rfl, fun h => by cases h⟩
  | deleteMetaKey key =>
      simp only [Operation.run, HeaderToken.deleteAuthSessionMetaKey, Dal.deleteAuthSessionMetaKey,
        updateMeta_missed hid hmiss]
      exact ⟨rfl, true, rfl, fun h => by cases h⟩
  | compareAndSwap key expected newValue =>
      simp only [Operation.run, HeaderToken.compareAndSwapAuthSessionMeta,
        Dal.compareAndSwapAuthSessionMeta, updateMeta_missed hid hmiss]
      exact ⟨rfl, false, rfl, fun h => by cases h⟩

end Saps.Auth
