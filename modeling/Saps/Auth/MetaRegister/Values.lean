import Saps.Auth.MetaRegister

-- What one operation does to the metadata of a session, key by key.
namespace Saps.Auth

variable {Role Uuid : Type} [DecidableEq Uuid]

namespace Jsonb

theorem get_set_ne {target new value : Jsonb} {key other : Str} (hne : key ≠ other)
    (h : target.set other value = .ok new) : new.get key = target.get key := by
  cases target with
  | object fields =>
      obtain rfl := Except.ok.inj h
      exact lookup_setField_ne hne value fields
  | array items =>
      unfold Jsonb.set at h
      cases hindex : arrayIndex other with
      | error e => simp [hindex] at h
      | ok index =>
          simp only [hindex] at h
          obtain rfl := Except.ok.inj h
          rfl
  | null | bool | number | string => cases h

-- Only an object has a key to compare.
theorem get_set {target new expected value : Jsonb} {key : Str}
    (hget : target.get key = some expected) (h : target.set key value = .ok new) :
    new.get key = some value := by
  cases target with
  | object fields =>
      obtain rfl := Except.ok.inj h
      exact lookup_setField key value fields
  | array | null | bool | number | string => cases hget

theorem lookup_filter_ne {key other : Str} (hne : key ≠ other) (fields : List (Str × Jsonb)) :
    (fields.filter (·.1 ≠ other)).lookup key = fields.lookup key := by
  have hkey : (key == other) = false := by simpa using hne
  induction fields with
  | nil => rfl
  | cons field fields ih =>
      obtain ⟨name, value⟩ := field
      by_cases hname : name = other
      · subst hname
        rw [List.filter_cons_of_neg (by simp), List.lookup_cons, hkey]
        exact ih
      · rw [List.filter_cons_of_pos (by simpa using hname), List.lookup_cons, List.lookup_cons, ih]

theorem get_remove_ne {target new : Jsonb} {key other : Str} (hne : key ≠ other)
    (h : target.remove other = .ok new) : new.get key = target.get key := by
  cases target with
  | object fields =>
      obtain rfl := Except.ok.inj h
      exact lookup_filter_ne hne fields
  | array items =>
      obtain rfl := Except.ok.inj h
      rfl
  | null | bool | number | string => cases h

end Jsonb

theorem mapM_some {metadata new : Option Jsonb} {change : Jsonb → Except (Str × Str) Jsonb}
    (h : metadata.mapM change = .ok new) :
    (metadata = none ∧ new = none) ∨
      ∃ target changed, metadata = some target ∧ change target = .ok changed ∧
        new = some changed := by
  cases metadata with
  | none =>
      refine .inl ⟨rfl, ?_⟩
      simpa [pure, Except.pure] using h.symm
  | some target =>
      cases hchange : change target with
      | error e => simp [hchange, Functor.map, Except.map] at h
      | ok changed =>
          refine .inr ⟨target, changed, rfl, hchange, ?_⟩
          simpa [hchange, Functor.map, Except.map] using h.symm

-- An operation on another key does not touch this one.
theorem newMeta_apart {operation : Operation} {key : Str} {metadata new : Option Jsonb}
    (hapart : MetaRegister.touches key operation = false)
    (h : operation.newMeta metadata = .ok new) :
    new.bind (·.get key) = metadata.bind (·.get key) := by
  cases operation with
  | delete => simp [MetaRegister.touches] at hapart
  | updateMeta value => simp [MetaRegister.touches] at hapart
  | upsertMetaKey other value =>
      have hne : key ≠ other := by
        rintro rfl
        simp [MetaRegister.touches] at hapart
      cases hset : (metadata.getD (.object [])).set other value with
      | error e => simp [Operation.newMeta, hset, Except.map] at h
      | ok changed =>
          simp only [Operation.newMeta, hset, Except.map] at h
          obtain rfl := Except.ok.inj h
          rw [Option.bind_some, Jsonb.get_set_ne hne hset]
          cases metadata <;> rfl
  | deleteMetaKey other =>
      have hne : key ≠ other := by
        rintro rfl
        simp [MetaRegister.touches] at hapart
      rcases mapM_some h with ⟨rfl, rfl⟩ | ⟨target, changed, rfl, hchange, rfl⟩
      · rfl
      · exact Jsonb.get_remove_ne hne hchange
  | compareAndSwap other expected value =>
      have hne : key ≠ other := by
        rintro rfl
        simp [MetaRegister.touches] at hapart
      rcases mapM_some h with ⟨rfl, rfl⟩ | ⟨target, changed, rfl, hchange, rfl⟩
      · rfl
      · exact Jsonb.get_set_ne hne hchange

namespace World

variable {world : World Uuid} {session : Uuid}

theorem rowOf_some {row : Row Uuid} (h : world.rowOf session = some row) :
    row ∈ world.table ∧ world.origin row.id = session :=
  ⟨List.mem_of_find?_eq_some h, by simpa using List.find?_some h⟩

theorem Valid.rowOf_of_mem (valid : world.Valid) {row : Row Uuid} (hrow : row ∈ world.table)
    (hsession : world.origin row.id = session) : world.rowOf session = some row := by
  cases hfind : world.rowOf session with
  | none => exact absurd hsession (by simpa using List.find?_eq_none.mp hfind row hrow)
  | some found =>
      obtain ⟨hfound, horigin⟩ := rowOf_some hfind
      rw [valid.row_unique hfound hrow (horigin.trans hsession.symm)]

-- A ping takes the session's meta along, if it leaves the session a row.
theorem Valid.ping_metaValue (valid : world.Valid) (now : Int) {fresh : Uuid}
    (hfresh : fresh ∉ world.issued) (pMinutes : Int) (id session : Uuid) (key : Str)
    {left : Row Uuid} (hleft : (world.next now (.ping fresh pMinutes id)).rowOf session = some left) :
    (world.next now (.ping fresh pMinutes id)).metaValue session key =
      world.metaValue session key := by
  obtain ⟨hmem, horigin⟩ := rowOf_some hleft
  have hcommand : world.Fresh (.ping fresh pMinutes id) := hfresh
  have hold : ∀ row ∈ world.table,
      (world.next now (.ping fresh pMinutes id)).origin row.id = world.origin row.id :=
    fun row hrow => Valid.next_origin hcommand (valid.idIssued row hrow)
  have hback : ∃ row ∈ world.table, world.origin row.id = session ∧
      left.metadata = row.metadata := by
    rcases valid.ping_cases now hfresh pMinutes id with
      ⟨_, hrows⟩ | ⟨row, hrow, _, _, hrotated, _, hrows⟩
    · obtain ⟨row, hrow, rfl | rfl⟩ := hrows left hmem
      · exact ⟨left, hrow, hold left hrow ▸ horigin, rfl⟩
      · exact ⟨row, hrow, hold row hrow ▸ horigin, rfl⟩
    · rcases hrows left hmem with rfl | ⟨hkept, _⟩
      · exact ⟨row, hrow, hrotated.symm.trans horigin, rfl⟩
      · exact ⟨left, hkept, hold left hkept ▸ horigin, rfl⟩
  obtain ⟨row, hrow, hsession, hmetadata⟩ := hback
  rw [metaValue, metaValue, hleft, valid.rowOf_of_mem hrow hsession, Option.bind_some,
    Option.bind_some, hmetadata]

-- What happens to the row of another session does not count.
theorem metaValue_apart {front back : List (Row Uuid)} {row : Row Uuid}
    (hsplit : world.table = front ++ row :: back) (hother : world.origin row.id ≠ session)
    (key : Str) (now : Int) (rows : List (Row Uuid))
    (hrows : ∀ other ∈ rows, other.id = row.id) :
    ({ world with clock := now, table := front ++ rows ++ back } : World Uuid).metaValue
      session key = world.metaValue session key := by
  have hfind : ∀ rows : List (Row Uuid), (∀ other ∈ rows, other.id = row.id) →
      (front ++ rows ++ back).find? (fun other => world.origin other.id = session) =
        (front ++ back).find? fun other => world.origin other.id = session := by
    intro rows hrows
    have hnone : rows.find? (fun other => world.origin other.id = session) = none := by
      rw [List.find?_eq_none]
      intro other hmem
      simpa [hrows other hmem] using hother
    simp [List.find?_append, hnone]
  have hbefore := hfind [row] (by simp)
  rw [List.append_assoc, List.singleton_append, ← hsplit] at hbefore
  unfold metaValue rowOf
  rw [hfind rows hrows, hbefore]

-- And what happens to its own row is seen.
theorem Valid.metaValue_own (valid : world.Valid) {front back : List (Row Uuid)} {row : Row Uuid}
    (hsplit : world.table = front ++ row :: back) (hown : world.origin row.id = session)
    (key : Str) (now : Int) (metadata : Option Jsonb) :
    ({ world with clock := now, table := front ++ { row with metadata := metadata } :: back } :
      World Uuid).metaValue session key = metadata.bind (·.get key) := by
  have hfront : front.find? (fun other => world.origin other.id = session) = none := by
    rw [List.find?_eq_none]
    intro other hother
    have hapart := (valid.others hsplit other (List.mem_append_left _ hother)).2
    rw [hown] at hapart
    simpa using hapart
  simp [metaValue, rowOf, List.find?_append, hfront, hown]

theorem Valid.metaValue_row (valid : world.Valid) {row : Row Uuid} (hrow : row ∈ world.table)
    (hown : world.origin row.id = session) (key : Str) :
    world.metaValue session key = row.metadata.bind (·.get key) := by
  rw [metaValue, valid.rowOf_of_mem hrow hown, Option.bind_some]

end World

end Saps.Auth
