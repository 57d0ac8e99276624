import Saps.Auth.MetaSelection

namespace Saps.Auth.MetaSelection

variable {Uuid : Type}

-- Only an object holds anything under a key.
theorem object_of_metaGet {row : Row Uuid} {key : Str} {held : Jsonb}
    (h : row.metaGet key = some held) :
    ∃ fields, row.metadata = some (.object fields) ∧ fields.lookup key = some held := by
  obtain ⟨json, hmeta, hget⟩ := Option.bind_eq_some_iff.mp h
  cases json with
  | object fields => exact ⟨fields, hmeta, hget⟩
  | null | bool | number | string | array => simp [Jsonb.get] at hget

-- A row contains an object if it holds every field of it.
theorem any_contains_iff (row : Row Uuid) (first : Str × Jsonb) (rest : List (Str × Jsonb)) :
    row.metadata.any (·.contains (.object (first :: rest))) = true ↔
      ∀ part ∈ first :: rest,
        ∃ held, row.metaGet part.1 = some held ∧ held.contains part.2 = true := by
  constructor
  · intro h
    obtain ⟨json, hmeta, hcontains⟩ := (Option.any_eq_true _ _).mp h
    cases json with
    | object fields =>
        simpa only [Row.metaGet, hmeta, Option.bind_some, Jsonb.get] using
          (Jsonb.object_contains _ _).mp hcontains
    | null | bool | number | string | array => simp [Jsonb.contains] at hcontains
  · intro h
    obtain ⟨_, hfirst, _⟩ := h first List.mem_cons_self
    obtain ⟨fields, hmeta, _⟩ := object_of_metaGet hfirst
    rw [hmeta, Option.any_some, Jsonb.object_contains]
    simpa only [Row.metaGet, hmeta, Option.bind_some, Jsonb.get] using h

theorem metaContains_single (row : Row Uuid) (key : Str) (value : Jsonb) :
    row.metaContains [(key, value)] = true ↔
      ∃ held, row.metaGet key = some held ∧ held.contains value = true := by
  have h := any_contains_iff row (key, value) []
  simp only [List.mem_singleton, forall_eq] at h
  exact h

-- Of two values for one key it is the second one that counts.
theorem metaContains_pair (row : Row Uuid) (key1 key2 : Str) (value1 value2 : Jsonb) :
    row.metaContains [(key1, value1), (key2, value2)] = true ↔
      (∃ held, row.metaGet key2 = some held ∧ held.contains value2 = true) ∧
        (key1 = key2 ∨ ∃ held, row.metaGet key1 = some held ∧ held.contains value1 = true) := by
  simp only [Row.metaContains, jsonbBuildObject, List.foldl_cons, List.foldl_nil, Jsonb.setField]
  split
  · next hkey =>
    have h := any_contains_iff row (key2, value2) []
    simp only [List.mem_singleton, forall_eq] at h
    simp [h, hkey]
  · next hkey =>
    split
    · have h := any_contains_iff row (key2, value2) [(key1, value1)]
      simp only [List.mem_cons, List.not_mem_nil, or_false, forall_eq_or_imp, forall_eq] at h
      simp only [h, hkey, false_or]
    · have h := any_contains_iff row (key1, value1) [(key2, value2)]
      simp only [List.mem_cons, List.not_mem_nil, or_false, forall_eq_or_imp, forall_eq] at h
      rw [h, and_comm]
      simp only [hkey, false_or]

theorem metaEquals_iff (key : Str) (value : Jsonb) (row : Row Uuid) :
    metaEquals key value row = true ↔ row.metaGet key = some value :=
  decide_eq_true_iff

-- The write does not fail in a row whose meta is an object.
theorem changedRow_ok (matched : Row Uuid → Bool) (key : Str) (value : Jsonb) {row : Row Uuid}
    (h : matched row = true → ∃ fields, row.metadata = some (.object fields)) :
    Dal.changedRow matched (Dal.upsertMeta key value) row =
      .ok (if matched row then withKey key value row else row) := by
  unfold Dal.changedRow
  split
  · next hmatched =>
    obtain ⟨fields, hmeta⟩ := h hmatched
    simp [Dal.upsertMeta, withKey, hmeta, Jsonb.set, Except.map]
  · rfl

theorem mapM_ok {α β ε : Type} {f : α → Except ε β} {g : α → β} {items : List α}
    (h : ∀ item ∈ items, f item = .ok (g item)) : items.mapM f = .ok (items.map g) := by
  induction items with
  | nil => rfl
  | cons first rest ih =>
      rw [List.mapM_cons, h first List.mem_cons_self,
        ih fun item hitem => h item (List.mem_cons_of_mem _ hitem)]
      rfl

theorem updateWhere_eq {matched : Row Uuid → Bool} (table : AuthSessions Uuid)
    (h : ∀ row, matched row = true → ∃ fields, row.metadata = some (.object fields))
    (key : Str) (value : Jsonb) :
    Dal.updateWhere matched (Dal.upsertMeta key value) table =
      (.ok (table.countP matched),
        table.map fun row => if matched row then withKey key value row else row) := by
  have hrows := mapM_ok fun row (_ : row ∈ table) => changedRow_ok matched key value (h row)
  simp only [Dal.updateWhere, hrows]

-- The statements of one `WHERE` are exact on a table where it selects no more
-- rows than the documented ones, and on no other.
theorem exact_iff (Role : Type) [UserRole Role] {documented matched : Row Uuid → Bool}
    (hobject : ∀ row, matched row = true → ∃ fields, row.metadata = some (.object fields))
    (hmore : ∀ row, documented row = true → matched row = true) (table : AuthSessions Uuid) :
    Exact Role documented (Dal.selectWhere matched)
        (fun key value => Dal.updateWhere matched (Dal.upsertMeta key value))
        (Dal.deleteWhere matched) table ↔
      ∀ row ∈ table, matched row = true → documented row = true := by
  constructor
  · intro h row hrow hmatched
    by_contra hother
    have hdeleted : (table.filter fun row => !matched row) =
        table.filter fun row => !documented row := congrArg Prod.snd h.deleted
    have hkept : row ∈ table.filter fun row => !documented row :=
      List.mem_filter.mpr ⟨hrow, by simpa using hother⟩
    rw [← hdeleted] at hkept
    have hunmatched := (List.mem_filter.mp hkept).2
    simp [hmatched] at hunmatched
  · intro h
    have hsame : ∀ row ∈ table, matched row = documented row := fun row hrow =>
      Bool.eq_iff_iff.mpr ⟨h row hrow, hmore row⟩
    have hcount : table.countP matched = table.countP documented :=
      List.countP_congr fun row hrow => by rw [hsame row hrow]
    refine ⟨?_, fun key value => ?_, ?_⟩
    · rw [Dal.selectWhere, List.filter_congr hsame]
    · rw [updateWhere_eq table hobject, hcount]
      refine congrArg (Prod.mk _) (List.map_congr_left fun row hrow => ?_)
      rw [hsame row hrow]
    · rw [Dal.deleteWhere, hcount]
      refine congrArg (Prod.mk _) (List.filter_congr fun row hrow => ?_)
      rw [hsame row hrow]

theorem exactByKey_iff (Role : Type) [UserRole Role] (key : Str) (value : Value)
    (table : AuthSessions Uuid) :
    ExactByKey Role key value.val table ↔
      ∀ row ∈ table, ∀ held, row.metaGet key = some held →
        held.contains value.val = true → held = value.val := by
  have hobject : ∀ row : Row Uuid, row.metaContains [(key, value.val)] = true →
      ∃ fields, row.metadata = some (.object fields) := by
    intro row hrow
    obtain ⟨held, hheld, _⟩ := (metaContains_single row key value.val).mp hrow
    obtain ⟨fields, hmeta, _⟩ := object_of_metaGet hheld
    exact ⟨fields, hmeta⟩
  have hmore : ∀ row : Row Uuid, metaEquals key value.val row = true →
      row.metaContains [(key, value.val)] = true := fun row hrow =>
    (metaContains_single row key value.val).mpr
      ⟨value.val, (metaEquals_iff _ _ _).mp hrow, Jsonb.contains_self value.property⟩
  refine (exact_iff Role hobject hmore table).trans (forall₂_congr fun row _ => ?_)
  rw [metaContains_single, metaEquals_iff]
  constructor
  · intro h held hheld hcontains
    have hvalue := h ⟨held, hheld, hcontains⟩
    rw [hheld] at hvalue
    exact Option.some.inj hvalue
  · rintro h ⟨held, hheld, hcontains⟩
    rw [hheld, h held hheld hcontains]

theorem pairEquals_iff (key1 : Str) (value1 : Jsonb) (key2 : Str) (value2 : Jsonb)
    (row : Row Uuid) :
    pairEquals key1 value1 key2 value2 row = true ↔
      row.metaGet key1 = some value1 ∧ row.metaGet key2 = some value2 := by
  simp only [pairEquals, Bool.and_eq_true, metaEquals_iff]

theorem exactByPair_iff (Role : Type) [UserRole Role] (key1 : Str) (value1 : Value) (key2 : Str)
    (value2 : Value) (table : AuthSessions Uuid) :
    ExactByPair Role key1 value1.val key2 value2.val table ↔
      ∀ row ∈ table, ∀ held1 held2,
        row.metaGet key1 = some held1 → row.metaGet key2 = some held2 →
          (key1 = key2 ∨ held1.contains value1.val = true) →
            held2.contains value2.val = true → held1 = value1.val ∧ held2 = value2.val := by
  have hobject : ∀ row : Row Uuid,
      row.metaContains [(key1, value1.val), (key2, value2.val)] = true →
        ∃ fields, row.metadata = some (.object fields) := by
    intro row hrow
    obtain ⟨⟨held, hheld, _⟩, _⟩ := (metaContains_pair row key1 key2 _ _).mp hrow
    obtain ⟨fields, hmeta, _⟩ := object_of_metaGet hheld
    exact ⟨fields, hmeta⟩
  have hmore : ∀ row : Row Uuid, pairEquals key1 value1.val key2 value2.val row = true →
      row.metaContains [(key1, value1.val), (key2, value2.val)] = true := by
    intro row hrow
    obtain ⟨h1, h2⟩ := (pairEquals_iff _ _ _ _ _).mp hrow
    exact (metaContains_pair row key1 key2 _ _).mpr
      ⟨⟨value2.val, h2, Jsonb.contains_self value2.property⟩,
        .inr ⟨value1.val, h1, Jsonb.contains_self value1.property⟩⟩
  refine (exact_iff Role hobject hmore table).trans (forall₂_congr fun row _ => ?_)
  rw [metaContains_pair, pairEquals_iff]
  constructor
  · intro h held1 held2 hheld1 hheld2 hcontains1 hcontains2
    have hvalues := h ⟨⟨held2, hheld2, hcontains2⟩,
      hcontains1.imp_right fun hcontains => ⟨held1, hheld1, hcontains⟩⟩
    rw [hheld1, hheld2] at hvalues
    exact hvalues.imp Option.some.inj Option.some.inj
  · rintro h ⟨⟨held2, hheld2, hcontains2⟩, hfirst⟩
    have hheld1 : ∃ held1, row.metaGet key1 = some held1 ∧
        (key1 = key2 ∨ held1.contains value1.val = true) := by
      rcases hfirst with hkey | ⟨held1, hheld1, hcontains1⟩
      · exact ⟨held2, hkey ▸ hheld2, .inl hkey⟩
      · exact ⟨held1, hheld1, .inr hcontains1⟩
    obtain ⟨held1, hheld1, hcontains1⟩ := hheld1
    obtain ⟨hvalue1, hvalue2⟩ := h held1 held2 hheld1 hheld2 hcontains1 hcontains2
    rw [hheld1, hheld2, hvalue1, hvalue2]
    exact ⟨rfl, rfl⟩

theorem keyLt_total {left right : Str} (hne : left ≠ right) (h : Jsonb.keyLt right left = false) :
    Jsonb.keyLt left right = true := by
  simp only [Jsonb.keyLt, decide_eq_false_iff_not, decide_eq_true_eq, not_or, not_and] at h ⊢
  rcases lt_trichotomy (Utf8.byteLen left) (Utf8.byteLen right) with hlt | heq | hlt
  · exact .inl hlt
  · refine .inr ⟨heq, ?_⟩
    by_contra hle
    exact hne (List.le_antisymm (h.2 heq.symm) hle)
  · exact absurd hlt h.1

-- A stored table of one row, which holds two given values.
def probe (id : Uuid) (key1 : Str) (held1 : Jsonb) (key2 : Str) (held2 : Jsonb) :
    AuthSessions Uuid :=
  [⟨id, id, "admin".toList, 0, 0, 0, some (jsonbBuildObject [(key1, held1), (key2, held2)])⟩]

theorem jsonbBuildObject_valid (key1 key2 : Str) {held1 held2 : Jsonb} (h1 : held1.Valid)
    (h2 : held2.Valid) : (jsonbBuildObject [(key1, held1), (key2, held2)]).Valid := by
  simp only [jsonbBuildObject, List.foldl_cons, List.foldl_nil, Jsonb.setField]
  split
  · exact .object (by simp) (by simpa using h2)
  · next hkey =>
    split
    · next hlt => exact .object (by simpa using hlt) (by simp [h1, h2])
    · next hlt =>
      have hlt' := keyLt_total hkey (Bool.eq_false_iff.mpr hlt)
      exact .object (by simpa using hlt') (by simp [h1, h2])

theorem probe_stored (id : Uuid) (key1 key2 : Str) {held1 held2 : Jsonb} (h1 : held1.Valid)
    (h2 : held2.Valid) : Stored (probe id key1 held1 key2 held2) := by
  refine ⟨by simp [probe], fun row hrow json hjson => ?_⟩
  rw [List.mem_singleton.mp hrow] at hjson
  rw [← Option.some.inj hjson]
  exact jsonbBuildObject_valid key1 key2 h1 h2

theorem metaGet_probe (id : Uuid) (key1 key2 : Str) (held1 held2 : Jsonb) :
    ∀ row ∈ probe id key1 held1 key2 held2,
      row.metaGet key2 = some held2 ∧
        row.metaGet key1 = some (if key1 = key2 then held2 else held1) := by
  intro row hrow
  rw [List.mem_singleton.mp hrow]
  have hget : ∀ key, Row.metaGet key (⟨id, id, "admin".toList, 0, 0, 0,
      some (jsonbBuildObject [(key1, held1), (key2, held2)])⟩ : Row Uuid) =
      (Jsonb.setField key2 held2 [(key1, held1)]).lookup key := fun _ => rfl
  rw [hget, hget]
  refine ⟨Jsonb.lookup_setField key2 held2 _, ?_⟩
  by_cases hkey : key1 = key2
  · rw [if_pos hkey, hkey, Jsonb.lookup_setField]
  · rw [if_neg hkey, Jsonb.lookup_setField_ne hkey]
    simp

theorem selectsScalar_iff (Role : Type) [UserRole Role] (id : Uuid) (key : Str) (value : Value) :
    (∀ table : AuthSessions Uuid, Stored table → ExactByKey Role key value.val table) ↔
      value.val.isScalar = true := by
  constructor
  · intro h
    refine (Jsonb.contained_only_iff value.property).mp fun whole hvalid hcontains => ?_
    have hexact := h _ (probe_stored id key key hvalid hvalid)
    have hget := metaGet_probe id key key whole whole _ List.mem_cons_self
    exact (exactByKey_iff Role key value _).mp hexact _ List.mem_cons_self whole hget.1 hcontains
  · intro hscalar table _
    refine (exactByKey_iff Role key value table).mpr fun row _ held _ hcontains => ?_
    simpa [Jsonb.contains_scalar hscalar] using hcontains

theorem selectsScalars_iff (Role : Type) [UserRole Role] (id : Uuid) (key1 : Str)
    (value1 : Value) (key2 : Str) (value2 : Value) :
    (∀ table : AuthSessions Uuid, Stored table →
        ExactByPair Role key1 value1.val key2 value2.val table) ↔
      value1.val.isScalar = true ∧ value2.val.isScalar = true ∧
        (key1 = key2 → value1 = value2) := by
  constructor
  · intro h
    have hstored := probe_stored id key1 key2 (Jsonb.extended_valid value1.property)
      (Jsonb.extended_valid value2.property)
    have hget := metaGet_probe id key1 key2 value1.val.extended value2.val.extended _
      List.mem_cons_self
    have hvalues := (exactByPair_iff Role key1 value1 key2 value2 _).mp (h _ hstored) _
      List.mem_cons_self _ _ hget.2 hget.1
    have hscalar : ∀ value : Value, value.val.extended = value.val → value.val.isScalar = true :=
      fun value hsame => by_contra fun hother =>
        Jsonb.extended_ne (Bool.eq_false_iff.mpr hother) hsame
    by_cases hkey : key1 = key2
    · obtain ⟨hvalue1, hvalue2⟩ := hvalues (.inl hkey) (Jsonb.extended_contains value2.property)
      rw [if_pos hkey, hvalue2] at hvalue1
      have hsame : value1 = value2 := Subtype.ext hvalue1.symm
      exact ⟨hsame ▸ hscalar value2 hvalue2, hscalar value2 hvalue2, fun _ => hsame⟩
    · rw [if_neg hkey] at hvalues
      obtain ⟨hvalue1, hvalue2⟩ := hvalues (.inr (Jsonb.extended_contains value1.property))
        (Jsonb.extended_contains value2.property)
      exact ⟨hscalar value1 hvalue1, hscalar value2 hvalue2, fun h => absurd h hkey⟩
  · rintro ⟨hscalar1, hscalar2, hsame⟩ table _
    refine (exactByPair_iff Role key1 value1 key2 value2 table).mpr ?_
    intro row _ held1 held2 hheld1 hheld2 hcontains1 hcontains2
    have hvalue2 : held2 = value2.val := by
      simpa [Jsonb.contains_scalar hscalar2] using hcontains2
    refine ⟨?_, hvalue2⟩
    rcases hcontains1 with hkey | hcontains1
    · rw [hkey, hheld2] at hheld1
      rw [← Option.some.inj hheld1, hvalue2, hsame hkey]
    · simpa [Jsonb.contains_scalar hscalar1] using hcontains1

-- The sessions are selected by equality exactly where no row holds a value that
-- contains the given one and something else. That is so in every table only for
-- scalars, and for one key twice only with the same value.
theorem selection_iff (Role : Type) [UserRole Role] (id : Uuid) (key1 : Str) (value1 : Value)
    (key2 : Str) (value2 : Value) :
    ((∀ table : AuthSessions Uuid, ExactByKey Role key1 value1.val table ↔
        ∀ row ∈ table, ∀ held, row.metaGet key1 = some held →
          held.contains value1.val = true → held = value1.val) ∧
      ((∀ table : AuthSessions Uuid, Stored table → ExactByKey Role key1 value1.val table) ↔
        value1.val.isScalar = true)) ∧
    ((∀ table : AuthSessions Uuid, ExactByPair Role key1 value1.val key2 value2.val table ↔
        ∀ row ∈ table, ∀ held1 held2,
          row.metaGet key1 = some held1 → row.metaGet key2 = some held2 →
            (key1 = key2 ∨ held1.contains value1.val = true) →
              held2.contains value2.val = true → held1 = value1.val ∧ held2 = value2.val) ∧
      ((∀ table : AuthSessions Uuid, Stored table →
          ExactByPair Role key1 value1.val key2 value2.val table) ↔
        value1.val.isScalar = true ∧ value2.val.isScalar = true ∧
          (key1 = key2 → value1 = value2))) := by
  refine ⟨⟨?_, ?_⟩, ?_, ?_⟩
  · exact exactByKey_iff Role key1 value1
  · exact selectsScalar_iff Role id key1 value1
  · exact exactByPair_iff Role key1 value1 key2 value2
  · exact selectsScalars_iff Role id key1 value1 key2 value2

-- A session with `{"user": {"a": 1, "b": 2}}`.
def oneSession : AuthSessions Nat :=
  [⟨0, 0, "admin".toList, 0, 0, 0, some (.object [("user".toList,
    .object [("a".toList, .number 1), ("b".toList, .number 2)])])⟩]

-- It is deleted with the sessions whose user is `{"a": 1}`.
theorem selection_deletes_more :
    Dal.deleteAuthSessionsByMetaKey "user".toList (.object [("a".toList, .number 1)]) oneSession =
        (1, []) ∧
      ¬ExactByKey DefaultRole "user".toList (.object [("a".toList, .number 1)]) oneSession := by
  have hdelete : Dal.deleteAuthSessionsByMetaKey "user".toList
      (.object [("a".toList, .number 1)]) oneSession = (1, []) := by
    decide +kernel
  refine ⟨hdelete, fun h => ?_⟩
  have hdeleted := h.deleted
  rw [hdelete] at hdeleted
  revert hdeleted
  decide +kernel

end Saps.Auth.MetaSelection
