import Mathlib.Data.List.AList

-- The order in which an iteration meets the keys of a map. Nothing is known
-- about it except that every key is met once.
structure Order (Key : Type) where
  arrange : List Key → List Key
  arrange_perm : ∀ keys, (arrange keys).Perm keys

-- A finite map with an unspecified iteration order.
structure HashMap (Key Value : Type) where
  entries : AList fun _ : Key => Value
  order : Order Key

namespace Order

variable {Key : Type}

def identity : Order Key :=
  ⟨id, fun _ => .refl _⟩

-- The order that meets `target` in place of `source` and no other change.
def redirect [DecidableEq Key] (source target : List Key) (h : target.Perm source) :
    Order Key where
  arrange keys := if keys = source then target else keys
  arrange_perm keys := by
    split
    · next hk => exact hk ▸ h
    · exact .refl _

end Order

namespace HashMap

variable {Key Value : Type}

def new : HashMap Key Value :=
  ⟨∅, .identity⟩

-- The keys in the order an iteration meets them.
def keys (map : HashMap Key Value) : List Key :=
  map.order.arrange map.entries.keys

theorem keys_nodup (map : HashMap Key Value) : map.keys.Nodup :=
  (map.order.arrange_perm _).nodup_iff.mpr map.entries.keys_nodup

variable [DecidableEq Key]

def lookup (map : HashMap Key Value) (key : Key) : Option Value :=
  map.entries.lookup key

def insert (map : HashMap Key Value) (key : Key) (value : Value) : HashMap Key Value :=
  { map with entries := map.entries.insert key value }

def erase (map : HashMap Key Value) (key : Key) : HashMap Key Value :=
  { map with entries := map.entries.erase key }

@[simp] theorem lookup_new (key : Key) : (new : HashMap Key Value).lookup key = none :=
  AList.lookup_empty key

@[simp] theorem lookup_insert (map : HashMap Key Value) (key other : Key) (value : Value) :
    (map.insert key value).lookup other = if other = key then some value else map.lookup other := by
  by_cases h : other = key
  · subst h; simp [lookup, insert]
  · simp [lookup, insert, h, AList.lookup_insert_ne h]

@[simp] theorem lookup_erase (map : HashMap Key Value) (key other : Key) :
    (map.erase key).lookup other = if other = key then none else map.lookup other := by
  by_cases h : other = key
  · subst h; simp [lookup, erase]
  · simp [lookup, erase, h, AList.lookup_erase_ne h]

theorem erase_absent (map : HashMap Key Value) {key : Key} (h : map.lookup key = none) :
    map.erase key = map := by
  have hentries : map.entries.erase key = map.entries := by
    refine AList.ext (List.kerase_of_notMem_keys ?_)
    exact AList.lookup_eq_none.mp h
  unfold erase
  rw [hentries]

theorem lookup_foldl_erase (keys : List Key) (map : HashMap Key Value) (other : Key) :
    (keys.foldl (fun left key => left.erase key) map).lookup other =
      if other ∈ keys then none else map.lookup other := by
  induction keys generalizing map with
  | nil => rfl
  | cons key keys ih =>
      rw [List.foldl_cons, ih, lookup_erase]
      by_cases hkey : other = key
      · simp [hkey]
      · simp [hkey]

theorem mem_keys (map : HashMap Key Value) (key : Key) :
    key ∈ map.keys ↔ (map.lookup key).isSome := by
  unfold keys lookup
  rw [(map.order.arrange_perm _).mem_iff, ← AList.mem_keys, AList.lookup_isSome]

-- The values in the order of their keys.
def values (map : HashMap Key Value) : List Value :=
  map.keys.filterMap map.lookup

-- The entry of `other` at `key` on top.
def overwrite (other map : HashMap Key Value) (key : Key) : HashMap Key Value :=
  match other.lookup key with
  | some value => map.insert key value
  | none => map

-- The entries of `other` on top, each put in as an iteration of `other` meets it.
def extend (map other : HashMap Key Value) : HashMap Key Value :=
  other.keys.foldl other.overwrite map

@[simp] theorem lookup_overwrite (map other : HashMap Key Value) (first key : Key) :
    (other.overwrite map first).lookup key =
      if key = first then (other.lookup key).or (map.lookup key) else map.lookup key := by
  unfold overwrite
  by_cases hkey : key = first
  · subst hkey
    cases other.lookup key <;> simp
  · cases other.lookup first <;> simp [hkey]

theorem lookup_foldl_overwrite (other : HashMap Key Value) (keys : List Key)
    (map : HashMap Key Value) (key : Key) :
    (keys.foldl other.overwrite map).lookup key =
      if key ∈ keys then (other.lookup key).or (map.lookup key) else map.lookup key := by
  induction keys generalizing map with
  | nil => simp
  | cons first keys ih =>
      rw [List.foldl_cons, ih, lookup_overwrite]
      by_cases hkey : key = first
      · subst hkey
        cases other.lookup key <;> simp
      · simp [hkey]

@[simp] theorem lookup_extend (map other : HashMap Key Value) (key : Key) :
    (map.extend other).lookup key = (other.lookup key).or (map.lookup key) := by
  rw [extend, lookup_foldl_overwrite]
  split
  · rfl
  · next hkey =>
    have hnone : other.lookup key = none := by
      simpa [mem_keys] using hkey
    rw [hnone, Option.none_or]

theorem keys_insert_perm (map : HashMap Key Value) {key : Key} (h : map.lookup key = none)
    (value : Value) : (map.insert key value).keys.Perm (key :: map.keys) := by
  have hfresh : key ∉ map.entries.keys := AList.lookup_eq_none.mp h
  have hkeys : (map.insert key value).entries.keys = key :: map.entries.keys := by
    unfold insert
    rw [AList.keys_insert, List.erase_of_not_mem hfresh]
  refine (map.order.arrange_perm _).trans ?_
  rw [hkeys]
  exact ((map.order.arrange_perm _).symm).cons key

theorem values_insert_perm (map : HashMap Key Value) {key : Key} (h : map.lookup key = none)
    (value : Value) : (map.insert key value).values.Perm (value :: map.values) := by
  have hothers : map.keys.filterMap (map.insert key value).lookup = map.values := by
    refine List.filterMap_congr fun other hother => ?_
    rw [lookup_insert, if_neg]
    rintro rfl
    rw [mem_keys, h] at hother
    contradiction
  have hperm := (map.keys_insert_perm h value).filterMap (map.insert key value).lookup
  rw [List.filterMap_cons_some (show (map.insert key value).lookup key = some value by simp),
    hothers] at hperm
  exact hperm

theorem length_values (map : HashMap Key Value) : map.values.length = map.keys.length := by
  have hall (keys : List Key) (h : ∀ key ∈ keys, (map.lookup key).isSome) :
      (keys.filterMap map.lookup).length = keys.length := by
    induction keys with
    | nil => rfl
    | cons key keys ih =>
        obtain ⟨value, hvalue⟩ := Option.isSome_iff_exists.mp (h key List.mem_cons_self)
        rw [List.filterMap_cons_some hvalue, List.length_cons, List.length_cons,
          ih fun other hother => h other (List.mem_cons_of_mem _ hother)]
  exact hall map.keys fun key hkey => (map.mem_keys key).mp hkey

-- Maps with the same keys meet them in some permutation of each other.
theorem keys_perm (map other : HashMap Key Value)
    (h : ∀ key, (map.lookup key).isSome = (other.lookup key).isSome) :
    map.keys.Perm other.keys := by
  rw [List.perm_ext_iff_of_nodup map.keys_nodup other.keys_nodup]
  intro key
  rw [mem_keys, mem_keys, h]

-- Every arrangement of the keys is the iteration order of a map with the same entries.
theorem exists_keys_eq (map : HashMap Key Value) (target : List Key)
    (h : target.Perm map.keys) :
    ∃ other : HashMap Key Value, other.lookup = map.lookup ∧ other.keys = target := by
  have hperm : target.Perm map.entries.keys := h.trans (map.order.arrange_perm _)
  refine ⟨⟨map.entries, .redirect map.entries.keys target hperm⟩, rfl, ?_⟩
  simp [keys, Order.redirect]

theorem kerase_eq_filter {entries : List (Sigma fun _ : Key => Value)} (key : Key)
    (h : entries.NodupKeys) : entries.kerase key = entries.filter fun entry => entry.1 ≠ key := by
  induction entries with
  | nil => rfl
  | cons entry entries ih =>
      obtain ⟨hfresh, hrest⟩ := List.nodupKeys_cons.mp h
      by_cases heq : key = entry.1
      · rw [List.kerase_cons_eq heq, List.filter_cons_of_neg (by simp [heq])]
        have hne (other : Sigma fun _ : Key => Value) (hother : other ∈ entries) :
            other.1 ≠ key := fun hkey => hfresh (heq ▸ hkey ▸ List.mem_keys_of_mem hother)
        exact (List.filter_eq_self.mpr fun other hother => decide_eq_true (hne other hother)).symm
      · rw [List.kerase_cons_ne heq, List.filter_cons_of_pos (by simpa using fun h => heq h.symm),
          ih hrest]

theorem foldl_erase_entries (keys : List Key) (map : HashMap Key Value) :
    (keys.foldl (fun left key => left.erase key) map).entries.entries =
      map.entries.entries.filter fun entry => entry.1 ∉ keys := by
  induction keys generalizing map with
  | nil => exact (List.filter_eq_self.mpr fun entry _ => by simp).symm
  | cons key keys ih =>
      rw [List.foldl_cons, ih]
      change (map.entries.entries.kerase key).filter _ = _
      rw [kerase_eq_filter key map.entries.nodupKeys, List.filter_filter]
      refine List.filter_congr fun entry _ => ?_
      simp [Bool.and_comm]

theorem foldl_erase_order (keys : List Key) (map : HashMap Key Value) :
    (keys.foldl (fun left key => left.erase key) map).order = map.order := by
  induction keys generalizing map with
  | nil => rfl
  | cons key keys ih => rw [List.foldl_cons, ih]; rfl

-- Only the stored keys among those that are erased matter.
theorem foldl_erase_congr {left right : List Key} (map : HashMap Key Value)
    (h : ∀ key ∈ map.keys, key ∈ left ↔ key ∈ right) :
    left.foldl (fun map key => map.erase key) map =
      right.foldl (fun map key => map.erase key) map := by
  have hentries : (left.foldl (fun map key => map.erase key) map).entries =
      (right.foldl (fun map key => map.erase key) map).entries := by
    refine AList.ext ?_
    rw [foldl_erase_entries, foldl_erase_entries]
    refine List.filter_congr fun entry hentry => ?_
    have hkey : entry.1 ∈ map.keys :=
      (map.order.arrange_perm _).mem_iff.mpr (List.mem_keys_of_mem hentry)
    simp [h entry.1 hkey]
  have horder : (left.foldl (fun map key => map.erase key) map).order =
      (right.foldl (fun map key => map.erase key) map).order := by
    rw [foldl_erase_order, foldl_erase_order]
  generalize left.foldl (fun map key => map.erase key) map = first at hentries horder ⊢
  generalize right.foldl (fun map key => map.erase key) map = second at hentries horder ⊢
  cases first
  cases second
  cases hentries
  cases horder
  rfl

end HashMap
