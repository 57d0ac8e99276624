import Saps.Lib.HashMap

-- Loops that put the values of some keys under new keys.
namespace HashMap

variable {Key Value : Type}

-- No two keys go to the same one, and none goes to another one of them.
structure Apart (new : Key → Key) (keys : List Key) : Prop where
  distinct : ∀ left ∈ keys, ∀ right ∈ keys, new left = new right → left = right
  unchained : ∀ left ∈ keys, ∀ right ∈ keys, new left = right → left = right

theorem Apart.of_cons {new : Key → Key} {key : Key} {keys : List Key}
    (h : Apart new (key :: keys)) : Apart new keys := by
  refine ⟨?_, ?_⟩
  · intro left hleft right hright
    exact h.distinct left (List.mem_cons_of_mem _ hleft) right (List.mem_cons_of_mem _ hright)
  · intro left hleft right hright
    exact h.unchained left (List.mem_cons_of_mem _ hleft) right (List.mem_cons_of_mem _ hright)

variable [DecidableEq Key]

def rekey (new : Key → Key) (map : HashMap Key Value) (key : Key) : HashMap Key Value :=
  match map.lookup key with
  | some value => (map.erase key).insert (new key) value
  | none => map

def duplicate (new : Key → Key) (map : HashMap Key Value) (key : Key) : HashMap Key Value :=
  match map.lookup key with
  | some value => map.insert (new key) value
  | none => map

-- What such a loop leaves behind, whatever order it takes the keys in. The old
-- keys are there still when `keep` holds.
def Moved (keep : Prop) (new : Key → Key) (keys : List Key) (before after : HashMap Key Value) :
    Prop :=
  ∀ key value, after.lookup key = some value ↔
    (∃ old ∈ keys, new old = key ∧ before.lookup old = some value) ∨
      ((keep ∨ key ∉ keys) ∧ (∀ old ∈ keys, new old ≠ key) ∧ before.lookup key = some value)

theorem lookup_rekey (new : Key → Key) (map : HashMap Key Value) (key other : Key) {value : Value}
    (h : map.lookup key = some value) : (map.rekey new key).lookup other =
      if other = new key then some value else if other = key then none else map.lookup other := by
  unfold rekey
  rw [h]
  simp

theorem lookup_duplicate (new : Key → Key) (map : HashMap Key Value) (key other : Key)
    {value : Value} (h : map.lookup key = some value) : (map.duplicate new key).lookup other =
      if other = new key then some value else map.lookup other := by
  unfold duplicate
  rw [h]
  simp

-- One turn more in front of a loop. A step changes no key the others still read.
theorem Moved.cons {keep : Prop} {new : Key → Key} {key : Key} {keys : List Key}
    {before mid after : HashMap Key Value} {value : Value} (hnodup : (key :: keys).Nodup)
    (hapart : Apart new (key :: keys)) (hkey : before.lookup key = some value)
    (hmid : ∀ other, (mid.lookup other = some value ∧ other = new key) ∨
      (other ≠ new key ∧ other = key ∧ mid.lookup other = none ∧ ¬keep) ∨
      (other ≠ new key ∧ (keep ∨ other ≠ key) ∧ mid.lookup other = before.lookup other))
    (h : Moved keep new keys mid after) : Moved keep new (key :: keys) before after := by
  obtain ⟨hfresh, _⟩ := List.nodup_cons.mp hnodup
  have hne (other : Key) (hother : other ∈ keys) : other ≠ key :=
    fun heq => hfresh (heq ▸ hother)
  have hunread (other : Key) (hother : other ∈ keys) : other ≠ new key := fun heq =>
    hne other hother (hapart.unchained key List.mem_cons_self other
      (List.mem_cons_of_mem _ hother) heq.symm).symm
  have hunclaimed (other : Key) (hother : other ∈ keys) : new other ≠ new key := fun heq =>
    hne other hother (hapart.distinct other (List.mem_cons_of_mem _ hother) key
      List.mem_cons_self heq)
  have hread (other : Key) (hother : other ∈ keys) : mid.lookup other = before.lookup other := by
    rcases hmid other with ⟨_, heq⟩ | ⟨_, heq, _⟩ | ⟨_, _, heq⟩
    · exact absurd heq (hunread other hother)
    · exact absurd heq (hne other hother)
    · exact heq
  intro target result
  rw [h target result]
  constructor
  · rintro (⟨old, hold, htarget, hresult⟩ | ⟨hkept, hnot, hresult⟩)
    · exact .inl ⟨old, List.mem_cons_of_mem _ hold, htarget, hread old hold ▸ hresult⟩
    · rcases hmid target with ⟨hlookup, heq⟩ | ⟨_, _, hlookup, _⟩ | ⟨hnew, hstay, hlookup⟩
      · rw [hlookup] at hresult
        exact .inl ⟨key, List.mem_cons_self, heq.symm, hresult ▸ hkey⟩
      · rw [hlookup] at hresult
        contradiction
      · refine .inr ⟨?_, ?_, hlookup ▸ hresult⟩
        · rcases hkept with hkeep | hkept
          · exact .inl hkeep
          · exact hstay.imp_right fun hne => List.not_mem_cons_of_ne_of_not_mem hne hkept
        · exact List.forall_mem_cons.mpr ⟨hnew.symm, hnot⟩
  · rintro (⟨old, hold, htarget, hresult⟩ | ⟨hkept, hnot, hresult⟩)
    · rcases List.mem_cons.mp hold with rfl | hold
      · refine .inr ⟨.inr ?_, ?_, ?_⟩
        · exact fun hmem => hunread target hmem htarget.symm
        · exact fun other hother heq => hunclaimed other hother (heq.trans htarget.symm)
        · rcases hmid target with ⟨hlookup, _⟩ | ⟨hne', _⟩ | ⟨hne', _⟩
          · rw [hlookup, ← hkey, hresult]
          · exact absurd htarget.symm hne'
          · exact absurd htarget.symm hne'
      · exact .inl ⟨old, hold, htarget, (hread old hold).symm ▸ hresult⟩
    · obtain ⟨hfirst, hnot⟩ := List.forall_mem_cons.mp hnot
      refine .inr ⟨hkept.imp_right fun hmem => List.not_mem_of_not_mem_cons hmem, hnot, ?_⟩
      rcases hmid target with ⟨_, heq⟩ | ⟨_, heq, _, hdrop⟩ | ⟨_, _, hlookup⟩
      · exact absurd heq.symm hfirst
      · rcases hkept with hkeep | hmem
        · exact absurd hkeep hdrop
        · exact absurd heq (List.ne_of_not_mem_cons hmem)
      · rw [hlookup, hresult]

theorem moved_nil (keep : Prop) (new : Key → Key) (map : HashMap Key Value) :
    Moved keep new [] map map := by
  intro key value
  simp

theorem foldl_rekey (new : Key → Key) (map : HashMap Key Value) {keys : List Key}
    (hnodup : keys.Nodup) (hapart : Apart new keys)
    (hstored : ∀ key ∈ keys, (map.lookup key).isSome) :
    Moved False new keys map (keys.foldl (rekey new) map) := by
  induction keys generalizing map with
  | nil => exact moved_nil _ _ _
  | cons key keys ih =>
      obtain ⟨value, hkey⟩ := Option.isSome_iff_exists.mp (hstored key List.mem_cons_self)
      obtain ⟨hfresh, hrest⟩ := List.nodup_cons.mp hnodup
      refine Moved.cons hnodup hapart hkey ?_ (ih (map.rekey new key) hrest hapart.of_cons ?_)
      · intro other
        rw [lookup_rekey new map key other hkey]
        by_cases hnew : other = new key
        · simp [hnew]
        · by_cases hold : other = key
          · exact .inr (.inl ⟨hnew, hold, by rw [if_neg hnew, if_pos hold], not_false⟩)
          · simp [hnew, hold]
      · intro other hother
        rw [lookup_rekey new map key other hkey]
        split
        · rfl
        · rw [if_neg fun heq : other = key => hfresh (heq ▸ hother)]
          exact hstored other (List.mem_cons_of_mem _ hother)

theorem foldl_duplicate (new : Key → Key) (map : HashMap Key Value) {keys : List Key}
    (hnodup : keys.Nodup) (hapart : Apart new keys)
    (hstored : ∀ key ∈ keys, (map.lookup key).isSome) :
    Moved True new keys map (keys.foldl (duplicate new) map) := by
  induction keys generalizing map with
  | nil => exact moved_nil _ _ _
  | cons key keys ih =>
      obtain ⟨value, hkey⟩ := Option.isSome_iff_exists.mp (hstored key List.mem_cons_self)
      obtain ⟨hfresh, hrest⟩ := List.nodup_cons.mp hnodup
      refine Moved.cons hnodup hapart hkey ?_ (ih (map.duplicate new key) hrest hapart.of_cons ?_)
      · intro other
        rw [lookup_duplicate new map key other hkey]
        by_cases hnew : other = new key
        · simp [hnew]
        · simp [hnew]
      · intro other hother
        rw [lookup_duplicate new map key other hkey]
        split
        · rfl
        · exact hstored other (List.mem_cons_of_mem _ hother)

end HashMap
