import Saps.Lib.Rekey
import Mathlib.Data.List.Induction

-- Loops that take values to new keys one by one, measured against taking them
-- all at once.
namespace HashMap

variable {Key Value : Type}

-- All values go to their new keys at once. What stood at a key that nothing goes
-- to is left there if the key is not one of the old ones, or if these are kept.
structure AtOnce (keep : Prop) (new : Key → Key) (keys : List Key)
    (before after : Key → Option Value) : Prop where
  landed : ∀ key ∈ keys, after (new key) = before key
  vacated : ¬keep → ∀ key ∈ keys, (∀ other ∈ keys, new other ≠ key) → after key = none
  kept : ∀ key, keep ∨ key ∉ keys → (∀ other ∈ keys, new other ≠ key) → after key = before key

-- Keys that go to one place hold one value.
def Agree (new : Key → Key) (keys : List Key) (before : Key → Option Value) : Prop :=
  ∀ left ∈ keys, ∀ right ∈ keys, new left = new right → before left = before right

theorem Agree.front {new : Key → Key} {front back : List Key} {before : Key → Option Value}
    (h : Agree new (front ++ back) before) : Agree new front before := by
  intro left hleft right hright
  exact h left (List.mem_append_left _ hleft) right (List.mem_append_left _ hright)

namespace AtOnce

variable {keep : Prop} {new : Key → Key} {keys : List Key} {before after : Key → Option Value}

theorem agree (h : AtOnce keep new keys before after) : Agree new keys before := by
  intro left hleft right hright heq
  rw [← h.landed left hleft, ← h.landed right hright, heq]

-- Only which keys are taken matters, not their order.
theorem congr {keys' : List Key} (h : AtOnce keep new keys before after)
    (hmem : ∀ key, key ∈ keys ↔ key ∈ keys') : AtOnce keep new keys' before after := by
  refine ⟨fun key hkey => h.landed key ((hmem key).mpr hkey), ?_, ?_⟩
  · intro hkeep key hkey hnot
    exact h.vacated hkeep key ((hmem key).mpr hkey) fun other hother =>
      hnot other ((hmem other).mp hother)
  · intro key hkey hnot
    exact h.kept key (hkey.imp_right fun hfree hmem' => hfree ((hmem key).mp hmem'))
      fun other hother => hnot other ((hmem other).mp hother)

-- There is one way to do it.
theorem unique {after' : Key → Option Value} (h : AtOnce keep new keys before after)
    (h' : AtOnce keep new keys before after') : after = after' := by
  funext key
  by_cases hlanded : ∃ other ∈ keys, new other = key
  · obtain ⟨other, hother, rfl⟩ := hlanded
    rw [h.landed other hother, h'.landed other hother]
  · have hnot : ∀ other ∈ keys, new other ≠ key := fun other hother heq =>
      hlanded ⟨other, hother, heq⟩
    by_cases hkept : keep ∨ key ∉ keys
    · rw [h.kept key hkept hnot, h'.kept key hkept hnot]
    · obtain ⟨hkeep, hkey⟩ := not_or.mp hkept
      rw [h.vacated hkeep key (not_not.mp hkey) hnot, h'.vacated hkeep key (not_not.mp hkey) hnot]

theorem nil : AtOnce keep new [] before before :=
  ⟨by simp, by simp, by simp⟩

-- One key more, whose value has been taken as it was at the start.
theorem snoc {mid : Key → Option Value} {key : Key} (h : AtOnce keep new keys before mid)
    (hagree : ∀ other ∈ keys, new other = new key → before other = before key)
    (hland : after (new key) = before key)
    (hold : key ≠ new key → ¬keep → after key = none)
    (hrest : ∀ other, other ≠ new key → keep ∨ other ≠ key → after other = mid other)
    (hearlier : ∀ other ∈ keys, new other = key → new key = key ∨ keep) :
    AtOnce keep new (keys ++ [key]) before after := by
  refine ⟨?_, ?_, ?_⟩
  · intro other hother
    rcases List.mem_append.mp hother with hother | hother
    · by_cases hsame : new other = new key
      · rw [hsame, hland, hagree other hother hsame]
      · rw [hrest _ hsame, h.landed other hother]
        by_cases hkey : new other = key
        · rcases hearlier other hother hkey with hfixed | hkeep
          · exact absurd (hkey.trans hfixed.symm) hsame
          · exact .inl hkeep
        · exact .inr hkey
    · rw [List.mem_singleton.mp hother, hland]
  · intro hkeep other hother hnot
    have hne : other ≠ new key := fun heq =>
      hnot key (List.mem_append_right _ (List.mem_singleton_self _)) heq.symm
    by_cases hkey : other = key
    · rw [hkey]
      exact hold (hkey ▸ hne) hkeep
    · have hmem : other ∈ keys := by simpa [hkey] using hother
      rw [hrest other hne (.inr hkey)]
      exact h.vacated hkeep other hmem fun front hfront => hnot front (List.mem_append_left _ hfront)
  · intro other hkept hnot
    have hne : other ≠ new key := fun heq =>
      hnot key (List.mem_append_right _ (List.mem_singleton_self _)) heq.symm
    rw [hrest other hne (hkept.imp_right fun hfree heq => hfree (by simp [heq]))]
    exact h.kept other (hkept.imp_right fun hfree hmem => hfree (List.mem_append_left _ hmem))
      fun front hfront => hnot front (List.mem_append_left _ hfront)

end AtOnce

theorem pairwise_of_splits {r : Key → Key → Prop} {keys : List Key}
    (h : ∀ front later back, keys = front ++ later :: back → ∀ key ∈ front, r key later) :
    keys.Pairwise r := by
  rw [List.pairwise_iff_getElem]
  intro i j hi hj hlt
  refine h (keys.take j) keys[j] (keys.drop (j + 1)) ?_ keys[i] ?_
  · rw [← List.drop_eq_getElem_cons hj, List.take_append_drop]
  · exact List.mem_take_iff_getElem.mpr ⟨i, by omega, rfl⟩

variable [DecidableEq Key]

section Loops

variable (new : Key → Key) (map : HashMap Key Value)

-- Moving one by one comes to moving at once, if what lands on a key that has yet
-- to be moved lands on one that stays.
theorem foldl_rekey_atOnce {keys : List Key} (hnodup : keys.Nodup)
    (hstored : ∀ key ∈ keys, (map.lookup key).isSome) (hagree : Agree new keys map.lookup)
    (horder : keys.Pairwise fun key later => new key = later → new later = later) :
    AtOnce False new keys map.lookup (keys.foldl (rekey new) map).lookup := by
  induction keys using List.reverseRecOn with
  | nil => exact .nil
  | append_singleton keys key ih =>
      obtain ⟨hfront, _, hcross⟩ := List.pairwise_append.mp horder
      have hkey : key ∈ keys ++ [key] := by simp
      obtain ⟨hnodup, _, hapart⟩ := List.nodup_append.mp hnodup
      have hfresh : key ∉ keys := fun hmem => hapart key hmem key (List.mem_singleton_self _) rfl
      have hbefore := ih hnodup (fun other hother => hstored other (List.mem_append_left _ hother))
        hagree.front hfront
      have hlast : ∀ other ∈ keys, new other = key → new key = key := fun other hother =>
        hcross other hother key (List.mem_singleton_self _)
      have hsame : ∀ other ∈ keys, new other = new key → map.lookup other = map.lookup key :=
        fun other hother => hagree other (List.mem_append_left _ hother) key hkey
      -- An earlier key may have landed here, but then with the value that is here.
      have hread : (keys.foldl (rekey new) map).lookup key = map.lookup key := by
        by_cases hlanded : ∃ other ∈ keys, new other = key
        · obtain ⟨other, hother, heq⟩ := hlanded
          have hvalue := hbefore.landed other hother
          rw [heq] at hvalue
          rw [hvalue, hsame other hother (heq.trans (hlast other hother heq).symm)]
        · exact hbefore.kept key (.inr hfresh) fun other hother heq =>
            hlanded ⟨other, hother, heq⟩
      obtain ⟨value, hvalue⟩ := Option.isSome_iff_exists.mp (hstored key hkey)
      have hlookup := fun other => lookup_rekey new (keys.foldl (rekey new) map) key other
        (hread.trans hvalue)
      rw [List.foldl_concat]
      refine hbefore.snoc hsame ?_ ?_ ?_ fun other hother heq => .inl (hlast other hother heq)
      · rw [hlookup, if_pos rfl, hvalue]
      · intro hne _
        rw [hlookup, if_neg hne, if_pos rfl]
      · intro other hne hkept
        rw [hlookup, if_neg hne, if_neg (hkept.resolve_left not_false)]

-- Copying one by one comes to copying at once, if what lands on a key that has yet
-- to be copied is what the key holds.
theorem foldl_duplicate_atOnce {keys : List Key}
    (hstored : ∀ key ∈ keys, (map.lookup key).isSome) (hagree : Agree new keys map.lookup)
    (horder : keys.Pairwise fun key later => new key = later →
      map.lookup key = map.lookup later) :
    AtOnce True new keys map.lookup (keys.foldl (duplicate new) map).lookup := by
  induction keys using List.reverseRecOn with
  | nil => exact .nil
  | append_singleton keys key ih =>
      obtain ⟨hfront, _, hcross⟩ := List.pairwise_append.mp horder
      have hkey : key ∈ keys ++ [key] := by simp
      have hbefore := ih (fun other hother => hstored other (List.mem_append_left _ hother))
        hagree.front hfront
      have hread : (keys.foldl (duplicate new) map).lookup key = map.lookup key := by
        by_cases hlanded : ∃ other ∈ keys, new other = key
        · obtain ⟨other, hother, heq⟩ := hlanded
          have hvalue := hbefore.landed other hother
          rw [heq] at hvalue
          rw [hvalue, hcross other hother key (List.mem_singleton_self _) heq]
        · exact hbefore.kept key (.inl trivial) fun other hother heq =>
            hlanded ⟨other, hother, heq⟩
      obtain ⟨value, hvalue⟩ := Option.isSome_iff_exists.mp (hstored key hkey)
      have hlookup := fun other => lookup_duplicate new (keys.foldl (duplicate new) map) key other
        (hread.trans hvalue)
      rw [List.foldl_concat]
      refine hbefore.snoc (fun other hother => hagree other (List.mem_append_left _ hother) key hkey)
        ?_ (fun _ hkeep => absurd trivial hkeep) ?_ fun _ _ _ => .inr trivial
      · rw [hlookup, if_pos rfl, hvalue]
      · intro other hne _
        rw [hlookup, if_neg hne]

theorem rekey_none {key : Key} (h : map.lookup key = none) : map.rekey new key = map := by
  unfold rekey
  rw [h]

theorem duplicate_none {key : Key} (h : map.lookup key = none) : map.duplicate new key = map := by
  unfold duplicate
  rw [h]

theorem lookup_foldl_rekey_none {keys : List Key} {key : Key} (hkey : map.lookup key = none)
    (hnot : ∀ other ∈ keys, new other ≠ key) :
    (keys.foldl (rekey new) map).lookup key = none := by
  induction keys generalizing map with
  | nil => exact hkey
  | cons first keys ih =>
      obtain ⟨hfirst, hnot⟩ := List.forall_mem_cons.mp hnot
      refine ih (map.rekey new first) ?_ hnot
      unfold rekey
      split
      · simp [hfirst.symm, hkey]
      · exact hkey

theorem lookup_foldl_duplicate {keys : List Key} {key : Key}
    (hnot : ∀ other ∈ keys, new other ≠ key) :
    (keys.foldl (duplicate new) map).lookup key = map.lookup key := by
  induction keys generalizing map with
  | nil => rfl
  | cons first keys ih =>
      obtain ⟨hfirst, hnot⟩ := List.forall_mem_cons.mp hnot
      rw [List.foldl_cons, ih (map.duplicate new first) hnot]
      unfold duplicate
      split
      · simp [hfirst.symm]
      · rfl

-- What has landed on a key that then moves away is gone, unless it lands again.
theorem rekey_order {front back : List Key} {key later : Key} (hkey : key ∈ front)
    (hstored : (map.lookup key).isSome) (hland : new key = later)
    (hback : ∀ other ∈ back, new other ≠ later)
    (h : AtOnce False new (front ++ later :: back) map.lookup
      ((front ++ later :: back).foldl (rekey new) map).lookup) : new later = later := by
  by_contra hmoves
  have hlanded := h.landed key (List.mem_append_left _ hkey)
  rw [hland, List.foldl_append, List.foldl_cons, lookup_foldl_rekey_none new _ ?_ hback] at hlanded
  · rw [← hlanded] at hstored
    contradiction
  · cases hread : (front.foldl (rekey new) map).lookup later with
    | none =>
        rw [rekey_none new _ hread]
        exact hread
    | some value =>
        rw [lookup_rekey new _ later later hread, if_neg (Ne.symm hmoves), if_pos rfl]

-- What has landed on a key that is copied later is copied in its place.
theorem duplicate_order {front back : List Key} {key later : Key} (hkey : key ∈ front)
    (hstored : (map.lookup key).isSome) (hland : new key = later)
    (hback : ∀ other ∈ back, new other ≠ later ∧ new other ≠ new later)
    (h : AtOnce True new (front ++ later :: back) map.lookup
      ((front ++ later :: back).foldl (duplicate new) map).lookup) :
    map.lookup key = map.lookup later := by
  have hfirst : key ∈ front ++ later :: back := List.mem_append_left _ hkey
  have hlater : later ∈ front ++ later :: back := by simp
  by_cases hfixed : new later = later
  · exact h.agree key hfirst later hlater (hland.trans hfixed.symm)
  · have hread := h.landed key hfirst
    have hcopied := h.landed later hlater
    rw [hland, List.foldl_append, List.foldl_cons,
      lookup_foldl_duplicate new _ fun other hother => (hback other hother).1] at hread
    rw [List.foldl_append, List.foldl_cons,
      lookup_foldl_duplicate new _ fun other hother => (hback other hother).2] at hcopied
    obtain ⟨value, hvalue⟩ := Option.isSome_iff_exists.mp hstored
    have hmid : (front.foldl (duplicate new) map).lookup later = some value := by
      rw [hvalue] at hread
      cases hmid : (front.foldl (duplicate new) map).lookup later with
      | none =>
          rw [duplicate_none new _ hmid, hmid] at hread
          exact hread
      | some found =>
          rw [lookup_duplicate new _ later later hmid, if_neg (Ne.symm hfixed), hmid] at hread
          exact hread
    rw [lookup_duplicate new _ later (new later) hmid, if_pos rfl] at hcopied
    rw [hvalue, ← hcopied]

-- Where no two keys go to one place, the order of the keys must fit.
theorem AtOnce.pairwise_rekey {keys : List Key} (hnodup : keys.Nodup)
    (hstored : ∀ key ∈ keys, (map.lookup key).isSome)
    (hdistinct : ∀ left ∈ keys, ∀ right ∈ keys, new left = new right → left = right)
    (h : AtOnce False new keys map.lookup (keys.foldl (rekey new) map).lookup) :
    keys.Pairwise fun key later => new key = later → new later = later := by
  refine pairwise_of_splits fun front later back hsplit key hkey hland => ?_
  subst hsplit
  have hfirst : key ∈ front ++ later :: back := List.mem_append_left _ hkey
  refine rekey_order new map hkey (hstored key hfirst) hland (fun other hother heq => ?_) h
  have hmem : other ∈ later :: back := List.mem_cons_of_mem _ hother
  have hsame := hdistinct other (List.mem_append_right _ hmem) key hfirst (heq.trans hland.symm)
  exact (List.nodup_append.mp hnodup).2.2 key hkey other hmem hsame.symm

theorem AtOnce.pairwise_duplicate {keys : List Key} (hnodup : keys.Nodup)
    (hstored : ∀ key ∈ keys, (map.lookup key).isSome)
    (hdistinct : ∀ left ∈ keys, ∀ right ∈ keys, new left = new right → left = right)
    (h : AtOnce True new keys map.lookup (keys.foldl (duplicate new) map).lookup) :
    keys.Pairwise fun key later => new key = later → map.lookup key = map.lookup later := by
  refine pairwise_of_splits fun front later back hsplit key hkey hland => ?_
  subst hsplit
  have hfirst : key ∈ front ++ later :: back := List.mem_append_left _ hkey
  refine duplicate_order new map hkey (hstored key hfirst) hland (fun other hother => ?_) h
  obtain ⟨_, hback, hapart⟩ := List.nodup_append.mp hnodup
  have hmem : other ∈ later :: back := List.mem_cons_of_mem _ hother
  have hboth := List.mem_append_right front hmem
  constructor
  · intro heq
    have hsame := hdistinct other hboth key hfirst (heq.trans hland.symm)
    exact hapart key hkey other hmem hsame.symm
  · intro heq
    have hsame := hdistinct other hboth later (by simp) heq
    exact (List.nodup_cons.mp hback).1 (hsame ▸ hother)

-- A turn that takes its value from a list made before the loop, and deletes after
-- it puts.
def putDelete (files : HashMap Key Value) (entry : Key × Value) : HashMap Key Value :=
  (files.insert (new entry.1) entry.2).erase entry.1

def put (files : HashMap Key Value) (entry : Key × Value) : HashMap Key Value :=
  files.insert (new entry.1) entry.2

theorem lookup_putDelete (entry : Key × Value) (key : Key) :
    (putDelete new map entry).lookup key =
      if key = entry.1 then none else if key = new entry.1 then some entry.2 else map.lookup key := by
  simp [putDelete]

-- One key is met before another one.
def Before (keys : List Key) (first second : Key) : Prop :=
  keys.idxOf first < keys.idxOf second

instance (keys : List Key) (first second : Key) : Decidable (Before keys first second) :=
  inferInstanceAs (Decidable (_ < _))

-- What such a loop leaves at a key is told from the last turn that puts or deletes it.
structure LastTurn (entries : List (Key × Value)) (after : HashMap Key Value) (key : Key) :
    Prop where
  put : ∀ other ∈ entries.map Prod.fst, new other = key →
    (key ∈ entries.map Prod.fst → Before (entries.map Prod.fst) key other) →
    ∃ entry ∈ entries, new entry.1 = key ∧ after.lookup key = some entry.2
  deleted : key ∈ entries.map Prod.fst → (∀ other ∈ entries.map Prod.fst, new other = key →
    ¬Before (entries.map Prod.fst) key other) → after.lookup key = none
  untouched : key ∉ entries.map Prod.fst → (∀ other ∈ entries.map Prod.fst, new other ≠ key) →
    after.lookup key = map.lookup key

theorem foldl_putDelete {entries : List (Key × Value)} (hnodup : (entries.map Prod.fst).Nodup)
    (key : Key) : LastTurn new map entries (entries.foldl (putDelete new) map) key := by
  induction entries using List.reverseRecOn with
  | nil => exact ⟨by simp, by simp, by simp⟩
  | append_singleton entries last ih =>
      rw [List.map_append] at hnodup
      obtain ⟨hnodup, _, hapart⟩ := List.nodup_append.mp hnodup
      have ih := ih hnodup
      have hfresh : last.1 ∉ entries.map Prod.fst := fun hmem =>
        hapart last.1 hmem last.1 (by simp) rfl
      have hindex (other : Key) (hother : other ∈ entries.map Prod.fst) :
          ((entries ++ [last]).map Prod.fst).idxOf other = (entries.map Prod.fst).idxOf other ∧
            ((entries ++ [last]).map Prod.fst).idxOf other < (entries.map Prod.fst).length := by
        rw [List.map_append, List.idxOf_append_of_mem hother]
        exact ⟨rfl, List.idxOf_lt_length_of_mem hother⟩
      have hlast : ((entries ++ [last]).map Prod.fst).idxOf last.1 =
          (entries.map Prod.fst).length := by
        rw [List.map_append, List.idxOf_append_of_notMem hfresh]
        simp
      have hmem (other : Key) : other ∈ (entries ++ [last]).map Prod.fst ↔
          other ∈ entries.map Prod.fst ∨ other = last.1 := by simp
      have hlookup := lookup_putDelete new (entries.foldl (putDelete new) map) last key
      rw [List.foldl_concat]
      refine ⟨?_, ?_, ?_⟩
      · intro other hother hland hlater
        have hne : key ≠ last.1 := by
          intro heq
          have hlt := hlater ((hmem key).mpr (.inr heq))
          unfold Before at hlt
          rw [heq, hlast] at hlt
          rcases (hmem other).mp hother with hother | rfl
          · have hbound := (hindex other hother).2
            omega
          · omega
        rw [if_neg hne] at hlookup
        by_cases hnew : key = new last.1
        · exact ⟨last, by simp, hnew.symm, by rw [hlookup, if_pos hnew]⟩
        · have hother : other ∈ entries.map Prod.fst := by
            refine ((hmem other).mp hother).resolve_right fun heq => hnew ?_
            rw [← hland, heq]
          obtain ⟨entry, hentry, hfound, hafter⟩ := ih.put other hother hland fun hkey => by
            have hlt := hlater ((hmem key).mpr (.inl hkey))
            unfold Before at hlt ⊢
            rw [(hindex key hkey).1, (hindex other hother).1] at hlt
            exact hlt
          exact ⟨entry, List.mem_append_left _ hentry, hfound, by rw [hlookup, if_neg hnew, hafter]⟩
      · intro hkey hearlier
        by_cases hne : key = last.1
        · rw [hlookup, if_pos hne]
        · have hkey : key ∈ entries.map Prod.fst := ((hmem key).mp hkey).resolve_right hne
          have hnew : key ≠ new last.1 := by
            intro heq
            have hnot := hearlier last.1 ((hmem _).mpr (.inr rfl)) heq.symm
            have hbound := (hindex key hkey).2
            unfold Before at hnot
            rw [hlast] at hnot
            omega
          rw [hlookup, if_neg hne, if_neg hnew]
          refine ih.deleted hkey fun other hother hland => ?_
          have hnot := hearlier other ((hmem other).mpr (.inl hother)) hland
          unfold Before at hnot ⊢
          rw [(hindex key hkey).1, (hindex other hother).1] at hnot
          exact hnot
      · intro hkey hnot
        have hne : key ≠ last.1 := fun heq => hkey ((hmem key).mpr (.inr heq))
        have hnew : key ≠ new last.1 := fun heq => hnot last.1 ((hmem _).mpr (.inr rfl)) heq.symm
        rw [hlookup, if_neg hne, if_neg hnew]
        exact ih.untouched (fun hmem' => hkey ((hmem key).mpr (.inl hmem')))
          fun other hother => hnot other ((hmem other).mpr (.inl hother))

-- Such a loop comes to moving at once exactly when whatever lands on an old key lands
-- there once more after that key's own turn.
theorem foldl_putDelete_atOnce_iff {entries : List (Key × Value)}
    (hnodup : (entries.map Prod.fst).Nodup)
    (hseen : ∀ entry ∈ entries, map.lookup entry.1 = some entry.2) :
    AtOnce False new (entries.map Prod.fst) map.lookup
        (entries.foldl (putDelete new) map).lookup ↔
      Agree new (entries.map Prod.fst) map.lookup ∧
        ∀ key ∈ entries.map Prod.fst, new key ∈ entries.map Prod.fst →
          ∃ other ∈ entries.map Prod.fst, new other = new key ∧
            Before (entries.map Prod.fst) (new key) other := by
  have hturn := foldl_putDelete new map hnodup
  constructor
  · intro h
    refine ⟨h.agree, fun key hkey hnew => ?_⟩
    by_contra hnone
    obtain ⟨entry, hentry, rfl⟩ := List.mem_map.mp hkey
    have hgone := (hturn (new entry.1)).deleted hnew fun other hother hland hlt =>
      hnone ⟨other, hother, hland, hlt⟩
    rw [h.landed entry.1 hkey, hseen entry hentry] at hgone
    contradiction
  · rintro ⟨hagree, hlater⟩
    refine ⟨fun key hkey => ?_, fun _ key hkey hnot => ?_, fun key hkept hnot => ?_⟩
    · have hput : ∃ entry ∈ entries, new entry.1 = new key ∧
          (entries.foldl (putDelete new) map).lookup (new key) = some entry.2 := by
        by_cases hnew : new key ∈ entries.map Prod.fst
        · obtain ⟨other, hother, hland, hlt⟩ := hlater key hkey hnew
          exact (hturn (new key)).put other hother hland fun _ => hlt
        · exact (hturn (new key)).put key hkey rfl fun hmem => absurd hmem hnew
      obtain ⟨entry, hentry, hland, hafter⟩ := hput
      rw [hafter, ← hagree entry.1 (List.mem_map_of_mem hentry) key hkey hland, hseen entry hentry]
    · exact (hturn key).deleted hkey fun other hother hland => absurd hland (hnot other hother)
    · exact (hturn key).untouched (hkept.resolve_left not_false) hnot

-- Putting values from a list made before the loop comes to copying at once, as far as
-- that can be done.
theorem foldl_put_atOnce_iff {entries : List (Key × Value)}
    (hseen : ∀ entry ∈ entries, map.lookup entry.1 = some entry.2) :
    AtOnce True new (entries.map Prod.fst) map.lookup (entries.foldl (put new) map).lookup ↔
      Agree new (entries.map Prod.fst) map.lookup := by
  refine ⟨AtOnce.agree, fun hagree => ?_⟩
  induction entries using List.reverseRecOn with
  | nil => exact .nil
  | append_singleton entries last ih =>
      rw [List.map_append] at hagree
      have hbefore := ih (fun entry hentry => hseen entry (List.mem_append_left _ hentry))
        hagree.front
      rw [List.foldl_concat, List.map_append]
      refine hbefore.snoc ?_ ?_ (fun _ hkeep => absurd trivial hkeep) ?_ fun _ _ _ => .inr trivial
      · exact fun other hother => hagree other (List.mem_append_left _ hother) last.1 (by simp)
      · rw [hseen last (by simp)]
        simp [put]
      · intro other hne _
        simp [put, hne]

end Loops

end HashMap
