import Saps.Lib.FileTree
import Saps.Lib.Rekey

-- Neither location lies below the other.
structure Beside {Name : Type} (source target : List Name) : Prop where
  below : ¬source <+: target
  above : ¬target <+: source

theorem Beside.ne {Name : Type} {source target : List Name} (h : Beside source target)
    (rest other : List Name) : source ++ rest ≠ target ++ other := by
  intro heq
  rcases List.prefix_or_prefix_of_prefix (List.prefix_append source rest)
    (heq ▸ List.prefix_append target other) with hprefix | hprefix
  · exact h.below hprefix
  · exact h.above hprefix

theorem Beside.of_append {Name : Type} {front source target : List Name}
    (h : Beside (front ++ source) (front ++ target)) : Beside source target :=
  ⟨fun hprefix => h.below ((List.prefix_append_right_inj front).mpr hprefix),
    fun hprefix => h.above ((List.prefix_append_right_inj front).mpr hprefix)⟩

theorem Beside.append {Name : Type} {source target : List Name} (h : Beside source target)
    (path : List Name) : Beside (source ++ path) (target ++ path) := by
  constructor
  · rintro ⟨rest, heq⟩
    rw [List.append_assoc] at heq
    exact h.ne _ _ heq
  · rintro ⟨rest, heq⟩
    rw [List.append_assoc] at heq
    exact h.ne _ _ heq.symm

-- Maps whose keys are locations, or stand for locations.
namespace HashMap

variable {Name Key Value : Type}

-- What is found after all that stands at `source` or below it was put at `target`, on
-- top of what is there. The old places keep theirs when `keep` holds.
def carried [DecidableEq Name] (keep : Prop) [Decidable keep] (source target : List Name)
    (look : List Name → Option Value) (location : List Name) : Option Value :=
  if target <+: location then
    (look (source ++ location.drop target.length)).or (look location)
  else if ¬keep ∧ source <+: location then none
  else look location

-- Where both stand in one folder, it does not matter whether locations start there.
theorem carried_append [DecidableEq Name] (keep : Prop) [Decidable keep]
    (front source target : List Name) (look : List Name → Option Value) (location : List Name) :
    carried keep (front ++ source) (front ++ target) look (front ++ location) =
      carried keep source target (fun other => look (front ++ other)) location := by
  have hdrop : (front ++ location).drop (front ++ target).length = location.drop target.length := by
    rw [List.length_append, List.drop_length_add_append]
  unfold carried
  rw [hdrop, List.append_assoc]
  simp only [List.prefix_append_right_inj]

variable [DecidableEq Key] {place : List Name → Key} {source target : List Name}
  {new : Key → Key} {keys : List Key} {before after : HashMap Key Value}

-- The keys are those of the subtree, and each goes to its place in the other one.
structure Carries (place : List Name → Key) (source target : List Name) (new : Key → Key)
    (keys : List Key) (before : HashMap Key Value) : Prop where
  keys : ∀ key, key ∈ keys ↔ (before.lookup key).isSome ∧ ∃ rest, key = place (source ++ rest)
  new : ∀ rest, new (place (source ++ rest)) = place (target ++ rest)

namespace Carries

variable (h : Carries place source target new keys before) (hplace : Function.Injective place)

include h

theorem stored : ∀ key ∈ keys, (before.lookup key).isSome :=
  fun key hkey => ((h.keys key).mp hkey).1

include hplace

theorem apart (hbeside : Beside source target) : Apart new keys := by
  constructor
  · intro left hleft right hright heq
    obtain ⟨_, rest, rfl⟩ := (h.keys left).mp hleft
    obtain ⟨_, other, rfl⟩ := (h.keys right).mp hright
    rw [h.new, h.new] at heq
    rw [List.append_cancel_left (hplace heq)]
  · intro left hleft right hright heq
    obtain ⟨_, rest, rfl⟩ := (h.keys left).mp hleft
    obtain ⟨_, other, rfl⟩ := (h.keys right).mp hright
    rw [h.new] at heq
    exact absurd (hplace heq).symm (hbeside.ne _ _)

-- A key that is stored at a location comes from the subtree exactly if it lies at the target.
theorem exists_old (location : List Name) (value : Value) :
    (∃ old ∈ keys, new old = place location ∧ before.lookup old = some value) ↔
      ∃ rest, location = target ++ rest ∧ before.lookup (place (source ++ rest)) = some value := by
  constructor
  · rintro ⟨old, hold, hnew, hvalue⟩
    obtain ⟨_, rest, rfl⟩ := (h.keys old).mp hold
    rw [h.new] at hnew
    exact ⟨rest, (hplace hnew).symm, hvalue⟩
  · rintro ⟨rest, rfl, hvalue⟩
    refine ⟨place (source ++ rest), ?_, h.new rest, hvalue⟩
    exact (h.keys _).mpr ⟨by rw [hvalue]; rfl, rest, rfl⟩

-- Nothing is put at a location if nothing is stored where it would come from.
theorem not_new_iff (location : List Name) :
    (∀ old ∈ keys, new old ≠ place location) ↔
      ∀ rest, location = target ++ rest → before.lookup (place (source ++ rest)) = none := by
  constructor
  · rintro hnot rest rfl
    cases hlookup : before.lookup (place (source ++ rest)) with
    | none => rfl
    | some value =>
        obtain ⟨old, hold, hnew, _⟩ := (h.exists_old hplace _ value).mpr ⟨rest, rfl, hlookup⟩
        exact absurd hnew (hnot old hold)
  · intro hnone old hold hnew
    obtain ⟨value, hvalue⟩ := Option.isSome_iff_exists.mp (h.stored old hold)
    obtain ⟨rest, hrest, hlookup⟩ :=
      (h.exists_old hplace location value).mp ⟨old, hold, hnew, hvalue⟩
    rw [hnone rest hrest] at hlookup
    contradiction

theorem lookup_carried [DecidableEq Name] (hbeside : Beside source target) {keep : Prop}
    [Decidable keep] (hmoved : Moved keep new keys before after) (location : List Name) :
    after.lookup (place location) =
      carried keep source target (fun other => before.lookup (place other)) location := by
  refine Option.ext fun value => (hmoved _ value).trans ?_
  rw [h.exists_old hplace, h.not_new_iff hplace, h.keys]
  unfold carried
  by_cases hunder : target <+: location
  · obtain ⟨rest, rfl⟩ := hunder
    rw [if_pos (List.prefix_append _ _), List.drop_left, Option.or_eq_some_iff]
    simp only [List.append_cancel_left_eq, exists_eq_left', forall_eq']
    refine or_congr Iff.rfl ⟨fun hkept => hkept.2, fun hnone => ⟨.inr ?_, hnone⟩⟩
    rintro ⟨_, other, heq⟩
    exact hbeside.ne other rest (hplace heq).symm
  · have hoff (rest : List Name) : location ≠ target ++ rest :=
      fun heq => hunder (heq ▸ List.prefix_append _ _)
    rw [if_neg hunder]
    simp only [hoff, false_and, exists_false, false_or, false_implies, implies_true, true_and]
    by_cases hfrom : source <+: location
    · obtain ⟨rest, rfl⟩ := hfrom
      by_cases hkeep : keep
      · simp [hkeep]
      · rw [if_pos ⟨hkeep, List.prefix_append _ _⟩]
        refine iff_of_false (fun hkept => ?_) fun hnone => by cases hnone
        exact hkept.1.resolve_left hkeep ⟨by rw [hkept.2]; rfl, rest, rfl⟩
    · rw [if_neg fun hboth => hfrom hboth.2]
      refine ⟨fun hkept => hkept.2, fun hvalue => ⟨.inr ?_, hvalue⟩⟩
      rintro ⟨_, rest, heq⟩
      exact hfrom (hplace heq ▸ List.prefix_append _ _)

end Carries

-- A loop that puts every value where it is already changes nothing.
theorem Moved.lookup_fixed (h : Moved False new keys before after)
    (hstored : ∀ key ∈ keys, new key = key) (key : Key) : after.lookup key = before.lookup key := by
  refine Option.ext fun value => (h key value).trans ?_
  constructor
  · rintro (⟨old, hold, rfl, hvalue⟩ | ⟨_, _, hvalue⟩)
    · rw [hstored old hold]
      exact hvalue
    · exact hvalue
  · intro hvalue
    by_cases hkey : key ∈ keys
    · exact .inl ⟨key, hkey, hstored key hkey, hvalue⟩
    · refine .inr ⟨.inr hkey, fun old hold heq => hkey ?_, hvalue⟩
      rw [← heq, hstored old hold]
      exact hold

end HashMap

-- What stands at a location or below it, removed or moved as a whole.
namespace FileTree

variable {Name Value : Type} [DecidableEq Name]

def under (tree : FileTree Name Value) (location : List Name) : List (List Name) :=
  tree.entries.keys.filter fun other => location.isPrefixOf other

def prune (tree : FileTree Name Value) (location : List Name) : FileTree Name Value :=
  ⟨(tree.under location).foldl (fun entries other => entries.erase other) tree.entries⟩

def relocate (tree : FileTree Name Value) (source target : List Name) : FileTree Name Value :=
  ⟨(tree.under source).foldl
    (HashMap.rekey fun location => target ++ location.drop source.length) tree.entries⟩

variable {tree : FileTree Name Value} {source target : List Name}

theorem mem_under {location other : List Name} :
    other ∈ tree.under location ↔ (tree.entries.lookup other).isSome ∧ location <+: other := by
  unfold under
  rw [List.mem_filter, HashMap.mem_keys, List.isPrefixOf_iff_prefix]

theorem under_eq (tree : FileTree Name Value) {location : List Name} {below : List Name → Bool}
    (h : ∀ other, below other = true ↔ location <+: other) :
    tree.entries.keys.filter below = tree.under location := by
  refine List.filter_congr fun other _ => ?_
  rw [Bool.eq_iff_iff, h, List.isPrefixOf_iff_prefix]

theorem lookup_of_ne_root {location : List Name} (h : location ≠ []) :
    tree.entries.lookup location = tree.kind location := by
  unfold kind
  rw [if_neg h]

theorem kind_prune (tree : FileTree Name Value) {location : List Name} (h : location ≠ [])
    (other : List Name) :
    (tree.prune location).kind other = if location <+: other then none else tree.kind other := by
  by_cases hroot : other = []
  · rw [hroot, if_neg fun hprefix => h (List.prefix_nil.mp hprefix)]
    rfl
  · rw [← lookup_of_ne_root hroot, ← lookup_of_ne_root hroot]
    unfold prune
    dsimp only
    rw [HashMap.lookup_foldl_erase]
    by_cases hprefix : location <+: other
    · rw [if_pos hprefix]
      cases hlookup : tree.entries.lookup other with
      | none => exact ite_self _
      | some entry => exact if_pos (mem_under.mpr ⟨by rw [hlookup]; rfl, hprefix⟩)
    · rw [if_neg hprefix, if_neg fun hmem => hprefix (mem_under.mp hmem).2]

theorem file_prune {location : List Name} (h : location ≠ []) (other : List Name) :
    (tree.prune location).file other = if location <+: other then none else tree.file other := by
  unfold file
  rw [kind_prune _ h]
  split
  · rfl
  · rfl

theorem Rooted.prune (hrooted : tree.Rooted) {location : List Name} (h : location ≠ []) :
    (tree.prune location).Rooted := by
  intro other name hsome
  rw [kind_prune _ h] at hsome ⊢
  split at hsome
  · contradiction
  · next hoff =>
    rw [if_neg fun hunder => hoff (hunder.trans (List.prefix_append _ _))]
    exact hrooted other name hsome

theorem carries_under (tree : FileTree Name Value) (source target : List Name) :
    HashMap.Carries id source target (fun location => target ++ location.drop source.length)
      (tree.under source) tree.entries := by
  constructor
  · intro location
    rw [mem_under]
    refine and_congr_right fun _ => ⟨?_, ?_⟩
    · rintro ⟨rest, rfl⟩
      exact ⟨rest, rfl⟩
    · rintro ⟨rest, rfl⟩
      exact List.prefix_append _ _
  · intro rest
    exact congrArg (target ++ ·) List.drop_left

theorem kind_relocate (tree : FileTree Name Value) (h : Beside source target)
    (location : List Name) :
    (tree.relocate source target).kind location =
      HashMap.carried False source target tree.kind location := by
  have htarget : target ≠ [] := by
    rintro rfl
    exact h.above List.nil_prefix
  have hsource : source ≠ [] := by
    rintro rfl
    exact h.below List.nil_prefix
  have hcarries := tree.carries_under source target
  have hmoved := HashMap.foldl_rekey _ tree.entries (tree.entries.keys_nodup.filter _)
    (hcarries.apart Function.injective_id h) hcarries.stored
  unfold HashMap.carried
  by_cases hroot : location = []
  · rw [hroot, if_neg fun hprefix => htarget (List.prefix_nil.mp hprefix),
      if_neg fun hprefix => hsource (List.prefix_nil.mp hprefix.2)]
    rfl
  · have hlookup := hcarries.lookup_carried Function.injective_id h hmoved
      location
    rw [← lookup_of_ne_root hroot, ← lookup_of_ne_root hroot,
      ← lookup_of_ne_root (List.append_ne_nil_of_left_ne_nil hsource _)]
    exact hlookup

-- The new place is free, or an empty folder is there.
structure Vacant (tree : FileTree Name Value) (location : List Name) : Prop where
  file : tree.file location = none
  below : ∀ rest, rest ≠ [] → tree.kind (location ++ rest) = none

theorem file_relocate (h : Beside source target) (hvacant : tree.Vacant target)
    (location : List Name) :
    (tree.relocate source target).file location =
      HashMap.carried False source target tree.file location := by
  unfold file
  rw [kind_relocate _ h]
  unfold HashMap.carried
  by_cases hunder : target <+: location
  · obtain ⟨rest, rfl⟩ := hunder
    rw [if_pos (List.prefix_append _ _), if_pos (List.prefix_append _ _), List.drop_left]
    have hnone : tree.file (target ++ rest) = none := by
      by_cases hrest : rest = []
      · rw [hrest, List.append_nil]
        exact hvacant.file
      · unfold file
        rw [hvacant.below rest hrest]
        rfl
    change _ = (tree.file (source ++ rest)).or (tree.file (target ++ rest))
    rw [hnone, Option.or_none]
    cases hkind : tree.kind (source ++ rest) with
    | none =>
        rw [Option.none_or, file, hkind]
        exact hnone
    | some entry =>
        rw [file, hkind]
        rfl
  · rw [if_neg hunder, if_neg hunder]
    split
    · rfl
    · rfl

theorem Rooted.relocate (hrooted : tree.Rooted) (h : Beside source target)
    (hsource : tree.kind source = some .folder) (hvacant : tree.Vacant target)
    (hplaced : ∀ front last, target = front ++ [last] → tree.kind front = some .folder) :
    (tree.relocate source target).Rooted := by
  have hunder (rest : List Name) :
      (tree.relocate source target).kind (target ++ rest) = tree.kind (source ++ rest) := by
    rw [kind_relocate _ h]
    unfold HashMap.carried
    rw [if_pos (List.prefix_append _ _), List.drop_left]
    by_cases hrest : rest = []
    · rw [hrest, List.append_nil, hsource]
      rfl
    · rw [hvacant.below rest hrest, Option.or_none]
  have hoff (location : List Name) (hnot : ¬target <+: location) :
      (tree.relocate source target).kind location =
        if source <+: location then none else tree.kind location := by
    rw [kind_relocate _ h]
    unfold HashMap.carried
    rw [if_neg hnot]
    simp
  intro location name hsome
  by_cases hwithin : target <+: location
  · obtain ⟨rest, rfl⟩ := hwithin
    rw [List.append_assoc, hunder, ← List.append_assoc] at hsome
    rw [hunder]
    exact hrooted _ name hsome
  · by_cases hlast : target = location ++ [name]
    · -- What the new place itself stands in has not moved.
      rw [hoff location hwithin, if_neg fun hprefix =>
        h.below (hlast ▸ hprefix.trans (List.prefix_append _ _))]
      exact hplaced location name hlast
    · have hnot : ¬target <+: location ++ [name] := by
        rintro ⟨rest, heq⟩
        rcases List.eq_nil_or_concat' rest with rfl | ⟨front, last, rfl⟩
        · exact hlast (by rw [← heq, List.append_nil])
        · rw [← List.append_assoc] at heq
          obtain ⟨hfront, _⟩ := List.append_inj' heq rfl
          exact hwithin (hfront ▸ List.prefix_append _ _)
      rw [hoff _ hnot] at hsome
      rw [hoff location hwithin]
      split at hsome
      · contradiction
      · next hfree =>
        rw [if_neg fun hunder => hfree (hunder.trans (List.prefix_append _ _))]
        exact hrooted location name hsome

end FileTree
