import Saps.Lib.HashMap
import Mathlib.Data.List.Induction

inductive Entry (Value : Type) where
  | folder
  | file (value : Value)
  deriving DecidableEq

def Entry.value {Value : Type} : Entry Value → Option Value
  | folder => none
  | file value => some value

-- A tree of folders and files, as the map from the location of each entry below
-- the root to the entry.
structure FileTree (Name Value : Type) where
  entries : HashMap (List Name) (Entry Value)

namespace FileTree

variable {Name Value : Type}

def empty : FileTree Name Value :=
  ⟨.new⟩

variable [DecidableEq Name]

def kind (tree : FileTree Name Value) (location : List Name) : Option (Entry Value) :=
  if location = [] then some .folder else tree.entries.lookup location

def file (tree : FileTree Name Value) (location : List Name) : Option Value :=
  (tree.kind location).bind Entry.value

def put (tree : FileTree Name Value) (location : List Name) (entry : Entry Value) :
    FileTree Name Value :=
  ⟨tree.entries.insert location entry⟩

def remove (tree : FileTree Name Value) (location : List Name) : FileTree Name Value :=
  ⟨tree.entries.erase location⟩

-- Whatever exists stands in a folder.
def Rooted (tree : FileTree Name Value) : Prop :=
  ∀ location name, (tree.kind (location ++ [name])).isSome → tree.kind location = some .folder

@[simp] theorem kind_root (tree : FileTree Name Value) : tree.kind [] = some .folder :=
  rfl

theorem kind_put (tree : FileTree Name Value) {location : List Name} (h : location ≠ [])
    (entry : Entry Value) (other : List Name) :
    (tree.put location entry).kind other =
      if other = location then some entry else tree.kind other := by
  unfold kind put
  rw [HashMap.lookup_insert]
  by_cases hroot : other = []
  · rw [if_pos hroot, if_pos hroot, if_neg fun heq => h (heq.symm.trans hroot)]
  · rw [if_neg hroot, if_neg hroot]

theorem kind_remove (tree : FileTree Name Value) {location : List Name} (h : location ≠ [])
    (other : List Name) :
    (tree.remove location).kind other = if other = location then none else tree.kind other := by
  unfold kind remove
  rw [HashMap.lookup_erase]
  by_cases hroot : other = []
  · rw [if_pos hroot, if_pos hroot, if_neg fun heq => h (heq.symm.trans hroot)]
  · rw [if_neg hroot, if_neg hroot]

theorem file_eq_some {tree : FileTree Name Value} {location : List Name} {value : Value} :
    tree.file location = some value ↔ tree.kind location = some (.file value) := by
  unfold file
  rw [Option.bind_eq_some_iff]
  constructor
  · rintro ⟨entry, hentry, hvalue⟩
    cases entry with
    | folder => cases hvalue
    | file found =>
        cases hvalue
        exact hentry
  · exact fun h => ⟨.file value, h, rfl⟩

theorem file_ne_root {tree : FileTree Name Value} {location : List Name} {value : Value}
    (h : tree.file location = some value) : location ≠ [] := by
  rintro rfl
  cases h

theorem file_put (tree : FileTree Name Value) {location : List Name} (h : location ≠ [])
    (entry : Entry Value) (other : List Name) :
    (tree.put location entry).file other =
      if other = location then entry.value else tree.file other := by
  unfold file
  rw [kind_put tree h]
  by_cases heq : other = location
  · rw [if_pos heq, if_pos heq]
    rfl
  · rw [if_neg heq, if_neg heq]

theorem file_remove (tree : FileTree Name Value) {location : List Name} (h : location ≠ [])
    (other : List Name) :
    (tree.remove location).file other = if other = location then none else tree.file other := by
  unfold file
  rw [kind_remove tree h]
  by_cases heq : other = location
  · rw [if_pos heq, if_pos heq]
    rfl
  · rw [if_neg heq, if_neg heq]

theorem rooted_empty : Rooted (empty : FileTree Name Value) := by
  intro location name h
  unfold kind at h
  rw [if_neg (List.append_ne_nil_of_right_ne_nil _ (List.cons_ne_nil _ _))] at h
  cases h

namespace Rooted

variable {tree : FileTree Name Value} (h : tree.Rooted)

include h

theorem folder_of_prefix {location rest : List Name} (hrest : rest ≠ [])
    (hsome : (tree.kind (location ++ rest)).isSome) : tree.kind location = some .folder := by
  induction rest using List.reverseRecOn with
  | nil => exact absurd rfl hrest
  | append_singleton rest name ih =>
      rw [← List.append_assoc] at hsome
      have hfolder := h _ _ hsome
      by_cases hnil : rest = []
      · rw [hnil, List.append_nil] at hfolder
        exact hfolder
      · exact ih hnil (by rw [hfolder]; rfl)

-- An entry may be put into a folder, unless a file takes the place of a folder.
theorem put {location : List Name} {name : Name} {entry : Entry Value}
    (hparent : tree.kind location = some .folder)
    (hentry : entry = .folder ∨ tree.kind (location ++ [name]) ≠ some .folder) :
    (tree.put (location ++ [name]) entry).Rooted := by
  have hne : location ++ [name] ≠ [] :=
    List.append_ne_nil_of_right_ne_nil _ (List.cons_ne_nil _ _)
  intro other last hsome
  rw [kind_put tree hne] at hsome ⊢
  have hfolder : tree.kind other = some .folder := by
    split at hsome
    · next heq =>
      obtain ⟨rfl, _⟩ := List.append_inj' heq rfl
      exact hparent
    · exact h other last hsome
  split
  · next heq =>
    rcases hentry with rfl | hentry
    · rfl
    · exact absurd (heq ▸ hfolder) hentry
  · exact hfolder

theorem remove_file {location : List Name} {value : Value}
    (hfile : tree.file location = some value) : (tree.remove location).Rooted := by
  have hne := file_ne_root hfile
  intro other last hsome
  rw [kind_remove tree hne] at hsome ⊢
  split at hsome
  · contradiction
  · have hfolder := h other last hsome
    rw [if_neg ?_]
    · exact hfolder
    · rintro rfl
      rw [file_eq_some.mp hfile] at hfolder
      cases hfolder

end Rooted

end FileTree
