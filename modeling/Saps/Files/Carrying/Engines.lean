import Saps.Files.Carrying
import Saps.Files.IndexedDb.Users
import Saps.Files.KvSession
import Saps.Files.Relocation.Theorems

-- What the flat engines do with the texts of their files.
namespace Saps.Files

open FlatEngines (meaning newKey)
open KvSession (Known Relocates)
open Relocation (Under Unnested newName namesUnder)

-- What is refused leaves the engine as it was, so the contract is that of the engine.
section Failing

variable {Store Slot : Type} [FileIo Store] [DecidableEq Slot] {fits : Store → Prop}
  {known : Path .file → Prop} {slot : Path .file → Slot}

theorem Failing.shelves (h : Shelves Store fits known slot) :
    Shelves (Failing Store) (fun store => fits store.io) known slot where
  slot_key := h.slot_key
  written {store after path data} hfits hpath hwrite := by
    obtain ⟨io, refusals⟩ := store
    have hok (rest : List Bool)
        (hio : (FileIo.writeFile io path data).map id (Failing.mk · rest) = (.ok (), after)) :
        fits after.io ∧ ∀ other, known other → FileIo.text after.io other =
          if slot other = slot path then some data else FileIo.text io other := by
      obtain ⟨hresult, rfl⟩ := Prod.ext_iff.mp hio
      exact h.written hfits hpath (Prod.ext hresult rfl)
    rcases refusals with _ | ⟨_ | _, rest⟩
    · exact hok [] hwrite
    · exact hok rest hwrite
    · cases hwrite
  refused {store after path data error} hfits hpath hwrite := by
    obtain ⟨io, refusals⟩ := store
    have herror (rest : List Bool)
        (hio : (FileIo.writeFile io path data).map id (Failing.mk · rest) = (.error error, after)) :
        fits after.io ∧ ∀ other, known other → FileIo.text after.io other = FileIo.text io other := by
      obtain ⟨hresult, rfl⟩ := Prod.ext_iff.mp hio
      exact h.refused hfits hpath (Prod.ext hresult rfl)
    rcases refusals with _ | ⟨_ | _, rest⟩
    · exact herror [] hwrite
    · exact herror rest hwrite
    · cases hwrite
      exact ⟨hfits, fun other hother => rfl⟩
  moved {store after source target} hfits hsource htarget hne hmove := by
    obtain ⟨hresult, rfl⟩ := Prod.ext_iff.mp hmove
    exact h.moved hfits hsource htarget hne (Prod.ext hresult rfl)

theorem Failing.folderShelves [FolderMoves Store] {relocates : Path .folder → Path .folder → Prop}
    (h : FolderShelves Store fits known slot relocates) :
    FolderShelves (Failing Store) (fun store => fits store.io) known slot relocates where
  toShelves := Failing.shelves h.toShelves
  moved_folder {store after source target} hfits hrelocates hmove path place hpath hknown hunder
      hplace := by
    obtain ⟨hresult, rfl⟩ := Prod.ext_iff.mp hmove
    exact h.moved_folder hfits hrelocates (Prod.ext hresult rfl) hpath hknown hunder hplace

end Failing

section Mem

theorem memText (io : BlockingMemIo) (path : Path .file) :
    FileIo.text io path = io.files.lookup path.key := by
  change (io.readFile path).toOption = _
  unfold BlockingMemIo.readFile
  cases io.files.lookup path.key <;> rfl

theorem asyncText (io : AsyncMemIo) (path : Path .file) :
    FileIo.text io path = io.files.lookup path.key := by
  change (io.readFile path).toOption = _
  unfold AsyncMemIo.readFile
  cases io.files.lookup path.key <;> rfl

theorem BlockingMemIo.shelves :
    FolderShelves BlockingMemIo (fun _ => True) (fun _ => True) Path.key Unnested where
  slot_key _ _ h := h
  written {store after path data} _ _ h := by
    obtain rfl : (⟨store.files.insert path.key data⟩ : BlockingMemIo) = after := (Prod.ext_iff.mp h).2
    refine ⟨trivial, fun other _ => ?_⟩
    rw [memText, memText, HashMap.lookup_insert]
  refused _ _ h := by cases h
  moved {store after source target} _ _ _ _ h := by
    rw [memText, memText]
    change store.moveFile source target = _ at h
    unfold BlockingMemIo.moveFile at h
    cases hfile : store.files.lookup source.key with
    | none =>
        rw [hfile] at h
        cases h
    | some contents =>
        rw [hfile] at h
        obtain rfl := (Prod.ext_iff.mp h).2
        simp
  moved_folder {store after source target} _ hnested h path place _ _ hunder hplace := by
    have hmoves := (Relocation.memMoves_iff store source target).mpr (hnested.memMoveFits store)
    have hatOnce := hmoves.done store rfl (Prod.ext_iff.mp h).1
    have hafter : (store.moveFolder source target).2 = after := (Prod.ext_iff.mp h).2
    have hkeys (key : PathBuf.Key) : key ∈ store.keysUnder source ↔
        (store.files.lookup key).isSome ∧ key.startsWith source.key = true := by
      unfold BlockingMemIo.keysUnder
      rw [List.mem_filter, HashMap.mem_keys]
    rw [hafter] at hatOnce
    rw [memText, memText, memText, hplace]
    cases hfile : store.files.lookup path.key with
    | some contents =>
        have hmem : path.key ∈ store.keysUnder source := (hkeys path.key).mpr ⟨by simp [hfile], hunder⟩
        rw [Option.some_or, ← hfile]
        exact hatOnce.landed path.key hmem
    | none =>
        rw [Option.none_or]
        apply hatOnce.kept
        · right
          intro hmem
          have hinside := ((hkeys _).mp hmem).2
          rw [hnested.newKey_outside hunder] at hinside
          contradiction
        · intro other hother heq
          obtain ⟨hstored, hbelow⟩ := (hkeys other).mp hother
          rw [Relocation.newKey_injective hnested.nonempty hbelow hunder heq, hfile] at hstored
          contradiction

theorem AsyncMemIo.shelves : Shelves AsyncMemIo (fun _ => True) (fun _ => True) Path.key where
  slot_key _ _ h := h
  written {store after path data} _ _ h := by
    obtain rfl : (⟨store.files.insert path.key data⟩ : AsyncMemIo) = after := (Prod.ext_iff.mp h).2
    refine ⟨trivial, fun other _ => ?_⟩
    rw [asyncText, asyncText, HashMap.lookup_insert]
  refused _ _ h := by cases h
  moved {store after source target} _ _ _ _ h := by
    rw [asyncText, asyncText]
    change store.moveFile source target = _ at h
    unfold AsyncMemIo.moveFile at h
    cases hfile : store.files.lookup source.key with
    | none =>
        rw [hfile] at h
        cases h
    | some contents =>
        rw [hfile] at h
        obtain rfl := (Prod.ext_iff.mp h).2
        simp

end Mem

-- The string that a store of strings finds the file by.
def Path.name (path : Path .file) : Str :=
  path.fullPath.text

theorem key_of_name {path other : Path .file} (h : path.name = other.name) :
    path.key = other.key := by
  have hmeaning : meaning path.name = meaning other.name := by rw [h]
  exact hmeaning

theorem kvText (kv : KvBlockingIo) (path : Path .file) :
    FileIo.text kv path = kv.files.lookup path.name := by
  change (kv.readFile path).toOption = _
  unfold KvBlockingIo.readFile Path.name
  cases kv.files.lookup path.fullPath.text <;> rfl

theorem indexedDbText (io : IndexedDbIo) (path : Path .file) :
    FileIo.text io path = io.files.lookup path.name := by
  change (io.readFile path).toOption = _
  unfold IndexedDbIo.readFile IndexedDbIo.get Path.name
  cases io.files.lookup path.fullPath.text <;> rfl

theorem named_insert {names : Set Str} {table : HashMap Str Str} (h : ∀ name ∈ table.keys, name ∈ names)
    {added : Str} (hadded : added ∈ names) (text : Str) :
    ∀ name ∈ (table.insert added text).keys, name ∈ names := by
  intro name hname
  rw [HashMap.mem_keys, HashMap.lookup_insert] at hname
  split at hname
  · next heq => exact heq ▸ hadded
  · exact h name ((HashMap.mem_keys _ _).mpr hname)

section Names

variable {names : Set Str} (hnames : Set.InjOn meaning names) {source target : Path .folder}
  (hrelocates : Relocates names source target) {keys : List Str} {table : HashMap Str Str}
  (hkeys : Under table source keys) (hknown : ∀ name ∈ table.keys, name ∈ names)

include hnames hrelocates hkeys hknown

-- Of the names under the folder one alone goes to the new place of a known name.
theorem eq_of_meaning_newName {left right : Str} (hleft : left ∈ keys) (hright : right ∈ names)
    (hunder : (meaning right).startsWith source.key = true)
    (heq : meaning (newName source target left) = newKey source.key target.key (meaning right)) :
    left = right := by
  obtain ⟨hstored, hbelow⟩ := (hkeys left).mp hleft
  rw [hkeys.meaning_newName hleft] at heq
  exact hnames (hknown left hstored) hright
    (Relocation.newKey_injective hrelocates.1.nonempty hbelow hunder heq)

theorem names_agree : HashMap.Agree (newName source target) keys table.lookup := by
  intro left hleft right hright heq
  obtain ⟨hstored, hunder⟩ := (hkeys right).mp hright
  have hsame : meaning (newName source target left) = newKey source.key target.key (meaning right) := by
    rw [heq, hkeys.meaning_newName hright]
  rw [eq_of_meaning_newName hnames hrelocates hkeys hknown hleft (hknown right hstored) hunder hsame]

omit hnames hknown in
theorem newName_not_mem {name : Str} (h : name ∈ keys) : newName source target name ∉ keys := by
  intro hmem
  have houtside := hrelocates.1.newKey_outside ((hkeys name).mp h).2
  rw [← hkeys.meaning_newName h, ((hkeys _).mp hmem).2] at houtside
  contradiction

-- Taken to their new places at once, the files are found there.
theorem names_moved {after : HashMap Str Str}
    (hatOnce : HashMap.AtOnce False (newName source target) keys table.lookup after.lookup)
    {path place : Path .file} (hpath : Known names path) (hplace : Known names place)
    (hunder : path.key.startsWith source.key = true)
    (hkey : place.key = newKey source.key target.key path.key) :
    after.lookup place.name = (table.lookup path.name).or (table.lookup place.name) := by
  cases hfile : table.lookup path.name with
  | some contents =>
      have hmem : path.name ∈ keys := (hkeys path.name).mpr ⟨Naming.mem_of_lookup hfile, hunder⟩
      have hname : place.name = newName source target path.name :=
        hnames hplace (hrelocates.2 path.name hpath hunder)
          (hkey.trans (hkeys.meaning_newName hmem).symm)
      rw [Option.some_or, ← hfile, hname]
      exact hatOnce.landed path.name hmem
  | none =>
      rw [Option.none_or]
      apply hatOnce.kept
      · right
        intro hmem
        have hinside : place.key.startsWith source.key = true := ((hkeys _).mp hmem).2
        rw [hkey, hrelocates.1.newKey_outside hunder] at hinside
        contradiction
      · intro other hother heq
        have hsame : meaning (newName source target other) =
            newKey source.key target.key (meaning path.name) := by
          rw [heq]
          exact hkey
        obtain rfl := eq_of_meaning_newName hnames hrelocates hkeys hknown hother hpath hunder hsame
        obtain ⟨text, htext⟩ := Naming.lookup_of_mem ((hkeys _).mp hother).1
        exact absurd (hfile.symm.trans htext) (by simp)

end Names

-- The table of redb tells its files apart by their names.
theorem KvBlockingIo.shelves :
    Shelves KvBlockingIo (fun _ => True) (fun _ => True) Path.name where
  slot_key _ _ h := key_of_name h
  written {store after path data} _ _ h := by
    obtain rfl : (⟨store.files.insert path.name data⟩ : KvBlockingIo) = after := (Prod.ext_iff.mp h).2
    refine ⟨trivial, fun other _ => ?_⟩
    rw [kvText, kvText, HashMap.lookup_insert]
  refused _ _ h := by cases h
  moved {store after source target} _ _ _ hne h := by
    rw [kvText, kvText]
    change store.moveFile source target = _ at h
    unfold KvBlockingIo.moveFile at h
    cases hfile : store.files.lookup source.fullPath.text with
    | none =>
        rw [hfile] at h
        cases h
    | some contents =>
        rw [hfile] at h
        obtain rfl := (Prod.ext_iff.mp h).2
        simpa [Path.name] using hfile.symm

def KvBlockingIo.NamedIn (names : Set Str) (kv : KvBlockingIo) : Prop :=
  ∀ name ∈ kv.files.keys, name ∈ names

theorem KvBlockingIo.folderShelves {names : Set Str} (hnames : Set.InjOn meaning names) :
    FolderShelves KvBlockingIo (NamedIn names) (Known names) Path.name (Relocates names) where
  slot_key _ _ h := key_of_name h
  written {store after path data} hfits hpath h := by
    obtain ⟨_, htext⟩ := KvBlockingIo.shelves.written trivial trivial h
    refine ⟨?_, fun other _ => htext other trivial⟩
    obtain rfl : (⟨store.files.insert path.name data⟩ : KvBlockingIo) = after := (Prod.ext_iff.mp h).2
    exact named_insert hfits hpath data
  refused _ _ h := by cases h
  moved _ _ _ hne h := KvBlockingIo.shelves.moved trivial trivial trivial hne h
  moved_folder {store after source target} hfits hrelocates h path place hpath hplace hunder hkey := by
    have hkeys : Under store.files source (store.matchingKeys source) := fun name => List.mem_filter
    have hmoveFits : Relocation.KvMoveFits store source target := by
      refine ⟨names_agree hnames hrelocates hkeys hfits, ?_, ?_⟩
      · refine List.pairwise_iff_forall_sublist.mpr fun hsublist heq => ?_
        have hname := hsublist.subset List.mem_cons_self
        have hlater := hsublist.subset (List.mem_cons_of_mem _ List.mem_cons_self)
        exact absurd (heq ▸ hlater) (newName_not_mem hrelocates hkeys hname)
      · intro key hkey name hname hnot _ hmeaning
        obtain ⟨hstored, hbelow⟩ := (hkeys key).mp hkey
        exact absurd (hnames (hfits name hname)
          (hrelocates.2 key (hfits key hstored) hbelow) hmeaning).symm (hnot key hkey)
    have hdone := (Relocation.kvMoves_of_fits hmoveFits).done (Prod.ext_iff.mp h).1
    have hafter : (store.moveFolder source target).2 = after := (Prod.ext_iff.mp h).2
    rw [hafter] at hdone
    rw [kvText, kvText, kvText]
    exact names_moved hnames hrelocates hkeys hfits hdone.atOnce hpath hplace hunder hkey

theorem IndexedDbIo.shelves :
    Shelves IndexedDbIo (fun _ => True) (fun _ => True) Path.name where
  slot_key _ _ h := key_of_name h
  written {store after path data} _ _ h := by
    obtain rfl : (⟨store.files.insert path.name data⟩ : IndexedDbIo) = after := (Prod.ext_iff.mp h).2
    refine ⟨trivial, fun other _ => ?_⟩
    rw [indexedDbText, indexedDbText, HashMap.lookup_insert]
  refused _ _ h := by cases h
  moved {store after source target} _ _ _ hne h := by
    rw [indexedDbText, indexedDbText]
    change Relocation.alone store (.moveFile source target) = _ at h
    rw [Relocation.alone_moveFile] at h
    cases hfile : store.files.lookup source.fullPath.text with
    | none =>
        rw [hfile] at h
        cases h
    | some contents =>
        rw [hfile] at h
        obtain rfl := (Prod.ext_iff.mp h).2
        have hname : target.name ≠ source.name := fun heq => hne (key_of_name heq.symm)
        have hlookup := HashMap.lookup_erase (store.files.insert target.name contents) source.name
          target.name
        rw [if_neg hname, HashMap.lookup_insert, if_pos rfl] at hlookup
        exact hlookup.trans hfile.symm

def IndexedDbIo.NamedIn (names : Set Str) (io : IndexedDbIo) : Prop :=
  ∀ name ∈ io.files.keys, name ∈ names

theorem IndexedDbIo.folderShelves {names : Set Str} (hnames : Set.InjOn meaning names) :
    FolderShelves IndexedDbIo (NamedIn names) (Known names) Path.name (Relocates names) where
  slot_key _ _ h := key_of_name h
  written {store after path data} hfits hpath h := by
    obtain ⟨_, htext⟩ := IndexedDbIo.shelves.written trivial trivial h
    refine ⟨?_, fun other _ => htext other trivial⟩
    obtain rfl : (⟨store.files.insert path.name data⟩ : IndexedDbIo) = after := (Prod.ext_iff.mp h).2
    exact named_insert hfits hpath data
  refused _ _ h := by cases h
  moved _ _ _ hne h := IndexedDbIo.shelves.moved trivial trivial trivial hne h
  moved_folder {store after source target} hfits hrelocates h path place hpath hplace hunder hkey := by
    have hkeys : Under store.files source (namesUnder store source) := fun name => List.mem_filter
    have hmoveFits : Relocation.IndexedDbMoveFits store source target := by
      refine ⟨names_agree hnames hrelocates hkeys hfits, fun key hkey hland => ?_⟩
      exact absurd hland (newName_not_mem hrelocates hkeys hkey)
    have hatOnce := (Relocation.movesFolder_iff store source target).mpr hmoveFits (Prod.ext_iff.mp h).1
    have hafter : (Relocation.alone store (.moveFolder source target)).2 = after :=
      (Prod.ext_iff.mp h).2
    rw [hafter] at hatOnce
    rw [indexedDbText, indexedDbText, indexedDbText]
    exact names_moved hnames hrelocates hkeys hfits hatOnce hpath hplace hunder hkey

end Saps.Files
