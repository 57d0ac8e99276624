import Saps.Files.FlatEngines.Theorems
import Saps.Files.Relocation

namespace Saps.Files.Relocation

open FlatEngines
open HashMap (AtOnce rekey duplicate)

section Mem

variable {io : BlockingMemIo} {source target : Path .folder}

theorem mem_keysUnder_iff {other : BlockingMemIo} (h : other.files.lookup = io.files.lookup)
    (key : PathBuf.Key) : key ∈ other.keysUnder source ↔ key ∈ io.keysUnder source := by
  unfold BlockingMemIo.keysUnder
  rw [List.mem_filter, List.mem_filter, HashMap.mem_keys, HashMap.mem_keys, h]

-- Every order of the files of a folder is the one of some iteration of the map.
theorem exists_keysUnder_eq (order : List PathBuf.Key) (h : order.Perm (io.keysUnder source)) :
    ∃ other : BlockingMemIo, other.files.lookup = io.files.lookup ∧
      other.keysUnder source = order := by
  let outside := io.files.keys.filter fun key => !key.startsWith source.key
  have hperm : (order ++ outside).Perm io.files.keys :=
    (h.append_right outside).trans (List.filter_append_perm _ _)
  obtain ⟨files, hlookup, hkeys⟩ := io.files.exists_keys_eq _ hperm
  refine ⟨⟨files⟩, hlookup, ?_⟩
  have hunder : ∀ key ∈ order, key.startsWith source.key = true := fun key hkey =>
    (List.mem_filter.mp (h.mem_iff.mp hkey)).2
  have houtside : ∀ key ∈ outside, ¬key.startsWith source.key = true := fun key hkey => by
    simpa using (List.mem_filter.mp hkey).2
  unfold BlockingMemIo.keysUnder
  rw [hkeys, List.filter_append, List.filter_eq_self.mpr hunder, List.filter_eq_nil_iff.mpr houtside,
    List.append_nil]

-- An operation that gives up on an empty folder and goes through its files otherwise.
def Loops (op : BlockingMemIo → Path .folder → Path .folder → Except FileError Unit × BlockingMemIo)
    (turn : HashMap PathBuf.Key Str → PathBuf.Key → HashMap PathBuf.Key Str)
    (source target : Path .folder) : Prop :=
  ∀ io : BlockingMemIo, op io source target =
    if io.keysUnder source = [] then
      (.error (BlockingMemIo.folderNotFound source.fullPath), io)
    else (.ok (), ⟨(io.keysUnder source).foldl turn io.files⟩)

theorem moveFolder_loops (source target : Path .folder) :
    Loops BlockingMemIo.moveFolder (rekey (newKey source.key target.key)) source target := by
  intro io
  rw [← foldl_moveKey_eq]
  rfl

theorem copyFolder_loops (source target : Path .folder) :
    Loops BlockingMemIo.copyFolder (duplicate (newKey source.key target.key)) source target := by
  intro io
  rw [← foldl_copyKey_eq]
  rfl

variable {keep : Prop}
  {op : BlockingMemIo → Path .folder → Path .folder → Except FileError Unit × BlockingMemIo}
  {turn : HashMap PathBuf.Key Str → PathBuf.Key → HashMap PathBuf.Key Str}

theorem keysUnder_eq_nil_iff {other : BlockingMemIo} (h : other.files.lookup = io.files.lookup) :
    other.keysUnder source = [] ↔ io.keysUnder source = [] := by
  simp only [List.eq_nil_iff_forall_not_mem, mem_keysUnder_iff h]

-- If the loop comes to doing it at once in every order, so does the operation.
theorem Loops.relocates (hop : Loops op turn source target)
    (hloop : ∀ other : BlockingMemIo, other.files.lookup = io.files.lookup →
      AtOnce keep (newKey source.key target.key) (io.keysUnder source) io.files.lookup
        ((other.keysUnder source).foldl turn other.files).lookup) :
    MemRelocates keep op io source target := by
  refine ⟨?_, ?_, ?_⟩
  · intro other hother hok
    rw [hop other] at hok ⊢
    split at hok
    · cases hok
    · next hne =>
      rw [if_neg hne]
      exact hloop other hother
  · intro other _ error herror
    rw [hop other] at herror ⊢
    split at herror
    · next hnil => rw [if_pos hnil]
    · cases herror
  · intro other hother
    rw [hop other, hop io]
    by_cases hnil : io.keysUnder source = []
    · rw [if_pos hnil, if_pos ((keysUnder_eq_nil_iff hother).mpr hnil)]
      exact ⟨rfl, hother⟩
    · rw [if_neg hnil, if_neg fun h => hnil ((keysUnder_eq_nil_iff hother).mp h)]
      exact ⟨rfl, (hloop other hother).unique (hloop io rfl)⟩

-- Whatever order the files are taken in, the loop comes to doing it at once.
theorem MemRelocates.loop (h : MemRelocates keep op io source target)
    (hop : Loops op turn source target) (order : List PathBuf.Key)
    (horder : order.Perm (io.keysUnder source)) :
    ∃ files : HashMap PathBuf.Key Str, files.lookup = io.files.lookup ∧
      AtOnce keep (newKey source.key target.key) order files.lookup (order.foldl turn files).lookup := by
  obtain ⟨other, hother, hkeys⟩ := exists_keysUnder_eq order horder
  refine ⟨other.files, hother, ?_⟩
  by_cases hnil : order = []
  · rw [hnil]
    exact .nil
  · have hne : ¬other.keysUnder source = [] := fun heq => hnil (hkeys.symm.trans heq)
    have hdone := h.done other hother
    rw [hop other, if_neg hne, hkeys] at hdone
    rw [hother]
    exact (hdone rfl).congr fun key => horder.mem_iff.symm

theorem MemRelocates.agree (h : MemRelocates keep op io source target)
    (hop : Loops op turn source target) :
    HashMap.Agree (newKey source.key target.key) (io.keysUnder source) io.files.lookup := by
  obtain ⟨files, hfiles, hatOnce⟩ := h.loop hop _ (.refl _)
  rw [← hfiles]
  exact hatOnce.agree

-- An order that ends with a key that another one lands on.
theorem exists_order_last {key later : PathBuf.Key} (hkey : key ∈ io.keysUnder source)
    (hlater : later ∈ io.keysUnder source) (hne : key ≠ later) :
    ∃ front, key ∈ front ∧ (front ++ [later]).Perm (io.keysUnder source) := by
  refine ⟨(io.keysUnder source).erase later, ?_, ?_⟩
  · exact (List.mem_erase_of_ne hne).mpr hkey
  · exact List.perm_append_comm.trans (List.perm_cons_erase hlater).symm

-- A move is a move at once in every order exactly when it fits.
theorem memMoves_iff (io : BlockingMemIo) (source target : Path .folder) :
    MemRelocates False BlockingMemIo.moveFolder io source target ↔ MemMoveFits io source target := by
  constructor
  · intro h
    refine ⟨h.agree (moveFolder_loops source target), fun key hkey hland => ?_⟩
    by_cases hsame : key = newKey source.key target.key key
    · exact congrArg _ hsame.symm
    · obtain ⟨front, hfront, hperm⟩ := exists_order_last hkey hland hsame
      obtain ⟨files, hfiles, hatOnce⟩ := h.loop (moveFolder_loops source target) _ hperm
      refine HashMap.rekey_order _ files hfront ?_ rfl (by simp) hatOnce
      rw [hfiles]
      exact keysUnder_stored io source key hkey
  · rintro ⟨hagree, hland⟩
    refine (moveFolder_loops source target).relocates fun other hother => ?_
    have hmem (key : PathBuf.Key) : key ∈ other.keysUnder source ↔ key ∈ io.keysUnder source :=
      mem_keysUnder_iff hother key
    rw [← hother] at hagree ⊢
    refine (HashMap.foldl_rekey_atOnce _ _ (keysUnder_nodup other source)
      (keysUnder_stored other source) ?_ ?_).congr hmem
    · intro left hleft right hright
      exact hagree left ((hmem left).mp hleft) right ((hmem right).mp hright)
    · refine List.pairwise_of_forall_mem_list fun key hkey later hlater heq => ?_
      rw [← heq]
      exact hland key ((hmem key).mp hkey) (heq ▸ (hmem later).mp hlater)

theorem memCopies_iff (io : BlockingMemIo) (source target : Path .folder) :
    MemRelocates True BlockingMemIo.copyFolder io source target ↔ MemCopyFits io source target := by
  constructor
  · intro h
    refine ⟨h.agree (copyFolder_loops source target), fun key hkey hland => ?_⟩
    by_cases hsame : key = newKey source.key target.key key
    · exact congrArg _ hsame.symm
    · obtain ⟨front, hfront, hperm⟩ := exists_order_last hkey hland hsame
      obtain ⟨files, hfiles, hatOnce⟩ := h.loop (copyFolder_loops source target) _ hperm
      rw [← hfiles]
      refine (HashMap.duplicate_order _ files hfront ?_ rfl (by simp) hatOnce).symm
      rw [hfiles]
      exact keysUnder_stored io source key hkey
  · rintro ⟨hagree, hland⟩
    refine (copyFolder_loops source target).relocates fun other hother => ?_
    have hmem (key : PathBuf.Key) : key ∈ other.keysUnder source ↔ key ∈ io.keysUnder source :=
      mem_keysUnder_iff hother key
    rw [← hother] at hagree hland ⊢
    refine (HashMap.foldl_duplicate_atOnce _ _ (keysUnder_stored other source) ?_ ?_).congr hmem
    · intro left hleft right hright
      exact hagree left ((hmem left).mp hleft) right ((hmem right).mp hright)
    · refine List.pairwise_of_forall_mem_list fun key hkey later hlater heq => ?_
      rw [← heq]
      exact (hland key ((hmem key).mp hkey) (heq ▸ (hmem later).mp hlater)).symm

-- Between folders that are not nested every new place is one of its own.
theorem newKey_under {source key : PathBuf.Key} (target : PathBuf.Key) (hsource : source.components ≠ [])
    (hunder : key.startsWith source = true) :
    ∃ rest, key.components = source.components ++ rest ∧
      (newKey source target key).components = target.components ++ rest := by
  have hstrip : key.stripPrefix source ≠ none := by simp [PathBuf.Key.stripPrefix, hunder]
  obtain ⟨rest, hrest⟩ := Option.ne_none_iff_exists'.mp hstrip
  have hkey := PathBuf.Key.stripPrefix_eq_some hrest
  refine ⟨rest.components, hkey, ?_⟩
  unfold newKey
  rw [hrest]
  change target.components.join rest.components = _
  cases hcases : rest.components with
  | nil => simp [Components.join]
  | cons first back =>
      have hinner := key.tail_inner first (by
        obtain ⟨front, middle, hfront⟩ := List.exists_cons_of_ne_nil hsource
        simp [hkey, hfront, hcases])
      cases first with
      | rootDir => exact absurd rfl hinner.1
      | curDir => exact absurd rfl hinner.2
      | parentDir => rfl
      | normal name => rfl

theorem Unnested.nonempty (h : Unnested source target) : source.key.components ≠ [] := by
  intro hnil
  have hunder : target.key.startsWith source.key = true := by
    unfold PathBuf.Key.startsWith
    rw [Components.startsWith_iff, hnil]
    exact List.nil_prefix
  rw [h.2] at hunder
  contradiction

theorem newKey_injective (hsource : source.key.components ≠ []) {left right : PathBuf.Key}
    (hleft : left.startsWith source.key = true) (hright : right.startsWith source.key = true)
    (heq : newKey source.key target.key left =
      newKey source.key target.key right) : left = right := by
  obtain ⟨rest, hrest, hnew⟩ := newKey_under target.key hsource hleft
  obtain ⟨other, hother, hnew'⟩ := newKey_under target.key hsource hright
  have hsame : rest = other := by
    rw [heq, hnew'] at hnew
    exact (List.append_cancel_left hnew).symm
  exact PathBuf.Key.ext (by rw [hrest, hother, hsame])

-- A new place is not under the old folder.
theorem Unnested.newKey_outside (h : Unnested source target) {key : PathBuf.Key}
    (hunder : key.startsWith source.key = true) :
    (newKey source.key target.key key).startsWith source.key = false := by
  obtain ⟨rest, _, hnew⟩ := newKey_under target.key h.nonempty hunder
  by_contra hinside
  have hsource : source.key.components <+: target.key.components ++ rest := by
    rw [← hnew]
    exact (Components.startsWith_iff _ _).mp (Bool.not_eq_false _ ▸ hinside)
  rcases List.prefix_or_prefix_of_prefix hsource (List.prefix_append _ _) with hprefix | hprefix
  · have hbelow : target.key.startsWith source.key = true :=
      (Components.startsWith_iff _ _).mpr hprefix
    rw [h.2] at hbelow
    contradiction
  · have hbelow : source.key.startsWith target.key = true :=
      (Components.startsWith_iff _ _).mpr hprefix
    rw [h.1] at hbelow
    contradiction

theorem Unnested.memMoveFits (h : Unnested source target) (io : BlockingMemIo) :
    MemMoveFits io source target := by
  have hunder (key : PathBuf.Key) (hkey : key ∈ io.keysUnder source) :
      key.startsWith source.key = true := (List.mem_filter.mp hkey).2
  refine ⟨fun left hleft right hright heq => ?_, fun key hkey hland => ?_⟩
  · rw [newKey_injective h.nonempty (hunder left hleft) (hunder right hright) heq]
  · have houtside := h.newKey_outside (hunder key hkey)
    rw [hunder _ hland] at houtside
    contradiction

end Mem

section Tables

variable {keep : Prop} {keys : List Str} {source target : Path .folder} {before after : HashMap Str Str}

-- What else is found at the new places after the move stood there before it.
theorem tableRelocates_iff :
    TableRelocates keep keys source target before after ↔
      AtOnce keep (newName source target) keys before.lookup after.lookup ∧
        Unaliased keep keys source target before := by
  constructor
  · intro h
    refine ⟨h.atOnce, fun key hkey name hname hnot hkept hmeaning => ?_⟩
    obtain ⟨text, htext⟩ := Naming.lookup_of_mem hname
    have hafter := h.atOnce.kept name hkept hnot
    rw [htext] at hafter ⊢
    exact h.spelled key hkey name text hmeaning hafter
  · rintro ⟨hatOnce, haliased⟩
    refine ⟨hatOnce, fun key hkey name text hmeaning htext => ?_⟩
    by_cases hland : ∃ other ∈ keys, newName source target other = name
    · obtain ⟨other, hother, rfl⟩ := hland
      exact ⟨other, hother, rfl, by rw [← hatOnce.landed other hother, htext]⟩
    · have hnot : ∀ other ∈ keys, newName source target other ≠ name := fun other hother heq =>
        hland ⟨other, hother, heq⟩
      by_cases hkept : keep ∨ name ∉ keys
      · have hbefore := hatOnce.kept name hkept hnot
        rw [htext] at hbefore
        obtain ⟨other, hother, hspelled, hsame⟩ :=
          haliased key hkey name (Naming.mem_of_lookup hbefore.symm) hnot hkept hmeaning
        exact ⟨other, hother, hspelled, hsame.trans hbefore.symm⟩
      · obtain ⟨hkeep, hname⟩ := not_or.mp hkept
        rw [hatOnce.vacated hkeep name (not_not.mp hname) hnot] at htext
        contradiction

end Tables

section Kv

variable {io : KvBlockingIo} {source target : Path .folder}

theorem KvRelocates.of_loop {keep : Prop}
    {op : KvBlockingIo → Path .folder → Path .folder → Except FileError Unit × KvBlockingIo}
    {files : HashMap Str Str}
    (hop : op io source target =
      if io.matchingKeys source = [] then
        (.error (KvBlockingIo.folderNotFound source.fullPath.text), io)
      else (.ok (), ⟨files⟩))
    (hfiles : TableRelocates keep (io.matchingKeys source) source target io.files files) :
    KvRelocates keep op io source target := by
  constructor
  · intro hok
    rw [hop] at hok ⊢
    split at hok
    · cases hok
    · next hne =>
      rw [if_neg hne]
      exact hfiles
  · intro error herror
    rw [hop] at herror ⊢
    split at herror
    · next hnil => rw [if_pos hnil]
    · cases herror

theorem TableRelocates.nil {keep : Prop} {table : HashMap Str Str} :
    TableRelocates keep [] source target table table :=
  ⟨.nil, fun _ hkey => absurd hkey List.not_mem_nil⟩

-- What the operation leaves behind, also where it gives up.
theorem KvRelocates.table {keep : Prop}
    {op : KvBlockingIo → Path .folder → Path .folder → Except FileError Unit × KvBlockingIo}
    {turn : HashMap Str Str → Str → HashMap Str Str}
    (hop : op io source target =
      if io.matchingKeys source = [] then
        (.error (KvBlockingIo.folderNotFound source.fullPath.text), io)
      else (.ok (), ⟨(io.matchingKeys source).foldl turn io.files⟩))
    (h : KvRelocates keep op io source target) :
    TableRelocates keep (io.matchingKeys source) source target io.files
      ((io.matchingKeys source).foldl turn io.files) := by
  by_cases hnil : io.matchingKeys source = []
  · rw [hnil]
    exact .nil
  · have hdone := h.done
    rw [hop, if_neg hnil] at hdone
    exact hdone rfl

theorem kvMoves_of_fits (h : KvMoveFits io source target) :
    KvRelocates False KvBlockingIo.moveFolder io source target := by
  obtain ⟨hagree, horder, haliased⟩ := h
  refine .of_loop rfl (tableRelocates_iff.mpr ⟨?_, haliased⟩)
  exact HashMap.foldl_rekey_atOnce _ io.files (matchingKeys_nodup io source)
    (matchingKeys_stored io source) hagree horder

theorem KvRelocates.moveFits (hdistinct : Distinct (io.matchingKeys source) source target)
    (h : KvRelocates False KvBlockingIo.moveFolder io source target) :
    KvMoveFits io source target := by
  obtain ⟨hatOnce, haliased⟩ := tableRelocates_iff.mp (h.table rfl)
  exact ⟨hatOnce.agree, AtOnce.pairwise_rekey _ io.files (matchingKeys_nodup io source)
    (matchingKeys_stored io source) hdistinct hatOnce, haliased⟩

theorem kvCopies_of_fits (h : KvCopyFits io source target) :
    KvRelocates True KvBlockingIo.copyFolder io source target := by
  obtain ⟨hagree, horder, haliased⟩ := h
  refine .of_loop rfl (tableRelocates_iff.mpr ⟨?_, haliased⟩)
  exact HashMap.foldl_duplicate_atOnce _ io.files (matchingKeys_stored io source) hagree horder

theorem KvRelocates.copyFits (hdistinct : Distinct (io.matchingKeys source) source target)
    (h : KvRelocates True KvBlockingIo.copyFolder io source target) :
    KvCopyFits io source target := by
  obtain ⟨hatOnce, haliased⟩ := tableRelocates_iff.mp (h.table rfl)
  exact ⟨hatOnce.agree, AtOnce.pairwise_duplicate _ io.files (matchingKeys_nodup io source)
    (matchingKeys_stored io source) hdistinct hatOnce, haliased⟩

end Kv

-- Moving a folder is a simultaneous re-keying exactly when no file lands on one that
-- has yet to be moved away, no two texts land on one place, and no new place is taken
-- under another spelling.
theorem move_folder_at_once_iff (mem : BlockingMemIo) (kv : KvBlockingIo)
    (source target : Path .folder) :
    (MemRelocates False BlockingMemIo.moveFolder mem source target ↔
        MemMoveFits mem source target) ∧
      (KvMoveFits kv source target →
        KvRelocates False KvBlockingIo.moveFolder kv source target) ∧
      (Distinct (kv.matchingKeys source) source target →
        KvRelocates False KvBlockingIo.moveFolder kv source target →
          KvMoveFits kv source target) :=
  ⟨memMoves_iff mem source target, kvMoves_of_fits, KvRelocates.moveFits⟩

-- A folder with one name at two depths, in both engines.
def nestedMem : BlockingMemIo :=
  ((BlockingMemIo.new.writeFile (Path.new "a/b/0".toList) ['y']).2.writeFile
    (Path.new "a/0".toList) ['x']).2

def nestedKv : KvBlockingIo :=
  ((KvBlockingIo.new.writeFile (Path.new "a/b/0".toList) ['y']).2.writeFile
    (Path.new "a/0".toList) ['x']).2

def intoItself : BlockingMemIo × KvBlockingIo :=
  ((nestedMem.moveFolder (Path.new "a".toList) (Path.new "a/b".toList)).2,
    (nestedKv.moveFolder (Path.new "a".toList) (Path.new "a/b".toList)).2)

-- The file that is moved first lands on the other one, and is then moved in its place.
theorem move_folder_clobbered :
    intoItself.1.readFile (Path.new "a/b/b/0".toList) = .ok ['x'] ∧
      intoItself.1.fileExists (Path.new "a/b/0".toList) = false ∧
      intoItself.2.readFile (Path.new "a/b/b/0".toList) = .ok ['x'] ∧
      intoItself.2.fileExists (Path.new "a/b/0".toList) = false ∧
      ¬MemRelocates False BlockingMemIo.moveFolder nestedMem (Path.new "a".toList)
        (Path.new "a/b".toList) ∧
      ¬KvRelocates False KvBlockingIo.moveFolder nestedKv (Path.new "a".toList)
        (Path.new "a/b".toList) := by
  refine ⟨by decide +kernel, by decide +kernel, by decide +kernel, by decide +kernel, ?_, ?_⟩
  · intro h
    have hlanded := (h.done nestedMem rfl (by decide +kernel)).landed
      (meaning "a/0".toList) (by decide +kernel)
    exact absurd hlanded (by decide +kernel)
  · intro h
    have hlanded := (h.done (by decide +kernel)).atOnce.landed "a/0".toList (by decide +kernel)
    exact absurd hlanded (by decide +kernel)

section IndexedDb

open TwoPhase

variable (io : IndexedDbIo) (source target : Path .folder)

def entriesUnder : List (Str × Str) :=
  io.allEntries.filter fun entry => IndexedDbIo.under source entry.1

theorem map_fst_entriesUnder : (entriesUnder io source).map Prod.fst = namesUnder io source := by
  unfold entriesUnder namesUnder IndexedDbIo.allEntries
  rw [List.filter_map, List.map_map]
  exact List.map_id'' (fun _ => rfl) _

theorem namesUnder_nodup : (namesUnder io source).Nodup :=
  io.files.keys_nodup.filter _

theorem entriesUnder_seen (entry : Str × Str) (h : entry ∈ entriesUnder io source) :
    io.files.lookup entry.1 = some entry.2 := by
  obtain ⟨key, hkey, rfl⟩ := List.mem_map.mp (List.mem_of_mem_filter h)
  obtain ⟨text, htext⟩ := Naming.lookup_of_mem hkey
  simp [htext]

theorem alone_moveFolder :
    alone io (.moveFolder source target) =
      if entriesUnder io source = [] then
        (.error (IndexedDbIo.folderNotFound source.fullPath.text), io)
      else (.ok (), ⟨(entriesUnder io source).foldl (HashMap.putDelete (newName source target))
        io.files⟩) := by
  by_cases hnil : entriesUnder io source = []
  · rw [if_pos hnil]
    exact TwoPhase.alone_of_error (if_pos hnil)
  · rw [if_neg hnil]
    exact TwoPhase.alone_of_look (if_neg hnil)

theorem alone_copyFolder :
    alone io (.copyFolder source target) =
      if entriesUnder io source = [] then
        (.error (IndexedDbIo.folderNotFound source.fullPath.text), io)
      else (.ok (), ⟨(entriesUnder io source).foldl (HashMap.put (newName source target))
        io.files⟩) := by
  by_cases hnil : entriesUnder io source = []
  · rw [if_pos hnil]
    exact TwoPhase.alone_of_error (if_pos hnil)
  · rw [if_neg hnil]
    exact TwoPhase.alone_of_look (if_neg hnil)

theorem alone_moveFile (source target : Path .file) :
    alone io (.moveFile source target) =
      match io.files.lookup source.fullPath.text with
      | none => (.error (IndexedDbIo.fileNotFound source.fullPath.text), io)
      | some contents => (.ok (), ⟨(io.files.insert target.fullPath.text contents).erase
          source.fullPath.text⟩) := by
  cases h : io.files.lookup source.fullPath.text with
  | none =>
      refine TwoPhase.alone_of_error ?_
      change IndexedDbIo.look io (.moveFile source target) = _
      simp only [IndexedDbIo.look, IndexedDbIo.get, h]
      rfl
  | some contents =>
      refine TwoPhase.alone_of_look ?_
      change IndexedDbIo.look io (.moveFile source target) = _
      simp only [IndexedDbIo.look, IndexedDbIo.get, h]
      rfl

theorem movesFile_iff (source target : Path .file) :
    IndexedDbMovesFile io source target ↔
      ((io.files.lookup source.fullPath.text).isSome →
        source.fullPath.text ≠ target.fullPath.text) := by
  unfold IndexedDbMovesFile
  rw [alone_moveFile]
  cases h : io.files.lookup source.fullPath.text with
  | none => simp
  | some contents =>
      constructor
      · intro hmoves _ heq
        have hlanded := (hmoves rfl).landed source.fullPath.text (List.mem_singleton_self _)
        simp [h, ← heq] at hlanded
      · intro hne _
        have hne := hne rfl
        refine ⟨?_, ?_, ?_⟩
        · intro key hkey
          rw [List.mem_singleton.mp hkey, h]
          simp [hne.symm]
        · intro _ key hkey _
          rw [List.mem_singleton.mp hkey]
          simp
        · intro key hkept hnot
          have hsource : key ≠ source.fullPath.text := by simpa using hkept
          have htarget : key ≠ target.fullPath.text := fun heq =>
            hnot _ (List.mem_singleton_self _) heq.symm
          simp [hsource, htarget]

theorem movesFolder_iff : IndexedDbMovesFolder io source target ↔ IndexedDbMoveFits io source target := by
  have hloop := HashMap.foldl_putDelete_atOnce_iff (newName source target) io.files
    (map_fst_entriesUnder io source ▸ namesUnder_nodup io source) (entriesUnder_seen io source)
  rw [map_fst_entriesUnder] at hloop
  unfold IndexedDbMovesFolder IndexedDbMoveFits
  rw [← hloop, alone_moveFolder]
  by_cases hnil : entriesUnder io source = []
  · rw [if_pos hnil, ← map_fst_entriesUnder, hnil]
    exact iff_of_true (fun hok => by cases hok) .nil
  · rw [if_neg hnil]
    exact ⟨fun h => h rfl, fun h _ => h⟩

theorem copies_iff : IndexedDbCopies io source target ↔ IndexedDbCopyFits io source target := by
  have hloop := HashMap.foldl_put_atOnce_iff (newName source target) io.files
    (entriesUnder_seen io source)
  rw [map_fst_entriesUnder] at hloop
  unfold IndexedDbCopies IndexedDbCopyFits
  rw [← hloop, ← tableRelocates_iff, alone_copyFolder]
  by_cases hnil : entriesUnder io source = []
  · rw [if_pos hnil, ← map_fst_entriesUnder, hnil]
    exact iff_of_true (fun hok => by cases hok) .nil
  · rw [if_neg hnil]
    exact ⟨fun h => h rfl, fun h _ => h⟩

end IndexedDb

-- A move in the browser's store is a simultaneous re-keying exactly when no file is
-- deleted after another one, or itself, has been put in its place.
theorem indexed_db_moves_iff (io : IndexedDbIo) :
    (∀ source target, IndexedDbMovesFile io source target ↔
        ((io.files.lookup source.fullPath.text).isSome →
          source.fullPath.text ≠ target.fullPath.text)) ∧
      ∀ source target, IndexedDbMovesFolder io source target ↔ IndexedDbMoveFits io source target :=
  ⟨movesFile_iff io, movesFolder_iff io⟩

def single : IndexedDbIo :=
  (alone IndexedDbIo.new (.writeFile (Path.new "a/x".toList) ['x'])).2

def singleMem : BlockingMemIo :=
  (BlockingMemIo.new.writeFile (Path.new "a/x".toList) ['x']).2

-- A file, and a folder, that is moved to where it is.
def movedFile : Except FileError Unit × IndexedDbIo :=
  alone single (.moveFile (Path.new "a/x".toList) (Path.new "a/x".toList))

def movedFolder : Except FileError Unit × IndexedDbIo :=
  alone single (.moveFolder (Path.new "a".toList) (Path.new "a".toList))

theorem indexed_db_self_move_loses :
    movedFile.1 = .ok () ∧ movedFile.2.allKeys = [] ∧
      movedFolder.1 = .ok () ∧ movedFolder.2.allKeys = [] ∧
      (singleMem.moveFile (Path.new "a/x".toList) (Path.new "a/x".toList)).2.readFile
        (Path.new "a/x".toList) = .ok ['x'] ∧
      (singleMem.moveFolder (Path.new "a".toList) (Path.new "a".toList)).2.readFile
        (Path.new "a/x".toList) = .ok ['x'] ∧
      ¬IndexedDbMovesFile single (Path.new "a/x".toList) (Path.new "a/x".toList) ∧
      ¬IndexedDbMovesFolder single (Path.new "a".toList) (Path.new "a".toList) := by
  refine ⟨by decide +kernel, by decide +kernel, by decide +kernel, by decide +kernel,
    by decide +kernel, by decide +kernel, ?_, ?_⟩
  · intro h
    have hlanded := (h (by decide +kernel)).landed "a/x".toList (by decide +kernel)
    exact absurd hlanded (by decide +kernel)
  · intro h
    have hlanded := (h (by decide +kernel)).landed "a/x".toList (by decide +kernel)
    exact absurd hlanded (by decide +kernel)

section Alike

variable {table : HashMap Str Str} {mem : BlockingMemIo} {keys : List Str} {source target : Path .folder}

-- The names of a table that lie under the folder.
def Under (table : HashMap Str Str) (source : Path .folder) (keys : List Str) : Prop :=
  ∀ name, name ∈ keys ↔ name ∈ table.keys ∧ (meaning name).startsWith source.key = true

theorem Under.meaning_newName (hunder : Under table source keys) {name : Str} (h : name ∈ keys) :
    meaning (newName source target name) = newKey source.key target.key (meaning name) :=
  meaning_swapPrefix source target ((hunder name).mp h).2

theorem Under.mem_keysUnder (hunder : Under table source keys) (hshows : Shows table mem.files)
    (key : PathBuf.Key) : key ∈ mem.keysUnder source ↔ ∃ name ∈ keys, meaning name = key := by
  unfold BlockingMemIo.keysUnder
  rw [List.mem_filter]
  constructor
  · rintro ⟨hkey, hprefix⟩
    obtain ⟨text, htext⟩ := Naming.lookup_of_mem hkey
    obtain ⟨name, rfl, hname⟩ := (hshows key text).mp htext
    exact ⟨name, (hunder name).mpr ⟨Naming.mem_of_lookup hname, hprefix⟩, rfl⟩
  · rintro ⟨name, hname, rfl⟩
    obtain ⟨hstored, hprefix⟩ := (hunder name).mp hname
    obtain ⟨text, htext⟩ := Naming.lookup_of_mem hstored
    exact ⟨Naming.mem_of_lookup ((hshows _ text).mpr ⟨name, rfl, htext⟩), hprefix⟩

theorem Under.eq_nil_iff (hunder : Under table source keys) (hshows : Shows table mem.files) :
    keys = [] ↔ mem.keysUnder source = [] := by
  simp only [List.eq_nil_iff_forall_not_mem, hunder.mem_keysUnder hshows]
  constructor
  · rintro h key ⟨name, hname, _⟩
    exact h name hname
  · exact fun h name hname => h (meaning name) ⟨name, hname, rfl⟩

-- A copy at once shows the same in a table as in the map.
theorem shows_atOnce {after : HashMap Str Str} {files : HashMap PathBuf.Key Str}
    (hunder : Under table source keys) (hshows : Shows table mem.files)
    (htable : TableRelocates True keys source target table after)
    (hmem : AtOnce True (newKey source.key target.key) (mem.keysUnder source) mem.files.lookup
      files.lookup) : Shows after files := by
  have hland (name : Str) : (∃ key ∈ mem.keysUnder source,
      newKey source.key target.key key = meaning name) ↔
        ∃ other ∈ keys, meaning name = meaning (newName source target other) := by
    constructor
    · rintro ⟨key, hkey, heq⟩
      obtain ⟨other, hother, rfl⟩ := (hunder.mem_keysUnder hshows key).mp hkey
      exact ⟨other, hother, by rw [hunder.meaning_newName hother, heq]⟩
    · rintro ⟨other, hother, heq⟩
      refine ⟨meaning other, (hunder.mem_keysUnder hshows _).mpr ⟨other, hother, rfl⟩, ?_⟩
      rw [heq, hunder.meaning_newName hother]
  have hkept (name : Str)
      (hnot : ¬∃ other ∈ keys, meaning name = meaning (newName source target other)) :
      after.lookup name = table.lookup name ∧
        files.lookup (meaning name) = mem.files.lookup (meaning name) := by
    refine ⟨htable.atOnce.kept name (.inl trivial) fun other hother heq => ?_,
      hmem.kept (meaning name) (.inl trivial) fun key hkey heq => ?_⟩
    · exact hnot ⟨other, hother, congrArg meaning heq.symm⟩
    · exact hnot ((hland name).mp ⟨key, hkey, heq⟩)
  have hlanded {other : Str} (hother : other ∈ keys) {text : Str}
      (htext : table.lookup other = some text) :
      files.lookup (meaning (newName source target other)) = some text := by
    have hkey := (hunder.mem_keysUnder hshows _).mpr ⟨other, hother, rfl⟩
    rw [hunder.meaning_newName hother, hmem.landed _ hkey]
    exact (hshows _ text).mpr ⟨other, rfl, htext⟩
  intro key text
  constructor
  · intro htext
    by_cases hnew : ∃ old ∈ mem.keysUnder source, newKey source.key target.key old = key
    · obtain ⟨old, hold, rfl⟩ := hnew
      obtain ⟨name, hname, rfl⟩ := (hunder.mem_keysUnder hshows old).mp hold
      obtain ⟨found, hfound⟩ := Naming.lookup_of_mem ((hunder name).mp hname).1
      have hsame := hlanded hname hfound
      rw [hunder.meaning_newName hname, htext] at hsame
      refine ⟨newName source target name, hunder.meaning_newName hname, ?_⟩
      rw [htable.atOnce.landed name hname, hfound, hsame]
    · rw [hmem.kept key (.inl trivial) fun old hold heq => hnew ⟨old, hold, heq⟩] at htext
      obtain ⟨name, rfl, hname⟩ := (hshows key text).mp htext
      exact ⟨name, rfl, (hkept name fun h => hnew ((hland name).mpr h)).1.trans hname⟩
  · rintro ⟨name, rfl, hname⟩
    by_cases hnew : ∃ other ∈ keys, meaning name = meaning (newName source target other)
    · obtain ⟨other, hother, heq⟩ := hnew
      obtain ⟨origin, horigin, hspelled, htext⟩ := htable.spelled other hother name text heq hname
      rw [← hspelled]
      exact hlanded horigin htext
    · obtain ⟨hsame, hfiles⟩ := hkept name hnew
      rw [hfiles]
      exact (hshows _ text).mpr ⟨name, rfl, hsame.symm.trans hname⟩

theorem under_matchingKeys (kv : KvBlockingIo) (source : Path .folder) :
    Under kv.files source (kv.matchingKeys source) :=
  fun _ => List.mem_filter

theorem under_namesUnder (io : IndexedDbIo) (source : Path .folder) :
    Under io.files source (namesUnder io source) :=
  fun _ => List.mem_filter

theorem copyAlike (mem : BlockingMemIo) (kv : KvBlockingIo) (io : IndexedDbIo)
    (source target : Path .folder)
    (hmem : MemRelocates True BlockingMemIo.copyFolder mem source target)
    (hkv : KvRelocates True KvBlockingIo.copyFolder kv source target)
    (hio : IndexedDbCopies io source target) : CopyAlike mem kv io source target := by
  intro hshowsKv hshowsIo
  have hnilKv := (under_matchingKeys kv source).eq_nil_iff hshowsKv
  have hnilIo := (under_namesUnder io source).eq_nil_iff hshowsIo
  rw [← map_fst_entriesUnder, List.map_eq_nil_iff] at hnilIo
  have hloop := copyFolder_loops source target mem
  have hcopy := alone_copyFolder io source target
  have hkvLoop : kv.copyFolder source target =
      if kv.matchingKeys source = [] then
        (.error (KvBlockingIo.folderNotFound source.fullPath.text), kv)
      else (.ok (), ⟨(kv.matchingKeys source).foldl (duplicate (newName source target)) kv.files⟩) :=
    rfl
  by_cases hnil : mem.keysUnder source = []
  · rw [if_pos hnil] at hloop
    rw [if_pos (hnilKv.mpr hnil)] at hkvLoop
    rw [if_pos (hnilIo.mpr hnil)] at hcopy
    rw [hloop, hkvLoop, hcopy]
    exact ⟨rfl, rfl, hshowsKv, hshowsIo⟩
  · rw [if_neg hnil] at hloop
    rw [if_neg fun h => hnil (hnilKv.mp h)] at hkvLoop
    rw [if_neg fun h => hnil (hnilIo.mp h)] at hcopy
    have hdone := hmem.done mem rfl (by rw [hloop])
    have hdoneKv := hkv.done (by rw [hkvLoop])
    have hdoneIo := hio (by rw [hcopy])
    refine ⟨by rw [hloop, hkvLoop], by rw [hloop, hcopy], ?_, ?_⟩
    · exact shows_atOnce (under_matchingKeys kv source) hshowsKv hdoneKv hdone
    · exact shows_atOnce (under_namesUnder io source) hshowsIo hdoneIo hdone

end Alike

-- Copying a folder copies a snapshot exactly when no two texts land on one place, no
-- text lands on another file of the folder before it is copied, and no new place is
-- taken under another spelling. The engines then hold the same.
theorem copy_folder_snapshot_iff (mem : BlockingMemIo) (kv : KvBlockingIo) (io : IndexedDbIo)
    (source target : Path .folder) :
    (MemRelocates True BlockingMemIo.copyFolder mem source target ↔
        MemCopyFits mem source target) ∧
      (KvCopyFits kv source target →
        KvRelocates True KvBlockingIo.copyFolder kv source target) ∧
      (Distinct (kv.matchingKeys source) source target →
        KvRelocates True KvBlockingIo.copyFolder kv source target → KvCopyFits kv source target) ∧
      (IndexedDbCopies io source target ↔ IndexedDbCopyFits io source target) ∧
      (MemCopyFits mem source target → KvCopyFits kv source target →
        IndexedDbCopyFits io source target → CopyAlike mem kv io source target) := by
  refine ⟨memCopies_iff mem source target, kvCopies_of_fits, KvRelocates.copyFits,
    copies_iff io source target, fun hmem hkv hio => ?_⟩
  exact copyAlike mem kv io source target ((memCopies_iff mem source target).mpr hmem)
    (kvCopies_of_fits hkv) ((copies_iff io source target).mpr hio)

def nestedIo : IndexedDbIo :=
  (alone (alone IndexedDbIo.new (.writeFile (Path.new "a/b/0".toList) ['y'])).2
    (.writeFile (Path.new "a/0".toList) ['x'])).2

def copiedIntoItself : BlockingMemIo × KvBlockingIo × IndexedDbIo :=
  ((nestedMem.copyFolder (Path.new "a".toList) (Path.new "a/b".toList)).2,
    (nestedKv.copyFolder (Path.new "a".toList) (Path.new "a/b".toList)).2,
    (alone nestedIo (.copyFolder (Path.new "a".toList) (Path.new "a/b".toList))).2)

-- Two of the engines copy what has just been copied, the third one a snapshot.
theorem copy_folder_overwritten :
    copiedIntoItself.1.readFile (Path.new "a/b/b/0".toList) = .ok ['x'] ∧
      copiedIntoItself.2.1.readFile (Path.new "a/b/b/0".toList) = .ok ['x'] ∧
      copiedIntoItself.2.2.get "a/b/b/0".toList = some ['y'] ∧
      ¬MemRelocates True BlockingMemIo.copyFolder nestedMem (Path.new "a".toList)
        (Path.new "a/b".toList) ∧
      ¬KvRelocates True KvBlockingIo.copyFolder nestedKv (Path.new "a".toList)
        (Path.new "a/b".toList) := by
  refine ⟨by decide +kernel, by decide +kernel, by decide +kernel, ?_, ?_⟩
  · intro h
    have hlanded := (h.done nestedMem rfl (by decide +kernel)).landed
      (meaning "a/b/0".toList) (by decide +kernel)
    exact absurd hlanded (by decide +kernel)
  · intro h
    have hlanded := (h.done (by decide +kernel)).atOnce.landed "a/b/0".toList (by decide +kernel)
    exact absurd hlanded (by decide +kernel)

end Saps.Files.Relocation
