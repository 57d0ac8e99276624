import Saps.Files.DiskSession
import Saps.Files.Guard.Transactions
import Saps.Files.Session.Buffers

namespace Saps.Files.DiskSession

open Transition MemFileGuard Session

variable {Doc : Type}

theorem Live.flush_of_some {live : Live} {spot : Spot} {contents : Str}
    (h : live.texts spot = some contents) (cwd : Location) :
    live.flush cwd spot = live.store cwd spot contents := by
  unfold flush
  rw [h]

-- What a call leaves of a disk when it writes at one location only, and there one
-- of some texts.
structure Touched (disk : Disk) (spot : Spot) (texts : Set Str) (after : Disk) : Prop where
  cwd : after.cwd = disk.cwd
  files : after.tree.file = disk.tree.file ∨ ∃ contents ∈ texts, after.tree.file =
    Function.update disk.tree.file (spot.place disk.cwd) (some contents)

theorem Touched.refl (disk : Disk) (spot : Spot) (texts : Set Str) :
    Touched disk spot texts disk :=
  ⟨rfl, .inl rfl⟩

theorem Touched.mono {disk after : Disk} {spot : Spot} {texts wide : Set Str}
    (h : Touched disk spot texts after) (hwide : texts ⊆ wide) :
    Touched disk spot wide after := by
  refine ⟨h.cwd, h.files.imp_right ?_⟩
  rintro ⟨contents, hmem, hfile⟩
  exact ⟨contents, hwide hmem, hfile⟩

theorem Touched.trans {disk mid after : Disk} {spot : Spot} {texts : Set Str}
    (hleft : Touched disk spot texts mid) (hright : Touched mid spot texts after) :
    Touched disk spot texts after := by
  refine ⟨hright.cwd.trans hleft.cwd, ?_⟩
  rcases hright.files with hsame | ⟨contents, hmem, hfile⟩
  · rw [hsame]
    exact hleft.files
  · refine .inr ⟨contents, hmem, ?_⟩
    rw [hfile, hleft.cwd]
    rcases hleft.files with hsame | ⟨first, _, hfirst⟩
    · rw [hsame]
    · rw [hfirst, Function.update_idem]

theorem makeParent_file (disk : Disk) (path : PathBuf) :
    (BlockingDiskIo.makeParent disk path).2.cwd = disk.cwd ∧
      (BlockingDiskIo.makeParent disk path).2.tree.file = disk.tree.file := by
  unfold BlockingDiskIo.makeParent BlockingDiskIo.tagged Disk.createDirAll
  split
  · exact ⟨rfl, rfl⟩
  · next parent _ =>
    by_cases hnul : Disk.nul ∈ parent.text
    · rw [if_pos hnul]
      exact ⟨rfl, rfl⟩
    · rw [if_neg hnul]
      exact Disk.makeFolders_file disk disk.cwd parent.components

-- Whatever is read by a path is the file at its location.
theorem readFile_place {disk : Disk} {path : Path .file} {contents : Str}
    (h : FileIo.readFile disk path = .ok contents) :
    disk.tree.file (path.spot.place disk.cwd) = some contents := by
  change (disk.readToString path.fullPath).mapError _ = .ok contents at h
  unfold Disk.readToString at h
  cases hresolve : disk.resolve path.fullPath.text with
  | error error =>
      rw [hresolve] at h
      cases h
  | ok location =>
      rw [hresolve] at h
      have hplace := Spot.resolve_place hresolve
      dsimp only at h
      split at h
      · cases h
      · cases h
      · next found hkind =>
        have hfound : found = contents := Except.ok.inj h
        rw [hplace, ← FileTree.file_eq_some, hfound] at hkind
        exact hkind

theorem write_cases (disk : Disk) (path : PathBuf) (data : Str) :
    (disk.write path data).2.cwd = disk.cwd ∧
      (((disk.write path data).1 = .ok () ∧ (disk.write path data).2.tree.file =
        Function.update disk.tree.file (path.key.spot.place disk.cwd) (some data)) ∨
      (∃ error, (disk.write path data).1 = .error error) ∧
        (disk.write path data).2.tree.file = disk.tree.file) := by
  unfold Disk.write
  cases hentry : disk.entry path.text with
  | error error => exact ⟨rfl, .inr ⟨⟨error, rfl⟩, rfl⟩⟩
  | ok location =>
      rw [← Spot.entry_place hentry]
      dsimp only
      split
      · exact ⟨rfl, .inr ⟨⟨_, rfl⟩, rfl⟩⟩
      · split
        · exact ⟨rfl, .inr ⟨⟨_, rfl⟩, rfl⟩⟩
        · next hkind =>
          refine ⟨rfl, .inl ⟨rfl, ?_⟩⟩
          have hne : location ≠ [] := by
            rintro rfl
            exact hkind rfl
          funext other
          refine (FileTree.file_put _ hne _ other).trans ?_
          rw [Function.update_apply]
          rfl

-- A write stores its text at the location of the path, or fails and stores nothing.
theorem writeFile_cases (disk : Disk) (path : Path .file) (data : Str) :
    ∃ result after, FileIo.writeFile disk path data = (result, after) ∧ after.cwd = disk.cwd ∧
      ((result = .ok () ∧ after.tree.file =
        Function.update disk.tree.file (path.spot.place disk.cwd) (some data)) ∨
      (∃ error, result = .error error) ∧ after.tree.file = disk.tree.file) := by
  obtain ⟨hcwd, hfile⟩ := makeParent_file disk path.fullPath
  change ∃ result after, BlockingDiskIo.writeFile disk path data = (result, after) ∧ _
  unfold BlockingDiskIo.writeFile
  rcases hmake : BlockingDiskIo.makeParent disk path.fullPath with ⟨made, mid⟩
  rw [hmake] at hcwd hfile
  cases made with
  | error error => exact ⟨_, _, rfl, hcwd, .inr ⟨⟨error, rfl⟩, hfile⟩⟩
  | ok _ =>
      obtain ⟨hcwd', hcases⟩ := write_cases mid path.fullPath data
      dsimp only at hcwd hfile
      rw [hcwd, hfile] at hcases
      refine ⟨_, _, rfl, hcwd'.trans hcwd, ?_⟩
      rcases hcases with ⟨hok, hput⟩ | ⟨⟨error, herror⟩, hsame⟩
      · refine .inl ⟨?_, hput⟩
        rw [hok]
        rfl
      · refine .inr ⟨⟨BlockingDiskIo.ioError path.fullPath error, ?_⟩, hsame⟩
        rw [herror]
        rfl

theorem writeFile_touched (disk : Disk) (path : Path .file) (data : Str) :
    Touched disk path.spot {data} (FileIo.writeFile disk path data).2 := by
  obtain ⟨result, after, heq, hcwd, hcases⟩ := writeFile_cases disk path data
  rw [heq]
  refine ⟨hcwd, ?_⟩
  rcases hcases with ⟨_, hfile⟩ | ⟨_, hfile⟩
  · exact .inr ⟨data, rfl, hfile⟩
  · exact .inl hfile

variable [Yrs Doc]

theorem save_cases (file : MemFile Doc) (disk : Disk) :
    ∃ after, after.cwd = disk.cwd ∧
      ((file.save disk = (.ok (), { file with opsSinceSave := 0 }, after) ∧ after.tree.file =
        Function.update disk.tree.file (file.path.spot.place disk.cwd) (some file.contents)) ∨
      ∃ error, file.save disk = (.error error, file, after) ∧
        after.tree.file = disk.tree.file) := by
  obtain ⟨result, after, heq, hcwd, hcases⟩ := writeFile_cases disk file.path file.contents
  refine ⟨after, hcwd, ?_⟩
  unfold MemFile.save
  rw [heq]
  rcases hcases with ⟨rfl, hfile⟩ | ⟨⟨error, rfl⟩, hfile⟩
  · exact .inl ⟨rfl, hfile⟩
  · exact .inr ⟨error, rfl, hfile⟩

theorem save_touched (file : MemFile Doc) (disk : Disk) :
    Touched disk file.path.spot {file.contents} (file.save disk).2.2 := by
  obtain ⟨after, hcwd, ⟨heq, hfile⟩ | ⟨error, heq, hfile⟩⟩ := save_cases file disk
  · rw [heq]
    exact ⟨hcwd, .inr ⟨_, rfl, hfile⟩⟩
  · rw [heq]
    exact ⟨hcwd, .inl hfile⟩

theorem recordSingleEdit_touched (file : MemFile Doc) (disk : Disk) :
    Touched disk file.path.spot {file.contents} (file.recordSingleEdit disk).2.2 := by
  simp only [MemFile.recordSingleEdit]
  split
  · exact save_touched { file with opsSinceSave := file.opsSinceSave + 1 } disk
  · exact .refl _ _ _

-- An edit stores the text it makes, or nothing.
theorem applyEdit_touched (file : MemFile Doc) (disk : Disk) (edit : Edit) :
    Touched disk file.path.spot {Yrs.getString (edit.applyDoc file.doc)}
      (file.applyEdit disk edit).2.2 := by
  have hsave := save_touched { file with doc := edit.applyDoc file.doc } disk
  have hrecord := recordSingleEdit_touched { file with doc := edit.applyDoc file.doc } disk
  cases edit with
  | insert position content =>
      match content with
      | [] => exact .refl _ _ _
      | [_] => exact hrecord
      | _ :: _ :: _ => exact hsave
  | delete position length =>
      match length with
      | 0 => exact .refl _ _ _
      | 1 => exact hrecord
      | _ + 2 => exact hsave

-- What a run of edits leaves: a buffer with the edits made before the first
-- failure, and on the disk what it was after some of these.
structure Edited (file : MemFile Doc) (disk : Disk) (edits : List Edit)
    (after : Except FileError Unit × MemFile Doc × Disk) (made : List Edit) : Prop where
  front : made <+: edits
  doc : after.2.1.doc = Edit.applyAll file.doc made
  path : after.2.1.path = file.path
  flushOnDrop : after.2.1.flushOnDrop = file.flushOnDrop
  ok : after.1 = .ok () → made = edits
  touched : Touched disk file.path.spot
    {contents | ∃ front, front <+: made ∧ contents = Yrs.getString (Edit.applyAll file.doc front)}
    after.2.2

theorem applyEdits_edited (file : MemFile Doc) (disk : Disk) (edits : List Edit) :
    ∃ made, Edited file disk edits (file.applyEdits disk edits) made := by
  induction edits generalizing file disk with
  | nil => exact ⟨[], ⟨List.nil_prefix, rfl, rfl, rfl, fun _ => rfl, .refl _ _ _⟩⟩
  | cons edit edits ih =>
      have hstays := MemFile.applyEdit_stays file disk edit
      have htouched := applyEdit_touched file disk edit
      unfold MemFile.applyEdits
      rcases hresult : file.applyEdit disk edit with ⟨result, buffer, mid⟩
      rw [hresult] at hstays htouched
      have hdoc : buffer.doc = edit.applyDoc file.doc := hstays.doc
      have hpath : buffer.path = file.path := hstays.path
      have hflush : buffer.flushOnDrop = file.flushOnDrop := hstays.flushOnDrop
      have hfirst (made : List Edit) : {Yrs.getString (edit.applyDoc file.doc)} ⊆
          {contents | ∃ front, front <+: edit :: made ∧
            contents = Yrs.getString (Edit.applyAll file.doc front)} := by
        rintro contents rfl
        exact ⟨[edit], List.cons_prefix_cons.mpr ⟨rfl, List.nil_prefix⟩, rfl⟩
      cases result with
      | error error =>
          refine ⟨[edit], ⟨?_, hdoc, hpath, hflush, fun h => (by cases h), htouched.mono (hfirst [])⟩⟩
          exact List.cons_prefix_cons.mpr ⟨rfl, List.nil_prefix⟩
      | ok _ =>
          obtain ⟨made, hmade⟩ := ih buffer mid
          have hrest : Touched mid file.path.spot {contents | ∃ front, front <+: edit :: made ∧
              contents = Yrs.getString (Edit.applyAll file.doc front)}
                (buffer.applyEdits mid edits).2.2 := by
            have htail := hmade.touched
            rw [hpath, hdoc] at htail
            refine htail.mono ?_
            rintro contents ⟨front, hfront, rfl⟩
            exact ⟨edit :: front, List.cons_prefix_cons.mpr ⟨rfl, hfront⟩, rfl⟩
          refine ⟨edit :: made, ⟨?_, ?_, ?_, ?_, ?_, ?_⟩⟩
          · exact List.cons_prefix_cons.mpr ⟨rfl, hmade.front⟩
          · rw [hmade.doc, hdoc]
            rfl
          · exact hmade.path.trans hpath
          · exact hmade.flushOnDrop.trans hflush
          · intro hok
            rw [hmade.ok hok]
          · exact (htouched.mono (hfirst made)).trans hrest

-- The buffers stand under some keys, and are the texts of the locations of these.
structure Shows (keys : Set PathBuf.Key) (guard : MemFileGuard Doc)
    (texts : Spot → Option Str) : Prop where
  wellFormed : guard.WellFormed
  known : ∀ key, (guard.fileMap.lookup key).isSome → key ∈ keys
  text : ∀ key ∈ keys, texts key.spot = guard.text key
  bare : ∀ spot, (∀ key ∈ keys, key.spot ≠ spot) → texts spot = none

theorem shows_new (keys : Set PathBuf.Key) :
    Shows keys (MemFileGuard.new : MemFileGuard Doc) fun _ => none := by
  refine ⟨wellFormed_new, ?_, ?_, fun _ _ => rfl⟩
  · intro key h
    simp [MemFileGuard.new] at h
  · intro key _
    simp [text, MemFileGuard.new]

section Shows

variable {keys : Set PathBuf.Key} {guard : MemFileGuard Doc} {texts : Spot → Option Str}

theorem Shows.congr {other : MemFileGuard Doc} (h : Shows keys guard texts)
    (hother : other.fileMap.lookup = guard.fileMap.lookup) : Shows keys other texts := by
  refine ⟨?_, ?_, ?_, h.bare⟩
  · intro key file hfile
    rw [hother] at hfile
    exact h.wellFormed key file hfile
  · intro key hkey
    rw [hother] at hkey
    exact h.known key hkey
  · intro key hkey
    unfold MemFileGuard.text
    rw [hother]
    exact h.text key hkey

theorem Shows.found (h : Shows keys guard texts) {key : PathBuf.Key} {file : MemFile Doc}
    (hfile : guard.fileMap.lookup key = some file) : texts key.spot = some file.contents := by
  rw [h.text key (h.known key (by rw [hfile]; rfl)), text_of_lookup hfile]

theorem Shows.missing (h : Shows keys guard texts) {key : PathBuf.Key} (hkey : key ∈ keys)
    (hfile : guard.fileMap.lookup key = none) : texts key.spot = none := by
  rw [h.text key hkey]
  exact (text_eq_none_iff guard key).mpr hfile

variable (hinj : Set.InjOn PathBuf.Key.spot keys)

include hinj

theorem Shows.insert (h : Shows keys guard texts) {key : PathBuf.Key} (hkey : key ∈ keys)
    {file : MemFile Doc} (hpath : file.path.key = key) (hflush : file.flushOnDrop = true) :
    Shows keys ⟨guard.fileMap.insert key file⟩
      (Function.update texts key.spot (some file.contents)) := by
  refine ⟨wellFormed_insert h.wellFormed key file hpath hflush, ?_, ?_, ?_⟩
  · intro other hother
    rw [HashMap.lookup_insert] at hother
    split at hother
    · next heq => exact heq ▸ hkey
    · exact h.known other hother
  · intro other hother
    rw [text_insert, Function.update_apply]
    by_cases heq : other = key
    · rw [if_pos heq, if_pos (heq ▸ rfl)]
    · rw [if_neg heq, if_neg fun hspot => heq (hinj hother hkey hspot)]
      exact h.text other hother
  · intro spot hspot
    rw [Function.update_of_ne (hspot key hkey).symm]
    exact h.bare spot hspot

theorem Shows.erase (h : Shows keys guard texts) {key : PathBuf.Key} (hkey : key ∈ keys) :
    Shows keys (⟨guard.fileMap.erase key⟩ : MemFileGuard Doc)
      (Function.update texts key.spot none) := by
  refine ⟨wellFormed_erase h.wellFormed key, ?_, ?_, ?_⟩
  · intro other hother
    rw [HashMap.lookup_erase] at hother
    split at hother
    · contradiction
    · exact h.known other hother
  · intro other hother
    rw [text_erase, Function.update_apply]
    by_cases heq : other = key
    · rw [if_pos heq, if_pos (heq ▸ rfl)]
    · rw [if_neg heq, if_neg fun hspot => heq (hinj hother hkey hspot)]
      exact h.text other hother
  · intro spot hspot
    rw [Function.update_of_ne (hspot key hkey).symm]
    exact h.bare spot hspot

-- A buffer with the same document takes the place of another unnoticed.
theorem Shows.kept (h : Shows keys guard texts) {key : PathBuf.Key} {file buffer : MemFile Doc}
    (hfile : guard.fileMap.lookup key = some file) (hdoc : buffer.doc = file.doc)
    (hpath : buffer.path = file.path) (hflush : buffer.flushOnDrop = file.flushOnDrop) :
    Shows keys ⟨guard.fileMap.insert key buffer⟩ texts := by
  obtain ⟨hkey, hdrop⟩ := h.wellFormed key file hfile
  have hcontents : buffer.contents = file.contents := congrArg Yrs.getString hdoc
  have hsame : Function.update texts key.spot (some buffer.contents) = texts := by
    rw [hcontents]
    exact Function.update_eq_self_iff.mpr (h.found hfile).symm
  have hknown := h.known key (by rw [hfile]; rfl)
  exact hsame ▸ h.insert hinj hknown ((congrArg Path.key hpath).trans hkey) (hflush.trans hdrop)

-- A load finds the one text of the location, in memory or on the disk.
theorem Shows.getFile_cases [LawfulYrs Doc] (h : Shows keys guard texts) (disk : Disk)
    {path : Path .file} (hkey : path.key ∈ keys) :
    (texts path.spot = none ∧ ∃ error, guard.getFile disk path = (.error error, guard, disk)) ∨
      ∃ file after, guard.getFile disk path = (.ok file, after, disk) ∧
        (Live.mk texts disk.tree.file).found disk.cwd path.spot = some file.contents ∧
        file.path.key = path.key ∧ file.flushOnDrop = true ∧
        Shows keys after (Function.update texts path.spot (some file.contents)) := by
  unfold getFile Live.found
  cases hlookup : guard.fileMap.lookup path.key with
  | some file =>
      obtain ⟨hpath, hflush⟩ := h.wellFormed path.key file hlookup
      have htext : texts path.spot = some file.contents := h.found hlookup
      refine .inr ⟨file, guard, rfl, ?_, hpath, hflush, ?_⟩
      · exact congrArg (Option.or · _) htext
      · rw [Function.update_eq_self_iff.mpr htext.symm]
        exact h
  | none =>
      have htext : texts path.spot = none := h.missing hkey hlookup
      unfold MemFile.fromFile
      cases hread : FileIo.readFile disk path with
      | error error => exact .inl ⟨htext, error, rfl⟩
      | ok contents =>
          let file : MemFile Doc := MemFile.fromString path contents
          have hcontents : file.contents = contents := contents_fromString path contents
          refine .inr ⟨file, _, rfl, ?_, rfl, rfl, h.insert hinj hkey rfl rfl⟩
          dsimp only
          rw [htext, hcontents]
          exact readFile_place hread

theorem Shows.saveAll (h : Shows keys guard texts) (disk : Disk)
    (order : List PathBuf.Key) :
    ∃ result after saved, ∃ spots : List Spot, guard.saveAll order disk = (result, after, saved) ∧
      Shows keys after texts ∧ saved.cwd = disk.cwd ∧
      Live.mk texts saved.tree.file = spots.foldl (fun live spot => live.flush disk.cwd spot)
        (Live.mk texts disk.tree.file) ∧
      (result = .ok () → ∀ key ∈ order, (guard.fileMap.lookup key).isSome → key.spot ∈ spots) := by
  induction order generalizing guard disk with
  | nil => exact ⟨_, guard, disk, [], rfl, h, rfl, rfl, fun _ key hkey => absurd hkey List.not_mem_nil⟩
  | cons key order ih =>
      unfold MemFileGuard.saveAll
      cases hlookup : guard.fileMap.lookup key with
      | none =>
          obtain ⟨result, after, saved, spots, heq, hafter, hcwd, hfiles, hok⟩ := ih h disk
          refine ⟨result, after, saved, spots, heq, hafter, hcwd, hfiles, ?_⟩
          intro hresult other hother hsome
          rcases List.mem_cons.mp hother with rfl | hmem
          · rw [hlookup] at hsome
            contradiction
          · exact hok hresult other hmem hsome
      | some file =>
          obtain ⟨hpath, _⟩ := h.wellFormed key file hlookup
          have hspot : file.path.spot = key.spot := congrArg PathBuf.Key.spot hpath
          have htext := h.found hlookup
          obtain ⟨mid, hcwd, ⟨hsave, hfile⟩ | ⟨error, hsave, hfile⟩⟩ := save_cases file disk
          · have hsaved : Shows keys ⟨guard.fileMap.insert key { file with opsSinceSave := 0 }⟩ texts :=
              h.kept hinj hlookup rfl rfl rfl
            obtain ⟨result, after, saved, spots, heq, hafter, hcwd', hfiles, hok⟩ := ih hsaved mid
            refine ⟨result, after, saved, key.spot :: spots, ?_, hafter, hcwd'.trans hcwd, ?_, ?_⟩
            · dsimp only
              rw [hsave]
              exact heq
            · rw [hfiles, hcwd, hfile, hspot, List.foldl_cons]
              congr 1
              have hlive : (Live.mk texts disk.tree.file).texts key.spot = some file.contents := htext
              exact (Live.flush_of_some hlive disk.cwd).symm
            · intro hresult other hother hsome
              rcases List.mem_cons.mp hother with rfl | hmem
              · exact List.mem_cons_self
              · refine List.mem_cons_of_mem _ (hok hresult other hmem ?_)
                rw [HashMap.lookup_insert]
                split
                · rfl
                · exact hsome
          · refine ⟨.error error, ⟨guard.fileMap.insert key file⟩, mid, [], ?_, ?_, hcwd, ?_,
              fun h => by cases h⟩
            · dsimp only
              rw [hsave]
            · exact h.kept hinj hlookup rfl rfl rfl
            · rw [hfile]
              rfl

end Shows

-- A session and the texts it shows.
structure Follows (keys : Set PathBuf.Key) (cwd : Location) (state : State Doc) (live : Live) :
    Prop where
  shows : Shows keys state.guard live.texts
  cwd : state.disk.cwd = cwd
  files : state.disk.tree.file = live.files

-- What a call does to the session, it does to the texts as well.
def Simulated (keys : Set PathBuf.Key) (cwd : Location) (live : Live) (command : Call)
    (result : Outcome × State Doc) : Prop :=
  ∃ live', LiveStep Doc cwd live (command, result.1) live' ∧ Follows keys cwd result.2 live'

-- What edits make of the text of a document depends on that text alone.
theorem edited_getString [LawfulYrs Doc] (doc : Doc) (edits : List Edit) :
    edited Doc (Yrs.getString doc) edits = Yrs.getString (Edit.applyAll doc edits) :=
  Edit.applyAll_congr edits _ _ (contents_fromString _ _)

section Calls

variable {keys : Set PathBuf.Key} (hinj : Set.InjOn PathBuf.Key.spot keys)
  {cwd : Location} {state : State Doc} {live : Live} (h : Follows keys cwd state live)

include hinj h

theorem read_simulated [LawfulYrs Doc] {path : Path .file} (hkey : path.key ∈ keys) :
    Simulated keys cwd live (.read path) (call state (.read path)) := by
  obtain ⟨hshows, rfl, hfiles⟩ := h
  have hload := hshows.getFile_cases hinj state.disk hkey
  rw [hfiles] at hload
  rcases hload with ⟨hnone, error, heq⟩ | ⟨file, after, heq, hfound, _, _, hafter⟩
  · have hcall : call state (.read path) = (.error error, state) := by
      simp only [call, Api.read, heq]
      rfl
    rw [hcall]
    exact ⟨live, .inl ⟨hnone, ⟨error, rfl⟩, rfl⟩, hshows, rfl, hfiles⟩
  · have hcall : call state (.read path) =
        (.ok (.text file.contents), ⟨after, state.disk⟩) := by
      simp only [call, Api.read, heq]
      rfl
    rw [hcall]
    exact ⟨_, .inr ⟨file.contents, hfound, rfl, rfl⟩, hafter, rfl, hfiles⟩

-- The edits of a transaction, run on the buffer of its path and put back.
theorem edits_simulated [LawfulYrs Doc] {path : Path .file} (hkey : path.key ∈ keys) {file : MemFile Doc}
    {loaded : MemFileGuard Doc} (hpath : file.path.key = path.key)
    (hflush : file.flushOnDrop = true)
    (hloaded : Shows keys loaded (Function.update live.texts path.spot (some file.contents)))
    {edits made : List Edit} {result : Except FileError Unit} {buffer : MemFile Doc} {after : Disk}
    (hmade : Edited file state.disk edits (result, buffer, after) made) :
    ∃ stored : Live, (stored = live ∨ ∃ front, front <+: made ∧
        stored = live.store cwd path.spot (edited Doc file.contents front)) ∧
      Follows keys cwd ⟨loaded.putFile path buffer, after⟩
        (stored.put path.spot (some (edited Doc file.contents made))) := by
  obtain ⟨_, rfl, hfiles⟩ := h
  have hspot : file.path.spot = path.spot := congrArg PathBuf.Key.spot hpath
  have hedited (front : List Edit) :
      edited Doc file.contents front = Yrs.getString (Edit.applyAll file.doc front) :=
    edited_getString file.doc front
  have hcontents : buffer.contents = edited Doc file.contents made := by
    rw [hedited, ← hmade.doc]
    rfl
  have hshown := hloaded.insert hinj hkey ((congrArg Path.key hmade.path).trans hpath)
    (hmade.flushOnDrop.trans hflush)
  rw [hcontents] at hshown
  have hput : Shows keys (loaded.putFile path buffer)
      (Function.update live.texts path.spot (some (edited Doc file.contents made))) := by
    have hidem : Function.update (Function.update live.texts path.spot (some file.contents))
        path.spot (some (edited Doc file.contents made)) =
          Function.update live.texts path.spot (some (edited Doc file.contents made)) :=
      Function.update_idem _ _ _
    exact hidem ▸ hshown
  have hcwd : after.cwd = state.disk.cwd := hmade.touched.cwd
  rcases hmade.touched.files with hsame | ⟨contents, ⟨front, hfront, rfl⟩, hstored⟩
  · exact ⟨live, .inl rfl, hput, hcwd, hsame.trans hfiles⟩
  · refine ⟨_, .inr ⟨front, hfront, rfl⟩, hput, hcwd, ?_⟩
    rw [hspot, hfiles, ← hedited] at hstored
    exact hstored

theorem applyTransaction_simulated [LawfulYrs Doc] {path : Path .file} (hkey : path.key ∈ keys)
    (transaction : Transaction) : Simulated keys cwd live (.applyTransaction path transaction)
      (call state (.applyTransaction path transaction)) := by
  have hload := h.shows.getFile_cases hinj state.disk hkey
  rw [h.files, h.cwd] at hload
  rcases hload with ⟨hnone, error, heq⟩ | ⟨file, loaded, heq, hfound, hpath, hflush, hloaded⟩
  · have hcall : call state (.applyTransaction path transaction) = (.error error, state) := by
      simp only [call, applyTransaction, heq]
      rfl
    rw [hcall]
    exact ⟨live, .inl ⟨hnone, ⟨error, rfl⟩, rfl⟩, h⟩
  · obtain ⟨made, hmade⟩ := applyEdits_edited file state.disk transaction.edits
    have heq' := applyTransaction_eq _ loaded _ state.disk path transaction file heq
    rcases hresult : file.applyEdits state.disk transaction.edits with ⟨result, buffer, after⟩
    rw [hresult] at hmade heq'
    obtain ⟨stored, hstored, hfollows⟩ :=
      edits_simulated hinj h hkey hpath hflush hloaded hmade
    have hcall : ∃ outcome, (outcome = .ok .unit → result = .ok ()) ∧
        call state (.applyTransaction path transaction) =
          (outcome, ⟨loaded.putFile path buffer, after⟩) := by
      cases result with
      | ok _ =>
          refine ⟨done (buffer.encodeDiff file.stateVector), fun _ => rfl, ?_⟩
          simp only [call, heq']
      | error error =>
          refine ⟨.error error, fun h => (by cases h), ?_⟩
          simp only [call, heq']
          rfl
    obtain ⟨outcome, hok, hcall⟩ := hcall
    rw [hcall]
    refine ⟨_, .inr ⟨file.contents, made, hfound, hmade.front, ?_, stored, hstored, rfl⟩, hfollows⟩
    exact fun houtcome => hmade.ok (hok houtcome)

theorem write_simulated [LawfulYrs Doc] {path : Path .file} (hkey : path.key ∈ keys) (data : Str) :
    Simulated keys cwd live (.write path data) (call state (.write path data)) := by
  obtain ⟨hshows, rfl, hfiles⟩ := h
  let file : MemFile Doc := MemFile.fromString path data
  have hcontents : file.contents = data := contents_fromString path data
  have hreset : Shows keys (state.guard.resetFile path data)
      (Function.update live.texts path.spot (some data)) := by
    have hinsert := (hshows.erase hinj hkey).insert hinj hkey
      (show file.path.key = path.key from rfl) rfl
    rw [Function.update_idem, hcontents] at hinsert
    exact hinsert
  have hlookup : (state.guard.resetFile path data).fileMap.lookup path.key = some file := by
    unfold resetFile
    rw [HashMap.lookup_insert, if_pos rfl]
  have hload : (state.guard.resetFile path data).getFile state.disk path =
      (.ok file, state.guard.resetFile path data, state.disk) := by
    unfold getFile
    rw [hlookup]
  obtain ⟨after, hcwd, ⟨hsave, hfile⟩ | ⟨error, hsave, hfile⟩⟩ := save_cases file state.disk
  · let buffer := { file with opsSinceSave := 0 }
    have hcall : call state (.write path data) =
        (.ok .unit, ⟨(state.guard.resetFile path data).putFile path buffer, after⟩) := by
      simp only [call, Api.write, Api.saveFile, hload, hsave]
      rfl
    rw [hcall]
    have hput : (live.put path.spot (some data)).texts path.spot = some data :=
      Function.update_self _ _ _
    refine ⟨_, .inr ⟨rfl, rfl⟩, ?_⟩
    rw [Live.flush_of_some hput]
    refine ⟨hreset.kept hinj hlookup rfl rfl rfl, hcwd, ?_⟩
    rw [hfile, hfiles, hcontents]
    rfl
  · have hcall : call state (.write path data) =
        (.error error, ⟨(state.guard.resetFile path data).putFile path file, after⟩) := by
      simp only [call, Api.write, Api.saveFile, hload, hsave]
      rfl
    rw [hcall]
    refine ⟨_, .inl ⟨⟨error, rfl⟩, rfl⟩, ?_⟩
    exact ⟨hreset.kept hinj hlookup rfl rfl rfl, hcwd, hfile.trans hfiles⟩

theorem dropFile_simulated {path : Path .file} (hkey : path.key ∈ keys) :
    Simulated keys cwd live (.dropFile path) (call state (.dropFile path)) := by
  obtain ⟨hshows, rfl, hfiles⟩ := h
  change Simulated keys state.disk.cwd live (.dropFile path)
    (.ok .unit, ⟨(evict path.key state.guard state.disk).1,
      (evict path.key state.guard state.disk).2⟩)
  unfold evict
  cases hlookup : state.guard.fileMap.lookup path.key with
  | none =>
      have hnone : live.texts path.spot = none := hshows.missing hkey hlookup
      have hput : live.put path.spot none = live := by
        unfold Live.put
        rw [Function.update_eq_self_iff.mpr hnone.symm]
      refine ⟨_, ⟨rfl, live, .inl rfl, rfl⟩, ?_⟩
      rw [hput]
      exact ⟨hshows, rfl, hfiles⟩
  | some file =>
      obtain ⟨hpath, hflush⟩ := hshows.wellFormed path.key file hlookup
      have hspot : file.path.spot = path.spot := congrArg PathBuf.Key.spot hpath
      have htext : live.texts path.spot = some file.contents := hshows.found hlookup
      have herase := hshows.erase hinj hkey
      have htouched := writeFile_touched state.disk file.path file.contents
      unfold MemFile.drop
      dsimp only
      rw [if_pos hflush]
      rcases htouched.files with hsame | ⟨contents, rfl, hstored⟩
      · exact ⟨_, ⟨rfl, live, .inl rfl, rfl⟩, herase, htouched.cwd, hsame.trans hfiles⟩
      · refine ⟨_, ⟨rfl, _, .inr rfl, rfl⟩, ?_⟩
        rw [Live.flush_of_some htext]
        refine ⟨herase, htouched.cwd, ?_⟩
        rw [hspot, hfiles] at hstored
        exact hstored

theorem snapshot_simulated : Simulated keys cwd live .snapshot (call state .snapshot) := by
  obtain ⟨hshows, rfl, hfiles⟩ := h
  obtain ⟨result, after, saved, spots, heq, hafter, hcwd, hstored, hok⟩ :=
    hshows.saveAll hinj state.disk state.guard.fileMap.keys
  have hcall : call state .snapshot = (done result, ⟨after, saved⟩) := by
    simp only [call, snapshot, heq]
  rw [hcall]
  rw [hfiles] at hstored
  refine ⟨⟨live.texts, saved.tree.file⟩, ⟨spots, hstored, ?_⟩, hafter, hcwd, rfl⟩
  intro hresult spot hsome
  have hresult : result = .ok () := by
    cases result with
    | ok _ => rfl
    | error error => cases hresult
  by_cases hspot : ∃ key ∈ keys, key.spot = spot
  · obtain ⟨key, hkey, rfl⟩ := hspot
    have hlookup : (state.guard.fileMap.lookup key).isSome := by
      rw [hshows.text key hkey] at hsome
      simpa [MemFileGuard.text] using hsome
    exact hok hresult key ((HashMap.mem_keys _ _).mpr hlookup) hlookup
  · rw [hshows.bare spot fun key hkey heq => hspot ⟨key, hkey, heq⟩] at hsome
    contradiction

theorem call_simulated [LawfulYrs Doc] (command : Call)
    (hkeys : ∀ path, command.path = some path → path.key ∈ keys) :
    Simulated keys cwd live command (call state command) := by
  cases command with
  | read path => exact read_simulated hinj h (hkeys path rfl)
  | applyTransaction path transaction =>
      exact applyTransaction_simulated hinj h (hkeys path rfl) transaction
  | write path data => exact write_simulated hinj h (hkeys path rfl) data
  | dropFile path => exact dropFile_simulated hinj h (hkeys path rfl)
  | snapshot => exact snapshot_simulated hinj h

theorem step_simulated [LawfulYrs Doc] {label : Call × Outcome} {after : State Doc}
    (hstep : Step state label after)
    (hkeys : ∀ path, label.1.path = some path → path.key ∈ keys) :
    ∃ live', LiveStep Doc cwd live label live' ∧ Follows keys cwd after live' := by
  obtain ⟨guard, hguard, hcall⟩ := hstep
  have hsame : Follows keys cwd ⟨guard, state.disk⟩ live := ⟨h.shows.congr hguard, h.cwd, h.files⟩
  have hsim := call_simulated hinj hsame label.1 hkeys
  rw [hcall] at hsim
  exact hsim

theorem Follows.mirrors : Mirrors state live := by
  refine ⟨h.files, ?_, ?_⟩
  · intro spot contents
    constructor
    · intro htext
      by_cases hspot : ∃ key ∈ keys, key.spot = spot
      · obtain ⟨key, hkey, rfl⟩ := hspot
        rw [h.shows.text key hkey] at htext
        obtain ⟨file, hfile, hcontents⟩ := Option.map_eq_some_iff.mp htext
        exact ⟨key, file, hfile, rfl, hcontents⟩
      · rw [h.shows.bare spot fun key hkey heq => hspot ⟨key, hkey, heq⟩] at htext
        contradiction
    · rintro ⟨key, file, hfile, rfl, rfl⟩
      exact h.shows.found hfile
  · intro key other hkey hother hspot
    exact hinj (h.shows.known key hkey) (h.shows.known other hother) hspot

end Calls

-- Locations that are not spelled in two ways tell the paths of a run apart.
theorem OneSpelling.injOn {trace : Trace} (h : OneSpelling trace) :
    Set.InjOn PathBuf.Key.spot {key | ∃ path ∈ trace.paths, path.key = key} := by
  rintro key ⟨path, hpath, rfl⟩ other ⟨second, hsecond, rfl⟩ hspot
  by_cases hdotted : path.key.Dotted
  · exact h path hpath second hsecond hspot hdotted
  · by_cases hdotted' : second.key.Dotted
    · exact (h second hsecond path hpath hspot.symm hdotted').symm
    · exact PathBuf.Key.eq_of_spot_eq hdotted hdotted' hspot

-- The guard keeps one buffer for each location exactly when no location is spelled
-- once with a leading `.` or a `..` and once in another way.
theorem one_buffer_iff [LawfulYrs Doc] (disk : Disk) (trace : Trace) (finish : State Doc)
    (run : Run Step ⟨.new, disk⟩ trace finish) :
    OneBuffer disk trace finish ↔ OneSpelling trace := by
  constructor
  · rintro ⟨hequal, _⟩ path hpath other hother hspot _
    exact hequal path hpath other hother hspot
  · intro hspelling
    have hinj := hspelling.injOn
    refine ⟨fun path hpath other hother hspot =>
      hinj ⟨path, hpath, rfl⟩ ⟨other, hother, rfl⟩ hspot, ?_⟩
    let keys : Set PathBuf.Key := {key | ∃ path ∈ trace.paths, path.key = key}
    have hused : ∀ label ∈ trace, ∀ path, label.1.path = some path → path.key ∈ keys :=
      fun label hlabel path hpath => ⟨path, List.mem_filterMap.mpr ⟨label, hlabel, hpath⟩, rfl⟩
    have hstart : Follows keys disk.cwd (⟨.new, disk⟩ : State Doc) ⟨fun _ => none, disk.tree.file⟩ :=
      ⟨shows_new keys, rfl, rfl⟩
    obtain ⟨live, hlive, hfollows⟩ := (run.restrict hused).simulate (Follows keys disk.cwd) hstart
      fun before label after image hrel hstep => step_simulated hinj hrel hstep.1 hstep.2
    exact ⟨live, hlive, hfollows.mirrors hinj⟩

-- Calls made one after the other.
def play (state : State Doc) : List Call → Trace × State Doc
  | [] => ([], state)
  | command :: commands =>
    let (outcome, after) := call state command
    let (trace, finish) := play after commands
    ((command, outcome) :: trace, finish)

theorem run_play (state : State Doc) (commands : List Call) :
    Run Step state (play state commands).1 (play state commands).2 := by
  induction commands generalizing state with
  | nil => exact .nil
  | cons command commands ih =>
      have hfirst : Run Step state [(command, (call state command).1)] (call state command).2 :=
        .snoc .nil ⟨state.guard, rfl, rfl⟩
      exact hfirst.trans (ih (call state command).2)

def clean : State OpLog :=
  ⟨.new, ⟨.empty, []⟩⟩

def spelledAlike : Trace × State OpLog :=
  play clean [.write (Path.new "w//a".toList) ['1'], .read (Path.build ['w'] "./a".toList)]

theorem one_buffer_iff_alike :
    OneBuffer clean.disk spelledAlike.1 spelledAlike.2 ∧
      spelledAlike.1.map Prod.snd = [.ok .unit, .ok (.text ['1'])] :=
  ⟨(one_buffer_iff clean.disk spelledAlike.1 spelledAlike.2 (run_play clean _)).mpr
    (by unfold OneSpelling; decide +kernel), by decide +kernel⟩

def spelledTwice : Trace × State OpLog :=
  play clean [.write (Path.new ['a']) ['1'], .read (Path.new "./a".toList),
    .applyTransaction (Path.new ['a']) ⟨[.insert ⟨1, 0⟩ ['2', '3']]⟩,
    .read (Path.new "./a".toList), .dropFile (Path.new "./a".toList)]

-- The other spelling is read from before the edit, and its flush undoes the edit.
theorem one_buffer_overwritten :
    Run Step clean spelledTwice.1 spelledTwice.2 ∧
      (Path.new ['a'] : Path .file).spot = (Path.new "./a".toList : Path .file).spot ∧
      spelledTwice.1.map Prod.snd =
        [.ok .unit, .ok (.text ['1']), .ok .unit, .ok (.text ['1']), .ok .unit] ∧
      spelledTwice.2.guard.text (Path.new ['a'] : Path .file).key = some ['1', '2', '3'] ∧
      spelledTwice.2.disk.tree.file [['a']] = some ['1'] ∧
      ¬OneBuffer clean.disk spelledTwice.1 spelledTwice.2 := by
  refine ⟨run_play clean _, by decide +kernel, by decide +kernel, by decide +kernel,
    by decide +kernel, ?_⟩
  rintro ⟨hequal, _⟩
  have hkeys := hequal (Path.new ['a']) (by decide +kernel) (Path.new "./a".toList)
    (by decide +kernel) (by decide +kernel)
  exact absurd hkeys (by decide +kernel)

end Saps.Files.DiskSession
