import Saps.Files.OpLog
import Saps.Files.Session.Buffers
import Mathlib.Algebra.Group.Nat.Even
import Mathlib.Logic.Function.Iterate

-- Loading files that may be open already.
namespace Saps.Files

namespace Session

variable {Doc : Type} [Yrs Doc]

-- The buffer of a file, if it is open, holds the stored text, if there is one.
def Fresh (guard : MemFileGuard Doc) (store : BlockingMemIo) (path : Path .file) : Prop :=
  ∀ file text, guard.fileMap.lookup path.key = some file →
    store.files.lookup path.key = some text → file.contents = text

-- The buffer flushes when it is dropped, and the file is loaded an even number of
-- times: what one load makes of the buffer and the stored text, the next one undoes.
def Restored (guard : MemFileGuard Doc) (path : Path .file) (paths : List (Path .file)) : Prop :=
  (∃ file, guard.fileMap.lookup path.key = some file ∧ file.flushOnDrop = true) ∧
    Even (paths.countP fun other => other.key = path.key)

-- What there is of one file: the text of its buffer, with whether it flushes when it is
-- dropped, and the stored text.
structure Cell where
  buffer : Option (Str × Bool)
  stored : Option Str

def cell (guard : MemFileGuard Doc) (store : BlockingMemIo) (key : PathBuf.Key) : Cell :=
  ⟨(guard.fileMap.lookup key).map fun file => (file.contents, file.flushOnDrop),
    store.files.lookup key⟩

namespace Cell

def seen (cell : Cell) : Option Str :=
  (cell.buffer.map Prod.fst).or cell.stored

-- The stored text is read first, and the old buffer is flushed after that.
def load (cell : Cell) : Cell :=
  match cell.stored, cell.buffer with
  | none, _ => cell
  | some text, some (contents, true) => ⟨some (text, true), some contents⟩
  | some text, _ => ⟨some (text, true), some text⟩

theorem load_none {cell : Cell} (h : cell.stored = none) (count : Nat) :
    load^[count] cell = cell := by
  have hload : load cell = cell := by
    unfold load
    rw [h]
  exact Function.iterate_fixed hload count

-- Once the buffer holds the stored text, loading changes nothing more.
theorem load_settled (text : Str) (count : Nat) :
    load^[count] ⟨some (text, true), some text⟩ = ⟨some (text, true), some text⟩ :=
  Function.iterate_fixed rfl count

theorem load_twice (contents text : Str) :
    load^[2] ⟨some (contents, true), some text⟩ = ⟨some (contents, true), some text⟩ := rfl

-- The file is seen as before exactly when it was not open or not stored, when the two
-- texts agreed, or when they have been exchanged an even number of times.
theorem seen_load_iff (cell : Cell) (count : Nat) (hcount : 0 < count) :
    (load^[count] cell).seen = cell.seen ↔
      (∀ contents flush text, cell.buffer = some (contents, flush) → cell.stored = some text →
        contents = text) ∨ (∃ contents, cell.buffer = some (contents, true)) ∧ Even count := by
  obtain ⟨buffer, stored⟩ := cell
  cases stored with
  | none => simp [load_none]
  | some text =>
      obtain ⟨count, rfl⟩ := Nat.exists_eq_add_of_lt hcount
      rw [Nat.zero_add]
      cases buffer with
      | none =>
          rw [Function.iterate_succ_apply]
          change (load^[count] ⟨some (text, true), some text⟩).seen = _ ↔ _
          rw [load_settled]
          simp [seen]
      | some held =>
          obtain ⟨contents, flush⟩ := held
          cases flush with
          | false =>
              rw [Function.iterate_succ_apply]
              change (load^[count] ⟨some (text, true), some text⟩).seen = _ ↔ _
              rw [load_settled]
              simp [seen, eq_comm]
          | true =>
              rcases Nat.even_or_odd (count + 1) with heven | hodd
              · obtain ⟨half, hhalf⟩ := heven.two_dvd
                rw [hhalf, Function.iterate_mul, Function.iterate_fixed (load_twice contents text)]
                simp
              · obtain ⟨half, hhalf⟩ := hodd
                have hnot : ¬Even (count + 1) := Nat.not_even_iff_odd.mpr ⟨half, hhalf⟩
                have hodd : load^[count + 1] ⟨some (contents, true), some text⟩ =
                    load ⟨some (contents, true), some text⟩ := by
                  rw [hhalf, Nat.add_comm, Function.iterate_add_apply, Function.iterate_mul,
                    Function.iterate_fixed (load_twice contents text)]
                  rfl
                rw [hodd]
                simp [hnot, load, seen, eq_comm]

end Cell

variable {guard : MemFileGuard Doc} {store : BlockingMemIo}

theorem view_eq_seen (guard : MemFileGuard Doc) (store : BlockingMemIo) (key : PathBuf.Key) :
    view guard store key = (cell guard store key).seen := by
  simp [view, Overlay.through, MemFileGuard.text, cell, Cell.seen, Function.comp_def]

-- Loading a file changes what there is of that file alone.
theorem addFile_cell [LawfulYrs Doc] (store : BlockingMemIo)
    (hguard : MemFile.Filed guard.fileMap) (path : Path .file) :
    MemFile.Filed (guard.addFile store path).2.1.fileMap ∧ ∀ key,
      cell (guard.addFile store path).2.1 (guard.addFile store path).2.2 key =
        if path.key = key then (cell guard store key).load else cell guard store key := by
  cases hstored : store.files.lookup path.key with
  | none =>
      have hadd : (guard.addFile store path).2 = (guard, store) := by
        unfold MemFileGuard.addFile
        rw [fromFile_none hstored]
      rw [hadd]
      refine ⟨hguard, fun key => ?_⟩
      by_cases heq : path.key = key
      · subst heq
        rw [if_pos rfl]
        exact (Cell.load_none hstored 1).symm
      · rw [if_neg heq]
  | some text =>
      have hadd : (guard.addFile store path).2 =
          (⟨guard.fileMap.insert path.key (.fromString path text)⟩,
            (guard.fileMap.lookup path.key).elim store (·.drop store)) := by
        unfold MemFileGuard.addFile
        rw [fromFile_some hstored]
        cases guard.fileMap.lookup path.key <;> rfl
      have hcontents : (MemFile.fromString path text : MemFile Doc).contents = text :=
        contents_fromString path text
      have hflushes : (MemFile.fromString path text : MemFile Doc).flushOnDrop = true := rfl
      rw [hadd]
      refine ⟨hguard.insert rfl, fun key => ?_⟩
      by_cases heq : path.key = key
      · subst heq
        rw [if_pos rfl]
        cases hlookup : guard.fileMap.lookup path.key with
        | none => simp [cell, Cell.load, hlookup, hstored, hcontents, hflushes]
        | some old =>
            have hpath := hguard _ _ hlookup
            cases hflush : old.flushOnDrop with
            | true =>
                simp [cell, Cell.load, hlookup, hstored, hcontents, hflushes, MemFile.drop,
                  hflush, writeFile_eq, hpath]
            | false =>
                simp [cell, Cell.load, hlookup, hstored, hcontents, hflushes, MemFile.drop,
                  hflush]
      · rw [if_neg heq]
        cases hlookup : guard.fileMap.lookup path.key with
        | none => simp [cell, Ne.symm heq]
        | some old =>
            have hpath := hguard _ _ hlookup
            cases hflush : old.flushOnDrop with
            | true => simp [cell, Ne.symm heq, MemFile.drop, hflush, writeFile_eq, hpath]
            | false => simp [cell, Ne.symm heq, MemFile.drop, hflush]

theorem loadAll_cell [LawfulYrs Doc] (paths : List (Path .file)) (hguard : MemFile.Filed guard.fileMap)
    (key : PathBuf.Key) :
    cell (guard.loadAll store paths).1 (guard.loadAll store paths).2 key =
      Cell.load^[paths.countP fun path => path.key = key] (cell guard store key) := by
  unfold MemFileGuard.loadAll
  induction paths generalizing guard store with
  | nil => rfl
  | cons path paths ih =>
      obtain ⟨hfiled, hcell⟩ := addFile_cell store hguard path
      rw [List.foldl_cons, ih hfiled, hcell key]
      by_cases heq : path.key = key
      · rw [if_pos heq, List.countP_cons_of_pos (by simpa using heq), Function.iterate_succ_apply]
      · rw [if_neg heq, List.countP_cons_of_neg (by simpa using heq)]

theorem fresh_iff (path : Path .file) :
    Fresh guard store path ↔ ∀ contents flush text,
      (cell guard store path.key).buffer = some (contents, flush) →
        (cell guard store path.key).stored = some text → contents = text := by
  unfold Fresh cell
  constructor
  · intro h contents flush text hbuffer hstored
    obtain ⟨file, hfile, heq⟩ := Option.map_eq_some_iff.mp hbuffer
    cases heq
    exact h file text hfile hstored
  · intro h file text hfile hstored
    exact h _ _ text (Option.map_eq_some_iff.mpr ⟨file, hfile, rfl⟩) hstored

-- A load that reads the file shows what was shown before exactly when the buffer held
-- the stored text already, and so does loading many, exchanged texts apart.
theorem loading_iff [LawfulYrs Doc] (guard : MemFileGuard Doc) (store : BlockingMemIo)
    (hguard : MemFile.Filed guard.fileMap) :
    (∀ path, (guard.addFile store path).1 = .ok () →
      (view (guard.addFile store path).2.1 (guard.addFile store path).2.2 = view guard store ↔
        Fresh guard store path)) ∧
    ∀ paths,
      view (guard.loadAll store paths).1 (guard.loadAll store paths).2 = view guard store ↔
        ∀ path ∈ paths, Fresh guard store path ∨ Restored guard path paths := by
  refine ⟨fun path _ => ?_, fun paths => ?_⟩
  · obtain ⟨_, hcell⟩ := addFile_cell store hguard path
    have hseen := Cell.seen_load_iff (cell guard store path.key) 1 Nat.one_pos
    rw [fresh_iff, funext_iff]
    constructor
    · intro h
      have hpath := h path.key
      rw [view_eq_seen, view_eq_seen, hcell, if_pos rfl] at hpath
      apply (hseen.mp hpath).resolve_right
      simp
    · intro h key
      rw [view_eq_seen, view_eq_seen, hcell]
      by_cases heq : path.key = key
      · subst heq
        rw [if_pos rfl]
        exact hseen.mpr (.inl h)
      · rw [if_neg heq]
  · have hrestored : ∀ path, Restored guard path paths ↔
        (∃ contents, (cell guard store path.key).buffer = some (contents, true)) ∧
          Even (paths.countP fun other => other.key = path.key) := by
      intro path
      simp [Restored, cell, Prod.ext_iff]
    rw [funext_iff]
    constructor
    · intro h path hmem
      have hcount : 0 < paths.countP fun other => other.key = path.key :=
        List.countP_pos_iff.mpr ⟨path, hmem, by simp⟩
      have hpath := h path.key
      rw [view_eq_seen, view_eq_seen, loadAll_cell paths hguard] at hpath
      rw [fresh_iff, hrestored]
      exact (Cell.seen_load_iff _ _ hcount).mp hpath
    · intro h key
      rw [view_eq_seen, view_eq_seen, loadAll_cell paths hguard]
      rcases Nat.eq_zero_or_pos (paths.countP fun path => path.key = key) with hcount | hcount
      · rw [hcount]
        rfl
      · obtain ⟨path, hmem, heq⟩ := List.countP_pos_iff.mp hcount
        have heq : path.key = key := by simpa using heq
        subst heq
        apply (Cell.seen_load_iff _ _ hcount).mpr
        rw [← fresh_iff, ← hrestored]
        exact h path hmem

-- A stored file of one letter, and a session that has typed a second one into it.
def page : Path .file :=
  Path.new ['a']

def shelf : BlockingMemIo :=
  ⟨HashMap.new.insert page.key ['x']⟩

def typing : MemFileGuard OpLog :=
  (MemFileGuard.new.applyTransaction shelf page ⟨[.insert ⟨0, 0⟩ ['y']]⟩).2.1

theorem filed_typing : MemFile.Filed typing.fileMap := by
  have hopened : MemFile.Filed
      (MemFileGuard.new.getFile shelf page : _ × MemFileGuard OpLog × _).2.1.fileMap :=
    MemFile.Filed.new.insert rfl
  exact hopened.insert rfl

-- Loaded again the file reads as stored, and two loads exchange the texts twice.
theorem loading_iff_page :
    view (typing.addFile shelf page).2.1 (typing.addFile shelf page).2.2 ≠ view typing shelf ∧
      view (typing.loadAll shelf [page, page]).1 (typing.loadAll shelf [page, page]).2 =
        view typing shelf := by
  obtain ⟨hadd, hall⟩ := loading_iff typing shelf filed_typing
  refine ⟨fun h => ?_, (hall _).mpr ?_⟩
  · have hfresh := (hadd page (by decide +kernel)).mp h
    obtain ⟨file, hfile⟩ : ∃ file, typing.fileMap.lookup page.key = some file := ⟨_, rfl⟩
    have hsame := hfresh file ['x'] hfile (by decide +kernel)
    obtain rfl := Option.some.inj hfile
    exact absurd hsame (by decide +kernel)
  · intro path hmem
    have hpath : path = page := by simpa using hmem
    subst hpath
    refine .inr ⟨⟨_, rfl, rfl⟩, ?_⟩
    decide +kernel

theorem loading_reverts :
    (typing.addFile shelf page).1 = .ok () ∧
    view typing shelf page.key = some ['y', 'x'] ∧
    view (typing.addFile shelf page).2.1 (typing.addFile shelf page).2.2 page.key = some ['x'] ∧
    ((typing.addFile shelf page).2.1.drop (typing.addFile shelf page).2.2).files.lookup page.key =
      some ['x'] ∧
    ¬∀ (guard : MemFileGuard OpLog) (store : BlockingMemIo),
      MemFile.Filed guard.fileMap →
      ∀ path, (guard.addFile store path).1 = .ok () →
        view (guard.addFile store path).2.1 (guard.addFile store path).2.2 = view guard store := by
  have hok : (typing.addFile shelf page).1 = .ok () := by decide +kernel
  have hbefore : view typing shelf page.key = some ['y', 'x'] := by decide +kernel
  have hafter : view (typing.addFile shelf page).2.1 (typing.addFile shelf page).2.2 page.key =
      some ['x'] := by decide +kernel
  refine ⟨hok, hbefore, hafter, by decide +kernel, fun h => ?_⟩
  have hsame := congrFun (h typing shelf filed_typing page hok) page.key
  rw [hbefore, hafter] at hsame
  exact absurd hsame (by decide)

end Session

end Saps.Files
