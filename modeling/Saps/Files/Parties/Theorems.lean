import Saps.Files.Guard.Transactions
import Saps.Files.Parties
import Saps.Files.Session.Folders

namespace Saps.Files.Parties

open Transition MemFileGuard Session

-- A relation between the buffer of a file and what is stored that flushing,
-- dropping, loading and reloading the buffer keep.
structure Settled (rel : Option Str → Option Str → Prop) : Prop where
  flush : ∀ contents stored, rel (some contents) stored → rel (some contents) (some contents)
  evict : ∀ contents, rel (some contents) (some contents) → rel none (some contents)
  load : ∀ contents, rel none (some contents) → rel (some contents) (some contents)
  reload : ∀ contents stored, rel (some contents) (some stored) → rel (some stored) (some contents)

variable {Doc : Type} [Yrs Doc] {rel : Option Str → Option Str → Prop} {key : PathBuf.Key}

structure Held (rel : Option Str → Option Str → Prop) (key : PathBuf.Key)
    (guard : MemFileGuard Doc) (store : BlockingMemIo) : Prop where
  wellFormed : guard.WellFormed
  rel : rel (guard.text key) (store.files.lookup key)

theorem getFile_lookup {guard : MemFileGuard Doc} {store : BlockingMemIo} {path : Path .file}
    {file : MemFile Doc} {after : MemFileGuard Doc}
    {loaded : BlockingMemIo} (h : guard.getFile store path = (.ok file, after, loaded)) :
    after.fileMap.lookup path.key = some file ∧ loaded = store := by
  unfold MemFileGuard.getFile at h
  cases hlookup : guard.fileMap.lookup path.key with
  | some found =>
      rw [hlookup] at h
      cases h
      exact ⟨hlookup, rfl⟩
  | none =>
      rw [hlookup] at h
      cases hfile : (MemFile.fromFile path store : Except FileError (MemFile Doc)) with
      | error error =>
          rw [hfile] at h
          cases h
      | ok found =>
          rw [hfile] at h
          cases h
          exact ⟨by simp, rfl⟩

section Held

variable {guard : MemFileGuard Doc} {store : BlockingMemIo}

-- What is stored under other keys does not matter.
theorem Held.stored (h : Held rel key guard store) {after : BlockingMemIo}
    (hafter : after.files.lookup key = store.files.lookup key) : Held rel key guard after :=
  ⟨h.wellFormed, hafter ▸ h.rel⟩

theorem Held.put (h : Held rel key guard store) {other : PathBuf.Key} (hother : key ≠ other)
    {file : MemFile Doc} (hpath : file.path.key = other) (hflush : file.flushOnDrop = true) :
    Held rel key ⟨guard.fileMap.insert other file⟩ store := by
  refine ⟨wellFormed_insert h.wellFormed other file hpath hflush, ?_⟩
  rw [text_insert, if_neg hother]
  exact h.rel

theorem Held.reset (h : Held rel key guard store) {path : Path .file} (hpath : key ≠ path.key)
    (contents : Str) : Held rel key (guard.resetFile path contents) store := by
  have herase : Held rel key ⟨guard.fileMap.erase path.key⟩ store := by
    refine ⟨wellFormed_erase h.wellFormed path.key, ?_⟩
    rw [text_erase, if_neg hpath]
    exact h.rel
  exact herase.put hpath rfl rfl

variable (hrel : Settled rel)

include hrel

theorem Held.evict (h : Held rel key guard store) (other : PathBuf.Key) :
    Held rel key (evict other guard store).1 (evict other guard store).2 := by
  unfold MemFileGuard.evict
  cases hlookup : guard.fileMap.lookup other with
  | none => exact h
  | some file =>
      obtain ⟨hpath, hflush⟩ := h.wellFormed other file hlookup
      refine ⟨wellFormed_erase h.wellFormed other, ?_⟩
      have hold := h.rel
      simp only [MemFile.drop, hflush, writeFile_eq, hpath, text_erase, HashMap.lookup_insert, ite_true]
      by_cases hkey : key = other
      · rw [hkey, text_of_lookup hlookup] at hold
        rw [if_pos hkey, if_pos hkey]
        exact hrel.evict _ (hrel.flush _ _ hold)
      · rw [if_neg hkey, if_neg hkey]
        exact hold

theorem Held.evictAll (h : Held rel key guard store) (keys : List PathBuf.Key) :
    Held rel key (evictAll keys guard store).1 (evictAll keys guard store).2 := by
  unfold MemFileGuard.evictAll
  induction keys generalizing guard store with
  | nil => exact h
  | cons other keys ih => exact ih (h.evict hrel other)

-- A saved buffer shows what it showed, and so does the store.
theorem Held.save (h : Held rel key guard store) {other : PathBuf.Key} {file buffer : MemFile Doc}
    (hlookup : guard.fileMap.lookup other = some file) (hdoc : buffer.doc = file.doc)
    (hpath : buffer.path = file.path) (hflush : buffer.flushOnDrop = file.flushOnDrop) :
    Held rel key ⟨guard.fileMap.insert other buffer⟩
      ⟨store.files.insert file.path.key file.contents⟩ := by
  obtain ⟨hother, hdrop⟩ := h.wellFormed other file hlookup
  have hcontents : buffer.contents = file.contents := congrArg Yrs.getString hdoc
  refine ⟨wellFormed_insert h.wellFormed other buffer ((congrArg Path.key hpath).trans hother)
    (hflush.trans hdrop), ?_⟩
  have hold := h.rel
  rw [text_insert, hother, HashMap.lookup_insert, hcontents]
  by_cases hkey : key = other
  · rw [hkey, text_of_lookup hlookup] at hold
    rw [if_pos hkey, if_pos hkey]
    exact hrel.flush _ _ hold
  · rw [if_neg hkey, if_neg hkey]
    exact hold

theorem Held.saveAll (h : Held rel key guard store) (keys : List PathBuf.Key) :
    Held rel key (saveAll keys guard store).2.1 (saveAll keys guard store).2.2 ∧
      (saveAll keys guard store).1 = .ok () := by
  induction keys generalizing guard store with
  | nil => exact ⟨h, rfl⟩
  | cons other keys ih =>
      unfold MemFileGuard.saveAll
      cases hlookup : guard.fileMap.lookup other with
      | none => exact ih h
      | some file =>
          let buffer : MemFile Doc := { file with opsSinceSave := 0 }
          exact ih (h.save hrel hlookup (rfl : buffer.doc = file.doc) rfl rfl)

variable [LawfulYrs Doc]

theorem Held.getFile (h : Held rel key guard store) (path : Path .file) :
    Held rel key (guard.getFile store path).2.1 (guard.getFile store path).2.2 := by
  unfold MemFileGuard.getFile
  cases hlookup : guard.fileMap.lookup path.key with
  | some file => exact h
  | none =>
      cases hstored : store.files.lookup path.key with
      | none =>
          rw [fromFile_none hstored]
          exact h
      | some contents =>
          rw [fromFile_some hstored]
          refine ⟨wellFormed_insert h.wellFormed path.key _ rfl rfl, ?_⟩
          have hold := h.rel
          have hcontents : (MemFile.fromString path contents : MemFile Doc).contents = contents :=
            contents_fromString path contents
          rw [text_insert]
          by_cases hkey : key = path.key
          · rw [hkey, (text_eq_none_iff guard path.key).mpr hlookup, hstored] at hold
            rw [if_pos hkey, hcontents, hkey, hstored]
            exact hrel.load contents hold
          · rw [if_neg hkey]
            exact hold

-- A file that is loaded again is read before its old buffer is flushed.
theorem Held.addFile (h : Held rel key guard store) (path : Path .file) :
    Held rel key (guard.addFile store path).2.1 (guard.addFile store path).2.2 := by
  cases hlookup : guard.fileMap.lookup path.key with
  | none =>
      have hget := h.getFile hrel path
      unfold MemFileGuard.getFile at hget
      unfold MemFileGuard.addFile
      rw [hlookup] at hget ⊢
      cases hfile : (MemFile.fromFile path store : Except FileError (MemFile Doc)) with
      | error error => exact h
      | ok file =>
          rw [hfile] at hget
          exact hget
  | some old =>
      obtain ⟨hpath, hflush⟩ := h.wellFormed path.key old hlookup
      unfold MemFileGuard.addFile
      rw [hlookup]
      cases hstored : store.files.lookup path.key with
      | none =>
          rw [fromFile_none hstored]
          exact h
      | some contents =>
          rw [fromFile_some hstored]
          refine ⟨wellFormed_insert h.wellFormed path.key _ rfl rfl, ?_⟩
          have hold := h.rel
          have hcontents : (MemFile.fromString path contents : MemFile Doc).contents = contents :=
            contents_fromString path contents
          simp only [MemFile.drop, hflush, writeFile_eq, hpath, text_insert, HashMap.lookup_insert,
            ite_true, hcontents]
          by_cases hkey : key = path.key
          · rw [hkey, text_of_lookup hlookup, hstored] at hold
            rw [if_pos hkey, if_pos hkey]
            exact hrel.reload _ _ hold
          · rw [if_neg hkey, if_neg hkey]
            exact hold

theorem Held.loadAll (h : Held rel key guard store) (paths : List (Path .file)) :
    Held rel key (guard.loadAll store paths).1 (guard.loadAll store paths).2 := by
  unfold MemFileGuard.loadAll
  induction paths generalizing guard store with
  | nil => exact h
  | cons path paths ih => exact ih (h.addFile hrel path)

theorem Held.saveFile (h : Held rel key guard store) (path : Path .file) :
    Held rel key (Api.saveFile guard store path).2.1 (Api.saveFile guard store path).2.2 := by
  have hget := h.getFile hrel path
  unfold Api.saveFile
  rcases hload : guard.getFile store path with ⟨result, after, loaded⟩
  rw [hload] at hget
  cases result with
  | error error => exact hget
  | ok file =>
      have hlookup := (getFile_lookup hload).1
      let buffer : MemFile Doc := { file with opsSinceSave := 0 }
      exact hget.save hrel hlookup (show buffer.doc = file.doc from rfl) rfl rfl

-- Edits go to the buffer and to the store under the path they were made through.
theorem Held.applyTransaction (h : Held rel key guard store) {path : Path .file}
    (hpath : key ≠ path.key) (transaction : Transaction) :
    Held rel key (guard.applyTransaction store path transaction).2.1
      (guard.applyTransaction store path transaction).2.2 := by
  have hget := h.getFile hrel path
  rcases hload : guard.getFile store path with ⟨result, after, loaded⟩
  rw [hload] at hget
  cases result with
  | error error =>
      unfold MemFileGuard.applyTransaction
      rw [hload]
      exact hget
  | ok file =>
      obtain ⟨hlookup, rfl⟩ := getFile_lookup hload
      obtain ⟨hkey, hflush⟩ := hget.wellFormed path.key file hlookup
      obtain ⟨made, _, hstays, _⟩ := MemFile.applyEdits_stays file loaded transaction.edits
      rw [applyTransaction_eq _ _ _ _ path transaction file hload]
      rcases hresult : file.applyEdits loaded transaction.edits with ⟨outcome, buffer, written⟩
      rw [hresult] at hstays
      have hwrites : written.files.lookup key = loaded.files.lookup key :=
        WritesAt.lookup_ne hstays.writes (hkey ▸ hpath)
      have hput : Held rel key (after.putFile path buffer) written :=
        (hget.put hpath ((congrArg Path.key hstays.path).trans hkey)
          (hstays.flushOnDrop.trans hflush)).stored hwrites
      cases outcome with
      | error error => exact hput
      | ok _ => exact hput

end Held

-- What the store's own calls leave of a file that they do not reach.
theorem deleteFile_frame (io : BlockingMemIo) {path : Path .file} (h : key ≠ path.key) :
    (io.deleteFile path).2.files.lookup key = io.files.lookup key := by
  unfold BlockingMemIo.deleteFile
  split
  · rw [HashMap.lookup_erase, if_neg h]
  · rfl

theorem moveFile_frame (io : BlockingMemIo) {source target : Path .file} (hsource : key ≠ source.key)
    (htarget : key ≠ target.key) :
    (io.moveFile source target).2.files.lookup key = io.files.lookup key := by
  unfold BlockingMemIo.moveFile
  split
  · rw [HashMap.lookup_insert, if_neg htarget, HashMap.lookup_erase, if_neg hsource]
  · rfl

theorem copyFile_frame (io : BlockingMemIo) (source : Path .file) {target : Path .file}
    (h : key ≠ target.key) :
    (io.copyFile source target).2.files.lookup key = io.files.lookup key := by
  unfold BlockingMemIo.copyFile
  split
  · rw [HashMap.lookup_insert, if_neg h]
  · rfl

theorem deleteFolder_frame (io : BlockingMemIo) {path : Path .folder}
    (h : ¬key.startsWith path.key) :
    (io.deleteFolder path).2.files.lookup key = io.files.lookup key := by
  simp only [BlockingMemIo.deleteFolder]
  split
  · rfl
  · have hlocal (other : PathBuf.Key) (hother : other ∈ io.keysUnder path) :
        Overlay.Local HashMap.lookup {key | key.startsWith path.key}
          (fun files : HashMap PathBuf.Key Str => files.erase other) :=
      local_erase ((mem_keysUnder io path other).mp hother).2
    exact (Overlay.Local.foldl (io.keysUnder path) hlocal).frame io.files h

theorem moveFolder_frame (io : BlockingMemIo) {source target : Path .folder}
    (hsource : ¬key.startsWith source.key) (htarget : ¬key.startsWith target.key) :
    (io.moveFolder source target).2.files.lookup key = io.files.lookup key := by
  simp only [BlockingMemIo.moveFolder]
  split
  · rfl
  · have hfold := Overlay.Local.foldl (io.keysUnder source) fun other hother =>
      local_moveKey source.key target.key other ((mem_keysUnder io source other).mp hother).2
    exact hfold.frame io.files fun harea => harea.elim hsource htarget

section Commands

variable {session : Session.State Doc} (hrel : Settled rel) [LawfulYrs Doc]

include hrel

theorem Held.call (h : Held rel key session.guard session.store) {command : Call}
    (hedits : ¬(Command.call command).Edits key) :
    Held rel key (call session command).2.guard (call session command).2.store := by
  obtain ⟨guard, store⟩ := session
  cases command with
  | read path =>
      have hget := h.getFile hrel path
      simp only [Session.call, Api.read]
      rcases hload : guard.getFile store path with ⟨_ | file, after, loaded⟩
      · rw [hload] at hget
        exact hget
      · rw [hload] at hget
        exact hget
  | write path data =>
      have hkey : key ≠ path.key := fun heq => hedits heq.symm
      exact (h.reset hkey data).saveFile hrel path
  | delete path =>
      have hkey : key ≠ path.key := fun heq => hedits heq.symm
      exact (h.evict hrel path.key).stored (deleteFile_frame _ hkey)
  | moveFile source target =>
      have hsource : key ≠ source.key := fun heq => hedits (.inl heq.symm)
      have htarget : key ≠ target.key := fun heq => hedits (.inr heq.symm)
      exact ((h.evict hrel source.key).evict hrel target.key).stored
        (moveFile_frame _ hsource htarget)
  | copy source target =>
      have hkey : key ≠ target.key := fun heq => hedits heq.symm
      have hsave := h.saveFile hrel source
      simp only [Session.call, Api.copy]
      rcases hresult : Api.saveFile guard store source with ⟨_ | _, after, saved⟩
      · rw [hresult] at hsave
        exact hsave
      · rw [hresult] at hsave
        exact (hsave.evict hrel target.key).stored (copyFile_frame _ source hkey)
  | fileExists path => exact h
  | applyTransaction path transaction =>
      have hkey : key ≠ path.key := fun heq => hedits heq.symm
      exact h.applyTransaction hrel hkey transaction
  | extractPath rootPath relPath => exact h
  | copyFolder source target =>
      obtain ⟨hsave, hok⟩ := h.saveAll hrel guard.fileMap.keys
      simp only [Session.call, Api.copyFolder, snapshot]
      rcases hresult : MemFileGuard.saveAll guard.fileMap.keys guard store with ⟨result, after, saved⟩
      rw [hresult] at hsave hok
      obtain rfl : result = .ok () := hok
      exact (hsave.evictAll hrel _).stored (copyFolder_lookup _ source target key hedits)
  | moveFolder source target =>
      have hsource : ¬key.startsWith source.key := fun hunder => hedits (.inl hunder)
      have htarget : ¬key.startsWith target.key := fun hunder => hedits (.inr hunder)
      exact ((h.evictAll hrel _).evictAll hrel _).stored (moveFolder_frame _ hsource htarget)
  | deleteFolder path => exact (h.evictAll hrel _).stored (deleteFolder_frame _ hedits)
  | dropFile path => exact h.evict hrel path.key
  | dropDir dir => exact h.evictAll hrel _
  | snapshot => exact (h.saveAll hrel guard.fileMap.keys).1
  | resetFile path contents =>
      have hkey : key ≠ path.key := fun heq => hedits heq.symm
      exact h.reset hkey contents

-- A command that does not edit a file keeps what holds between its buffer and the store.
theorem Held.run (h : Held rel key session.guard session.store) {command : Command}
    (hedits : ¬command.Edits key) :
    Held rel key (command.run session).guard (command.run session).store := by
  cases command with
  | call command => exact h.call hrel hedits
  | loadAll paths => exact h.loadAll hrel paths
  | drop =>
      have hall := h.evictAll hrel session.guard.fileMap.keys
      refine ⟨wellFormed_new, ?_⟩
      have hgone : (MemFileGuard.evictAll session.guard.fileMap.keys session.guard
          session.store).1.text key = none := by
        by_cases hkey : key ∈ session.guard.fileMap.keys
        · exact (evictAll_evicted h.wellFormed session.store _).gone key hkey
        · rw [(evictAll_evicted h.wellFormed session.store _).kept key hkey]
          exact text_none_of_not_mem hkey
      have hnew : (MemFileGuard.new : MemFileGuard Doc).text key = none := by
        simp [MemFileGuard.text, MemFileGuard.new]
      have hafter := hall.rel
      rw [hgone] at hafter
      change rel ((MemFileGuard.new : MemFileGuard Doc).text key) _
      rw [hnew]
      exact hafter

end Commands

theorem Held.reordered {before after : Session.State Doc} (h : Held rel key before.guard before.store)
    (order : Reordered before after) : Held rel key after.guard after.store := by
  refine ⟨fun other file hfile => h.wellFormed other file (order.buffers ▸ hfile), ?_⟩
  have htext : after.guard.text key = before.guard.text key := by
    unfold MemFileGuard.text
    rw [order.buffers]
  rw [htext, order.files]
  exact h.rel

theorem start_held (store : BlockingMemIo) (party : Nat) (h : rel none (store.files.lookup key)) :
    Held rel key ((start store : State Doc).guards party) store := by
  refine ⟨wellFormed_new, ?_⟩
  have hnew : (MemFileGuard.new : MemFileGuard Doc).text key = none := by
    simp [MemFileGuard.text, MemFileGuard.new]
  exact hnew ▸ h

-- Buffer and store hold texts of some set only.
def Among (texts : Set Str) (buffered stored : Option Str) : Prop :=
  (∀ contents, buffered = some contents → contents ∈ texts) ∧
    ∀ contents, stored = some contents → contents ∈ texts

theorem among_settled (texts : Set Str) : Settled (Among texts) := by
  refine ⟨?_, ?_, ?_, ?_⟩
  · intro contents stored h
    exact ⟨h.1, h.1⟩
  · intro contents h
    exact ⟨nofun, h.2⟩
  · intro contents h
    exact ⟨h.2, h.2⟩
  · intro contents stored h
    exact ⟨h.2, h.1⟩

-- The store holds what it held, and the buffer nothing else.
def Synced (held : Option Str) (buffered stored : Option Str) : Prop :=
  stored = held ∧ ∀ contents, buffered = some contents → stored = some contents

theorem synced_settled (held : Option Str) : Settled (Synced held) := by
  refine ⟨?_, ?_, ?_, ?_⟩
  · intro contents stored h
    obtain rfl : stored = some contents := h.2 contents rfl
    exact h
  · intro contents h
    exact ⟨h.1, nofun⟩
  · intro contents h
    exact ⟨h.1, fun _ heq => heq⟩
  · intro contents stored h
    have hsame : some stored = some contents := h.2 contents rfl
    exact ⟨hsame ▸ h.1, fun _ heq => hsame ▸ heq⟩

-- What the store has held under a key in the course of a run.
def Past (store : BlockingMemIo) (key : PathBuf.Key) (trace : List (Act × State Doc)) : Set Str :=
  {contents | ∃ state ∈ states store trace, state.store.files.lookup key = some contents}

omit [Yrs Doc] in
theorem Past.mono {store : BlockingMemIo} {trace : List (Act × State Doc)}
    (label : Act × State Doc) : Past store key trace ⊆ Past store key (trace ++ [label]) := by
  rintro contents ⟨state, hstate, hcontents⟩
  refine ⟨state, ?_, hcontents⟩
  rw [states, List.map_append, ← List.cons_append]
  exact List.mem_append_left _ hstate

omit [Yrs Doc] in
theorem Past.last {store : BlockingMemIo} {trace : List (Act × State Doc)} {act : Act}
    {state : State Doc} {contents : Str} (h : state.store.files.lookup key = some contents) :
    contents ∈ Past store key (trace ++ [(act, state)]) := by
  refine ⟨state, List.mem_cons_of_mem _ ?_, h⟩
  rw [List.map_append]
  exact List.mem_append_right _ (List.mem_singleton_self state)

section Runs

variable {store : BlockingMemIo} {party : Nat} {trace : List (Act × State Doc)}
  {finish : State Doc}

-- A step of another party leaves the guard as it is.
theorem step_guard {before after : State Doc} {act : Act} (hstep : Step before act after)
    (hact : ∀ command, act ≠ .guarded party command) : after.guards party = before.guards party := by
  cases hstep with
  | guarded actor command session order =>
      have hne : party ≠ actor := by
        rintro rfl
        exact hact command rfl
      exact Function.update_of_ne hne _ _
  | direct other => rfl

variable [LawfulYrs Doc]

theorem step_held (hrel : Settled rel) {before after : State Doc} {command : Command}
    (h : Held rel key (before.guards party) before.store) (hedits : ¬command.Edits key)
    (hstep : Step before (.guarded party command) after) :
    Held rel key (after.guards party) after.store := by
  cases hstep with
  | guarded _ _ session order =>
      have hbefore : Held rel key (before.session party).guard (before.session party).store := h
      have hrun := (hbefore.reordered order).run hrel hedits
      dsimp only
      rw [Function.update_self]
      exact hrun

-- A buffer that is not edited holds what the store held at some time.
theorem run_among (run : Run Traced (start store) trace finish)
    (hedits : ∀ label ∈ trace, ¬label.1.Edits party key) :
    Held (Among (Past store key trace)) key (finish.guards party) finish.store := by
  induction run with
  | nil =>
      refine start_held store party ⟨nofun, fun contents hcontents => ?_⟩
      exact ⟨start store, List.mem_cons_self, hcontents⟩
  | @snoc trace mid finish label run last ih =>
      have hmid := ih fun other hother => hedits other (List.mem_append_left _ hother)
      have hlabel := hedits label (List.mem_append_right _ (List.mem_singleton_self label))
      obtain ⟨act, state⟩ := label
      obtain ⟨hstep, rfl⟩ := last
      have hwiden : Held (Among (Past store key (trace ++ [(act, state)]))) key
          (mid.guards party) mid.store :=
        ⟨hmid.wellFormed, fun contents h => Past.mono _ (hmid.rel.1 contents h),
          fun contents h => Past.mono _ (hmid.rel.2 contents h)⟩
      by_cases hown : ∃ command, act = .guarded party command
      · obtain ⟨command, rfl⟩ := hown
        exact step_held (among_settled _) hwiden (fun h => hlabel ⟨rfl, h⟩) hstep
      · have hguard := step_guard hstep fun command heq => hown ⟨command, heq⟩
        change Held _ key (state.guards party) state.store
        rw [hguard]
        exact ⟨hwiden.wellFormed, hwiden.rel.1, fun contents hcontents => Past.last hcontents⟩

theorem run_synced
    (run : Run (fun before label after => Traced before label after ∧
      Undisturbed party key before label.1 after) (start store) trace finish)
    (hedits : ∀ label ∈ trace, ¬label.1.Edits party key) :
    Held (Synced (finish.store.files.lookup key)) key (finish.guards party) finish.store := by
  induction run with
  | nil => exact start_held store party ⟨rfl, nofun⟩
  | @snoc trace mid finish label run last ih =>
      have hmid := ih fun other hother => hedits other (List.mem_append_left _ hother)
      have hlabel := hedits label (List.mem_append_right _ (List.mem_singleton_self label))
      obtain ⟨act, state⟩ := label
      have hstep : Step mid act finish := last.1.1
      by_cases hown : ∃ command, act = .guarded party command
      · obtain ⟨command, rfl⟩ := hown
        have hafter := step_held (synced_settled _) hmid (fun h => hlabel ⟨rfl, h⟩) hstep
        exact ⟨hafter.wellFormed, rfl, hafter.rel.2⟩
      · have hguard := step_guard hstep fun command heq => hown ⟨command, heq⟩
        rw [hguard]
        refine ⟨hmid.wellFormed, rfl, fun contents hcontents => ?_⟩
        rcases last.2 with hself | hnone | hsame
        · exact absurd hself hown
        · rw [hnone] at hcontents
          contradiction
        · rw [hsame]
          exact hmid.rel.2 contents hcontents

end Runs

-- A guard that does not edit a file puts nothing there but what the store held at
-- some time of the run, and leaves it as it is while no other party changes a file
-- it holds.
theorem reader_keeps [LawfulYrs Doc] (store : BlockingMemIo) (trace : List (Act × State Doc))
    (finish after : State Doc) (run : Run Traced (start store) trace finish) (party : Nat)
    (key : PathBuf.Key) (hedits : ∀ label ∈ trace, ¬label.1.Edits party key) (command : Command)
    (hcommand : ¬command.Edits key) (hstep : Step finish (.guarded party command) after) :
    (∀ contents, after.store.files.lookup key = some contents →
      ∃ state ∈ states store trace, state.store.files.lookup key = some contents) ∧
    (Run (fun before label after => Traced before label after ∧
          Undisturbed party key before label.1 after) (start store) trace finish →
      after.store.files.lookup key = finish.store.files.lookup key) := by
  refine ⟨?_, ?_⟩
  · have hpast := step_held (among_settled _) (run_among run hedits) hcommand hstep
    exact hpast.rel.2
  · intro hquiet
    have hsynced := step_held (synced_settled _) (run_synced hquiet hedits) hcommand hstep
    exact hsynced.rel.1

def file : Path .file :=
  Path.new ['a']

-- A store with one file, and a session that has read it.
def stored : BlockingMemIo :=
  ⟨HashMap.new.insert file.key ['1']⟩

def reader : State OpLog :=
  let session := (Command.call (.read file)).run ((start stored : State OpLog).session 0)
  ⟨Function.update (start stored : State OpLog).guards 0 session.guard, session.store⟩

def dropped (before : State OpLog) : State OpLog :=
  let session := Command.drop.run (before.session 0)
  ⟨Function.update before.guards 0 session.guard, session.store⟩

theorem step_read : Step (start stored : State OpLog) (.guarded 0 (.call (.read file))) reader :=
  .guarded 0 _ _ ⟨rfl, rfl⟩

theorem step_drop (before : State OpLog) : Step before (.guarded 0 .drop) (dropped before) :=
  .guarded 0 .drop _ ⟨rfl, rfl⟩

-- Another party writes to the file that the session has read, or deletes it, or
-- writes another file.
def overtaken (files : HashMap PathBuf.Key Str) : State OpLog :=
  ⟨reader.guards, ⟨files⟩⟩

def other : Path .file :=
  Path.new ['b']

def joined : State OpLog :=
  overtaken (reader.store.files.insert other.key ['2'])

def joining (finish : State OpLog) : List (Act × State OpLog) :=
  [(.guarded 0 (.call (.read file)), reader), (.direct, finish)]

theorem joining_run (files : HashMap PathBuf.Key Str) :
    Run Traced (start stored) (joining (overtaken files)) (overtaken files) :=
  .snoc (.snoc .nil ⟨step_read, rfl⟩) ⟨.direct ⟨files⟩, rfl⟩

theorem joining_edits (finish : State OpLog) :
    ∀ label ∈ joining finish, ¬label.1.Edits 0 file.key := by
  intro label hlabel
  rcases List.mem_cons.mp hlabel with rfl | hlabel
  · exact fun hedits => hedits.2
  · rw [List.mem_singleton.mp hlabel]
    exact id

-- The text that comes back over the newer one was held before, and a file that
-- only others' files changed around stays.
theorem reader_keeps_alone :
    (∃ state ∈ states stored (joining (overtaken (HashMap.new.insert file.key ['2']))),
      state.store.files.lookup file.key = some ['1']) ∧
    (dropped joined).store.files.lookup file.key = joined.store.files.lookup file.key := by
  refine ⟨?_, ?_⟩
  · have hback := (reader_keeps stored _ _ _ (joining_run (HashMap.new.insert file.key ['2'])) 0
      file.key (joining_edits _) .drop id (step_drop _)).1
    exact hback ['1'] (by decide +kernel)
  · have hsame : joined.store.files.lookup file.key = reader.store.files.lookup file.key := by
      decide +kernel
    have hquiet : Run (fun before label after => Traced before label after ∧
        Undisturbed 0 file.key before label.1 after) (start stored) (joining joined) joined :=
      .snoc (.snoc .nil ⟨⟨step_read, rfl⟩, .inl ⟨_, rfl⟩⟩)
        ⟨⟨.direct joined.store, rfl⟩, .inr (.inr hsame)⟩
    exact (reader_keeps stored _ joined (dropped joined) (joining_run _) 0 file.key
      (joining_edits _) .drop id (step_drop joined)).2 hquiet

theorem reader_keeps_stale :
    (Run Step (start stored) [.guarded 0 (.call (.read file)), .direct]
        (overtaken (HashMap.new.insert file.key ['2'])) ∧
      Step (overtaken (HashMap.new.insert file.key ['2'])) (.guarded 0 .drop)
        (dropped (overtaken (HashMap.new.insert file.key ['2']))) ∧
      (dropped (overtaken (HashMap.new.insert file.key ['2']))).store.files.lookup file.key =
        some ['1']) ∧
    (dropped (overtaken HashMap.new)).store.files.lookup file.key = some ['1'] ∧
    ¬∀ (store : BlockingMemIo) (trace : List Act) (finish after : State OpLog),
      Run Step (start store) trace finish → ∀ (party : Nat) (key : PathBuf.Key),
        (∀ act ∈ trace, ¬act.Edits party key) → ∀ command : Command, ¬command.Edits key →
          Step finish (.guarded party command) after →
            after.store.files.lookup key = finish.store.files.lookup key := by
  have hrun (files : HashMap PathBuf.Key Str) :
      Run Step (start stored) [.guarded 0 (.call (.read file)), .direct] (overtaken files) :=
    .snoc (.snoc .nil step_read) (.direct ⟨files⟩)
  refine ⟨⟨hrun _, step_drop _, by decide +kernel⟩, by decide +kernel, fun h => ?_⟩
  have hedits : ∀ act ∈ [Act.guarded 0 (.call (.read file)), .direct], ¬act.Edits 0 file.key := by
    intro act hact
    rcases List.mem_cons.mp hact with rfl | hact
    · exact fun hedits => hedits.2
    · rw [List.mem_singleton.mp hact]
      exact id
  have hsame := h stored _ _ _ (hrun HashMap.new) 0 file.key hedits .drop id (step_drop _)
  exact absurd hsame (by decide +kernel)

end Saps.Files.Parties
