import Saps.Files.Yrs

namespace Saps.Files

-- A `yrs` document with a single writer, as the log of its edits.
inductive LogEntry where
  | insert (offset : Nat) (data : Str)
  | removeRange (offset length : Nat)
  deriving DecidableEq, Repr

structure OpLog where
  entries : List LogEntry
  deriving DecidableEq, Repr

-- The entries from `start` on, counted from the first entry ever.
structure LogUpdate where
  start : Nat
  entries : List LogEntry
  deriving DecidableEq, Repr

def LogEntry.apply (text : Str) : LogEntry → Str
  | .insert offset data => Utf8.splice text offset 0 data
  | .removeRange offset length => Utf8.splice text offset length []

namespace OpLog

def getString (log : OpLog) : Str :=
  log.entries.foldl LogEntry.apply []

def push (log : OpLog) (entry : LogEntry) : OpLog :=
  ⟨log.entries ++ [entry]⟩

-- What is known already is skipped, and an update behind a gap adds nothing.
def applyUpdate (log : OpLog) (update : LogUpdate) : OpLog :=
  if update.start ≤ log.entries.length then
    ⟨log.entries ++ update.entries.drop (log.entries.length - update.start)⟩
  else log

instance : Yrs OpLog where
  StateVector := Nat
  Update := LogUpdate
  new := ⟨[]⟩
  getString := getString
  insert log offset data := log.push (.insert offset.toNat data)
  removeRange log offset length := log.push (.removeRange offset.toNat length.toNat)
  encodeState log := ⟨0, log.entries⟩
  stateVector log := log.entries.length
  encodeDiff log before := .ok ⟨before, log.entries.drop before⟩
  applyUpdate log update := .ok (log.applyUpdate update)

theorem getString_push (log : OpLog) (entry : LogEntry) :
    (log.push entry).getString = entry.apply log.getString := by
  simp [getString, push]

instance : LawfulYrs OpLog where
  getString_new := rfl
  getString_insert log _ _ _ := log.getString_push _
  getString_removeRange log _ _ _ _ := log.getString_push _
  insert_congr log other offset data h := by
    change log.getString = other.getString at h
    change (log.push _).getString = (other.push _).getString
    rw [getString_push, getString_push, h]
  removeRange_congr log other offset length h := by
    change log.getString = other.getString at h
    change (log.push _).getString = (other.push _).getString
    rw [getString_push, getString_push, h]
  encodeDiff_stateVector log before := ⟨_, rfl⟩

end OpLog

end Saps.Files
