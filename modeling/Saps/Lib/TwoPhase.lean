import Saps.Lib.Transition
import Mathlib.Data.List.Nodup

-- Operations on a shared store that look in one transaction and act in another
-- one, so that others may come in between.
structure TwoPhase (Store Op Error : Type) where
  Seen : Op → Type
  -- What an operation sees of the store, or why it gives up.
  look : Store → (op : Op) → Except Error (Seen op)
  -- What it makes of the store with what it has seen.
  act : Store → (op : Op) → Seen op → Store
  -- Whether it looks and acts in one transaction.
  single : Op → Bool

namespace TwoPhase

variable {Store Op Error : Type}

abbrev Result (Error : Type) := Except Error Unit

-- An operation that nothing comes between.
def alone (ops : TwoPhase Store Op Error) (store : Store) (op : Op) : Result Error × Store :=
  match ops.look store op with
  | .error error => (.error error, store)
  | .ok seen => (.ok (), ops.act store op seen)

-- The store, the operation behind each number in use, and those that have
-- looked and not acted yet.
structure State (ops : TwoPhase Store Op Error) where
  store : Store
  issued : Nat → Option Op
  flights : Nat → Option ((op : Op) × ops.Seen op)

inductive Label (Op Error : Type) where
  | started (id : Nat) (op : Op)
  | finished (id : Nat) (op : Op) (result : Result Error)

namespace Label

def id : Label Op Error → Nat
  | started id _ | finished id _ _ => id

def op : Label Op Error → Op
  | started _ op | finished _ op _ => op

def completed : Label Op Error → Option (Op × Result Error)
  | started _ _ => none
  | finished _ op result => some (op, result)

def finishedId : Label Op Error → Option Nat
  | started _ _ => none
  | finished id _ _ => some id

end Label

variable (ops : TwoPhase Store Op Error)

def begin (store : Store) : State ops :=
  ⟨store, fun _ => none, fun _ => none⟩

inductive Step (before : State ops) : Label Op Error → State ops → Prop
  | once (id : Nat) (op : Op) (hfresh : before.issued id = none) (hsingle : ops.single op = true) :
      Step before (.finished id op (ops.alone before.store op).1)
        { before with
          store := (ops.alone before.store op).2
          issued := Function.update before.issued id (some op) }
  | fail (id : Nat) (op : Op) (error : Error) (hfresh : before.issued id = none)
      (hlook : ops.look before.store op = .error error) :
      Step before (.finished id op (.error error))
        { before with issued := Function.update before.issued id (some op) }
  | look (id : Nat) (op : Op) (seen : ops.Seen op) (hfresh : before.issued id = none)
      (hsingle : ops.single op = false) (hlook : ops.look before.store op = .ok seen) :
      Step before (.started id op)
        { before with
          issued := Function.update before.issued id (some op)
          flights := Function.update before.flights id (some ⟨op, seen⟩) }
  | act (id : Nat) (op : Op) (seen : ops.Seen op) (hflight : before.flights id = some ⟨op, seen⟩) :
      Step before (.finished id op (.ok ()))
        { before with
          store := ops.act before.store op seen
          flights := Function.update before.flights id none }

-- Whoever acts does what the operation as a whole would do now.
def Timely (before : State ops) : Label Op Error → Prop
  | .started _ _ => True
  | .finished id op _ => ∀ seen, before.flights id = some ⟨op, seen⟩ →
      ops.alone before.store op = (.ok (), ops.act before.store op seen)

def TimelyStep (before : State ops) (label : Label Op Error) (after : State ops) : Prop :=
  Step ops before label after ∧ Timely ops before label

-- One operation after the other.
def SerialStep (before : Store) (label : Op × Result Error) (after : Store) : Prop :=
  ops.alone before label.1 = (label.2, after)

variable {ops}

open Transition

theorem alone_of_error {store : Store} {op : Op} {error : Error}
    (h : ops.look store op = .error error) : ops.alone store op = (.error error, store) := by
  unfold alone
  rw [h]

theorem alone_of_look {store : Store} {op : Op} {seen : ops.Seen op}
    (h : ops.look store op = .ok seen) : ops.alone store op = (.ok (), ops.act store op seen) := by
  unfold alone
  rw [h]

theorem TimelyStep.serial {before after : State ops} {label : Label Op Error}
    (step : TimelyStep ops before label after) :
    (label.completed = none ∧ after.store = before.store) ∨
      ∃ done, label.completed = some done ∧ SerialStep ops before.store done after.store := by
  obtain ⟨step, htimely⟩ := step
  cases step with
  | once id op hfresh hsingle => exact .inr ⟨_, rfl, rfl⟩
  | fail id op error hfresh hlook =>
      refine .inr ⟨_, rfl, ?_⟩
      unfold SerialStep alone
      rw [hlook]
  | look id op seen hfresh hsingle hlook => exact .inl ⟨rfl, rfl⟩
  | act id op seen hflight => exact .inr ⟨_, rfl, htimely seen hflight⟩

-- If no operation acts on what is past, they have the effects and the results
-- they have one after the other, in the order in which they finish.
theorem run_serial {store : Store} {trace : List (Label Op Error)} {finish : State ops}
    (run : Run (TimelyStep ops) (begin ops store) trace finish) :
    Run (SerialStep ops) store (trace.filterMap Label.completed) finish.store := by
  induction run with
  | nil => exact .nil
  | snoc _ last ih =>
      rw [List.filterMap_append]
      rcases last.serial with ⟨hnone, hstore⟩ | ⟨done, hdone, hserial⟩
      · rw [List.filterMap_cons_none hnone, List.filterMap_nil, List.append_nil, hstore]
        exact ih
      · rw [List.filterMap_cons_some hdone, List.filterMap_nil]
        exact .snoc ih hserial

theorem serial_store {store finish : Store} {order : List (Op × Result Error)}
    (run : Run (SerialStep ops) store order finish) :
    finish = order.foldl (fun store label => (ops.alone store label.1).2) store := by
  induction run with
  | nil => rfl
  | snoc _ last ih =>
      rw [List.foldl_append, ← ih]
      exact (congrArg Prod.snd last).symm

-- Every operation that was begun is in flight or has finished, and none finishes
-- twice.
structure Accounted (trace : List (Label Op Error)) (issued : Nat → Option Op)
    (flights : Nat → Option ((op : Op) × ops.Seen op)) : Prop where
  begun : ∀ id op, issued id = some op →
    (∃ seen, flights id = some ⟨op, seen⟩) ∨ ∃ result, .finished id op result ∈ trace
  flying : ∀ id op seen, flights id = some ⟨op, seen⟩ →
    issued id = some op ∧ id ∉ trace.filterMap Label.finishedId
  known : ∀ label ∈ trace, issued label.id = some label.op
  once : (trace.filterMap Label.finishedId).Nodup

theorem finishedIds_snoc (trace : List (Label Op Error)) (label : Label Op Error) :
    (trace ++ [label]).filterMap Label.finishedId =
      trace.filterMap Label.finishedId ++ label.finishedId.toList := by
  rw [List.filterMap_append]
  cases label with
  | started id op => rfl
  | finished id op result => rfl

section Accounted

variable {trace : List (Label Op Error)} {issued : Nat → Option Op}
  {flights : Nat → Option ((op : Op) × ops.Seen op)} (h : Accounted trace issued flights)
  {id : Nat} (op : Op)

theorem ne_of_issued (hfresh : issued id = none) {other : Nat} {op : Op}
    (hother : issued other = some op) : other ≠ id := by
  rintro rfl
  rw [hfresh] at hother
  cases hother

include h

theorem Accounted.not_finished (hfresh : issued id = none) :
    id ∉ trace.filterMap Label.finishedId := by
  intro hmem
  obtain ⟨label, hlabel, hid⟩ := List.mem_filterMap.mp hmem
  have hknown := h.known label hlabel
  cases label with
  | started other op => cases hid
  | finished other op result =>
      cases hid
      exact ne_of_issued hfresh hknown rfl

-- The labels so far, and a new one for an operation that begins.
theorem Accounted.known_snoc (hfresh : issued id = none) (label : Label Op Error)
    (hid : label.id = id) (hop : label.op = op) :
    ∀ other ∈ trace ++ [label], Function.update issued id (some op) other.id = some other.op := by
  intro other hother
  rcases List.mem_append.mp hother with hold | hnew
  · have hknown := h.known other hold
    rw [Function.update_of_ne (ne_of_issued hfresh hknown)]
    exact hknown
  · rw [List.mem_singleton.mp hnew, hid, hop, Function.update_self]

-- An operation that finishes as soon as it begins.
theorem Accounted.at_once (hfresh : issued id = none) (result : Result Error) :
    Accounted (trace ++ [.finished id op result]) (Function.update issued id (some op)) flights := by
  refine ⟨?_, ?_, h.known_snoc op hfresh _ rfl rfl, ?_⟩
  · intro other op' hbegun
    by_cases heq : other = id
    · rw [heq, Function.update_self] at hbegun
      rw [heq, ← Option.some.inj hbegun]
      exact .inr ⟨result, List.mem_append_right _ (List.mem_singleton_self _)⟩
    · rw [Function.update_of_ne heq] at hbegun
      refine (h.begun other op' hbegun).imp_right fun ⟨found, hmem⟩ => ?_
      exact ⟨found, List.mem_append_left _ hmem⟩
  · intro other op' seen hflight
    obtain ⟨hissued, hflying⟩ := h.flying other op' seen hflight
    have hne := ne_of_issued hfresh hissued
    rw [Function.update_of_ne hne, finishedIds_snoc]
    refine ⟨hissued, fun hmem => ?_⟩
    rcases List.mem_append.mp hmem with hold | hnew
    · exact hflying hold
    · exact hne (List.mem_singleton.mp hnew)
  · rw [finishedIds_snoc]
    exact List.nodup_append.mpr ⟨h.once, List.nodup_singleton _, fun left hleft right hright heq =>
      h.not_finished hfresh (List.mem_singleton.mp hright ▸ heq ▸ hleft)⟩

theorem Accounted.take_off (hfresh : issued id = none) (seen : ops.Seen op) :
    Accounted (trace ++ [.started id op]) (Function.update issued id (some op))
      (Function.update flights id (some ⟨op, seen⟩)) := by
  refine ⟨?_, ?_, h.known_snoc op hfresh _ rfl rfl, ?_⟩
  · intro other op' hbegun
    by_cases heq : other = id
    · rw [heq, Function.update_self] at hbegun
      rw [heq, ← Option.some.inj hbegun, Function.update_self]
      exact .inl ⟨seen, rfl⟩
    · rw [Function.update_of_ne heq] at hbegun ⊢
      refine (h.begun other op' hbegun).imp_right fun ⟨found, hmem⟩ => ?_
      exact ⟨found, List.mem_append_left _ hmem⟩
  · intro other op' seen' hflight
    rw [finishedIds_snoc]
    by_cases heq : other = id
    · rw [heq, Function.update_self] at hflight
      cases hflight
      rw [heq, Function.update_self]
      refine ⟨rfl, fun hmem => h.not_finished hfresh ?_⟩
      exact (List.mem_append.mp hmem).resolve_right List.not_mem_nil
    · rw [Function.update_of_ne heq] at hflight ⊢
      obtain ⟨hissued, hflying⟩ := h.flying other op' seen' hflight
      refine ⟨hissued, fun hmem => hflying ?_⟩
      exact (List.mem_append.mp hmem).resolve_right List.not_mem_nil
  · rw [finishedIds_snoc]
    exact (List.append_nil _).symm ▸ h.once

theorem Accounted.land {seen : ops.Seen op} (hflight : flights id = some ⟨op, seen⟩)
    (result : Result Error) :
    Accounted (trace ++ [.finished id op result]) issued (Function.update flights id none) := by
  obtain ⟨hissued, hflying⟩ := h.flying id op seen hflight
  refine ⟨?_, ?_, ?_, ?_⟩
  · intro other op' hbegun
    by_cases heq : other = id
    · rw [heq] at hbegun ⊢
      rw [hissued] at hbegun
      rw [← Option.some.inj hbegun]
      exact .inr ⟨result, List.mem_append_right _ (List.mem_singleton_self _)⟩
    · rw [Function.update_of_ne heq]
      refine (h.begun other op' hbegun).imp_right fun ⟨found, hmem⟩ => ?_
      exact ⟨found, List.mem_append_left _ hmem⟩
  · intro other op' seen' hother
    by_cases heq : other = id
    · rw [heq, Function.update_self] at hother
      cases hother
    · rw [Function.update_of_ne heq] at hother
      obtain ⟨hissued', hflying'⟩ := h.flying other op' seen' hother
      rw [finishedIds_snoc]
      refine ⟨hissued', fun hmem => ?_⟩
      rcases List.mem_append.mp hmem with hold | hnew
      · exact hflying' hold
      · exact heq (List.mem_singleton.mp hnew)
  · intro label hlabel
    rcases List.mem_append.mp hlabel with hold | hnew
    · exact h.known label hold
    · rw [List.mem_singleton.mp hnew]
      exact hissued
  · rw [finishedIds_snoc]
    exact List.nodup_append.mpr ⟨h.once, List.nodup_singleton _, fun left hleft right hright heq =>
      hflying (List.mem_singleton.mp hright ▸ heq ▸ hleft)⟩

end Accounted

theorem run_accounted {store : Store} {trace : List (Label Op Error)} {finish : State ops}
    (run : Run (Step ops) (begin ops store) trace finish) :
    Accounted trace finish.issued finish.flights := by
  induction run with
  | nil =>
      refine ⟨?_, ?_, ?_, List.nodup_nil⟩
      · intro id op h
        cases h
      · intro id op seen h
        cases h
      · intro label h
        cases h
  | snoc _ last ih =>
      cases last with
      | once id op hfresh hsingle => exact ih.at_once op hfresh _
      | fail id op error hfresh hlook => exact ih.at_once op hfresh _
      | look id op seen hfresh hsingle hlook => exact ih.take_off op hfresh seen
      | act id op seen hflight => exact ih.land op hflight _

end TwoPhase
