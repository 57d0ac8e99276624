import Mathlib.Data.Nat.Init
import Saps.Lib.Transition

-- Runs without an end, and what has to happen in them.
namespace Transition

variable {σ ε : Type*}

structure Endless (step : σ → ε → σ → Prop) where
  state : Nat → σ
  label : Nat → ε
  next : ∀ time, step (state time) (label time) (state (time + 1))

theorem Endless.run {step : σ → ε → σ → Prop} (endless : Endless step) (time : Nat) :
    Run step (endless.state 0) ((List.range time).map endless.label) (endless.state time) := by
  induction time with
  | zero => exact .nil
  | succ time ih =>
      rw [List.range_succ, List.map_append]
      exact .snoc ih (endless.next time)

theorem Endless.always {step : σ → ε → σ → Prop} (endless : Endless step) (inv : σ → Prop)
    (hstart : inv (endless.state 0))
    (hstep : ∀ before label after, inv before → step before label after → inv after)
    (time : Nat) : inv (endless.state time) :=
  (endless.run time).invariant inv hstart hstep

-- What waits goes on waiting till it is served.
theorem waits_till {waits served : Nat → Prop}
    (hstep : ∀ time, waits time → served (time + 1) ∨ waits (time + 1))
    {time later : Nat} (hle : time ≤ later) (h : waits time) :
    (∃ between, time < between ∧ between ≤ later ∧ served between) ∨ waits later := by
  induction later, hle using Nat.le_induction with
  | base => exact .inr h
  | succ later hle ih =>
      rcases ih with ⟨between, hafter, hbefore, hserved⟩ | hwaits
      · exact .inl ⟨between, hafter, by omega, hserved⟩
      · rcases hstep later hwaits with hserved | hstill
        · exact .inl ⟨later + 1, by omega, by omega, hserved⟩
        · exact .inr hstill

-- What waits is served sometime, if no step raises the rank while it waits and there is
-- always one to come that lowers it.
theorem served_eventually (waits served : Nat → Prop) (rank : Nat → Nat)
    (hstep : ∀ time, waits time → served (time + 1) ∨
      (waits (time + 1) ∧ rank (time + 1) ≤ rank time))
    (hhelp : ∀ time, waits time → ∃ later, time ≤ later ∧
      (waits later → served (later + 1) ∨ rank (later + 1) < rank later))
    {time : Nat} (h : waits time) : ∃ later, time < later ∧ served later := by
  induction hrank : rank time using Nat.strong_induction_on generalizing time with
  | _ bound ih =>
      subst hrank
      obtain ⟨later, hle, hlower⟩ := hhelp time h
      have hkept : ∀ mid, (waits mid ∧ rank mid ≤ rank time) →
          served (mid + 1) ∨ (waits (mid + 1) ∧ rank (mid + 1) ≤ rank time) := by
        intro mid hmid
        rcases hstep mid hmid.1 with hserved | ⟨hstill, hnot⟩
        · exact .inl hserved
        · exact .inr ⟨hstill, by omega⟩
      rcases waits_till hkept hle ⟨h, Nat.le_refl _⟩ with
        ⟨between, hafter, _, hserved⟩ | ⟨hwaits, hbound⟩
      · exact ⟨between, hafter, hserved⟩
      · rcases hstep later hwaits with hserved | ⟨hstill, _⟩
        · exact ⟨later + 1, by omega, hserved⟩
        · rcases hlower hwaits with hserved | hless
          · exact ⟨later + 1, by omega, hserved⟩
          · obtain ⟨last, hlast, hserved⟩ := ih (rank (later + 1)) (by omega) hstill rfl
            exact ⟨last, by omega, hserved⟩

end Transition
