import Saps.Lib.Transition

-- A register that may be empty, with writes that ask for the value before.
namespace Register

open Transition

variable {α : Type*}

inductive Access (α : Type*) where
  | swapped (expected newValue : α)
  | wrote (value : Option α)

inductive Step : Option α → Access α → Option α → Prop
  | swapped (expected newValue : α) :
      Step (some expected) (.swapped expected newValue) (some newValue)
  | wrote (before value : Option α) : Step before (.wrote value) value

-- What the access leaves.
def Access.left : Access α → Option α
  | .swapped _ newValue => some newValue
  | .wrote value => value

theorem Step.left {before after : Option α} {access : Access α}
    (step : Step before access after) : access.left = after := by
  cases step <;> rfl

-- The last access left what is there.
theorem run_left {start finish : Option α} {log : List (Access α)}
    (run : Run Step start log finish) :
    finish = start ∨ ∃ access ∈ log, access.left = finish := by
  cases run with
  | nil => exact .inl rfl
  | snoc _ last => exact .inr ⟨_, by simp, last.left⟩

-- Two swaps that took the same value away: in between it was put back.
theorem swaps_apart {start finish : Option α} {front between back : List (Access α)}
    {expected first second : α}
    (run : Run Step start (front ++ .swapped expected first ::
      (between ++ .swapped expected second :: back)) finish)
    (hne : first ≠ expected) : ∃ access ∈ between, access.left = some expected := by
  obtain ⟨mid, _, hrest⟩ := run.split
  obtain ⟨next, hfirst, hrest⟩ := hrest.cons_inv
  obtain ⟨last, hbetween, hrest⟩ := hrest.split
  obtain ⟨_, hsecond, _⟩ := hrest.cons_inv
  cases hfirst
  cases hsecond
  rcases run_left hbetween with heq | hleft
  · exact absurd (Option.some.inj heq).symm hne
  · exact hleft

-- Every access is a swap that raises the rank by one.
def Counts (rank : α → Nat) (access : Access α) : Prop :=
  ∃ expected newValue, access = .swapped expected newValue ∧ rank newValue = rank expected + 1

-- None of them is lost.
theorem run_counts {rank : α → Nat} {start : α} {finish : Option α} {log : List (Access α)}
    (run : Run Step (some start) log finish) (hcounts : ∀ access ∈ log, Counts rank access) :
    ∃ value, finish = some value ∧ rank value = rank start + log.length := by
  induction run with
  | nil => exact ⟨start, rfl, by simp⟩
  | @snoc trace mid finish access _ last ih =>
      obtain ⟨value, rfl, hrank⟩ := ih fun other hother => hcounts other (by simp [hother])
      obtain ⟨expected, newValue, rfl, hnext⟩ := hcounts access (by simp)
      cases last
      refine ⟨newValue, rfl, ?_⟩
      rw [List.length_append, List.length_singleton]
      omega

end Register
