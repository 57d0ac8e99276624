import Mathlib.Data.List.Basic
import Mathlib.Data.List.Induction

namespace Transition

variable {σ τ ε : Type*}

-- A finite labelled run. The labels stand in the order the steps were taken.
inductive Run (step : σ → ε → σ → Prop) (start : σ) : List ε → σ → Prop
  | nil : Run step start [] start
  | snoc {trace : List ε} {mid finish : σ} {label : ε} (run : Run step start trace mid)
      (last : step mid label finish) : Run step start (trace ++ [label]) finish

theorem Run.nil_inv {step : σ → ε → σ → Prop} {start finish : σ} (run : Run step start [] finish) :
    finish = start := by
  generalize htrace : [] = whole at run
  cases run with
  | nil => rfl
  | snoc => simp at htrace

theorem Run.snoc_inv {step : σ → ε → σ → Prop} {start finish : σ} {trace : List ε} {label : ε}
    (run : Run step start (trace ++ [label]) finish) :
    ∃ mid, Run step start trace mid ∧ step mid label finish := by
  generalize htrace : trace ++ [label] = whole at run
  cases run with
  | nil => simp at htrace
  | snoc front last =>
      obtain ⟨rfl, hlabel⟩ := List.append_inj' htrace rfl
      obtain rfl := List.singleton_inj.mp hlabel
      exact ⟨_, front, last⟩

theorem Run.trans {step : σ → ε → σ → Prop} {start mid finish : σ} {first second : List ε}
    (front : Run step start first mid) (back : Run step mid second finish) :
    Run step start (first ++ second) finish := by
  induction back with
  | nil => simpa using front
  | snoc _ last ih =>
      rw [← List.append_assoc]
      exact .snoc ih last

-- A run can be cut anywhere.
theorem Run.split {step : σ → ε → σ → Prop} {start finish : σ} {first second : List ε}
    (run : Run step start (first ++ second) finish) :
    ∃ mid, Run step start first mid ∧ Run step mid second finish := by
  induction second using List.reverseRecOn generalizing finish with
  | nil => exact ⟨finish, by simpa using run, .nil⟩
  | append_singleton second label ih =>
      rw [← List.append_assoc] at run
      obtain ⟨mid, hrun, hlast⟩ := run.snoc_inv
      obtain ⟨cut, hfirst, hsecond⟩ := ih hrun
      exact ⟨cut, hfirst, .snoc hsecond hlast⟩

theorem Run.cons_inv {step : σ → ε → σ → Prop} {start finish : σ} {label : ε} {trace : List ε}
    (run : Run step start (label :: trace) finish) :
    ∃ next, step start label next ∧ Run step next trace finish := by
  have hrun : Run step start ([label] ++ trace) finish := run
  obtain ⟨next, hfirst, hrest⟩ := hrun.split
  have hone : Run step start ([] ++ [label]) next := hfirst
  obtain ⟨before, hnil, hlast⟩ := hone.snoc_inv
  rw [hnil.nil_inv] at hlast
  exact ⟨next, hlast, hrest⟩

theorem Run.mono {step step' : σ → ε → σ → Prop} {start finish : σ} {trace : List ε}
    (h : ∀ before label after, step before label after → step' before label after)
    (run : Run step start trace finish) : Run step' start trace finish := by
  induction run with
  | nil => exact .nil
  | snoc _ last ih => exact .snoc ih (h _ _ _ last)

theorem Run.restrict {step : σ → ε → σ → Prop} {start finish : σ} {trace : List ε} {p : ε → Prop}
    (run : Run step start trace finish) (h : ∀ label ∈ trace, p label) :
    Run (fun before label after => step before label after ∧ p label) start trace finish := by
  induction run with
  | nil => exact .nil
  | snoc _ last ih =>
      refine .snoc (ih fun label hlabel => h label (List.mem_append_left _ hlabel)) ⟨last, ?_⟩
      exact h _ (List.mem_append_right _ (List.mem_singleton_self _))

-- Two things that steps can do come to the same in every run, if they do wherever
-- one of them has been done till then.
theorem Run.restrict_iff {step p q : σ → ε → σ → Prop} {start finish : σ} {trace : List ε}
    (inv : σ → Prop) (hstart : inv start)
    (h : ∀ before label after, inv before → step before label after →
      (p before label after ↔ q before label after) ∧ (p before label after → inv after)) :
    Run (fun before label after => step before label after ∧ p before label after)
        start trace finish ↔
      Run (fun before label after => step before label after ∧ q before label after)
        start trace finish := by
  constructor
  · intro run
    have hboth : inv finish ∧ Run (fun before label after => step before label after ∧
        q before label after) start trace finish := by
      induction run with
      | nil => exact ⟨hstart, .nil⟩
      | snoc _ last ih =>
          obtain ⟨hiff, hnext⟩ := h _ _ _ ih.1 last.1
          exact ⟨hnext last.2, .snoc ih.2 ⟨last.1, hiff.mp last.2⟩⟩
    exact hboth.2
  · intro run
    have hboth : inv finish ∧ Run (fun before label after => step before label after ∧
        p before label after) start trace finish := by
      induction run with
      | nil => exact ⟨hstart, .nil⟩
      | snoc _ last ih =>
          obtain ⟨hiff, hnext⟩ := h _ _ _ ih.1 last.1
          exact ⟨hnext (hiff.mpr last.2), .snoc ih.2 ⟨last.1, hiff.mpr last.2⟩⟩
    exact hboth.2

-- What holds at the start and survives every step holds wherever a run ends.
theorem Run.invariant {step : σ → ε → σ → Prop} {start finish : σ} {trace : List ε}
    (inv : σ → Prop) (hstart : inv start)
    (hstep : ∀ before label after, inv before → step before label after → inv after)
    (run : Run step start trace finish) : inv finish := by
  induction run with
  | nil => exact hstart
  | snoc _ last ih => exact hstep _ _ _ ih last

-- And what every step shows of its label holds all along the trace.
theorem Run.forall_label {step : σ → ε → σ → Prop} {start finish : σ} {trace : List ε}
    (inv : σ → Prop) (p : ε → Prop) (hstart : inv start)
    (hstep : ∀ before label after, inv before → step before label after → inv after ∧ p label)
    (run : Run step start trace finish) : inv finish ∧ ∀ label ∈ trace, p label := by
  induction run with
  | nil => exact ⟨hstart, fun _ h => absurd h List.not_mem_nil⟩
  | snoc _ last ih =>
      obtain ⟨hinv, htrace⟩ := ih
      obtain ⟨hinv', hlast⟩ := hstep _ _ _ hinv last
      refine ⟨hinv', fun label hlabel => ?_⟩
      rcases List.mem_append.mp hlabel with h | h
      · exact htrace label h
      · rw [List.mem_singleton.mp h]
        exact hlast

-- A rank that every step lowers bounds the length of a run.
theorem Run.length_le {step : σ → ε → σ → Prop} {start finish : σ} {trace : List ε}
    (inv : σ → Prop) (rank : σ → Nat) (hstart : inv start)
    (hstep : ∀ before label after, inv before → step before label after →
      inv after ∧ rank after < rank before)
    (run : Run step start trace finish) :
    inv finish ∧ rank finish + trace.length ≤ rank start := by
  induction run with
  | nil => exact ⟨hstart, by simp⟩
  | snoc _ last ih =>
      obtain ⟨hinv, hrank⟩ := ih
      obtain ⟨hinv', hlower⟩ := hstep _ _ _ hinv last
      refine ⟨hinv', ?_⟩
      rw [List.length_append, List.length_singleton]
      omega

-- A forward simulation carries every run of the concrete system to a run of
-- the abstract one with the same labels.
theorem Run.simulate {step : σ → ε → σ → Prop} {spec : τ → ε → τ → Prop}
    {start finish : σ} {trace : List ε} (rel : σ → τ → Prop) {abstract : τ}
    (hstart : rel start abstract)
    (hstep : ∀ before label after image, rel before image → step before label after →
      ∃ image', spec image label image' ∧ rel after image')
    (run : Run step start trace finish) :
    ∃ image, Run spec abstract trace image ∧ rel finish image := by
  induction run with
  | nil => exact ⟨abstract, .nil, hstart⟩
  | snoc _ last ih =>
      obtain ⟨image, hrun, hrel⟩ := ih
      obtain ⟨image', hspec, hrel'⟩ := hstep _ _ _ image hrel last
      exact ⟨image', .snoc hrun hspec, hrel'⟩

-- Steps that the relation does not see can be left out of a run.
theorem Run.erase {step : σ → ε → σ → Prop} {start finish : σ} {trace : List ε}
    (loud : ε → Bool) (rel : σ → σ → Prop) (hstart : rel start start)
    (hsilent : ∀ before label after image, rel before image → step before label after →
      loud label = false → rel after image)
    (hloud : ∀ before label after image, rel before image → step before label after →
      loud label = true → ∃ image', step image label image' ∧ rel after image')
    (run : Run step start trace finish) :
    ∃ image, Run step start (trace.filter loud) image ∧ rel finish image := by
  induction run with
  | nil => exact ⟨start, .nil, hstart⟩
  | @snoc trace mid finish label _ last ih =>
      obtain ⟨image, hrun, hrel⟩ := ih
      rw [List.filter_append]
      cases hlabel : loud label with
      | false =>
          refine ⟨image, ?_, hsilent _ _ _ image hrel last hlabel⟩
          simpa [hlabel] using hrun
      | true =>
          obtain ⟨image', hstep, hrel'⟩ := hloud _ _ _ image hrel last hlabel
          refine ⟨image', ?_, hrel'⟩
          simpa [hlabel] using hrun.snoc hstep

-- What comes of inputs that are acted on one after another, and where that leads.
def played {ι ο : Type*} (act : σ → ι → ο × σ) : σ → List ι → List (ι × ο) × σ
  | state, [] => ([], state)
  | state, input :: inputs =>
    ((input, (act state input).1) :: (played act (act state input).2 inputs).1,
      (played act (act state input).2 inputs).2)

-- Each input is as it should be when its turn comes.
def Along {ι ο : Type*} (act : σ → ι → ο × σ) (fits : σ → ι → Prop) : σ → List ι → Prop
  | _, [] => True
  | state, input :: inputs => fits state input ∧ Along act fits (act state input).2 inputs

theorem run_along {ι ο : Type*} {act : σ → ι → ο × σ} {fits : σ → ι → Prop}
    {step : σ → ι × ο → σ → Prop}
    (h : ∀ state input, fits state input → step state (input, (act state input).1) (act state input).2)
    {start : σ} {inputs : List ι} (hfits : Along act fits start inputs) :
    Run step start (played act start inputs).1 (played act start inputs).2 := by
  induction inputs generalizing start with
  | nil => exact .nil
  | cons input inputs ih =>
      obtain ⟨hinput, hrest⟩ := hfits
      have hfirst : Run step start ([] ++ [(input, (act start input).1)]) (act start input).2 :=
        .snoc .nil (h start input hinput)
      exact hfirst.trans (ih hrest)

theorem run_played {ι ο : Type*} {act : σ → ι → ο × σ} {step : σ → ι × ο → σ → Prop}
    (h : ∀ state input, step state (input, (act state input).1) (act state input).2)
    (start : σ) (inputs : List ι) :
    Run step start (played act start inputs).1 (played act start inputs).2 := by
  have hall : ∀ state, Along act (fun _ _ => True) state inputs := by
    induction inputs with
    | nil => exact fun _ => trivial
    | cons input inputs ih => exact fun state => ⟨trivial, ih _⟩
  exact run_along (fun state input _ => h state input) (hall start)

end Transition
