import Mathlib.Data.Set.Function

-- A store read through a write-back cache in front of it.
namespace Overlay

variable {κ ν σ : Type*}

-- What a reader sees: the cached value where there is one, else the stored one.
def through (front back : κ → Option ν) (key : κ) : Option ν :=
  (front key).or (back key)

-- An operation that reads and writes a store at certain keys only.
structure Local (look : σ → κ → Option ν) (keys : Set κ) (op : σ → σ) : Prop where
  congr : ∀ store other, Set.EqOn (look store) (look other) keys →
    Set.EqOn (look (op store)) (look (op other)) keys
  frame : ∀ store, Set.EqOn (look (op store)) (look store) keysᶜ

theorem over_eqOn (front back : κ → Option ν) (keys : Set κ) (h : ∀ key ∈ keys, front key = none) :
    Set.EqOn (through front back) back keys := by
  intro key hkey
  simp [through, h key hkey]

namespace Local

variable {look : σ → κ → Option ν} {keys : Set κ}

theorem id : Local look keys (fun store => store) :=
  ⟨fun _ _ h => h, fun _ _ _ => rfl⟩

theorem comp {first second : σ → σ} (hfirst : Local look keys first)
    (hsecond : Local look keys second) : Local look keys (fun store => second (first store)) := by
  refine ⟨?_, ?_⟩
  · intro store other h
    exact hsecond.congr _ _ (hfirst.congr _ _ h)
  · intro store key hkey
    rw [hsecond.frame _ hkey, hfirst.frame _ hkey]

theorem foldl {α : Type*} {op : σ → α → σ} (items : List α)
    (hop : ∀ item ∈ items, Local look keys (fun store => op store item)) :
    Local look keys (fun store => items.foldl op store) := by
  induction items with
  | nil => exact id
  | cons item items ih =>
      have hhead := hop item (by simp)
      have htail := ih fun item hitem => hop item (by simp [hitem])
      exact comp hhead htail

-- Once nothing is cached at its keys, a local operation on the store acts on
-- what a reader sees as it would act on a store holding just that.
theorem through {op : σ → σ} (hop : Local look keys op) (front : κ → Option ν)
    (hfront : ∀ key ∈ keys, front key = none) (store plain : σ)
    (hplain : look plain = Overlay.through front (look store)) :
    look (op plain) = Overlay.through front (look (op store)) := by
  funext key
  by_cases hkey : key ∈ keys
  · have heq : Set.EqOn (look plain) (look store) keys :=
      hplain ▸ over_eqOn front (look store) keys hfront
    rw [hop.congr _ _ heq hkey, over_eqOn _ _ keys hfront hkey]
  · rw [hop.frame _ hkey, hplain]
    unfold Overlay.through
    rw [hop.frame _ hkey]

end Local

end Overlay
