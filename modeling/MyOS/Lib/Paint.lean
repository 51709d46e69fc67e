import Mathlib.Logic.Basic
import Mathlib.Tactic.Common

/-!
# 塗ること

状態を点ごとの値として見る。操作は、ある範囲の点を決まった値で塗り、ほかの点を残す。
-/

namespace MyOS.Lib

variable {S P V ι : Type*} {view : S → P → V} {f g : S → S} {R R' : P → Prop} {c c' : P → V}

/-- `f` は `R` の点を `c` で塗る。 -/
structure Paints (view : S → P → V) (f : S → S) (R : P → Prop) (c : P → V) : Prop where
  inside : ∀ s p, R p → view (f s) p = c p
  outside : ∀ s p, ¬ R p → view (f s) p = view s p

/-- 点ごとの値を塗り替える。 -/
def paint (R : P → Prop) [DecidablePred R] (c v : P → V) : P → V := fun p => if R p then c p else v p

theorem Paints.id (view : S → P → V) (c : P → V) : Paints view (fun s => s) (fun _ => False) c :=
  ⟨fun _ _ h => h.elim, fun _ _ _ => rfl⟩

/-- 塗る値が同じなら、順に塗った範囲は合わせたものである。 -/
theorem Paints.comp (hf : Paints view f R c) (hg : Paints view g R' c) : Paints view (fun s => g (f s)) (fun p => R p ∨ R' p) c := by
  refine ⟨fun s p h => ?_, fun s p h => ?_⟩
  · by_cases hp : R' p
    · exact hg.inside _ p hp
    · rw [hg.outside _ p hp]
      exact hf.inside s p (h.resolve_right hp)
  · obtain ⟨hR, hR'⟩ := not_or.mp h
    rw [hg.outside _ p hR', hf.outside s p hR]

theorem Paints.congr (h : Paints view f R c) (hR : ∀ p, R' p ↔ R p) (hc : ∀ p, R p → c' p = c p) : Paints view f R' c' := by
  refine ⟨fun s p hp => ?_, fun s p hp => h.outside s p (mt (hR p).mpr hp)⟩
  rw [hc p ((hR p).mp hp)]
  exact h.inside s p ((hR p).mp hp)

/-- 繰り返しは、各回の範囲を合わせて塗る。 -/
theorem Paints.foldl {l : List ι} {step : S → ι → S} {R : ι → P → Prop} (h : ∀ i ∈ l, Paints view (fun s => step s i) (R i) c) :
    Paints view (fun s => l.foldl step s) (fun p => ∃ i ∈ l, R i p) c := by
  induction l with
  | nil => exact (Paints.id view c).congr (by simp) fun _ h => h.elim
  | cons i l ih =>
    obtain ⟨hi, hl⟩ := List.forall_mem_cons.mp h
    exact (hi.comp (ih hl)).congr (by simp) fun _ _ => rfl

theorem Paints.view_eq [DecidablePred R] (h : Paints view f R c) (s : S) : view (f s) = paint R c (view s) := by
  funext p
  unfold paint
  split
  next hp => exact h.inside s p hp
  next hp => exact h.outside s p hp

end MyOS.Lib
