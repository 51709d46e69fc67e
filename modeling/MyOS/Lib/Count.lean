import Mathlib.Algebra.GroupWithZero.Nat
import Mathlib.Data.List.Nodup
import Mathlib.Data.List.Range
import Mathlib.Tactic.Common

/-!
# 個数と繰り返し

重複のない列で、述語の値を一点 `a` だけ変えたときの個数の変化と、添字の順に進む繰り返しの不変条件。
-/

namespace MyOS.Lib

variable {α : Type}

theorem countP_change {p q : α → Bool} {a : α} {l : List α} (hl : l.Nodup) (ha : a ∈ l)
    (hpq : ∀ b ∈ l, b ≠ a → q b = p b) :
    l.countP q + (p a).toNat = l.countP p + (q a).toNat := by
  induction l with
  | nil => cases ha
  | cons b l ih =>
    obtain ⟨hb, hl⟩ := List.nodup_cons.mp hl
    have hcons : ∀ r : α → Bool, (b :: l).countP r = l.countP r + (r b).toNat := by
      intro r
      cases h : r b <;> simp [h]
    rw [hcons, hcons]
    rcases List.mem_cons.mp ha with rfl | ha
    · have hsame : l.countP q = l.countP p :=
        List.countP_congr fun c hc =>
          by rw [hpq c (List.mem_cons_of_mem _ hc) (fun h => hb (h ▸ hc))]
      omega
    · have hba : b ≠ a := fun h => hb (h ▸ ha)
      have := ih hl ha fun c hc => hpq c (List.mem_cons_of_mem _ hc)
      rw [hpq b (List.mem_cons_self ..) hba]
      omega

/-- 一点 `i` のほかで同じ値を足し合わせる。 -/
theorem sum_range_change {f g : Nat → Nat} {i n : Nat} (hi : i < n) (h : ∀ j, j < n → j ≠ i → g j = f j) :
    ((List.range n).map g).sum + f i = ((List.range n).map f).sum + g i := by
  induction n with
  | zero => exact absurd hi (Nat.not_lt_zero i)
  | succ n ih =>
    simp only [List.range_succ, List.map_append, List.sum_append, List.map_cons, List.map_nil, List.sum_singleton]
    by_cases hin : i = n
    · subst hin
      have hsame : (List.range i).map g = (List.range i).map f :=
        List.map_congr_left fun j hj => h j (by have := List.mem_range.mp hj; omega) (by have := List.mem_range.mp hj; omega)
      rw [hsame]
      omega
    · have hrest := ih (by omega) fun j hj => h j (Nat.lt_succ_of_lt hj)
      have hlast := h n (Nat.lt_succ_self n) (Ne.symm hin)
      omega

/-- 述語を強めて、一つの要素を失う。 -/
theorem countP_lt_of_mem {p q : α → Bool} {a : α} {l : List α} (hqp : ∀ b ∈ l, q b = true → p b = true)
    (ha : a ∈ l) (hp : p a = true) (hq : q a = false) : l.countP q < l.countP p := by
  obtain ⟨l₁, l₂, rfl⟩ := List.append_of_mem ha
  have h₁ : l₁.countP q ≤ l₁.countP p := List.countP_mono_left fun b hb => hqp b (by simp [hb])
  have h₂ : l₂.countP q ≤ l₂.countP p := List.countP_mono_left fun b hb => hqp b (by simp [hb])
  rw [List.countP_append, List.countP_append, List.countP_cons_of_pos hp,
    List.countP_cons_of_neg (by rw [hq]; decide)]
  omega

variable {S : Type}

theorem foldl_range_inv {f : S → Nat → S} {P : Nat → S → Prop} {s : S} (n : Nat) (h₀ : P 0 s)
    (hstep : ∀ k t, k < n → P k t → P (k + 1) (f t k)) : P n ((List.range n).foldl f s) := by
  induction n with
  | zero => exact h₀
  | succ n ih =>
    rw [List.range_succ, List.foldl_append]
    exact hstep n _ (Nat.lt_succ_self n) (ih fun k t hk => hstep k t (Nat.lt_succ_of_lt hk))

/-- 条件を満たす添字を数える。 -/
theorem countP_range_le {p : Nat → Bool} {k n : Nat} (h : k ≤ n) :
    (List.range k).countP p ≤ (List.range n).countP p := by
  obtain ⟨d, rfl⟩ := Nat.exists_eq_add_of_le h
  rw [List.range_add, List.countP_append]
  exact Nat.le_add_right _ _

theorem countP_range_succ {p : Nat → Bool} {k : Nat} :
    (List.range (k + 1)).countP p = (List.range k).countP p + (p k).toNat := by
  rw [List.range_succ, List.countP_append]
  cases h : p k <;> simp [h]

end MyOS.Lib
