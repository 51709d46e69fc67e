import Mathlib.Order.Bounds.Basic

/-!
# 飛ばしながらの探索

合わないと分かった範囲を飛ばして進む探索は、合う値のうち最小のものを見つける。
-/

namespace MyOS.Lib

variable {α : Type*} [LinearOrder α] {P : α → Prop} {a b c : α}

/-- `a` 以上 `b` 未満に、`P` を満たす値はない。 -/
def Skips (P : α → Prop) (a b : α) : Prop := ∀ x, a ≤ x → x < b → ¬ P x

namespace Skips

theorem refl (P : α → Prop) (a : α) : Skips P a a :=
  fun _ hx hx' => absurd hx' (not_lt.mpr hx)

theorem trans (h : Skips P a b) (h' : Skips P b c) : Skips P a c := by
  intro x hx hx'
  cases lt_or_ge x b with
  | inl hb => exact h x hx hb
  | inr hb => exact h' x hb hx'

/-- 飛ばした先の値が合えば、それが最小である。 -/
theorem isLeast (h : Skips P a b) (hab : a ≤ b) (hb : P b) : IsLeast {x | a ≤ x ∧ P x} b := by
  refine ⟨⟨hab, hb⟩, ?_⟩
  rintro x ⟨hx, hP⟩
  exact not_lt.mp fun hlt => h x hx hlt hP

end Skips

/-- `a` から探した結果。合う値があれば最小のものであり、なければ `none` である。 -/
def Finds (P : α → Prop) (a : α) : Option α → Prop
  | some b => IsLeast {x | a ≤ x ∧ P x} b
  | none => ∀ x, a ≤ x → ¬ P x

theorem Finds.here (h : P a) : Finds P a (some a) := Skips.isLeast (Skips.refl P a) le_rfl h

/-- 合わない範囲を飛ばした先から探しても、結果は同じである。 -/
theorem Finds.skip {r : Option α} (h : Skips P a b) (hab : a ≤ b) (hr : Finds P b r) : Finds P a r := by
  cases r with
  | some c => exact Skips.isLeast (h.trans fun x hx hlt hP => not_lt.mpr (hr.2 ⟨hx, hP⟩) hlt) (hab.trans hr.1.1) hr.1.2
  | none =>
    intro x hx hP
    cases lt_or_ge x b with
    | inl hlt => exact h x hx hlt hP
    | inr hge => exact hr x hge hP

theorem Finds.some_iff {r : Option α} (h : Finds P a r) : r = some b ↔ IsLeast {x | a ≤ x ∧ P x} b := by
  cases r with
  | some c =>
    rw [Option.some.injEq]
    constructor
    · rintro rfl
      exact h
    · exact IsLeast.unique h
  | none =>
    constructor
    · intro h'
      cases h'
    · rintro ⟨⟨hb, hP⟩, -⟩
      exact absurd hP (h b hb)

theorem Finds.none_iff {r : Option α} (h : Finds P a r) : r = none ↔ ∀ x, a ≤ x → ¬ P x := by
  cases r with
  | some c =>
    constructor
    · intro h'
      cases h'
    · intro h'
      exact absurd h.1.2 (h' c h.1.1)
  | none => exact iff_of_true rfl h

/-- 同じ条件で探した結果は等しい。 -/
theorem Finds.unique {Q : α → Prop} {r r' : Option α} (h : Finds P a r) (h' : Finds Q a r')
    (hPQ : ∀ x, P x ↔ Q x) : r = r' := by
  obtain rfl : P = Q := funext fun x => propext (hPQ x)
  cases r' with
  | some c => exact h.some_iff.mpr h'
  | none => exact h.none_iff.mpr h'

end MyOS.Lib
