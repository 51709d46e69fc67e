import Mathlib.Data.List.Count
import Mathlib.Tactic.Common

/-!
# 行

列を、区切りで終わる行に分ける。行の並びの先頭や末尾は、つないでまた分けても変わらない。
-/

namespace MyOS.Lib

variable {α : Type*} [DecidableEq α] {sep c : α} {l m w s : List α} {ls : List (List α)}

/-- 区切りで終わる行。最後の行は区切りで終わるとは限らない。 -/
def rows (sep : α) : List α → List (List α)
  | [] => []
  | c :: l =>
    if c = sep then [c] :: rows sep l
    else match rows sep l with
    | [] => [[c]]
    | r :: rs => (c :: r) :: rs

/-- 空でなければ、区切りで終わる。 -/
def Ended (sep : α) (l : List α) : Prop := ∀ c ∈ l.getLast?, c = sep

instance (sep : α) (l : List α) : Decidable (Ended sep l) := inferInstanceAs (Decidable (∀ c ∈ l.getLast?, c = sep))

theorem rows_cons_sep (sep : α) (l : List α) : rows sep (sep :: l) = [sep] :: rows sep l := by
  rw [rows, if_pos rfl]

/-- 区切りでない要素は、続く行の先頭に加わる。 -/
theorem rows_cons_ne (h : c ≠ sep) (l : List α) :
    (l = [] ∧ rows sep (c :: l) = [[c]]) ∨ ∃ r rs, rows sep l = r :: rs ∧ rows sep (c :: l) = (c :: r) :: rs := by
  cases l with
  | nil => exact .inl ⟨rfl, by simp [rows, h]⟩
  | cons d l =>
    obtain ⟨r, rs, hr⟩ : ∃ r rs, rows sep (d :: l) = r :: rs := by
      rw [rows]
      split
      · exact ⟨_, _, rfl⟩
      · split
        · exact ⟨_, _, rfl⟩
        · exact ⟨_, _, rfl⟩
    refine .inr ⟨r, rs, hr, ?_⟩
    rw [rows, if_neg h, hr]

theorem rows_flatten (sep : α) (l : List α) : (rows sep l).flatten = l := by
  induction l with
  | nil => rfl
  | cons c l ih =>
    by_cases h : c = sep
    · rw [h, rows_cons_sep, List.flatten_cons, ih]
      rfl
    · rcases rows_cons_ne h l with ⟨rfl, heq⟩ | ⟨r, rs, hr, heq⟩
      · rw [heq]
        rfl
      · rw [heq, ← congrArg (c :: ·) ih, hr]
        rfl

@[simp] theorem rows_eq_nil : rows sep l = [] ↔ l = [] := by
  refine ⟨fun h => ?_, fun h => h ▸ rfl⟩
  rw [← rows_flatten sep l, h]
  rfl

theorem rows_append (hl : Ended sep l) (m : List α) : rows sep (l ++ m) = rows sep l ++ rows sep m := by
  induction l with
  | nil => rfl
  | cons c l ih =>
    have htail : Ended sep l := by
      intro x hx
      refine hl x ?_
      rw [List.getLast?_cons]
      rw [Option.mem_def] at hx
      rw [hx]
      rfl
    by_cases h : c = sep
    · rw [h, List.cons_append, rows_cons_sep, rows_cons_sep, ih htail, List.cons_append]
    · rcases rows_cons_ne h l with ⟨rfl, -⟩ | ⟨r, rs, hr, heq⟩
      · exact absurd (hl c rfl) h
      · rcases rows_cons_ne h (l ++ m) with ⟨hnil, -⟩ | ⟨r', rs', hr', heq'⟩
        · rw [(List.append_eq_nil_iff.mp hnil).1] at hr
          cases hr
        · rw [ih htail, hr, List.cons_append] at hr'
          cases hr'
          rw [List.cons_append, heq', heq]
          rfl

theorem rows_last (hw : sep ∉ w) (hne : w ≠ []) : rows sep w = [w] := by
  induction w with
  | nil => exact absurd rfl hne
  | cons c w ih =>
    obtain ⟨hc, hw⟩ := not_or.mp (List.mem_cons.not.mp hw)
    rcases rows_cons_ne (Ne.symm hc) w with ⟨rfl, heq⟩ | ⟨r, rs, hr, heq⟩
    · exact heq
    · have hne : w ≠ [] := fun h => by
        rw [h] at hr
        cases hr
      rw [ih hw hne] at hr
      cases hr
      exact heq

omit [DecidableEq α] in
theorem ended_line (w : List α) (sep : α) : Ended sep (w ++ [sep]) := by
  intro x hx
  rw [List.getLast?_concat, Option.mem_def] at hx
  exact (Option.some.inj hx).symm

theorem rows_line (hw : sep ∉ w) (s : List α) : rows sep (w ++ sep :: s) = (w ++ [sep]) :: rows sep s := by
  have hone : rows sep (w ++ [sep]) = [w ++ [sep]] := by
    induction w with
    | nil => rw [List.nil_append, rows_cons_sep]; rfl
    | cons c w ih =>
      obtain ⟨hc, hw⟩ := not_or.mp (List.mem_cons.not.mp hw)
      rcases rows_cons_ne (Ne.symm hc) (w ++ [sep]) with ⟨hnil, -⟩ | ⟨r, rs, hr, heq⟩
      · simp at hnil
      · rw [ih hw] at hr
        cases hr
        exact heq
  rw [List.append_cons, rows_append (ended_line w sep), hone, List.singleton_append]

/-- 列は、区切りのない列か、行とその続きである。 -/
theorem line_rec (sep : α) {motive : List α → Prop} (last : ∀ w, sep ∉ w → motive w)
    (line : ∀ w s, sep ∉ w → motive s → motive (w ++ sep :: s)) (l : List α) : motive l := by
  by_cases h : sep ∈ l
  · obtain ⟨w, s, heq, hw⟩ := List.eq_append_cons_of_mem h
    rw [heq]
    exact line w s hw (line_rec sep last line s)
  · exact last l h
termination_by l.length
decreasing_by
  rw [heq, List.length_append, List.length_cons]
  omega

/-- 末尾の行をつないで、また分ける。 -/
theorem rows_drop (sep : α) (l : List α) (n : Nat) : rows sep ((rows sep l).drop n).flatten = (rows sep l).drop n := by
  induction l using line_rec sep generalizing n with
  | last w hw =>
    by_cases hne : w = []
    · subst hne
      simp [rows]
    · rw [rows_last hw hne]
      cases n with
      | zero => simp [rows_last hw hne]
      | succ n => simp [rows]
  | line w s hw ih =>
    rw [rows_line hw]
    cases n with
    | zero => rw [List.drop_zero, List.flatten_cons, rows_flatten, ← rows_line hw, List.append_assoc, List.singleton_append]
    | succ n => rw [List.drop_succ_cons, ih]

end MyOS.Lib
