import Mathlib.Data.List.DropRight
import Mathlib.Data.List.Basic

/-!
# 区切りで分けた列

列を区切りの要素で分け、空の部分を捨てたものを考える。区切りが先頭や末尾にあっても、続いていても、結果は変わらない。
-/

namespace MyOS.Lib

variable {α : Type*} [DecidableEq α] {sep : α} {s t w c : List α} {cs : List (List α)}

/-- 空でない部分の列。 -/
def components (sep : α) (s : List α) : List (List α) := (s.splitOn sep).filter (· ≠ [])

/-- どの部分の前にも区切りを置いてつなぐ。 -/
def joined (sep : α) (cs : List (List α)) : List α := cs.flatMap (sep :: ·)

@[simp] theorem components_nil : components sep [] = [] := rfl

@[simp] theorem components_sep (s : List α) : components sep (sep :: s) = components sep s := by
  have h := List.splitOn_append_cons_self (a := sep) [] s
  unfold components
  rw [List.nil_append] at h
  rw [h]
  simp

theorem components_append_sep (s t : List α) :
    components sep (s ++ sep :: t) = components sep s ++ components sep t := by
  unfold components
  rw [List.splitOn_append_cons_self, List.filter_append]

theorem components_word (hw : w ≠ []) (h : sep ∉ w) : components sep w = [w] := by
  unfold components
  rw [List.splitOn_eq_singleton h]
  simpa using hw

/-- 先頭の部分。 -/
theorem components_word_append (hw : w ≠ []) (h : sep ∉ w) (ht : t = [] ∨ ∃ r, t = sep :: r) :
    components sep (w ++ t) = w :: components sep t := by
  rcases ht with rfl | ⟨r, rfl⟩
  · rw [List.append_nil, components_word hw h, components_nil]
  · rw [components_append_sep, components_word hw h, components_sep]
    rfl

theorem takeWhile_ne_sep (s : List α) : sep ∉ s.takeWhile (· ≠ sep) := fun hmem => by
  simpa using List.mem_takeWhile_imp hmem

theorem dropWhile_ne_sep (s : List α) :
    s.dropWhile (· ≠ sep) = [] ∨ ∃ r, s.dropWhile (· ≠ sep) = sep :: r := by
  induction s with
  | nil => exact Or.inl rfl
  | cons a s ih =>
      by_cases ha : a = sep
      · subst ha
        exact Or.inr ⟨s, List.dropWhile_cons_of_neg (by simp)⟩
      · rw [List.dropWhile_cons_of_pos (by simpa using ha)]
        exact ih

/-- 空の列、区切り、部分の三つの場合による帰納法。 -/
theorem components_induction (sep : α) {motive : List α → Prop} (nil : motive [])
    (sep_cons : ∀ s, motive s → motive (sep :: s))
    (word : ∀ w t, w ≠ [] → sep ∉ w → (t = [] ∨ ∃ r, t = sep :: r) → motive t → motive (w ++ t)) :
    ∀ s, motive s := by
  intro s
  induction hn : s.length using Nat.strong_induction_on generalizing s with
  | _ n ih =>
      subst hn
      cases s with
      | nil => exact nil
      | cons a s =>
          by_cases ha : a = sep
          · subst ha
            exact sep_cons s (ih _ (Nat.lt_succ_self _) s rfl)
          · have hpos := List.takeWhile_cons_of_pos (p := (· ≠ sep)) (l := s) (a := a) (by simpa using ha)
            have hlen : ((a :: s).dropWhile (· ≠ sep)).length < (a :: s).length := by
              rw [List.dropWhile_cons_of_pos (by simpa using ha)]
              exact Nat.lt_succ_of_le (List.length_dropWhile_le _ _)
            have h := word ((a :: s).takeWhile (· ≠ sep)) ((a :: s).dropWhile (· ≠ sep))
              (by rw [hpos]; simp) (takeWhile_ne_sep _) (dropWhile_ne_sep _) (ih _ hlen _ rfl)
            rwa [List.takeWhile_append_dropWhile] at h

theorem mem_components (s : List α) : ∀ c ∈ components sep s, c ≠ [] ∧ sep ∉ c := by
  induction s using components_induction sep with
  | nil => simp
  | sep_cons s ih => simpa using ih
  | word w t hw h ht ih =>
      rw [components_word_append hw h ht]
      exact List.forall_mem_cons.mpr ⟨⟨hw, h⟩, ih⟩

/-- 区切りを含めた長さの和は、元の長さを 1 より多くは超えない。 -/
theorem components_length (s : List α) :
    (joined sep (components sep s)).length ≤ s.length + 1 ∧
      (s.head? = some sep ∨ s = [] → (joined sep (components sep s)).length ≤ s.length) := by
  induction s using components_induction sep with
  | nil => simp [joined]
  | sep_cons s ih =>
      rw [components_sep]
      have h := ih.1
      exact ⟨by simp only [List.length_cons]; omega, fun _ => by simp only [List.length_cons]; omega⟩
  | word w t hw h ht ih =>
      rw [components_word_append hw h ht]
      have htail := ih.2 (by rcases ht with rfl | ⟨r, rfl⟩ <;> simp)
      have hw0 : 0 < w.length := List.length_pos_iff.mpr hw
      unfold joined at htail ⊢
      rw [List.flatMap_cons]
      simp only [List.length_append, List.length_cons]
      refine ⟨by omega, fun hcond => ?_⟩
      cases w with
      | nil => exact absurd rfl hw
      | cons a w =>
          rcases hcond with hhead | hnil
          · simp only [List.cons_append, List.head?_cons, Option.some.injEq] at hhead
            exact absurd (by simp [hhead]) h
          · simp at hnil

omit [DecidableEq α] in
theorem joined_append (cs ds : List (List α)) : joined sep (cs ++ ds) = joined sep cs ++ joined sep ds :=
  List.flatMap_append

theorem count_joined (h : ∀ c ∈ cs, sep ∉ c) : (joined sep cs).count sep = cs.length := by
  induction cs with
  | nil => rfl
  | cons c cs ih =>
      obtain ⟨hc, hcs⟩ := List.forall_mem_cons.mp h
      unfold joined at ih ⊢
      rw [List.flatMap_cons, List.count_append, List.count_cons_self, List.count_eq_zero.mpr hc, ih hcs,
        List.length_cons]
      omega

/-! ## 区切りでない要素の続き -/

section Runs
variable {α : Type*} {p : α → Bool} {a : α} {s t w : List α}

/-- 区切りでない要素の、空でない極大な続きを順に並べたもの。 -/
def runs (p : α → Bool) (s : List α) : List (List α) := (s.splitOnP p).filter fun w => !w.isEmpty

@[simp] theorem runs_nil : runs p [] = [] := rfl

/-- 続きの後の区切り。 -/
theorem runs_append_sep (hw : ∀ x ∈ w, p x = false) (ha : p a = true) :
    runs p (w ++ a :: s) = if w = [] then runs p s else w :: runs p s := by
  unfold runs
  rw [List.splitOnP_append_cons_of_forall_mem hw a ha]
  cases w <;> simp

/-- 最後の続き。 -/
theorem runs_last (hw : ∀ x ∈ w, p x = false) : runs p w = if w = [] then [] else [w] := by
  unfold runs
  rw [List.splitOnP_eq_singleton hw]
  cases w <;> simp

end Runs

end MyOS.Lib
