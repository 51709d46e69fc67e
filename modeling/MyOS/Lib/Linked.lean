import MyOS.Lib.Chain

/-!
# 片方向の連結リスト

`head` から `next` をたどると、列 `l` を通って終わる。要素を一つ加えるには、前の要素と加える要素の二つの
リンクだけを書く。
-/

namespace MyOS.Lib

variable {α : Type*} {next next' : α → Option α} {head : Option α} {a x : α} {l l' l₁ l₂ : List α}

def Linked (next : α → Option α) : Option α → List α → Prop
  | head, [] => head = none
  | head, a :: l => head = some a ∧ Linked next (next a) l

namespace Linked

theorem follows (h : Linked next head (a :: l)) : Follows next a (a :: l) := by
  induction l generalizing head a with
  | nil => exact .last h.2
  | cons b l ih => exact .step h.2.1 (ih h.2)

theorem nodup (h : Linked next head l) : l.Nodup := by
  cases l with
  | nil => exact .nil
  | cons a l => exact h.follows.nodup

theorem unique (h : Linked next head l) (h' : Linked next head l') : l = l' := by
  induction l generalizing head l' with
  | nil =>
    cases l' with
    | nil => rfl
    | cons b l' => cases h.symm.trans h'.1
  | cons a l ih =>
    cases l' with
    | nil => cases h.1.symm.trans h'
    | cons b l' =>
      cases h.1.symm.trans h'.1
      rw [ih h.2 h'.2]

theorem congr (h : Linked next head l) (hn : ∀ y ∈ l, next' y = next y) : Linked next' head l := by
  induction l generalizing head with
  | nil => exact h
  | cons a l ih =>
    refine ⟨h.1, ?_⟩
    rw [hn a (List.mem_cons_self ..)]
    exact ih h.2 fun y hy => hn y (List.mem_cons_of_mem _ hy)

/-- 先頭に加える。 -/
theorem push (h : Linked next head l) (hx : next' x = head) (hn : ∀ y ∈ l, next' y = next y) :
    Linked next' (some x) (x :: l) := by
  refine ⟨rfl, ?_⟩
  rw [hx]
  exact h.congr hn

/-- 要素 `a` の次に加える。 -/
theorem insert (h : Linked next head (l₁ ++ a :: l₂)) (ha : next' a = some x) (hx : next' x = next a)
    (hn : ∀ y, y ∈ l₁ ∨ y ∈ l₂ → next' y = next y) : Linked next' head (l₁ ++ a :: x :: l₂) := by
  induction l₁ generalizing head with
  | nil =>
    refine ⟨h.1, ha, ?_⟩
    rw [hx]
    exact h.2.congr fun y hy => hn y (.inr hy)
  | cons b l₁ ih =>
    refine ⟨h.1, ?_⟩
    rw [hn b (.inl (List.mem_cons_self ..))]
    exact ih h.2 fun y hy => hn y (hy.imp (List.mem_cons_of_mem _) id)

/-- 列の最後の要素に、次はない。 -/
theorem last_next (h : Linked next head (l ++ [a])) : next a = none := by
  induction l generalizing head with
  | nil => exact h.2
  | cons b l ih => exact ih h.2

/-- 列の終わりに加える。 -/
theorem append (h : Linked next head (l ++ [a])) (ha : next' a = some x) (hx : next' x = none) (hn : ∀ y ∈ l, next' y = next y) :
    Linked next' head (l ++ [a] ++ [x]) := by
  rw [List.append_assoc]
  exact h.insert ha (hx.trans h.last_next.symm) fun y hy => hn y (hy.resolve_right List.not_mem_nil)

/-- 列の要素は、先頭か、ほかの要素の次である。 -/
theorem reached (h : Linked next head l) (hx : x ∈ l) : head = some x ∨ ∃ y ∈ l, next y = some x := by
  induction l generalizing head with
  | nil => cases hx
  | cons a l ih =>
    rcases List.mem_cons.mp hx with rfl | hx
    · exact .inl h.1
    · right
      rcases ih h.2 hx with hn | ⟨y, hy, hn⟩
      · exact ⟨a, List.mem_cons_self .., hn⟩
      · exact ⟨y, List.mem_cons_of_mem _ hy, hn⟩

theorem length_le {next : Nat → Option Nat} {head : Option Nat} {l : List Nat} {n : Nat}
    (h : Linked next head l) (hlt : ∀ x ∈ l, x < n) : l.length ≤ n := by
  cases l with
  | nil => exact Nat.zero_le n
  | cons a l => exact h.follows.length_le (k := 0) fun x hx => ⟨Nat.zero_le x, by simpa using hlt x hx⟩

/-- 自分を指す要素から始まる列はない。 -/
theorem no_loop (hx : next x = some x) : ¬ Linked next (some x) l := by
  intro h
  cases l with
  | nil => cases h
  | cons a l =>
    cases h.1
    have hnd := List.nodup_cons.mp h.nodup
    cases l with
    | nil => cases hx.symm.trans h.2
    | cons b l =>
      cases hx.symm.trans h.2.1
      exact hnd.1 (List.mem_cons_self ..)

end Linked

end MyOS.Lib
