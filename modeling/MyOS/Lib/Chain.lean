import Mathlib.Data.List.Nodup
import Mathlib.Data.List.Perm.Subperm
import Mathlib.Logic.Relation
import Mathlib.Order.BooleanAlgebra.Set

/-!
# 次の要素をたどる列

部分関数 `next` を、値がなくなるまでたどった列。列は始点から一つに決まり、同じ要素を二度通らない。
`Leads` は、列が終わらなくてもよい。
-/

namespace MyOS.Lib

variable {α : Type*} {next next' : α → Option α} {a b c : α} {l l' l₁ l₂ : List α}

/-- `a` から `next` をたどると列 `l` を通って終わる。 -/
inductive Follows (next : α → Option α) : α → List α → Prop
  | last {a : α} : next a = none → Follows next a [a]
  | step {a b : α} {l : List α} : next a = some b → Follows next b l → Follows next a (a :: l)

namespace Follows

theorem exists_cons (h : Follows next a l) : ∃ l', l = a :: l' := by
  cases h with
  | last _ => exact ⟨[], rfl⟩
  | step _ _ => exact ⟨_, rfl⟩

theorem mem_head (h : Follows next a l) : a ∈ l := by
  obtain ⟨l', rfl⟩ := h.exists_cons
  simp

theorem unique (h : Follows next a l) (h' : Follows next a l') : l = l' := by
  induction h generalizing l' with
  | last hn =>
      cases h' with
      | last _ => rfl
      | step hs _ => rw [hn] at hs; cases hs
  | step hs _ ih =>
      cases h' with
      | last hn => rw [hn] at hs; cases hs
      | step hs' ht =>
          rw [hs] at hs'
          cases hs'
          rw [ih ht]

theorem cons_inv (h : Follows next a (c :: l)) (hl : l ≠ []) :
    c = a ∧ ∃ b, next a = some b ∧ Follows next b l := by
  cases h with
  | last _ => exact absurd rfl hl
  | step hs ht => exact ⟨rfl, _, hs, ht⟩

/-- 列の途中から先も、そこからたどった列である。 -/
theorem suffix : {a : α} → {l₁ : List α} → Follows next a (l₁ ++ b :: l₂) → Follows next b (b :: l₂)
  | _, [], h => by
      obtain ⟨l', hl⟩ := h.exists_cons
      simp only [List.nil_append, List.cons.injEq] at hl
      cases hl.1
      exact h
  | _, c :: l₁, h => by
      obtain ⟨-, _, -, ht⟩ := h.cons_inv (by simp)
      exact ht.suffix

theorem nodup (h : Follows next a l) : l.Nodup := by
  induction h with
  | last _ => simp
  | @step a b l hs ht ih =>
      refine List.nodup_cons.mpr ⟨fun hmem => ?_, ih⟩
      -- 始点に戻るなら、戻った先の列は全体と等しいはずだが、短い。
      obtain ⟨l₁, l₂, rfl⟩ := List.append_of_mem hmem
      have heq := (Follows.step hs ht).unique ht.suffix
      have hlen := congrArg List.length heq
      simp only [List.length_cons, List.length_append] at hlen
      omega

theorem congr (h : Follows next a l) (hn : ∀ x ∈ l, next' x = next x) : Follows next' a l := by
  induction h with
  | last hs => exact .last ((hn _ (by simp)).trans hs)
  | step hs _ ih =>
      exact .step ((hn _ (by simp)).trans hs) (ih (fun x hx => hn x (by simp [hx])))

/-- 列の最後の要素の先に、新しい最後の要素 `c` をつなぐ。 -/
theorem snoc : {a : α} → {l : List α} → Follows next a (l ++ [b]) →
    (∀ x ∈ l, next' x = next x) → next' b = some c → next' c = none →
    Follows next' a (l ++ [b, c])
  | _, [], h, _, hb, hc => by
      cases h with
      | last _ => exact .step hb (.last hc)
      | step _ ht => cases ht
  | _, d :: l, h, hn, hb, hc => by
      obtain ⟨rfl, _, hs, ht⟩ := h.cons_inv (by simp)
      exact .step ((hn _ (by simp)).trans hs) (ht.snoc (fun x hx => hn x (by simp [hx])) hb hc)

/-- 最後の要素だけが次の要素を持たない。 -/
theorem next_eq_none_iff (h : Follows next a (l₁ ++ b :: l₂)) : next b = none ↔ l₂ = [] := by
  have hs := h.suffix
  constructor
  · intro hn
    cases hs with
    | last _ => rfl
    | step hs _ => rw [hn] at hs; cases hs
  · rintro rfl
    cases hs with
    | last hn => exact hn
    | step _ ht => cases ht

theorem next_eq_some (h : Follows next a (l₁ ++ b :: c :: l₂)) : next b = some c := by
  cases h.suffix with
  | step hs ht =>
      obtain ⟨_, hl⟩ := ht.exists_cons
      cases hl
      exact hs

/-- 自然数の範囲の中をたどる列は、範囲の幅より長くない。 -/
theorem length_le {next : Nat → Option Nat} {a k n : Nat} {l : List Nat} (h : Follows next a l)
    (hr : ∀ x ∈ l, k ≤ x ∧ x < k + n) : l.length ≤ n := by
  have hsub : l ⊆ List.range' k n := by
    intro x hx
    have := hr x hx
    simp only [List.mem_range'_1]
    omega
  simpa using (h.nodup.subperm hsub).length_le

end Follows

/-! ## 閉じた列

次の要素がいつまでもあるときも、たどり着く所は決まる。 -/

def Leads (next : α → Option α) : α → α → Prop := Relation.ReflTransGen fun a b => next a = some b

namespace Leads

theorem last_iff (ha : next a = none) : Leads next a c ↔ c = a := by
  constructor
  · intro h
    rcases h.cases_head with heq | ⟨b, hb, -⟩
    · exact heq.symm
    · cases ha.symm.trans hb
  · rintro rfl
    exact .refl

/-- 始点のリンクを切っても、その次の要素からたどり着く所は、始点のほかは変わらない。 -/
theorem cut_iff (ha : next a = some b) (hcut : next' a = none) (hn : ∀ x, x ≠ a → next' x = next x) :
    Leads next a c ↔ c = a ∨ Leads next' b c := by
  constructor
  · intro h
    induction h with
    | refl => exact .inl rfl
    | @tail d e _ hde ih =>
        right
        by_cases hd : d = a
        · rw [hd, ha] at hde
          cases hde
          exact .refl
        · exact (ih.resolve_left hd).tail ((hn d hd).trans hde)
  · rintro (rfl | h)
    · exact .refl
    · induction h with
      | refl => exact .single ha
      | @tail d e _ hde ih =>
          refine ih.tail ((hn d ?_).symm.trans hde)
          rintro rfl
          cases hcut.symm.trans hde

end Leads

end MyOS.Lib

/-!
## 互いに交わらない鎖の集まり

始点の集合 `H` の各始点から `next` をたどる列が、どれも `dom` の中で終わり、互いに交わらない。
始点の追加、列の延長、列の取り除きは、いずれも「残る列での `congr`」と「新しい列の `insert`」に分かれる。
-/

namespace MyOS.Lib

variable {α : Type*} {next next' : α → Option α} {H H' : Set α} {dom : α → Prop} {h c : α} {l : List α}

/-- `c` は `H` のどれかの始点の列にある。 -/
def Owned (next : α → Option α) (H : Set α) (c : α) : Prop :=
  ∃ h ∈ H, ∃ l, Follows next h l ∧ c ∈ l

structure ChainSet (next : α → Option α) (H : Set α) (dom : α → Prop) : Prop where
  chain : ∀ h ∈ H, ∃ l, Follows next h l ∧ ∀ c ∈ l, dom c
  disjoint : ∀ h ∈ H, ∀ h' ∈ H, ∀ l l' c, Follows next h l → Follows next h' l' → c ∈ l → c ∈ l' → h = h'

namespace Owned

theorem mono (hc : Owned next H c) (hsub : H ⊆ H') : Owned next H' c := by
  obtain ⟨h, hh, l, hl, hc⟩ := hc
  exact ⟨h, hsub hh, l, hl, hc⟩

theorem insert_iff (hl : Follows next h l) : Owned next (insert h H) c ↔ c ∈ l ∨ Owned next H c := by
  constructor
  · rintro ⟨h', hh', l', hl', hc⟩
    rcases hh' with rfl | hh'
    · rw [hl'.unique hl] at hc
      exact Or.inl hc
    · exact Or.inr ⟨h', hh', l', hl', hc⟩
  · rintro (hc | hc)
    · exact ⟨h, Set.mem_insert _ _, l, hl, hc⟩
    · exact hc.mono (Set.subset_insert _ _)

end Owned

namespace ChainSet

theorem dom_of_mem (hs : ChainSet next H dom) (hh : h ∈ H) (hl : Follows next h l) (hc : c ∈ l) : dom c := by
  obtain ⟨l', hl', hd⟩ := hs.chain h hh
  rw [hl'.unique hl] at hd
  exact hd c hc

theorem mono (hs : ChainSet next H dom) (hsub : H' ⊆ H) : ChainSet next H' dom :=
  ⟨fun h hh => hs.chain h (hsub hh), fun h hh h' hh' => hs.disjoint h (hsub hh) h' (hsub hh')⟩

/-- 列の上で `next` が変わらなければ、どの列もそのまま残る。 -/
theorem follows_iff_of_congr (hs : ChainSet next H dom)
    (hn : ∀ c, Owned next H c → next' c = next c) (hh : h ∈ H) : Follows next' h l ↔ Follows next h l := by
  obtain ⟨l₀, hl₀, -⟩ := hs.chain h hh
  have hl₀' : Follows next' h l₀ := hl₀.congr (fun x hx => hn x ⟨h, hh, l₀, hl₀, hx⟩)
  constructor
  · intro hl
    rw [hl.unique hl₀']
    exact hl₀
  · intro hl
    rw [hl.unique hl₀]
    exact hl₀'

theorem congr (hs : ChainSet next H dom) (hn : ∀ c, Owned next H c → next' c = next c) :
    ChainSet next' H dom := by
  constructor
  · intro h hh
    obtain ⟨l, hl, hd⟩ := hs.chain h hh
    exact ⟨l, (hs.follows_iff_of_congr hn hh).mpr hl, hd⟩
  · intro h hh h' hh' l l' c hl hl' hc hc'
    exact hs.disjoint h hh h' hh' l l' c ((hs.follows_iff_of_congr hn hh).mp hl)
      ((hs.follows_iff_of_congr hn hh').mp hl') hc hc'

theorem owned_congr (hs : ChainSet next H dom) (hn : ∀ c, Owned next H c → next' c = next c) :
    Owned next' H c ↔ Owned next H c := by
  constructor
  · rintro ⟨h, hh, l, hl, hc⟩
    exact ⟨h, hh, l, (hs.follows_iff_of_congr hn hh).mp hl, hc⟩
  · rintro ⟨h, hh, l, hl, hc⟩
    exact ⟨h, hh, l, (hs.follows_iff_of_congr hn hh).mpr hl, hc⟩

theorem insert (hs : ChainSet next H dom) (hl : Follows next h l) (hd : ∀ c ∈ l, dom c)
    (hfree : ∀ c ∈ l, ¬ Owned next H c) : ChainSet next (insert h H) dom := by
  constructor
  · rintro h' (rfl | hh')
    · exact ⟨l, hl, hd⟩
    · exact hs.chain h' hh'
  · rintro h₁ (rfl | hh₁) h₂ (rfl | hh₂) l₁ l₂ c hl₁ hl₂ hc₁ hc₂
    · rfl
    · rw [hl₁.unique hl] at hc₁
      exact absurd ⟨h₂, hh₂, l₂, hl₂, hc₂⟩ (hfree c hc₁)
    · rw [hl₂.unique hl] at hc₂
      exact absurd ⟨h₁, hh₁, l₁, hl₁, hc₁⟩ (hfree c hc₂)
    · exact hs.disjoint h₁ hh₁ h₂ hh₂ l₁ l₂ c hl₁ hl₂ hc₁ hc₂

/-- ほかの始点の列は、`h` の列と交わらない。 -/
theorem not_owned_diff (hs : ChainSet next H dom) (hh : h ∈ H) (hl : Follows next h l) (hc : c ∈ l) :
    ¬ Owned next (H \ {h}) c := by
  rintro ⟨h', ⟨hh', hne⟩, l', hl', hc'⟩
  exact hne (hs.disjoint h' hh' h hh l' l c hl' hl hc' hc)

theorem owned_diff (hl : Follows next h l) (hc : Owned next H c) (hnot : c ∉ l) :
    Owned next (H \ {h}) c := by
  obtain ⟨h', hh', l', hl', hc'⟩ := hc
  refine ⟨h', ⟨hh', ?_⟩, l', hl', hc'⟩
  rintro rfl
  rw [hl'.unique hl] at hc'
  exact hnot hc'

end ChainSet

end MyOS.Lib
