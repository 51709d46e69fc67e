import MyOS.Elf.RelocTheorems
import MyOS.Elf.Link
import MyOS.Mem.VmmTheorems

/-!
# 共有ライブラリの番地の定理

セグメントは最初の `PT_LOAD` が `load_addr` に来るようにずらすが、動的セクションと再配置は `load_addr` をそのまま足す。
-/

namespace MyOS.Elf
open MyOS.Lib MyOS.Mem

variable {s s' : Loader} {f : File} {t t' : LibDyn} {uses added : List Use} {globals globals' : List SymEntry}
  {dyns : ByteMem} {step : LibDyn → Elf32_Dyn → LibDyn} {tags : List Nat}
  {base load_addr first v j k n fuel count top : Nat}

/-- どの番地も、同じ `base` を足して作る。 -/
def Based (base : Nat) (uses : List Use) : Prop := ∀ u ∈ uses, u.run = add32 u.link base

theorem Based.nil : Based base [] := fun _ h => absurd h List.not_mem_nil

theorem Based.append (h : Based base uses) (h' : Based base added) : Based base (uses ++ added) := by
  intro u hu
  rcases List.mem_append.mp hu with hu | hu
  · exact h u hu
  · exact h' u hu

theorem Based.cons {u : Use} (hu : u.run = add32 u.link base) (h : Based base uses) : Based base (u :: uses) := by
  intro w hw
  rcases List.mem_cons.mp hw with rfl | hw
  · exact hu
  · exact h w hw

/-- `DT_NULL` までに、`tags` の項目がない。 -/
def NoPointer (tags : List Nat) (dyns : ByteMem) : Prop :=
  ∀ k, (∀ i, i ≤ k → (Elf32_Dyn.read dyns (entry_at 0 Elf32_Dyn.size i)).d_tag ≠ DT_NULL) →
    (Elf32_Dyn.read dyns (entry_at 0 Elf32_Dyn.size k)).d_tag ∉ tags

theorem entry_at_next (k j : Nat) :
    entry_at 0 Elf32_Dyn.size (add32 k 1 + j) = entry_at 0 Elf32_Dyn.size (k + (j + 1)) := by
  unfold entry_at add32 Elf32_Dyn.size
  omega

/-- 項目ごとに保たれる関係は、走査の後にも保たれる。 -/
theorem scan_dyn_rel {α β : Type} {R : α → β → Prop} {step : α → Elf32_Dyn → α} (step' : β → Elf32_Dyn → β) {x x₁ : α}
    {y : β} (hstep : ∀ x y d, R x y → R (step x d) (step' y d)) (hR : R x y)
    (h : scan_dyn step dyns fuel k x = some x₁) : ∃ y₁, scan_dyn step' dyns fuel k y = some y₁ ∧ R x₁ y₁ := by
  induction fuel generalizing k x y with
  | zero => cases h
  | succ fuel ih =>
    unfold scan_dyn at h ⊢
    dsimp only at h ⊢
    split at h
    next hnull =>
      cases h
      exact ⟨y, if_pos hnull, hR⟩
    next htag =>
      rw [if_neg htag]
      exact ih (hstep _ _ _ hR) h

/-- `tags` の項目がなければ、`tags` の欄は初めのままである。 -/
theorem scan_keeps {α β : Type} {step : α → Elf32_Dyn → α} {x x₁ : α} {g : α → β}
    (hstep : ∀ x d, d.d_tag ∉ tags → g (step x d) = g x) (hno : NoPointer tags dyns)
    (h : scan_dyn step dyns fuel 0 x = some x₁) : g x₁ = g x := by
  have hgen : ∀ fuel k x, (∀ j, (∀ i, i ≤ j → (Elf32_Dyn.read dyns (entry_at 0 Elf32_Dyn.size (k + i))).d_tag ≠ DT_NULL) →
      (Elf32_Dyn.read dyns (entry_at 0 Elf32_Dyn.size (k + j))).d_tag ∉ tags) →
      scan_dyn step dyns fuel k x = some x₁ → g x₁ = g x := by
    intro fuel
    induction fuel with
    | zero =>
      intro k x hno h
      cases h
    | succ fuel ih =>
      intro k x hno h
      unfold scan_dyn at h
      dsimp only at h
      split at h
      next => cases h; rfl
      next htag =>
        have hfirst := hno 0 fun i hi => by
          obtain rfl := Nat.le_zero.mp hi
          exact htag
        rw [ih (add32 k 1) _ (fun j hj => ?_) h]
        · exact hstep _ _ hfirst
        · simp only [entry_at_next] at hj ⊢
          refine hno (j + 1) fun i hi => ?_
          cases i with
          | zero => exact htag
          | succ i => exact hj i (Nat.le_of_succ_le_succ hi)
  refine hgen fuel 0 x (fun j hj => ?_) h
  simp only [Nat.zero_add] at hj ⊢
  exact hno j hj

/-! ## ライブラリの全体 -/

section

variable {phs : List Elf32_Phdr} {a : Nat × Nat}

end

def blank_junk : Nat → Nat → ByteMem := fun _ _ _ => 0

end MyOS.Elf
