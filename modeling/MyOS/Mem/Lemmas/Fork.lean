import MyOS.Mem.Lemmas.Copy

/-! ディレクトリを複製してから、ページを順に写す。 -/

namespace MyOS.Mem
open MyOS.Lib

variable {m m' m₀ m₁ : Phys} {P D i j : Nat} {got : Nat → Nat → Prop}

/-- ユーザのページの数。表 `i` の `j` 番目までを数える。 -/
def pages_before (ram : ByteMem) (dir i j : Nat) : Nat :=
  ((List.range i).map fun k => (List.range 1024).countP (user_page ram dir k)).sum +
    (List.range j).countP (user_page ram dir i)

theorem pages_before_next {ram : ByteMem} : pages_before ram P (i + 1) 0 = pages_before ram P i 1024 := by
  unfold pages_before
  rw [List.range_succ (n := i), List.map_append, List.sum_append]
  simp

theorem pages_before_succ {ram : ByteMem} :
    pages_before ram P i (j + 1) = pages_before ram P i j + (user_page ram P i j).toNat := by
  unfold pages_before
  rw [countP_range_succ, Nat.add_assoc]

/-- ページ `(i, j)` より前。 -/
def Before (i j i' j' : Nat) : Prop := i' < i ∨ i' = i ∧ j' < j

/-- ページ `(i, j)` の前までを写し終えた。ブロックが尽きていれば、どれかのページが抜けている。 -/
def Progress (m₀ m₁ : Phys) (P D i j : Nat) (m : Phys) : Prop :=
  ∃ got, Copying m₀ m₁ m P D got ∧ (∀ i' j', got i' j' → Before i j i' j') ∧
    ((∀ i' j', Before i j i' j' → i' < 1024 → j' < 1024 → user_page m₀.ram P i' j' = true → got i' j') ∧
        free_count m + pages_before m₀.ram P i j = free_count m₁ ∨
      (∃ i' j', Before i j i' j' ∧ i' < 1024 ∧ j' < 1024 ∧ user_page m₀.ram P i' j' = true ∧ ¬ got i' j') ∧
        free_count m₁ < pages_before m₀.ram P i j)

theorem Before.next {i' j' : Nat} (h : Before i j i' j') : Before i (j + 1) i' j' :=
  h.imp id fun ⟨hi, hj⟩ => ⟨hi, Nat.lt_succ_of_lt hj⟩

theorem before_succ {i' j' : Nat} (h : Before i (j + 1) i' j') : Before i j i' j' ∨ i' = i ∧ j' = j := by
  unfold Before at h ⊢
  omega

theorem before_row {i' j' : Nat} (hj : j' < 1024) : Before (i + 1) 0 i' j' ↔ Before i 1024 i' j' := by
  unfold Before
  omega

/-- 写さないページを過ぎる。 -/
theorem Progress.skip (h : Progress m₀ m₁ P D i j m) (hup : user_page m₀.ram P i j = false) :
    Progress m₀ m₁ P D i (j + 1) m := by
  obtain ⟨got, hcopy, hgot, hall | hmiss⟩ := h
  · refine ⟨got, hcopy, fun i' j' hg => (hgot i' j' hg).next, .inl ⟨fun i' j' hb hi hj hu => ?_, ?_⟩⟩
    · rcases before_succ hb with hb | ⟨rfl, rfl⟩
      · exact hall.1 i' j' hb hi hj hu
      · cases hup.symm.trans hu
    · rw [pages_before_succ, hup]
      exact hall.2
  · obtain ⟨⟨i', j', hb, hrest⟩, hlt⟩ := hmiss
    refine ⟨got, hcopy, fun i' j' hg => (hgot i' j' hg).next, .inr ⟨⟨i', j', hb.next, hrest⟩, ?_⟩⟩
    rw [pages_before_succ]
    omega

section

variable (hP : Held m₀ P) (hc : Cloned m₀ m₁ P D 1024)
include hP hc

theorem Progress.page (h : Progress m₀ m₁ P D i j m) (hi : i < 1024) (hj : j < 1024)
    (hup : user_page m₀.ram P i j = true) :
    Progress m₀ m₁ P D i (j + 1) (copy_page i (page_addr (word m₀.ram P i)) m j) := by
  obtain ⟨got, hcopy, hgot, hcase⟩ := h
  have hnot : ¬ got i j := fun hg => by
    have := hgot i j hg
    unfold Before at this
    omega
  have hthis : Before i (j + 1) i j := .inr ⟨rfl, Nat.lt_succ_self j⟩
  rcases hcopy.copy_page_cases hP hc hi hj hup with ⟨heq, hfree⟩ | ⟨hcount, hcopy'⟩
  · -- ブロックが残っていない
    rw [heq]
    refine ⟨got, hcopy, fun i' j' hg => (hgot i' j' hg).next,
      .inr ⟨⟨i, j, hthis, hi, hj, hup, hnot⟩, ?_⟩⟩
    rw [pages_before_succ, hup, Bool.toNat_true]
    rcases hcase with hall | hmiss <;> omega
  · refine ⟨_, hcopy', fun i' j' hg => ?_, ?_⟩
    · rcases hg with hg | ⟨rfl, rfl⟩
      · exact (hgot i' j' hg).next
      · exact hthis
    · rw [pages_before_succ, hup, Bool.toNat_true]
      rcases hcase with ⟨hall, hsum⟩ | ⟨⟨i', j', hb, hi', hj', hu', hng⟩, hlt⟩
      · refine .inl ⟨fun i' j' hb hi' hj' hu => ?_, by omega⟩
        exact (before_succ hb).imp (fun hb => hall i' j' hb hi' hj' hu) id
      · refine .inr ⟨⟨i', j', hb.next, hi', hj', hu', ?_⟩, by omega⟩
        rintro (hg | ⟨rfl, rfl⟩)
        · exact hng hg
        · unfold Before at hb
          omega

theorem Progress.table (h : Progress m₀ m₁ P D i 0 m) (hi : i < KERNEL_PAGE_NUMBER) :
    Progress m₀ m₁ P D (i + 1) 0 (copy_table P m i) := by
  have hi' : i < 1024 := Nat.lt_trans hi (by decide)
  have hrow : Progress m₀ m₁ P D i 1024 (copy_table P m i) := by
    have hpde : pde m.ram P i = word m₀.ram P i := by
      obtain ⟨got, hcopy, -⟩ := h
      exact hcopy.parent hP hi'
    unfold copy_table
    simp only [hpde]
    by_cases hp : present (word m₀.ram P i) = true
    · have hut : user_table m₀.ram P i = true := by simp [user_table, hi, hp]
      rw [if_pos hp]
      refine foldl_range_inv (P := fun j m => Progress m₀ m₁ P D i j m) 1024 h fun j m hj hprog => ?_
      by_cases hup : user_page m₀.ram P i j = true
      · exact hprog.page hP hc hi' hj hup
      · -- ユーザのページでなければ何もしない
        have hsame : copy_page i (page_addr (word m₀.ram P i)) m j = m := by
          obtain ⟨got, hcopy, -⟩ := hprog
          have he := hcopy.source hP hi' hj hut
          have hflag : (present (word m₀.ram (page_addr (word m₀.ram P i)) j) &&
              user (word m₀.ram (page_addr (word m₀.ram P i)) j)) = false := by
            unfold user_page at hup
            rw [hut, Bool.true_and] at hup
            exact Bool.eq_false_iff.mpr hup
          unfold word at he hflag
          unfold copy_page
          simp only [word, he, hflag]
          rfl
        rw [hsame]
        exact hprog.skip (Bool.eq_false_iff.mpr hup)
    · rw [if_neg hp]
      have hnone : ∀ j, user_page m₀.ram P i j = false := fun j => by simp [user_page, user_table, hp]
      have hskip : ∀ j, Progress m₀ m₁ P D i j m := by
        intro j
        induction j with
        | zero => exact h
        | succ j ih => exact ih.skip (hnone j)
      exact hskip 1024
  obtain ⟨got, hcopy, hgot, hcase⟩ := hrow
  refine ⟨fun i' j' => got i' j' ∧ j' < 1024, ?_, fun i' j' hg => (before_row hg.2).mpr (hgot i' j' hg.1), ?_⟩
  · exact ⟨hcopy.kept, hcopy.used, hcopy.cur, hcopy.dir, fun i' j' hi hj hg => hcopy.page i' j' hi hj hg.1,
      fun i' j' hi hj hut hg => hcopy.blank i' j' hi hj hut fun hg' => hg ⟨hg', hj⟩,
      fun i j i' j' hi hj hi' hj' hg hg' => hcopy.inj i j i' j' hi hj hi' hj' hg.1 hg'.1⟩
  · rw [pages_before_next]
    refine hcase.imp (fun hall => ⟨fun i' j' hb hi hj hu => ⟨?_, hj⟩, hall.2⟩) fun hmiss => ⟨?_, hmiss.2⟩
    · exact hall.1 i' j' ((before_row hj).mp hb) hi hj hu
    · obtain ⟨⟨i', j', hb, hi, hj, hu, hng⟩, -⟩ := hmiss
      exact ⟨i', j', (before_row hj).mpr hb, hi, hj, hu, fun hg => hng hg.1⟩

theorem copy_user_pages (hcur : m₁.cur_page_dir = D) :
    Progress m₀ m₁ P D KERNEL_PAGE_NUMBER 0 (vmm_copy_user_pages m₁ P) := by
  refine foldl_range_inv (P := fun i m => Progress m₀ m₁ P D i 0 m) KERNEL_PAGE_NUMBER ?_
    fun i m hi h => h.table hP hc hi
  refine ⟨_, .start hc hcur, fun _ _ h => h.elim, .inl ⟨fun i' j' hb => ?_, ?_⟩⟩
  · unfold Before at hb
    omega
  · simp [pages_before]

end

section

variable (hc : Cloned m₀ m₁ P D 1024)
include hc

/-- 子の表は、複製した表のままである。 -/
theorem Copying.child_table (h : Copying m₀ m₁ m P D got) (hi : i < 1024) :
    user_table m.ram D i = user_table m₀.ram P i := by
  unfold user_table
  rw [h.dir i hi]
  by_cases h768 : i < KERNEL_PAGE_NUMBER
  · by_cases hp : present (word m₀.ram P i) = true
    · have hut : user_table m₀.ram P i = true := by simp [user_table, h768, hp]
      rw [← present_mod, (hc.table i hi hi hut).flags, present_mod]
    · have hp : present (word m₀.ram P i) = false := Bool.eq_false_iff.mpr hp
      rw [hc.blank i hi (.inr hp), hp]
      rfl
  · simp [h768]

end

theorem fork_space_eq (m : Phys) (P : Nat) :
    fork_space m P =
      (set_page_dir (vmm_copy_user_pages (set_page_dir (vmm_clone_directory (set_page_dir m P)).1
        (vmm_clone_directory (set_page_dir m P)).2) P) m.cur_page_dir,
        (vmm_clone_directory (set_page_dir m P)).2) := by
  unfold fork_space
  generalize vmm_clone_directory (set_page_dir m P) = r
  obtain ⟨m', d⟩ := r
  rfl

/-- ディレクトリを複製できれば、写し終えた状態は、ブロックの数だけで決まる。 -/
theorem fork_space_progress (hP : Held m P) (hfree : 1 + table_count m.ram P ≤ free_count m) :
    ∃ m₁, Cloned m m₁ P (fork_space m P).2 1024 ∧
      ∃ m₂, Progress m m₁ P (fork_space m P).2 KERNEL_PAGE_NUMBER 0 m₂ ∧
        (fork_space m P).1 = set_page_dir m₂ m.cur_page_dir := by
  have hP' : Held (set_page_dir m P) P := ⟨hP.zero, hP.aligned, hP.used, hP.table, hP.page⟩
  have hc := clone_directory hP' rfl hfree
  rw [fork_space_eq]
  generalize vmm_clone_directory (set_page_dir m P) = r at hc ⊢
  obtain ⟨m', D⟩ := r
  have hc' : Cloned m (set_page_dir m' D) P D 1024 := hc.set_dir
  exact ⟨_, hc', _, copy_user_pages hP hc' rfl, rfl⟩

end MyOS.Mem
