import Mathlib.Data.List.Perm.Subperm
import MyOS.Mem.ForkTheorems
import MyOS.Mem.Lemmas.Free

/-!
# 子のアドレス空間の解放

`fork_process` が写したアドレス空間を `vmm_free_directory` で捨てると、割り当てたブロックはちょうどすべて戻る。
-/

namespace MyOS.Mem
open MyOS.Lib

variable {m m' m₀ m₁ : Phys} {P D a b i j : Nat} {got : Nat → Nat → Prop}

/-! ## 参照の数 -/

/-- 新しく割り当てたブロックは探す範囲にあり、参照は一つである。 -/
structure Single (m₀ m : Phys) : Prop where
  one : ∀ b, m₀.mem_bitmap b = true → m.mem_bitmap b = false → m.ref_counts b = 1
  beyond : ∀ b, MAX_BLOCK_ENTRIES * 32 ≤ b → m.mem_bitmap b = m₀.mem_bitmap b

theorem Single.refl (m : Phys) : Single m m := ⟨fun _ hfree hused => (Bool.noConfusion (hused.symm.trans hfree)), fun _ _ => rfl⟩

theorem Single.write (h : Single m₀ m) (ram : ByteMem) (c : Nat) : Single m₀ { m with ram, cur_page_dir := c } :=
  ⟨h.one, h.beyond⟩

theorem Single.alloc (h : Single m₀ m) : Single m₀ (alloc_blocks m).1 := by
  unfold alloc_blocks
  cases hf : find_first_free_blocks m with
  | none => exact h
  | some c =>
    have hlt := (first_free_some hf).2.2
    refine ⟨fun b hfree hused => ?_, fun b hb => (if_neg (by omega)).trans (h.beyond b hb)⟩
    by_cases hb : b = c
    · exact if_pos hb
    · exact (if_neg hb).trans (h.one b hfree ((if_neg hb).symm.trans hused))

theorem Single.get_page (h : Single m₀ m) (virt f : Nat) : Single m₀ (get_page m virt f).1 := by
  unfold Mem.get_page
  dsimp only
  split
  · exact h
  · split
    · exact h.alloc.write _ _
    · exact h.alloc.write _ _

theorem Single.clone_entry (h : Single m₀ m) (k : Nat) : Single m₀ (clone_entry D m k) := by
  unfold Mem.clone_entry
  dsimp only
  split
  · split
    · exact h.write _ _
    · exact h.alloc.write _ _
  · exact h

theorem Single.copy_page (h : Single m₀ m) (pd src_table pt : Nat) : Single m₀ (copy_page pd src_table m pt) := by
  unfold Mem.copy_page
  dsimp only
  split
  · have ha := h.alloc
    generalize alloc_blocks m = r at ha ⊢
    obtain ⟨m', new_phys⟩ := r
    dsimp only at ha ⊢
    split
    · exact ha
    · have hg := (ha.write (m'.ram.copy new_phys (page_addr (m.ram.load32 (src_table + 4 * pt))) 4096)
        m'.cur_page_dir).get_page (pd * 2 ^ 22 + pt * 2 ^ 12) PAGE_USER
      generalize Mem.get_page _ (pd * 2 ^ 22 + pt * 2 ^ 12) PAGE_USER = g at hg ⊢
      exact hg.write _ _
  · exact h

theorem Single.copy_table (h : Single m₀ m) (pd : Nat) : Single m₀ (copy_table P m pd) := by
  unfold Mem.copy_table
  dsimp only
  split
  · exact foldl_range_inv (P := fun _ m => Single m₀ m) 1024 h fun j m _ h => h.copy_page pd _ j
  · exact h

theorem Single.fork (m : Phys) (P : Nat) : Single m (fork_space m P).1 := by
  have hstart : Single m (set_page_dir m P) := (Single.refl m).write _ _
  rw [fork_space_eq]
  have hclone : Single m (vmm_clone_directory (set_page_dir m P)).1 := by
    have ha := hstart.alloc
    rw [vmm_clone_directory_eq]
    generalize alloc_blocks (set_page_dir m P) = r at ha ⊢
    have hclear : Single m (r.1.clear r.2) := ha.write _ _
    dsimp only
    exact foldl_range_inv (P := fun _ m' => Single m m') 1024 hclear fun k m' _ h => h.clone_entry k
  generalize vmm_clone_directory (set_page_dir m P) = r at hclone ⊢
  have hcopy : Single m (vmm_copy_user_pages (set_page_dir r.1 r.2) P) := by
    unfold vmm_copy_user_pages
    exact foldl_range_inv (P := fun _ m' => Single m m') KERNEL_PAGE_NUMBER (hclone.write _ _)
      fun pd m' _ h => h.copy_table pd
  exact hcopy.write _ _

/-! ## 写したページの数 -/

/-- ユーザのページでなければ写さない。 -/
theorem Copying.copy_page_skip (hP : Held m₀ P) (h : Copying m₀ m₁ m P D got) (hi : i < 1024) (hj : j < 1024)
    (hut : user_table m₀.ram P i = true) (hup : ¬ user_page m₀.ram P i j = true) :
    copy_page i (page_addr (word m₀.ram P i)) m j = m := by
  have he : m.ram.load32 (page_addr (word m₀.ram P i) + 4 * j) = word m₀.ram (page_addr (word m₀.ram P i)) j :=
    h.source hP hi hj hut
  unfold user_page at hup
  rw [hut, Bool.true_and] at hup
  unfold copy_page
  dsimp only
  rw [he, if_neg hup]

/-- ページ `(i, j)` の前までに写したページの列。空きは、その数だけ減る。 -/
def Counted (m₀ m₁ : Phys) (P D i j : Nat) (m : Phys) : Prop :=
  ∃ l : List (Nat × Nat), Copying m₀ m₁ m P D (fun i j => (i, j) ∈ l) ∧ l.Nodup ∧
    (∀ p ∈ l, Before i j p.1 p.2 ∧ p.1 < 1024 ∧ p.2 < 1024) ∧ free_count m + l.length = free_count m₁

theorem Counted.skip (h : Counted m₀ m₁ P D i j m) : Counted m₀ m₁ P D i (j + 1) m := by
  obtain ⟨l, hcopy, hnodup, hl, hcount⟩ := h
  exact ⟨l, hcopy, hnodup, fun p hp => ⟨(hl p hp).1.next, (hl p hp).2⟩, hcount⟩

section

variable (hP : Held m₀ P) (hc : Cloned m₀ m₁ P D 1024)
include hP hc

theorem Counted.page (h : Counted m₀ m₁ P D i j m) (hi : i < 1024) (hj : j < 1024)
    (hup : user_page m₀.ram P i j = true) :
    Counted m₀ m₁ P D i (j + 1) (copy_page i (page_addr (word m₀.ram P i)) m j) := by
  obtain ⟨l, hcopy, hnodup, hl, hcount⟩ := h
  rcases hcopy.copy_page_cases hP hc hi hj hup with ⟨heq, -⟩ | ⟨hone, hcopy'⟩
  · rw [heq]
    exact ⟨l, hcopy, hnodup, fun p hp => ⟨(hl p hp).1.next, (hl p hp).2⟩, hcount⟩
  · have hnot : (i, j) ∉ l := fun hmem => by
      have := (hl _ hmem).1
      unfold Before at this
      omega
    refine ⟨(i, j) :: l, ?_, List.nodup_cons.mpr ⟨hnot, hnodup⟩, fun p hp => ?_, ?_⟩
    · have hgot : (fun i' j' => (i', j') ∈ (i, j) :: l) = fun i' j' => (i', j') ∈ l ∨ i' = i ∧ j' = j := by
        funext i' j'
        rw [List.mem_cons, Prod.mk.injEq]
        exact propext or_comm
      rw [hgot]
      exact hcopy'
    · rcases List.mem_cons.mp hp with rfl | hp
      · exact ⟨.inr ⟨rfl, Nat.lt_succ_self j⟩, hi, hj⟩
      · exact ⟨(hl p hp).1.next, (hl p hp).2⟩
    · rw [List.length_cons]
      omega

theorem Counted.table (h : Counted m₀ m₁ P D i 0 m) (hi : i < KERNEL_PAGE_NUMBER) :
    Counted m₀ m₁ P D (i + 1) 0 (copy_table P m i) := by
  have hi' : i < 1024 := Nat.lt_trans hi (by decide)
  have hrow : Counted m₀ m₁ P D i 1024 (copy_table P m i) := by
    have hpde : pde m.ram P i = word m₀.ram P i := by
      obtain ⟨l, hcopy, -⟩ := h
      exact hcopy.parent hP hi'
    unfold copy_table
    simp only [hpde]
    by_cases hp : present (word m₀.ram P i) = true
    · have hut : user_table m₀.ram P i = true := by simp [user_table, hi, hp]
      rw [if_pos hp]
      refine foldl_range_inv (P := fun j m => Counted m₀ m₁ P D i j m) 1024 h fun j m hj hcount => ?_
      by_cases hup : user_page m₀.ram P i j = true
      · exact hcount.page hP hc hi' hj hup
      · have hsame : copy_page i (page_addr (word m₀.ram P i)) m j = m := by
          obtain ⟨l, hcopy, -⟩ := hcount
          exact hcopy.copy_page_skip hP hi' hj hut hup
        rw [hsame]
        exact hcount.skip
    · rw [if_neg hp]
      have hskip : ∀ j, Counted m₀ m₁ P D i j m := by
        intro j
        induction j with
        | zero => exact h
        | succ j ih => exact ih.skip
      exact hskip 1024
  obtain ⟨l, hcopy, hnodup, hl, hcount⟩ := hrow
  exact ⟨l, hcopy, hnodup, fun p hp => ⟨(before_row (hl p hp).2.2).mpr (hl p hp).1, (hl p hp).2⟩, hcount⟩

end

/-! ## 割り当てたブロックの全体 -/

/-- 解放した後。`MAX_BLOCK_ENTRIES` より前のブロックは複製の前と同じで、それ以上のブロックは使われたままになる。複製の前に
    使っていたブロックのバイトは変わらない。 -/
structure Restored (m₀ m₁ m : Phys) : Prop where
  low : ∀ b, b < MAX_BLOCK_ENTRIES → m.mem_bitmap b = m₀.mem_bitmap b
  high : ∀ b, MAX_BLOCK_ENTRIES ≤ b → m.mem_bitmap b = m₁.mem_bitmap b
  bytes : ∀ x, Used m₀ x → m.ram x = m₀.ram x
  cur : m.cur_page_dir = m₀.cur_page_dir

theorem DirBlock.all {ram : ByteMem} (h : DirBlock ram D i j b) : DirBlock ram D KERNEL_PAGE_NUMBER 0 b := by
  rcases h with ⟨i', j', -, hi, hj, ht, hrest⟩ | ⟨i', -, hi, ht, hb⟩
  · exact .inl ⟨i', j', .inl (user_table_present ht).1, hi, hj, ht, hrest⟩
  · exact .inr ⟨i', (user_table_present ht).1, hi, ht, hb⟩

theorem Copying.split (hc : Cloned m₀ m₁ P D 1024) (h : Copying m₀ m₁ m P D got) : Split m.ram D := by
  have hdir : ∀ i, i < 1024 → page_addr (word m.ram D i) = page_addr (word m₁.ram D i) := fun i hi => by rw [h.dir i hi]
  refine ⟨hc.dir.aligned, fun i hi hut => ?_, fun i i' hi hi' hut hut' heq => ?_⟩
  · rw [h.child_table hc hi] at hut
    rw [hdir i hi]
    exact (hc.table i hi hi hut).ne
  · rw [h.child_table hc hi] at hut
    rw [h.child_table hc hi'] at hut'
    rw [hdir i hi, hdir i' hi'] at heq
    exact hc.inj i i' hi hi' hi hi' hut hut' heq

/-- 空きと、使っているブロックのバイトが同じである。 -/
structure Same (m₀ m : Phys) : Prop where
  bitmap : m.mem_bitmap = m₀.mem_bitmap
  bytes : ∀ x, Used m₀ x → m.ram x = m₀.ram x

theorem Same.used (h : Same m₀ m) : Used m a ↔ Used m₀ a := by
  unfold Used
  rw [h.bitmap]

theorem Same.trans (h : Same m₀ m₁) (h' : Same m₁ m) : Same m₀ m :=
  ⟨h'.bitmap.trans h.bitmap, fun x hx => (h'.bytes x (h.used.mpr hx)).trans (h.bytes x hx)⟩

theorem Same.word (h : Same m₀ m) (ha : Aligned a) (hu : Used m₀ a) (hi : i < 1024) : word m.ram a i = word m₀.ram a i :=
  Kept.word ⟨h.bytes, fun _ => h.used.mpr⟩ ha hu hi

section

variable (h : Same m₀ m) (hP : Held m₀ P)
include h hP

theorem Same.user_table (hi : i < 1024) : user_table m.ram P i = user_table m₀.ram P i := by
  unfold Mem.user_table
  rw [h.word hP.aligned hP.used hi]

theorem Same.table_word (hi : i < 1024) (hj : j < 1024) (hut : Mem.user_table m₀.ram P i = true) :
    Mem.word m.ram (page_addr (Mem.word m.ram P i)) j = Mem.word m₀.ram (page_addr (Mem.word m₀.ram P i)) j := by
  rw [h.word hP.aligned hP.used hi]
  exact h.word (aligned_page_addr _) (hP.table i hi hut) hj

theorem Same.user_page (hi : i < 1024) (hj : j < 1024) : user_page m.ram P i j = user_page m₀.ram P i j := by
  unfold Mem.user_page
  rw [h.user_table hP hi]
  by_cases hut : Mem.user_table m₀.ram P i = true
  · rw [h.table_word hP hi hj hut]
  · rw [Bool.eq_false_iff.mpr hut]
    rfl

theorem Same.held : Held m P := by
  refine ⟨h.used.mpr hP.zero, hP.aligned, h.used.mpr hP.used, fun i hi hut => ?_, fun i j hi hj hup => ?_⟩
  · rw [h.user_table hP hi] at hut
    rw [h.word hP.aligned hP.used hi]
    exact h.used.mpr (hP.table i hi hut)
  · rw [h.user_page hP hi hj] at hup
    unfold page_of
    rw [h.table_word hP hi hj (user_page_table hup)]
    exact h.used.mpr (hP.page i j hi hj hup)

theorem Same.table_count : table_count m.ram P = table_count m₀.ram P := by
  unfold Mem.table_count
  exact List.countP_congr fun i hi => by rw [h.user_table hP (List.mem_range.mp hi)]

end

/-- 空きがすべて `MAX_BLOCK_ENTRIES` より前にあれば、複製して捨てると元に戻る。 -/
theorem Restored.same (h : Restored m₀ m₁ m) (hhigh : ∀ b, MAX_BLOCK_ENTRIES ≤ b → m₁.mem_bitmap b = m₀.mem_bitmap b) :
    Same m₀ m := by
  refine ⟨?_, h.bytes⟩
  funext b
  by_cases hb : b < MAX_BLOCK_ENTRIES
  · exact h.low b hb
  · exact (h.high b (Nat.le_of_not_lt hb)).trans (hhigh b (Nat.le_of_not_lt hb))

end MyOS.Mem
