import MyOS.Mem.Lemmas.Tables

/-! 連なるページの割り当てと解放。範囲の外の項目は変わらない。 -/

namespace MyOS.Mem
open MyOS.Lib

variable {m m' : Phys} {a b i j v t virt n : Nat} {zero : Bool}

theorem unmap_address_present (hp : present (dir_entry m (pd_index virt)) = true) :
    ∃ m₂, Releases m m₂ (page_entry m (pd_index virt) (pt_index virt)) ∧
      unmap_address m virt = m₂.store32 (table_at m (pd_index virt) + 4 * pt_index virt) 0 := by
  refine ⟨if present (page_entry m (pd_index virt) (pt_index virt)) = true ∧
    page_addr (page_entry m (pd_index virt) (pt_index virt)) ≠ 0 then
      free_blocks m (page_addr (page_entry m (pd_index virt) (pt_index virt))) else m, ?_, if_pos hp⟩
  split
  next hc => exact .inr ⟨hc.1, hc.2, rfl⟩
  next => exact .inl rfl

theorem Tables.unmap_address (h : Tables m) (hvirt : virt < KERNEL_VIRTUAL_BASE) :
    Tables (unmap_address m virt) ∧ SameExcept m (unmap_address m virt) virt := by
  by_cases hp : present (dir_entry m (pd_index virt)) = true
  · have hlive : Live m (.table (pd_index virt)) := ⟨pd_index_user hvirt, hp⟩
    obtain ⟨m₂, hr, heq⟩ := unmap_address_present hp
    obtain ⟨hram, hcur, -⟩ := hr.rest
    rw [heq]
    refine ⟨h.write_page hlive pt_index_lt hr (by decide) fun hc => absurd hc (by decide), ?_⟩
    refine h.store_entry hlive (v := 0) (by decide) ?_ hcur
    show m₂.ram.store32 _ _ = _
    rw [hram]
  · have heq : Mem.unmap_address m virt = m := if_neg hp
    rw [heq]
    exact ⟨h, fun _ _ _ => rfl⟩

/-- 表に空きがあるか、新しい表のぶんまで空いていれば、ページは正しく写る。 -/
theorem Tables.map_page (h : Tables m) (hvirt : virt < KERNEL_VIRTUAL_BASE)
    (hroom : present (dir_entry m (pd_index virt)) = true ∨ 1 < free_count m)
    (hm : map_page zero m virt = some m') :
    Tables m' ∧ SameExcept m m' virt ∧ present (dir_entry m' (pd_index virt)) = true ∧
      (∀ k, k < 1024 → k ≠ pd_index virt → dir_entry m' k = dir_entry m k) ∧
      free_count m ≤ free_count m' + 1 + (if present (dir_entry m (pd_index virt)) then 0 else 1) := by
  unfold Mem.map_page at hm
  dsimp only at hm
  rcases alloc_blocks_cases m with ⟨heq, -⟩ | ha
  · rw [heq, if_pos rfl] at hm
    cases hm
  · generalize alloc_blocks m = r at *
    obtain ⟨m₁, phys⟩ := r
    dsimp only at *
    split at hm
    · cases hm
    · obtain rfl := Option.some.inj hm
      have hwrite : Kept m (if zero then m₁.clear phys else m₁) ∧ Used (if zero then m₁.clear phys else m₁) phys ∧
          (if zero then m₁.clear phys else m₁).cur_page_dir = m.cur_page_dir ∧
          free_count (if zero then m₁.clear phys else m₁) + 1 = free_count m := by
        have hcur : m₁.cur_page_dir = m.cur_page_dir := by rw [ha.rest]
        cases zero with
        | false => exact ⟨ha.kept, ha.fresh.used, hcur, ha.count⟩
        | true =>
          have hfc : free_count (m₁.clear phys) = free_count m₁ := free_count_congr rfl
          refine ⟨ha.clear.1, ha.clear.2.used, hcur, ?_⟩
          rw [if_pos rfl, hfc]
          exact ha.count
      generalize (if zero then m₁.clear phys else m₁) = m₂ at *
      obtain ⟨hkept, hused, hcur, hcount⟩ := hwrite
      have hsame := h.kept hkept hcur
      have hk' : pd_index virt < 1024 := Nat.lt_trans (pd_index_user hvirt) (by decide)
      have hd := hsame.dir_eq _ hk'
      have hmap := hsame.tables.map_address_user (a := phys) hvirt (by rw [hd]; exact hroom.imp id fun _ => by omega)
        ha.fresh.aligned ha.fresh.lt hused fun s hs => by
          have hs := (hsame.live s).mp hs
          rw [hsame.frame_eq s hs]
          exact ha.fresh.ne_of_used (h.used s hs)
      have hmc := hmap.count
      rw [hd] at hmc
      refine ⟨hmap.tables, fun w hw hne => ?_, hmap.here, fun k hk hne => ?_, by omega⟩
      · rw [hmap.same w hw hne]
        exact hsame.entry_eq w hw
      · rw [hmap.dir_eq k hk hne]
        exact hsame.dir_eq k hk

/-! ## 連なるページ -/

/-- `virt` から `n` ページのうち、まだない表。 -/
def missing_table (m : Phys) (virt n i : Nat) : Bool :=
  decide (0 < n ∧ pd_index virt ≤ i ∧ i * 2 ^ 22 < virt + n * BLOCK_SIZE) && !present (dir_entry m i)

def missing_tables (m : Phys) (virt n : Nat) : Nat :=
  (List.range KERNEL_PAGE_NUMBER).countP (missing_table m virt n)

/-- 新しい表が要るなら、すべてのページと表のぶんだけ空いている。 -/
def Enough (m : Phys) (virt n : Nat) : Prop :=
  missing_tables m virt n = 0 ∨ n + missing_tables m virt n ≤ free_count m

theorem missing_here (hp : ¬ present (dir_entry m (pd_index virt)) = true) :
    missing_table m virt (n + 1) (pd_index virt) = true := by
  simp only [missing_table, Bool.eq_false_iff.mpr hp, Bool.not_false, Bool.and_true, decide_eq_true_eq]
  unfold pd_index BLOCK_SIZE
  omega

theorem Enough.room (h : Enough m virt (n + 1)) (hvirt : virt < KERNEL_VIRTUAL_BASE) :
    present (dir_entry m (pd_index virt)) = true ∨ 1 < free_count m := by
  by_cases hp : present (dir_entry m (pd_index virt)) = true
  · exact .inl hp
  · have hpos : 0 < missing_tables m virt (n + 1) :=
      List.countP_pos_iff.mpr ⟨_, List.mem_range.mpr (pd_index_user hvirt), missing_here hp⟩
    unfold Enough at h
    omega

/-- 一ページを写すと、要るブロックもその数だけ減る。 -/
theorem Enough.next (h : Enough m virt (n + 1)) (hvirt : virt < KERNEL_VIRTUAL_BASE)
    (hhere : present (dir_entry m' (pd_index virt)) = true)
    (hdir : ∀ k, k < 1024 → k ≠ pd_index virt → dir_entry m' k = dir_entry m k)
    (hcount : free_count m ≤ free_count m' + 1 + (if present (dir_entry m (pd_index virt)) then 0 else 1)) :
    Enough m' (virt + BLOCK_SIZE) n := by
  have hmiss : ∀ i, i ∈ List.range KERNEL_PAGE_NUMBER → missing_table m' (virt + BLOCK_SIZE) n i = true →
      (if i = pd_index virt then false else missing_table m virt (n + 1) i) = true := by
    intro i hi hm
    obtain ⟨hr, hp⟩ := Bool.and_eq_true_iff.mp hm
    have hr := of_decide_eq_true hr
    have hne : i ≠ pd_index virt := by
      rintro rfl
      rw [hhere] at hp
      cases hp
    have hi' : i < 1024 := Nat.lt_trans (List.mem_range.mp hi) (by decide)
    rw [if_neg hne, missing_table, ← hdir i hi' hne, hp, Bool.and_true, decide_eq_true_eq]
    unfold pd_index BLOCK_SIZE at *
    omega
  have hle := List.countP_mono_left hmiss
  by_cases hp : missing_table m virt (n + 1) (pd_index virt) = true
  · have hclear := countP_range_clear (n := KERNEL_PAGE_NUMBER) hp (pd_index_user hvirt)
    unfold Enough missing_tables at *
    split at hcount <;> omega
  · have hpres : present (dir_entry m (pd_index virt)) = true := by
      by_contra hnot
      exact hp (missing_here hnot)
    have hle' : (List.range KERNEL_PAGE_NUMBER).countP
        (fun i => if i = pd_index virt then false else missing_table m virt (n + 1) i) ≤
        (List.range KERNEL_PAGE_NUMBER).countP (missing_table m virt (n + 1)) :=
      List.countP_mono_left fun i _ hi => by
        split at hi
        · cases hi
        · exact hi
    rw [if_pos hpres] at hcount
    unfold Enough missing_tables at *
    omega

/-- 範囲 `[virt, virt + n * 4096)` の外の項目は変わらない。 -/
def SameOutside (m m' : Phys) (virt n : Nat) : Prop :=
  ∀ w, w < KERNEL_VIRTUAL_BASE → w < virt ∨ virt + n * BLOCK_SIZE ≤ w → entry m' w = entry m w

theorem SameOutside.refl (m : Phys) : SameOutside m m virt n := fun _ _ _ => rfl

theorem SameExcept.then {m'' : Phys} (h : SameExcept m m' virt)
    (h' : SameOutside m' m'' (virt + BLOCK_SIZE) n) (ha : virt % 4096 = 0) : SameOutside m m'' virt (n + 1) := by
  intro w hw hout
  unfold BLOCK_SIZE at *
  rw [h' w hw (by unfold BLOCK_SIZE; omega), h w hw (by omega)]

theorem next_page (hend : virt + (n + 1) * BLOCK_SIZE ≤ KERNEL_VIRTUAL_BASE) :
    (virt + BLOCK_SIZE) % 2 ^ 32 = virt + BLOCK_SIZE := by
  unfold BLOCK_SIZE KERNEL_VIRTUAL_BASE at *
  omega

theorem Tables.map_pages (zero : Bool) (h : Tables m) (ha : virt % 4096 = 0)
    (hend : virt + n * BLOCK_SIZE ≤ KERNEL_VIRTUAL_BASE) (hroom : Enough m virt n) :
    Tables (map_pages zero n virt m).1 ∧ (map_pages zero n virt m).2 ≤ n ∧
      SameOutside m (map_pages zero n virt m).1 virt n := by
  induction n generalizing m virt with
  | zero => exact ⟨h, Nat.le_refl _, .refl m⟩
  | succ n ih =>
    have hvirt : virt < KERNEL_VIRTUAL_BASE := by
      unfold BLOCK_SIZE KERNEL_VIRTUAL_BASE at *
      omega
    rw [Mem.map_pages]
    cases hm : Mem.map_page zero m virt with
    | none => exact ⟨h, Nat.zero_le _, .refl m⟩
    | some m₁ =>
      obtain ⟨htab, hsame, hhere, hdir, hcount⟩ := h.map_page hvirt (hroom.room hvirt) hm
      dsimp only
      rw [next_page hend]
      obtain ⟨htab', hle, hout⟩ := ih htab (by unfold BLOCK_SIZE; omega)
        (by unfold BLOCK_SIZE at *; omega) (hroom.next hvirt hhere hdir hcount)
      exact ⟨htab', Nat.succ_le_succ hle, hsame.then hout ha⟩

theorem Tables.unmap_pages (h : Tables m) (ha : virt % 4096 = 0)
    (hend : virt + n * BLOCK_SIZE ≤ KERNEL_VIRTUAL_BASE) :
    Tables (unmap_pages n virt m) ∧ SameOutside m (unmap_pages n virt m) virt n := by
  induction n generalizing m virt with
  | zero => exact ⟨h, .refl m⟩
  | succ n ih =>
    have hvirt : virt < KERNEL_VIRTUAL_BASE := by
      unfold BLOCK_SIZE KERNEL_VIRTUAL_BASE at *
      omega
    obtain ⟨htab, hsame⟩ := h.unmap_address hvirt
    have ha' : (virt + BLOCK_SIZE) % 4096 = 0 := by
      unfold BLOCK_SIZE
      omega
    rw [Mem.unmap_pages, next_page hend]
    obtain ⟨htab', hout⟩ := ih htab ha' (by unfold BLOCK_SIZE at *; omega)
    exact ⟨htab', hsame.then hout ha⟩

end MyOS.Mem
