import MyOS.Mem.Virt
import MyOS.Mem.Lemmas.Pages

/-!
# ページ表と部分写像

`map_address_user` と `unmap_address` は、部分写像の一点を書き換える。最初のディレクトリは一つの表を
二か所に置くので、一点の書き換えが二つのページに届く。
-/

namespace MyOS.Mem
open MyOS.Lib

variable {m m' m₀ : Phys} {a b i j k n p phys v virt w : Nat}

/-- ページ `virt` とその項目を分け合うページだけが `new` になり、前のブロックだけを解放した。 -/
structure Updates (m opened m' : Phys) (virt : Nat) (keep : Option Nat) (new : Option (Nat × Nat)) : Prop where
  separate : Separate m'
  mapping : ∀ p, p < 2 ^ 20 →
    Mem.mapping m' p = if SameEntry m p (virt / 4096) then new else Mem.mapping m p
  bitmap : m'.mem_bitmap = (release opened keep (Mem.mapping m (virt / 4096))).mem_bitmap
  ref_counts : m'.ref_counts = (release opened keep (Mem.mapping m (virt / 4096))).ref_counts

/-- 解放してから 0 を書く。 -/
theorem unmap_address_release (h : present (dir_entry m (pd_index virt)) = true) :
    unmap_address m virt = (release m none (mapping m (virt / 4096))).store32
      (table_at m (pd_index virt) + 4 * pt_index virt) 0 := by
  have hp : present (pde m.ram m.cur_page_dir (pd_index virt)) = true := h
  have hrel : ∀ e, (if present e = true ∧ page_addr e ≠ 0 then free_blocks m (page_addr e) else m) =
      release m none (page_of_entry e) := by
    intro e
    unfold page_of_entry
    by_cases he : present e = true
    · by_cases h₀ : page_addr e = 0
      · simp [release, he, h₀]
      · simp [release, he, h₀]
    · simp [release, he]
  rw [unmap_address, if_pos hp, mapping_virt h]
  dsimp only
  rw [hrel]
  rfl

/-- 前のブロックを解放してから項目を書く。 -/
theorem Opened.write (ho : Opened m m' (pd_index virt))
    (hf : present (dir_entry m (pd_index virt)) = false → FreshTable m) (hvirt : virt < 2 ^ 32) (hv : v < 2 ^ 32)
    (keep : Option Nat) :
    Updates m m' ((release m' keep (Mem.mapping m (virt / 4096))).store32
      (table_at m' (pd_index virt) + 4 * pt_index virt) v) virt keep (page_of_entry v) := by
  have hpd := pd_index_lt hvirt
  obtain ⟨hram, hcur, hkernel⟩ := release_words m' keep (Mem.mapping m (virt / 4096))
  have hstore : ((release m' keep (Mem.mapping m (virt / 4096))).store32
      (table_at m' (pd_index virt) + 4 * pt_index virt) v).ram =
        m'.ram.store32 (table_at m' (pd_index virt) + 4 * pt_index virt) v := by
    unfold Phys.store32
    rw [hram]
  obtain ⟨hsep, -, hmap⟩ := ho.separate.store_page hpd pt_index_lt ho.here hv hstore hcur hkernel
  refine ⟨hsep, fun p hp => ?_, rfl, rfl⟩
  have hp' : p / 1024 < 1024 := by omega
  have hsame : SameEntry m' p (virt / 4096) ↔ SameEntry m p (virt / 4096) := by
    rw [← (virt_div virt).1] at ho hf
    exact ho.same_fresh hf hp'
  rw [hmap p hp', virt_index, ho.mapping_fresh hf hp']
  by_cases h : SameEntry m p (virt / 4096)
  · rw [if_pos h, if_pos (hsame.mpr h)]
  · rw [if_neg h, if_neg fun h' => h (hsame.mp h')]

/-- 表を開き、前のブロックを解放してから、項目を書く。 -/
theorem Separate.map_address_user_eq (hs : Separate m) (hvirt : virt < 2 ^ 32)
    (hf : present (dir_entry m (pd_index virt)) = false → FreshTable m) : Mem.map_address_user m virt phys =
      (release (Mem.get_page m virt PAGE_USER).1 (some phys) (Mem.mapping m (virt / 4096))).store32
        (table_at (Mem.get_page m virt PAGE_USER).1 (pd_index virt) + 4 * pt_index virt) (page_addr phys + 7) := by
  obtain ⟨hopen, haddr⟩ := hs.get_page (fun hp => (hf hp).toApartTable) hvirt (.inr rfl)
  have hp' : virt / 4096 / 1024 < 1024 := by
    rw [(virt_div virt).1]
    exact pd_index_lt hvirt
  rw [← hopen.mapping_fresh hf hp', mapping_virt hopen.here, ← haddr, ← replace_page_release,
    ← user_entry (aligned_page_addr phys)]
  rfl

theorem page_addr_user_lt (hphys : phys < 2 ^ 32) : page_addr phys + 7 < 2 ^ 32 := by
  unfold page_addr
  omega

theorem Separate.map_address_user (hs : Separate m) (hvirt : virt < 2 ^ 32) (hphys : phys < 2 ^ 32)
    (hf : present (dir_entry m (pd_index virt)) = false → FreshTable m) :
    Updates m (Mem.get_page m virt PAGE_USER).1 (Mem.map_address_user m virt phys) virt (some phys)
      (some (page_addr phys, PAGE_PRESENT ||| PAGE_RW ||| PAGE_USER)) := by
  obtain ⟨hopen, -⟩ := hs.get_page (fun hp => (hf hp).toApartTable) hvirt (.inr rfl)
  have hnew : page_of_entry (page_addr phys + 7) = some (page_addr phys, PAGE_PRESENT ||| PAGE_RW ||| PAGE_USER) :=
    page_of_entry_add (aligned_page_addr phys) (by decide) rfl
  rw [hs.map_address_user_eq hvirt hf, ← hnew]
  exact hopen.write hf hvirt (page_addr_user_lt hphys) (some phys)

theorem Separate.unmap_address (hs : Separate m) (hvirt : virt < 2 ^ 32) :
    Updates m m (Mem.unmap_address m virt) virt none none := by
  by_cases hp : present (dir_entry m (pd_index virt)) = true
  · rw [unmap_address_release hp]
    exact (hs.opened_self hp).write (fun hc => absurd hp (by rw [hc]; decide)) hvirt (show 0 < 2 ^ 32 by decide) none
  · have hp := Bool.eq_false_iff.mpr hp
    have heq : Mem.unmap_address m virt = m := if_neg (Bool.eq_false_iff.mp hp)
    rw [heq]
    refine ⟨hs, fun p hlt => ?_, ?_, ?_⟩
    · split
      next h =>
        rcases h with rfl | ⟨-, -, h, -⟩
        · exact mapping_absent hp
        · rw [(virt_div virt).1] at h
          cases hp.symm.trans h
      next => rfl
    · rw [mapping_absent hp]
      rfl
    · rw [mapping_absent hp]
      rfl

/-- ほかのページと項目を分け合わなければ、部分写像の一点の書き換えである。 -/
theorem Updates.update {opened : Phys} {keep : Option Nat} {new : Option (Nat × Nat)}
    (h : Updates m opened m' virt keep new) (hown : ∀ w, w < 2 ^ 20 → SameEntry m w (virt / 4096) → w = virt / 4096)
    (hp : p < 2 ^ 20) : Mem.mapping m' p = Function.update (Mem.mapping m) (virt / 4096) new p := by
  rw [h.mapping p hp]
  by_cases hpv : p = virt / 4096
  · rw [if_pos (.inl hpv), hpv, Function.update_self]
  · rw [if_neg fun hs => hpv (hown p hp hs), Function.update_of_ne hpv]

theorem write_words_range (ram : ByteMem) (f : Nat → Nat) (ha : Aligned a) (hf : ∀ i, i < 1024 → f i < 2 ^ 32)
    (hb : Aligned b) (hj : j < 1024) (hn : n ≤ 1024) :
    word ((List.range n).foldl (fun ram i => ram.store32 (a + 4 * i) (f i)) ram) b j =
      if b = a ∧ j < n then f j else word ram b j := by
  induction n with
  | zero => simp
  | succ n ih =>
    rw [List.range_succ, List.foldl_append, List.foldl_cons, List.foldl_nil,
      word_store ha hb (Nat.lt_of_succ_le hn) hj (hf n (Nat.lt_of_succ_le hn)), ih (by omega)]
    by_cases hba : b = a
    · by_cases hjn : j = n
      · subst hjn
        simp [hba]
      · have hiff : j < n + 1 ↔ j < n := by omega
        simp [hba, hjn, hiff]
    · simp [hba]

theorem word_write_words (ram : ByteMem) (f : Nat → Nat) (ha : Aligned a) (hf : ∀ i, i < 1024 → f i < 2 ^ 32)
    (hb : Aligned b) (hj : j < 1024) :
    word (write_words ram a f) b j = if b = a then f j else word ram b j := by
  unfold write_words
  rw [write_words_range ram f ha hf hb hj (Nat.le_refl _)]
  simp [hj]

theorem word_init_dir (ram : ByteMem) (ha : Aligned a) (hb : Aligned b) (hlt : b + 3 < 2 ^ 32) {c : Nat}
    (hc : Aligned c) (hj : j < 1024) :
    word (init_dir ram a b) c j =
      if c = a then (if j = 0 ∨ j = KERNEL_PAGE_NUMBER then b + 3 else PAGE_RW) else word ram c j := by
  have hflags : b ||| PAGE_PRESENT ||| PAGE_RW = b + 3 := by
    rw [Nat.or_assoc]
    exact or_flags hb (by decide)
  have hpde : pde ((write_words ram a fun _ => PAGE_RW).store32 (a + 4 * KERNEL_PAGE_NUMBER) (b + 3)) a
      KERNEL_PAGE_NUMBER = b + 3 := (word_store ha ha (by decide) (by decide) hlt).trans (if_pos ⟨rfl, rfl⟩)
  unfold init_dir
  dsimp only
  rw [hflags, hpde, word_store ha hc (by decide) hj hlt, word_store ha hc (by decide) hj hlt,
    word_write_words _ _ ha (fun _ _ => by decide) hc hj]
  by_cases hca : c = a
  · by_cases h₀ : j = 0 <;> by_cases h₁ : j = KERNEL_PAGE_NUMBER <;> simp [hca, h₀, h₁]
  · simp [hca]

theorem init_paging_rest (m : Phys) :
    (init_paging m).mem_bitmap = (alloc_blocks (alloc_blocks m).1).1.mem_bitmap ∧
      (init_paging m).cur_page_dir = (alloc_blocks m).2 ∧ (init_paging m).kernel_page_dir = (alloc_blocks m).2 := by
  unfold init_paging
  generalize alloc_blocks m = r
  obtain ⟨m₁, d⟩ := r
  dsimp only
  generalize alloc_blocks m₁ = r
  obtain ⟨m₂, t⟩ := r
  simp only [set_page_dir]
  exact ⟨trivial, trivial, trivial⟩

/-- 二つのブロックに書いた語。 -/
theorem word_init_paging (hD : Allocates m (alloc_blocks m).1 a)
    (hT : Allocates (alloc_blocks m).1 (alloc_blocks (alloc_blocks m).1).1 b)
    (ha : (alloc_blocks m).2 = a) (hb : (alloc_blocks (alloc_blocks m).1).2 = b) {c : Nat} (hc : Aligned c)
    (hj : j < 1024) :
    word (init_paging m).ram c j =
      if c = b then j * 4096 + 3
      else if c = a then (if j = 0 ∨ j = KERNEL_PAGE_NUMBER then b + 3 else PAGE_RW)
      else word m.ram c j := by
  have hal := hD.fresh.aligned
  have hbl := hT.fresh.aligned
  have hlt : b + 3 < 2 ^ 32 := by
    have := hT.fresh.lt
    unfold Aligned at hbl
    omega
  have hrow : (fun i => i * 2 ^ 12 ||| PAGE_PRESENT ||| PAGE_RW) = fun i => i * 4096 + 3 := by
    funext i
    rw [Nat.or_assoc]
    exact or_flags (aligned_block i) (by decide)
  have hram : (init_paging m).ram = write_words (init_dir m.ram a b) b fun i => i * 4096 + 3 := by
    rw [← hrow, ← hD.ram, ← hT.ram, ← ha, ← hb, init_paging]
    generalize alloc_blocks m = r
    obtain ⟨m₁, d⟩ := r
    dsimp only
    generalize alloc_blocks m₁ = r
    obtain ⟨m₂, t⟩ := r
    simp only [set_page_dir]
  rw [hram, word_write_words _ _ hbl (by omega) hc hj, word_init_dir _ hal hbl hlt hc hj]

/-- 最初の 4 MB は、番地 0 からと `KERNEL_VIRTUAL_BASE` からの両方にある。 -/
structure Booted (m₀ m : Phys) : Prop where
  separate : Separate m
  kernel : m.kernel_page_dir = m.cur_page_dir
  kept : ∀ a, Used m₀ a → Used m a
  cur : Used m m.cur_page_dir ∧ (Used m₀ 0 → m.cur_page_dir ≠ 0)
  table : Used m (table_at m 0) ∧ (Used m₀ 0 → table_at m 0 ≠ 0)
  dir : ∀ k, k < 1024 → (present (dir_entry m k) = true ↔ k = 0 ∨ k = KERNEL_PAGE_NUMBER)
  shared : table_at m 0 = table_at m KERNEL_PAGE_NUMBER
  page : ∀ p, p < 2 ^ 20 → mapping m p =
    if p / 1024 = 0 ∨ p / 1024 = KERNEL_PAGE_NUMBER then some (p % 1024 * 4096, 3) else none

/-- 0 番と `KERNEL_PAGE_NUMBER` 番の項目が、最初の 4 MB を写す同じ表 `b` を指す。 -/
structure Doubled (m : Phys) (b : Nat) : Prop where
  aligned : Aligned b
  dir : ∀ k, k < 1024 → dir_entry m k = if k = 0 ∨ k = KERNEL_PAGE_NUMBER then b + 3 else PAGE_RW
  rows : ∀ j, j < 1024 → word m.ram b j = j * 4096 + 3

theorem Doubled.present_iff (h : Doubled m b) {k : Nat} (hk : k < 1024) :
    present (dir_entry m k) = true ↔ k = 0 ∨ k = KERNEL_PAGE_NUMBER := by
  rw [h.dir k hk]
  split
  next hk' => exact ⟨fun _ => hk', fun _ => by rw [present_add h.aligned (by decide)]; rfl⟩
  next hk' => exact ⟨fun hc => absurd hc (by decide), fun hc => absurd hc hk'⟩

theorem Doubled.table_eq (h : Doubled m b) {k : Nat} (hk : k < 1024) (hk' : k = 0 ∨ k = KERNEL_PAGE_NUMBER) :
    table_at m k = b := by
  rw [table_at, h.dir k hk, if_pos hk', page_addr_add h.aligned (by decide)]

theorem Doubled.mapping_eq (h : Doubled m b) {p : Nat} (hp : p < 2 ^ 20) :
    mapping m p = if p / 1024 = 0 ∨ p / 1024 = KERNEL_PAGE_NUMBER then some (p % 1024 * 4096, 3) else none := by
  have hk : p / 1024 < 1024 := by omega
  have hj : p % 1024 < 1024 := Nat.mod_lt _ (by decide)
  unfold mapping
  split
  next hpk =>
    have hk' := (h.present_iff hk).mp hpk
    have hal : Aligned (p % 1024 * 4096) := aligned_block _
    rw [if_pos hk', page_entry, h.table_eq hk hk', h.rows _ hj, page_of_entry_add hal (by decide) rfl]
  next hpk => rw [if_neg fun hk' => hpk ((h.present_iff hk).mpr hk')]

theorem init_paging_doubled (hD : Allocates m (alloc_blocks m).1 a)
    (hT : Allocates (alloc_blocks m).1 (alloc_blocks (alloc_blocks m).1).1 b)
    (ha : (alloc_blocks m).2 = a) (hb : (alloc_blocks (alloc_blocks m).1).2 = b) (hne : a ≠ b) :
    Doubled (init_paging m) b := by
  refine ⟨hT.fresh.aligned, fun k hk => ?_, fun j hj => ?_⟩
  · rw [dir_entry, (init_paging_rest m).2.1, ha, word_init_paging hD hT ha hb hD.fresh.aligned hk, if_neg hne,
      if_pos rfl]
  · rw [word_init_paging hD hT ha hb hT.fresh.aligned hj, if_pos rfl]

theorem init_paging_booted (h : 2 ≤ free_count m) : Booted m (init_paging m) := by
  have hD := alloc_blocks_some (m := m) (by omega)
  have hcount := hD.count
  have hT := alloc_blocks_some (m := (alloc_blocks m).1) (by omega)
  have hne : (alloc_blocks m).2 ≠ (alloc_blocks (alloc_blocks m).1).2 := hD.fresh.ne_later hT.fresh
  generalize ha : (alloc_blocks m).2 = a at hD hne
  generalize hb : (alloc_blocks (alloc_blocks m).1).2 = b at hT hne
  obtain ⟨hbitmap, hcur, hkernel⟩ := init_paging_rest m
  rw [ha] at hcur hkernel
  have hdouble := init_paging_doubled hD hT ha hb hne
  have hkept : ∀ c, Used (alloc_blocks (alloc_blocks m).1).1 c → Used (init_paging m) c := by
    intro c hc
    unfold Used
    rw [hbitmap]
    exact hc
  have htable := hdouble.table_eq (k := 0) (by decide) (.inl rfl)
  refine ⟨⟨hcur ▸ hD.fresh.aligned, hkernel ▸ hD.fresh.aligned, fun k hk hp => ?_⟩, hkernel.trans hcur.symm,
    fun a ha => ?_, ?_, ?_, fun k hk => hdouble.present_iff hk, ?_, fun p hp => hdouble.mapping_eq hp⟩
  · rw [hdouble.table_eq hk ((hdouble.present_iff hk).mp hp), hcur, hkernel]
    exact ⟨hne.symm, hne.symm⟩
  · exact hkept a (hT.kept.used a (hD.kept.used a ha))
  · rw [hcur]
    exact ⟨hkept a (hT.kept.used a hD.fresh.used), fun h0 => (hD.fresh.ne_of_used h0).symm⟩
  · rw [htable]
    exact ⟨hkept b hT.fresh.used, fun h0 => (hT.fresh.ne_of_used (hD.kept.used 0 h0)).symm⟩
  · rw [htable, hdouble.table_eq (by decide) (.inr rfl)]

/-- ディレクトリと表に一つずつ使う。 -/
theorem init_paging_count (h : 2 ≤ free_count m) : free_count (init_paging m) + 2 = free_count m := by
  have hD := (alloc_blocks_some (m := m) (by omega)).count
  have hT := (alloc_blocks_some (m := (alloc_blocks m).1) (by omega)).count
  have heq : free_count (init_paging m) = free_count (alloc_blocks (alloc_blocks m).1).1 :=
    free_count_congr (init_paging_rest m).1
  omega

theorem Booted.table_eq (h : Booted m₀ m) (hk : k < 1024) (hp : present (dir_entry m k) = true) :
    table_at m k = table_at m 0 := by
  rcases (h.dir k hk).mp hp with rfl | rfl
  · rfl
  · exact h.shared.symm

theorem Booted.fresh (h : Booted m₀ m) (hcount : 0 < free_count m) : FreshTable m := by
  have hkernel : Used m m.kernel_page_dir := by
    rw [h.kernel]
    exact h.cur.1
  refine .of_used hcount h.cur.1 hkernel fun k hk hp => ?_
  rw [h.table_eq hk hp]
  exact h.table.1

end MyOS.Mem
