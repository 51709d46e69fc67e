import MyOS.Mem.Lemmas.Frames
import MyOS.Mem.AreaTheorems
import MyOS.Mem.MmapTheorems

/-!
# `mmap` と `munmap`

`mmap` は番地をそのまま使い、長さだけをページの境に切り上げる。`munmap` は番地を切り下げてから、同じ端を持つ領域を
探す。二つが揃うのは、番地がページの境にあり、長さが 0 でも 32 ビットの端に近くもないときである。
-/

namespace MyOS.Mem
open MyOS.Lib

variable {s t : Space} {m m' : Phys} {own own' : Nat → Prop} {zero : Bool} {a addr flags length n p virt w : Nat}

/-- ページ `w` は、0 で埋めた自分のブロックに写る。 -/
def OwnZeroed (m : Phys) (own : Nat → Prop) (w : Nat) : Prop :=
  ∃ f, mapping m w = some (f, PAGE_PRESENT ||| PAGE_RW ||| PAGE_USER) ∧ ¬ Structural m f ∧
    (∀ q flags, q < 2 ^ 20 → own q → mapping m q = some (f, flags) → q = w) ∧ ∀ i, i < 4096 → m.ram (f + i) = 0

/-- 利用者のページか、番地 `p` からの `n` ページ。 -/
def UserOr (p n w : Nat) : Prop := UserPage w ∨ p / BLOCK_SIZE ≤ w ∧ w < p / BLOCK_SIZE + n

/-- `mmap` は、求めた長さのページを写して、領域を加える。`munmap` は、どちらも前のとおりに戻す。 -/
structure MmapDone (s t : Space) (p length : Nat) : Prop where
  aligned : p % BLOCK_SIZE = 0
  pages : ∀ x, p ≤ x → x < p + max length 1 →
    OwnZeroed t.phys (UserOr p (pages_of (max length 1))) (x / BLOCK_SIZE)
  region : ∃ flags, t.memory_regions = s.memory_regions ++ [⟨p, p + pages_of (max length 1) * BLOCK_SIZE, flags⟩]
  munmap : (syscall_munmap t p length).2 = 0
  regions : (syscall_munmap t p length).1.memory_regions = s.memory_regions
  mapping : ∀ w, w < 2 ^ 20 → Mem.mapping (syscall_munmap t p length).1.phys w = Mem.mapping s.phys w

/-- 長さは 0 でなく、切り上げても折り返さない。番地はページの境にあるか、そのままでは使えない。見つかる範囲は折り返さず、
まだどのページもない。 -/
structure MmapFits (s : Space) (addr length : Nat) : Prop where
  pos : 0 < length
  short : length + BLOCK_SIZE ≤ 2 ^ 32
  hint : mmap_base addr % BLOCK_SIZE = 0 ∨ ¬ FreeAt s.memory_regions (pages_of length * BLOCK_SIZE) (mmap_base addr)
  range : ∃ a, IsLeast {x | mmap_base addr ≤ x ∧ FreeAt s.memory_regions (pages_of length * BLOCK_SIZE) x} a ∧
    a + pages_of length * BLOCK_SIZE < 2 ^ 32 ∧
      ∀ w, a / BLOCK_SIZE ≤ w → w < a / BLOCK_SIZE + pages_of length → mapping s.phys w = none

/-! ## ページを写しても変わらないもの -/

theorem map_page_cur (h : map_page zero m virt = some m') : m'.cur_page_dir = m.cur_page_dir := by
  have hopen : ∀ m : Phys, (get_page m virt PAGE_USER).1.cur_page_dir = m.cur_page_dir := by
    intro m
    cases hp : present (dir_entry m (pd_index virt)) with
    | true => rw [get_page_present hp]
    | false =>
      rw [get_page_absent hp (.inr rfl)]
      exact (with_table_dirs m _ _).1
  have hreplace : ∀ (m : Phys) page phys, (replace_page m page phys).cur_page_dir = m.cur_page_dir := fun m page phys =>
    Releases.rest (replace_page_eq m page phys) |>.2.1
  have halloc : (if zero then (alloc_blocks m).1.clear (alloc_blocks m).2 else (alloc_blocks m).1).cur_page_dir =
      m.cur_page_dir := by
    cases zero <;> exact (alloc_blocks_rest m).2.1
  rw [map_page_eq] at h
  split at h
  · cases h
  · obtain rfl := Option.some.inj h
    exact (hreplace _ _ _).trans ((hopen _).trans halloc)

theorem map_pages_cur (zero : Bool) (n virt : Nat) (m : Phys) :
    (map_pages zero n virt m).1.cur_page_dir = m.cur_page_dir := by
  induction n generalizing virt m with
  | zero => rw [map_pages]
  | succ n ih =>
    rw [map_pages]
    cases hm : map_page zero m virt with
    | none => rfl
    | some m' => exact (ih _ m').trans (map_page_cur hm)

theorem Clear.extend (h : Clear m own) (hown : ∀ w, own' w → own w ∨ mapping m w = none) : Clear m own' := by
  rintro f (hf | ⟨w, flags, hw, ho, hm⟩)
  · exact h f (.inl hf)
  · rcases hown w ho with ho | hnone
    · exact h f (.inr ⟨w, flags, hw, ho, hm⟩)
    · cases hnone.symm.trans hm

/-! ## 呼び出し -/

/-- `mmap` が選ぶ番地。 -/
def mmap_addr (s : Space) (addr length : Nat) : Nat :=
  mmap_search (mmap_pages length * BLOCK_SIZE) s.memory_regions (s.memory_regions.length + 1) (mmap_base addr)

/-- 成功したなら、すべてのページを写した。 -/
theorem syscall_mmap_some (h : syscall_mmap s addr length flags = (t, (p : Int))) :
    p = mmap_addr s addr length ∧ (map_pages true (mmap_pages length) p s.phys).2 = mmap_pages length ∧
      t.phys = (map_pages true (mmap_pages length) p s.phys).1 ∧
      ∃ vma_flags, t.memory_regions = s.memory_regions ++
        [⟨p, (p + mmap_pages length * BLOCK_SIZE) % 2 ^ 32, vma_flags⟩] := by
  unfold syscall_mmap at h
  dsimp only at h
  rw [← mmap_addr] at h
  split at h
  next hn =>
    obtain ⟨rfl, hp⟩ := Prod.mk.inj h
    obtain rfl := Int.ofNat.inj hp
    exact ⟨rfl, hn, rfl, _, rfl⟩
  · obtain ⟨-, hp⟩ := Prod.mk.inj h
    omega

/-- ページの境からの、折り返さない範囲の `munmap`。 -/
theorem syscall_munmap_eq (t : Space) (hp : p % BLOCK_SIZE = 0) (hp0 : p ≠ 0) (hlen : 0 < length)
    (hend : p + pages_of length * BLOCK_SIZE < 2 ^ 32) : syscall_munmap t p length =
      if t.memory_regions.any fun v => decide (v.start = p ∧ v.end = p + pages_of length * BLOCK_SIZE) then
        (⟨unmap_pages (pages_of length) p t.phys,
          t.memory_regions.eraseP fun v => decide (v.start = p ∧ v.end = p + pages_of length * BLOCK_SIZE)⟩, 0)
      else (t, -1) := by
  have hstart : ALIGN_PAGE p = p := ALIGN_PAGE_of hp
  have hstop : ALIGN_PAGE ((p + length + (BLOCK_SIZE - 1)) % 2 ^ 32) = p + pages_of length * BLOCK_SIZE := by
    have hword : p + length + (BLOCK_SIZE - 1) < 2 ^ 32 := by
      unfold pages_of BLOCK_SIZE at *
      omega
    obtain ⟨k, rfl⟩ : ∃ k, p = k * BLOCK_SIZE := ⟨p / BLOCK_SIZE, hstart.symm⟩
    have hsum : k * BLOCK_SIZE + length + (BLOCK_SIZE - 1) = length + (BLOCK_SIZE - 1) + k * BLOCK_SIZE := by
      unfold BLOCK_SIZE
      omega
    rw [Nat.mod_eq_of_lt hword, ALIGN_PAGE, hsum, Nat.add_mul_div_right _ _ (by decide), Nat.add_mul, Nat.add_comm]
    rfl
  have hpages : (p + pages_of length * BLOCK_SIZE + 2 ^ 32 - p) % 2 ^ 32 / BLOCK_SIZE = pages_of length := by
    have hsum : p + pages_of length * BLOCK_SIZE + 2 ^ 32 - p = pages_of length * BLOCK_SIZE + 2 ^ 32 := by omega
    rw [hsum, Nat.add_mod_right, Nat.mod_eq_of_lt (by omega), Nat.mul_div_cancel _ (by decide)]
  unfold syscall_munmap
  rw [if_neg (by omega)]
  dsimp only
  rw [hstart, hstop, hpages]

theorem mmap_pages_eq (hpos : 0 < length) (hshort : length + BLOCK_SIZE ≤ 2 ^ 32) : mmap_pages length = pages_of length := by
  have hpages : (length + (BLOCK_SIZE - 1)) % 2 ^ 32 / BLOCK_SIZE = pages_of length := by
    unfold pages_of BLOCK_SIZE at *
    rw [Nat.mod_eq_of_lt (by omega)]
  have hne : pages_of length ≠ 0 := by
    unfold pages_of BLOCK_SIZE
    omega
  unfold mmap_pages
  dsimp only
  rw [hpages, if_neg hne]

theorem mmap_base_pos (addr : Nat) : 0 < mmap_base addr := by
  unfold mmap_base USER_CODE_BASE
  split <;> omega

theorem mmap_fuel (l : List Vma) (base : Nat) : l.countP (fun v => decide (base < v.end)) < l.length + 1 :=
  Nat.lt_succ_of_le List.countP_le_length

/-- 選んだ番地からの範囲が折り返さなければ、それは最小の使える番地である。 -/
theorem mmap_addr_isLeast (hend : mmap_addr s addr length + mmap_pages length * BLOCK_SIZE < 2 ^ 32) :
    IsLeast {x | mmap_base addr ≤ x ∧ FreeAt s.memory_regions (mmap_pages length * BLOCK_SIZE) x}
      (mmap_addr s addr length) := by
  obtain ⟨hge, hfree, -⟩ := mmap_search_spec (mmap_pages length * BLOCK_SIZE) (mmap_fuel s.memory_regions (mmap_base addr))
  refine ⟨⟨hge, fun v hv => (overlaps_eq hend).mp (hfree v hv)⟩, fun b hb => ?_⟩
  by_cases hlt : b < mmap_addr s addr length
  · exact mmap_search_le (Nat.lt_trans (Nat.add_lt_add_right hlt _) hend) hb.2 hb.1
  · exact Nat.le_of_not_lt hlt

/-- 最小の使える番地からの範囲が折り返さなければ、その番地を選ぶ。 -/
theorem mmap_addr_of_isLeast (hend : a + mmap_pages length * BLOCK_SIZE < 2 ^ 32)
    (ha : IsLeast {x | mmap_base addr ≤ x ∧ FreeAt s.memory_regions (mmap_pages length * BLOCK_SIZE) x} a) :
    mmap_addr s addr length = a := by
  have hle : mmap_addr s addr length ≤ a := mmap_search_le hend ha.1.2 ha.1.1
  exact (mmap_addr_isLeast (Nat.lt_of_le_of_lt (Nat.add_le_add_right hle _) hend)).unique ha

/-- そのままでは使えないとき、番地は領域の終わりになる。 -/
theorem mmap_addr_aligned (h : WellFormed s.memory_regions) (hne : mmap_addr s addr length ≠ mmap_base addr) :
    mmap_addr s addr length % BLOCK_SIZE = 0 := by
  obtain ⟨-, -, hstop⟩ := mmap_search_spec (mmap_pages length * BLOCK_SIZE) (mmap_fuel s.memory_regions (mmap_base addr))
  obtain ⟨v, hv, hr⟩ := hstop.resolve_left hne
  have hend := (h.1 v hv).2.1
  rw [mmap_addr, hr]
  exact hend

/-- 正しく揃うなら、条件を満たす。 -/
theorem MmapDone.fits (hcur : Aligned s.phys.cur_page_dir) (hlen : length < 2 ^ 32)
    (hret : syscall_mmap s addr length flags = (t, (p : Int))) (h : MmapDone s t p length) : MmapFits s addr length := by
  obtain ⟨rfl, -, hphys, vma_flags, hregions⟩ := syscall_mmap_some hret
  obtain ⟨flags', hregion⟩ := h.region
  have hends := Vma.mk.inj (List.singleton_injective (List.append_cancel_left (hregions.symm.trans hregion)))
  have hpos : 0 < length := by
    refine Nat.pos_of_ne_zero fun hz => ?_
    have hm := h.munmap
    unfold syscall_munmap at hm
    rw [if_pos (.inr hz)] at hm
    cases hm
  have hmax : max length 1 = length := Nat.max_eq_left hpos
  have hword : mmap_addr s addr length + pages_of length * BLOCK_SIZE < 2 ^ 32 := by
    have hstop := hends.2.1
    rw [hmax] at hstop
    rw [← hstop]
    exact Nat.mod_lt _ (by decide)
  have hshort : length + BLOCK_SIZE ≤ 2 ^ 32 := by
    unfold pages_of BLOCK_SIZE at *
    omega
  have hn := mmap_pages_eq hpos hshort
  have hal := h.aligned
  have hword' : mmap_addr s addr length + mmap_pages length * BLOCK_SIZE < 2 ^ 32 := by
    rw [hn]
    exact hword
  have hleast := mmap_addr_isLeast hword'
  have hzero : mmap_addr s addr length ≠ 0 := Nat.ne_of_gt (Nat.lt_of_lt_of_le (mmap_base_pos addr) hleast.1.1)
  rw [hn] at hleast
  refine ⟨hpos, hshort, ?_, _, hleast, hword, fun w hw hlt => ?_⟩
  · by_cases hfree : FreeAt s.memory_regions (pages_of length * BLOCK_SIZE) (mmap_base addr)
    · have hbase := Nat.le_antisymm hleast.1.1 (hleast.2 ⟨Nat.le_refl _, hfree⟩)
      exact .inl (hbase ▸ hal)
    · exact .inr hfree
  · -- 外した後にないページは、前にもない
    have hw' : w < 2 ^ 20 := by
      unfold BLOCK_SIZE at *
      omega
    have hrange : mmap_addr s addr length / 4096 + pages_of length ≤ 2 ^ 20 := by
      unfold BLOCK_SIZE at *
      omega
    have hpage : mmap_addr s addr length / 4096 * 4096 = mmap_addr s addr length := by
      unfold BLOCK_SIZE at hal
      omega
    have hback := h.mapping w hw'
    have hm := h.munmap
    rw [syscall_munmap_eq t hal hzero hpos hword] at hback hm
    split at hm
    next hany =>
      rw [if_pos hany] at hback
      have hcur' : Aligned t.phys.cur_page_dir := by
        rw [hphys, map_pages_cur]
        exact hcur
      have hnone := (unmap_pages_none hcur' hrange).1 w hw hlt
      rw [hpage] at hnone
      exact hback.symm.trans hnone
    · cases hm

/-- 条件を満たすなら、正しく揃う。 -/
theorem MmapFits.done (h : s.Owned) (hret : syscall_mmap s addr length flags = (t, (p : Int)))
    (hfit : MmapFits s addr length) : MmapDone s t p length := by
  obtain ⟨rfl, hcount, hphys, vma_flags, hregions⟩ := syscall_mmap_some hret
  obtain ⟨hpos, hshort, hhint, a, ha, hword, hnone⟩ := hfit
  have hn := mmap_pages_eq hpos hshort
  have haddr : mmap_addr s addr length = a := mmap_addr_of_isLeast (by rw [hn]; exact hword) (by rw [hn]; exact ha)
  have hal : a % BLOCK_SIZE = 0 := by
    by_cases hbase : a = mmap_base addr
    · subst hbase
      exact hhint.resolve_right fun hnot => hnot ha.1.2
    · rw [← haddr] at hbase ⊢
      exact mmap_addr_aligned h.regions hbase
  have hzero : a ≠ 0 := Nat.ne_of_gt (Nat.lt_of_lt_of_le (mmap_base_pos addr) ha.1.1)
  rw [haddr, hn] at hcount hphys hregions
  rw [haddr]
  rw [Nat.mod_eq_of_lt hword] at hregions
  have hmax : max length 1 = length := Nat.max_eq_left hpos
  have hpage : a / 4096 * 4096 = a := by
    unfold BLOCK_SIZE at hal
    omega
  have hrange : a / 4096 + pages_of length ≤ 2 ^ 20 := by
    unfold BLOCK_SIZE at *
    omega
  have hown : ∀ w, UserOr a (pages_of length) w → UserPage w ∨ mapping s.phys w = none := fun w hw =>
    hw.imp_right fun hin => hnone w hin.1 hin.2
  obtain ⟨-, hadd, -, -⟩ := (h.phys.extend hown).map_pages true (n := pages_of length) (p := a / 4096)
    (.inl (h.clear.extend hown)) hrange fun w hw hlt => .inr ⟨hw, hlt⟩
  rw [hpage, hcount, ← hphys] at hadd
  have hlast : ∀ v ∈ s.memory_regions, ¬ (v.start = a ∧ v.end = a + pages_of length * BLOCK_SIZE) := by
    rintro v hv ⟨hs, he⟩
    have hfar := ha.1.2 v hv
    have hlen : 0 < pages_of length * BLOCK_SIZE := by
      unfold pages_of BLOCK_SIZE
      omega
    omega
  have hany : (t.memory_regions.any fun v => decide (v.start = a ∧ v.end = a + pages_of length * BLOCK_SIZE)) = true := by
    rw [hregions, List.any_append]
    simp
  have hunmap := syscall_munmap_eq t hal hzero hpos hword
  rw [if_pos hany] at hunmap
  refine ⟨hal, fun x hx hlt => ?_, ⟨vma_flags, by rw [hmax]; exact hregions⟩, by rw [hunmap], ?_, fun w hw => ?_⟩
  · rw [hmax] at hlt ⊢
    have hin : a / 4096 ≤ x / 4096 ∧ x / 4096 < a / 4096 + pages_of length := by
      unfold pages_of BLOCK_SIZE at *
      omega
    obtain ⟨f, hmap, hzeros⟩ := hadd.inside _ hin.1 hin.2
    have hx' : x / 4096 < 2 ^ 20 := by omega
    refine ⟨f, hmap, (hadd.owned.backing f ⟨_, _, hx', .inr hin, hmap⟩).2, fun q fq hq hoq hmq => ?_, hzeros rfl⟩
    exact hadd.owned.page_inj q _ f _ _ hq hx' hoq (.inr hin) hmq hmap
  · rw [hunmap]
    dsimp only
    rw [hregions, List.eraseP_append_right _ fun v hv => by simpa using hlast v hv]
    simp
  · have htables : TablesApart t.phys := hadd.owned.table_inj
    have hback := hadd.owned.toSeparate.unmap_pages htables hrange hw
    rw [hpage] at hback
    rw [hunmap]
    dsimp only
    rw [hback]
    split
    next hin => exact (hnone w hin.1 hin.2).symm
    next hout => exact hadd.outside w hw (by omega)

end MyOS.Mem
