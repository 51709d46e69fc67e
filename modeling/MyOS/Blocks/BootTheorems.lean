import MyOS.Blocks.Phys
import MyOS.Blocks.Lemmas.Regions

/-!
# 起動時の登録の定理

登録が終わったときの空きは、空き領域が覆い、取り置きの外にあるブロックである。表と initrd のための
取り置きはない。
-/

namespace MyOS.Blocks
open MyOS.Lib

variable {s s' : State} {b w magic kstart kend : Nat} {mmap : List MmapEntry} {e : MmapEntry} {mbd : Info}

theorem set_blocks_base {val : BitVec 32} {n start : Nat} : (set_blocks val n start s).base = s.base := by
  induction n generalizing start s with
  | zero => rfl
  | succ n ih => exact ih

theorem init_region_base : (init_region s e).base = s.base := by
  unfold init_region
  split
  · exact set_blocks_base
  · rfl

theorem init_region_free : (init_region s e).free b = true ↔ s.free b = true ∨ e.Covers b := by
  unfold init_region MmapEntry.Covers
  by_cases h : e.type = MULTIBOOT_MEMORY_AVAILABLE
  · simp [h, initialize_free]
  · simp [h]

theorem init_region_words : w ∈ (init_region s e).words ↔ (∃ b, e.Covers b ∧ w = b / 32) ∨ w ∈ s.words := by
  unfold init_region MmapEntry.Covers
  by_cases h : e.type = MULTIBOOT_MEMORY_AVAILABLE
  · simp [h, initialize_words, and_assoc]
  · simp [h]

theorem mmap_base : (mmap.foldl init_region s).base = s.base := by
  induction mmap generalizing s with
  | nil => rfl
  | cons e l ih => exact ih.trans init_region_base

theorem mmap_free : (mmap.foldl init_region s).free b = true ↔ s.free b = true ∨ ∃ e ∈ mmap, e.Covers b := by
  induction mmap generalizing s with
  | nil => simp
  | cons e l ih => simp [ih, init_region_free, or_assoc]

theorem mmap_words : w ∈ (mmap.foldl init_region s).words ↔
    (∃ e ∈ mmap, ∃ b, e.Covers b ∧ w = b / 32) ∨ w ∈ s.words := by
  induction mmap generalizing s with
  | nil => simp
  | cons e l ih =>
    simp only [List.foldl_cons, ih, init_region_words, List.mem_cons, exists_eq_or_imp]
    exact or_left_comm.trans or_assoc.symm

/-! ## 登録の結果 -/

theorem init_memory_regions_some (h : init_memory_regions s magic kend mbd = some s') :
    s' = deinitialize_memory_region (deinitialize_memory_region
      (mbd.mmap.foldl init_region (init_phys_mem s (max kend mbd.mod_end))) 0 (add32 kend (MAX_BLOCK_ENTRIES * 4)))
      0xB8000 0x1000 := by
  unfold init_memory_regions at h
  split at h
  · cases h
  · split at h
    · cases h
      rfl
    · cases h

theorem boot_base (h : init_memory_regions s magic kend mbd = some s') : s'.base = max kend mbd.mod_end := by
  rw [init_memory_regions_some h]
  exact set_blocks_base.trans (set_blocks_base.trans mmap_base)

/-- 空きは、登録され、取り置きの外にあるブロックである。 -/
theorem boot_free (h : init_memory_regions s magic kend mbd = some s') (hb : b < MAX_BLOCK_ENTRIES * 32) :
    s'.free b = true ↔ Stray kend mbd b := by
  have hvga : (0xB8000 / BLOCK_SIZE ≤ b ∧ b < stop_block 0xB8000 0x1000) ↔ b = 0xB8000 / BLOCK_SIZE := by
    have hstop : stop_block 0xB8000 0x1000 = 0xB8000 / BLOCK_SIZE + 1 := by decide
    omega
  rw [init_memory_regions_some h, deinitialize_free, deinitialize_free]
  simp only [Bool.and_eq_true, mmap_free, init_free hb, Bool.not_eq_true', decide_eq_false_iff_not, hvga]
  unfold Stray reserved_end
  simp [and_assoc]

theorem boot_words (h : init_memory_regions s magic kend mbd = some s') : (∀ w ∈ s'.words, w < MAX_BLOCK_ENTRIES) ↔
    reserved_end kend ≤ MAX_BLOCK_ENTRIES * 32 ∧ ∀ e ∈ mbd.mmap, ∀ b, e.Covers b → b < MAX_BLOCK_ENTRIES * 32 := by
  have hstop : stop_block 0xB8000 0x1000 = 0xB9 := by decide
  rw [init_memory_regions_some h]
  simp only [deinitialize_words, mmap_words, init_words, List.mem_range]
  constructor
  · intro hw
    constructor
    · by_contra hlt
      have := hw ((reserved_end kend - 1) / 32)
        (Or.inr (Or.inl ⟨reserved_end kend - 1, Nat.zero_le _, by unfold reserved_end at *; omega, rfl⟩))
      omega
    · intro e he b hcov
      have := hw (b / 32) (Or.inr (Or.inr (Or.inl ⟨e, he, b, hcov, rfl⟩)))
      omega
  · rintro ⟨hreserved, hbelow⟩ w (⟨k, -, hk, rfl⟩ | ⟨k, -, hk, rfl⟩ | ⟨e, he, b, hcov, rfl⟩ | hw)
    · unfold MAX_BLOCK_ENTRIES
      omega
    · unfold reserved_end at hreserved
      omega
    · have := hbelow e he b hcov
      omega
    · exact hw

/-- 下位 32 ビットで決まる領域は、登録するブロックを含む。 -/
theorem MmapEntry.Low.available (he : e ∈ mmap) (hlow : e.Low) (hcov : e.Covers b) : Available mmap b := by
  obtain ⟨htype, hfirst, hlast⟩ := hcov
  obtain ⟨hhigh, hstart, hstop⟩ := hlow
  refine ⟨e, he, htype, ?_, ?_⟩
  · unfold first_block add32 at hfirst
    unfold addr
    unfold BLOCK_SIZE at *
    omega
  · unfold last_block add32 at hlast
    unfold addr len
    unfold BLOCK_SIZE at *
    omega

/-- 起動時の登録は、表が条件 `Fits` を満たすとき、そのときに限り、正しく終わる。 -/
theorem boot_safe_iff (h : init_memory_regions s magic kend mbd = some s') :
    BootSafe kstart kend mbd s' ↔ Fits kstart kend mbd := by
  have hbase := boot_base h
  constructor
  · rintro ⟨havail, huntouched, hwords⟩
    obtain ⟨hreserved, hbelow⟩ := (boot_words h).mp hwords
    have hlt (b : Nat) (hs : Stray kend mbd b) : b < MAX_BLOCK_ENTRIES * 32 := by
      obtain ⟨⟨e, he, hcov⟩, -⟩ := hs
      exact hbelow e he b hcov
    refine ⟨hreserved, hbelow, fun b hs _ => ?_, fun b hs => ?_⟩
    · exact havail b (hlt b hs) ((boot_free h (hlt b hs)).mpr hs)
    · rw [← hbase]
      exact huntouched b (hlt b hs) ((boot_free h (hlt b hs)).mpr hs)
  · rintro ⟨hreserved, hbelow, hhigh, hapart⟩
    refine ⟨fun b hb hfree => ?_, fun b hb hfree => ?_, (boot_words h).mpr ⟨hreserved, hbelow⟩⟩
    · have hs := (boot_free h hb).mp hfree
      by_cases hlow : ∃ e ∈ mbd.mmap, e.Covers b ∧ e.Low
      · obtain ⟨e, he, hcov, hlow⟩ := hlow
        exact hlow.available he hcov
      · exact hhigh b hs fun e he hcov hl => hlow ⟨e, he, hcov, hl⟩
    · rw [hbase]
      exact hapart b ((boot_free h hb).mp hfree)

/-- 取り置きは、カーネルと、そのすぐ後の表を覆う。 -/
theorem reserved_covers (hk : kend + MAX_BLOCK_ENTRIES * 4 + (BLOCK_SIZE - 1) < 2 ^ 32) (hb : reserved_end kend ≤ b) :
    kend + MAX_BLOCK_ENTRIES * 4 ≤ b * BLOCK_SIZE := by
  unfold reserved_end stop_block add32 at hb
  unfold BLOCK_SIZE MAX_BLOCK_ENTRIES at *
  omega

/-- 1 MB から始まる 127 MB の空き領域。 -/
def extended : MmapEntry := ⟨0x100000, 0, 0x7F00000, 0, 1⟩

theorem extended_low : extended.Low := by
  unfold MmapEntry.Low extended
  decide

/-- initrd がカーネルより前に終われば、登録は正しい。 -/
theorem boot_safe_before : ∃ s', init_memory_regions blank MULTIBOOT_BOOTLOADER_MAGIC 0x120000
    ⟨64, 0, 0x1000, [extended]⟩ = some s' ∧ BootSafe 0x101000 0x120000 ⟨64, 0, 0x1000, [extended]⟩ s' := by
  obtain ⟨s', h⟩ : ∃ s', init_memory_regions blank MULTIBOOT_BOOTLOADER_MAGIC 0x120000 ⟨64, 0, 0x1000, [extended]⟩ =
    some s' := ⟨_, rfl⟩
  refine ⟨s', h, (boot_safe_iff h).mpr ⟨by decide, fun e he b hcov => ?_, fun b hs hlow => ?_, fun b hs => ?_⟩⟩
  · obtain rfl := List.mem_singleton.mp he
    obtain ⟨-, -, hb⟩ := hcov
    have hlast : last_block extended.addr_low extended.len_low = 0x8000 := by decide
    unfold MAX_BLOCK_ENTRIES
    omega
  · obtain ⟨⟨e, he, hcov⟩, -⟩ := hs
    obtain rfl := List.mem_singleton.mp he
    exact absurd extended_low (hlow _ he hcov)
  · have hb := reserved_covers (by decide) hs.2.1
    unfold MAX_BLOCK_ENTRIES BLOCK_SIZE at hb
    refine ⟨Or.inr (Or.inl ?_), Or.inr (Or.inl ?_), Or.inr (Or.inl ?_)⟩
    · unfold BLOCK_SIZE
      omega
    · show max 0x120000 0x1000 + MAX_BLOCK_ENTRIES * 4 ≤ _
      unfold MAX_BLOCK_ENTRIES BLOCK_SIZE
      omega
    · show 0x1000 ≤ _
      unfold BLOCK_SIZE
      omega

/-- カーネルのすぐ後に置かれた initrd の中のブロック 0x130 は、空きとされる。 -/
theorem boot_initrd_free : ¬ ∀ (s s' : State) (kstart kend : Nat) (mbd : Info),
    init_memory_regions s MULTIBOOT_BOOTLOADER_MAGIC kend mbd = some s' → BootSafe kstart kend mbd s' := by
  intro hall
  obtain ⟨s', h⟩ : ∃ s', init_memory_regions blank MULTIBOOT_BOOTLOADER_MAGIC 0x120000
    ⟨64, 0x121000, 0x161000, [extended]⟩ = some s' := ⟨_, rfl⟩
  have hsafe := hall blank s' 0x101000 0x120000 _ h
  have hfree : s'.free 0x130 = true := (boot_free h (by decide)).mpr
    ⟨⟨extended, by simp, by decide, by decide, by decide⟩, by decide, by decide⟩
  have hinitrd := (hsafe.untouched 0x130 (by decide) hfree).initrd
  revert hinitrd
  unfold Apart BLOCK_SIZE
  decide

end MyOS.Blocks
