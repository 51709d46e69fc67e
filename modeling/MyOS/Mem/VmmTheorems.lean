import MyOS.Mem.Lemmas.Regions
import MyOS.Lib.Run

/-!
# 領域の不変条件

`alloc_mem_area` は `ASSERT` で、`mmap` は探索で重なりを避けるが、`sbrk` は何も確かめない。
-/

namespace MyOS.Mem
open MyOS.Lib

variable {s t s₀ : Space} {c : Call} {m : Phys} {l : List Vma} {v : Vma} {virt : Nat}

/-- プロセスの不変条件。 -/
structure Layout (s : Space) : Prop where
  tables : Tables s.phys
  regions : WellFormed s.memory_regions
  user : ∀ v ∈ s.memory_regions, v.end ≤ KERNEL_VIRTUAL_BASE

/-- 両方の状態で領域にあるページの項目は、変わらない。 -/
def KeepsFrames (s t : Space) : Prop :=
  ∀ w, InRegion s.memory_regions w → InRegion t.memory_regions w → entry t.phys w = entry s.phys w

def pages_of (size : Nat) : Nat := (size + (BLOCK_SIZE - 1)) / BLOCK_SIZE

/-- 探索の始まりから先で最初の、重ならない範囲。 -/
def FirstGap (l : List Vma) (base len a : Nat) : Prop := Gap l base len a ∧ ∀ b, Gap l base len b → a ≤ b

/-- それぞれの呼び出しの条件。 -/
def Fits (s : Space) : Call → Prop
  | .alloc_mem_area start size _ =>
    0 < size ∧ size < 2 ^ 32 ∧ ALIGN_PAGE start + pages_of size * BLOCK_SIZE ≤ KERNEL_VIRTUAL_BASE ∧
      Enough s.phys (ALIGN_PAGE start) (pages_of size)
  | .sbrk increment _ =>
    ∀ heap, vmm_find_area_by_flag s.memory_regions VMA_HEAP = some heap →
      (heap.end + increment) % 2 ^ 32 ≤ heap.end ∨
        (heap.end + increment) % 2 ^ 32 ≤ KERNEL_VIRTUAL_BASE ∧
          (∀ v ∈ s.memory_regions, v.end ≤ heap.end ∨ (heap.end + increment) % 2 ^ 32 ≤ v.start) ∧
          Enough s.phys heap.end (pages_of ((heap.end + increment) % 2 ^ 32 - heap.end))
  | .mmap addr length _ =>
    mmap_base addr % 4096 = 0 ∧
      ∃ a, FirstGap s.memory_regions (mmap_base addr) (mmap_pages length * BLOCK_SIZE) a ∧
        Enough s.phys a (mmap_pages length)
  | .munmap _ _ => True
  | .fork _ => 1 + table_count s.phys.ram s.phys.cur_page_dir ≤ free_count s.phys
  | .map_signal_trampoline phys =>
    phys = 0 ∨ Aligned phys ∧ phys < 2 ^ 32 ∧ Used s.phys phys ∧ (∀ x, Live s.phys x → frame s.phys x ≠ phys) ∧
      ¬ InRegion s.memory_regions SIGNAL_TRAMPOLINE_VADDR ∧
      (present (dir_entry s.phys (pd_index SIGNAL_TRAMPOLINE_VADDR)) = true ∨ 0 < free_count s.phys)

theorem Layout.in_user (h : Layout s) {w : Nat} (hw : InRegion s.memory_regions w) : w < KERNEL_VIRTUAL_BASE := by
  obtain ⟨v, hv, -, hlt⟩ := hw
  have := h.user v hv
  omega

/-- 領域の外だけを変えた。 -/
theorem Layout.keeps (h : Layout s) {base n : Nat} (hout : SameOutside s.phys t.phys base n)
    (hfar : ∀ v ∈ s.memory_regions, base + n * BLOCK_SIZE ≤ v.start ∨ v.end ≤ base) : KeepsFrames s t := by
  intro w hw _
  refine hout w (h.in_user hw) ?_
  obtain ⟨v, hv, hle, hlt⟩ := hw
  have := hfar v hv
  omega

theorem ALIGN_PAGE_of (h : virt % 4096 = 0) : ALIGN_PAGE virt = virt := by
  unfold ALIGN_PAGE BLOCK_SIZE
  omega

/-- 読み込みの始まり。領域はまだない。 -/
def Start (s : Space) : Prop := Tables s.phys ∧ s.memory_regions = []

theorem Start.layout (h : Start s) : Layout s := by
  refine ⟨h.1, ?_, ?_⟩
  · rw [h.2]
    exact ⟨fun _ hv => absurd hv List.not_mem_nil, List.Pairwise.nil⟩
  · rw [h.2]
    exact fun _ hv => absurd hv List.not_mem_nil

/-- ディレクトリがブロック 1 にあり、ユーザの側は空である。ブロック 4 から 64 個が空いている。 -/
def blank_space : Space where
  phys :=
    { ram := fun _ => 0
      mem_bitmap := fun b => decide (4 ≤ b) && decide (b < 4 + 64)
      ref_counts := fun _ => 0
      cur_page_dir := 4096
      kernel_page_dir := 4096 }
  memory_regions := []

instance (l : List Vma) (base len a : Nat) : Decidable (Gap l base len a) := inferInstanceAs (Decidable (_ ∧ _ ∧ _))

end MyOS.Mem
