import MyOS.Elf.Lemmas.Store
import MyOS.Mem.Lemmas.Frames
import Mathlib.Order.Bounds.Basic

/-!
# アプリの読み込みの定理

`PT_LOAD` を読むループでは、前のセグメントのバイトが、後のセグメントの割り当てと書き込みで変わらないことを保つ。
-/

namespace MyOS.Elf
open MyOS.Lib MyOS.Mem

variable {f : File} {s t : Space} {m m' : Phys} {ph : Elf32_Phdr} {done segs : List Elf32_Phdr} {rest : List Nat}
  {n off top max_end : Nat}

/-- セグメントのページの範囲。 -/
def segment_area (ph : Elf32_Phdr) : Vma := ⟨ph.p_vaddr, ph.p_vaddr + pages_of ph.p_memsz * BLOCK_SIZE, segment_flags ph⟩

/-- ファイルの中にあり、`SHLIB_BASE` までのページに置くセグメント。 -/
structure SegmentOk (f : File) (ph : Elf32_Phdr) : Prop where
  aligned : ph.p_vaddr % BLOCK_SIZE = 0
  filesz : ph.p_filesz ≤ ph.p_memsz
  inside : ph.p_offset + ph.p_filesz ≤ f.size
  below : (segment_area ph).end ≤ SHLIB_BASE

/-- ファイルのバイトの後に、0 が続く。 -/
structure SegmentLoaded (m : Phys) (f : File) (ph : Elf32_Phdr) : Prop where
  file : ∀ i, i < ph.p_filesz → user_byte m (ph.p_vaddr + i) = some (f.bytes (ph.p_offset + i))
  zero : ∀ i, ph.p_filesz ≤ i → i < ph.p_memsz → user_byte m (ph.p_vaddr + i) = some 0

theorem SegmentLoaded.congr (h : SegmentLoaded m f ph) (hle : ph.p_filesz ≤ ph.p_memsz)
    (hsame : ∀ y, ph.p_vaddr ≤ y → y < ph.p_vaddr + ph.p_memsz → user_byte m' y = user_byte m y) :
    SegmentLoaded m' f ph := by
  refine ⟨fun i hi => ?_, fun i hi hlt => ?_⟩
  · rw [hsame _ (Nat.le_add_right _ _) (by omega)]
    exact h.file i hi
  · rw [hsame _ (Nat.le_add_right _ _) (by omega)]
    exact h.zero i hi hlt

theorem le_pages (size : Nat) : size ≤ pages_of size * BLOCK_SIZE := by
  unfold pages_of BLOCK_SIZE
  omega

theorem SegmentOk.end_le (h : SegmentOk f ph) : ph.p_vaddr + ph.p_memsz ≤ 0x40000000 :=
  Nat.le_trans (Nat.add_le_add_left (le_pages _) _) h.below

theorem SegmentOk.user (h : SegmentOk f ph) {y : Nat} (hy : y < ph.p_vaddr + ph.p_memsz) : UserPage (y / 4096) := by
  have hend := h.end_le
  unfold UserPage KERNEL_VIRTUAL_BASE BLOCK_SIZE
  omega

/-- 書き込みは、ページも空きブロックも変えない。 -/
theorem Written.clear {byte : Nat → UInt8} {dst : Nat} (h : Written UserPage byte dst n m m')
    (hc : Clear m UserPage ∨ free_count m = 0) : Clear m' UserPage ∨ free_count m' = 0 := by
  rw [h.pages.clear, free_count_congr h.bitmap]
  exact hc

theorem Written.frames {byte : Nat → UInt8} {dst : Nat} (h : Written UserPage byte dst n m m')
    (hl : ∀ w ∈ rest, w < 2 ^ 20) (hframes : frames_needed (tables_of m) rest ≤ free_count m) :
    frames_needed (tables_of m') rest ≤ free_count m' := by
  have hsame : frames_needed (tables_of m') rest = frames_needed (tables_of m) rest := by
    refine frames_needed_congr fun w hw => ?_
    have := hl w hw
    rw [tables_of, tables_of, h.pages.dir _ (by omega)]
  rw [hsame, free_count_congr h.bitmap]
  exact hframes

/-! ## 一つのセグメント -/

/-- セグメントのバイトは、その後に割り当てるページにはない。 -/
theorem SegmentLoaded.added {p : Nat} (h : SegmentLoaded m f ph) (hok : SegmentOk f ph)
    (hadd : PagesAdded m m' UserPage false p n) (hp : (segment_area ph).end ≤ p * 4096) : SegmentLoaded m' f ph := by
  have hpages := le_pages ph.p_memsz
  have hend := hok.end_le
  unfold segment_area at hp
  dsimp only at hp
  refine h.congr hok.filesz fun y hy hlt => hadd.user_byte (by omega) (hok.user hlt) (.inl ?_)
  omega

end MyOS.Elf
