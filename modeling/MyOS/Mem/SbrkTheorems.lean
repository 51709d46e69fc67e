import Mathlib.Algebra.Group.Int.Defs
import MyOS.Mem.AreaTheorems

/-!
# ヒープの伸び縮み

`syscall_sbrk` は終わりの番地を 32 ビットで足し、ページを一つずつ写す。途中でブロックが尽きると、写したところまでを
ヒープの終わりにして −1 を返す。和が折り返すと、何も写さずに成功する。
-/

namespace MyOS.Mem
open MyOS.Lib

variable {s t : Space} {m m' : Phys} {heap : Vma} {own : Nat → Prop} {zero : Bool} {n : Int}
  {fuel fuel' k last new_brk p page N x : Nat} {r : Int}

/-- ヒープの終わりも、ページも、空きブロックも同じ。 -/
structure Untouched (s t : Space) : Prop where
  regions : t.memory_regions = s.memory_regions
  mapping : ∀ w, w < 2 ^ 20 → Mem.mapping t.phys w = Mem.mapping s.phys w
  free : t.phys.mem_bitmap = s.phys.mem_bitmap

section
variable (h : s.Owned) (hheap : vmm_find_area_by_flag s.memory_regions VMA_HEAP = some heap)
include h hheap

end

section
variable (h : s.Owned) (hheap : vmm_find_area_by_flag s.memory_regions VMA_HEAP = some heap)
  (hsome : 0 < free_count s.phys)
include h hheap hsome

end

end MyOS.Mem
