import MyOS.Mem.Lemmas.Mapped
import MyOS.Mem.VmmTheorems

/-!
# 領域の割り当て

`alloc_mem_area` は始まりをページの境に切り下げてから、切り下げる前の大きさで終わりとページの数を決める。始まりが
ページの途中にあると、最後のページに届かないことがある。
-/

namespace MyOS.Mem
open MyOS.Lib

variable {s t : Space} {start size flags n p w : Nat}

/-- 利用者の側のページ。 -/
def UserPage (w : Nat) : Prop := w < KERNEL_VIRTUAL_BASE / BLOCK_SIZE

/-- プロセスの状態。利用者のページはそれぞれ自分のブロックを使い、領域は重ならない。ブロック 0 は使わない。 -/
structure Space.Owned (s : Space) : Prop where
  phys : Mem.Owned s.phys UserPage
  clear : Clear s.phys UserPage
  regions : WellFormed s.memory_regions
  word : ∀ v ∈ s.memory_regions, v.end < 2 ^ 32

/-- 切り下げた始まりから `size` バイト分のページは、範囲の終わりまで届く。 -/
def Reaches (start size : Nat) : Prop := start % BLOCK_SIZE + size ≤ pages_of size * BLOCK_SIZE

theorem Room.le {m : Phys} {k : Nat} (h : Room m p n) (hk : k ≤ n) : Room m p k :=
  fun j hj => h j (Nat.lt_of_lt_of_le hj hk)

end MyOS.Mem
