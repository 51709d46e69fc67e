import MyOS.Lib.Bytes
import MyOS.Mem.Virt

/-!
# 利用者のメモリとの写し（mem/virt_mem.c）

写す前にページを順に調べる。番地の和は 32 ビットで折り返す。
-/

namespace MyOS.Mem
open MyOS.Lib

/-- `accessed` は、読み書きした利用者の番地を順に残す。`mem` は、今のディレクトリで見えるメモリである。 -/
structure Copied where
  ret : Int
  mem : ByteMem
  accessed : List Nat

/-- ページを調べる `for` のループ。`mapped` は `is_page_mapped` で、`none` は、`fuel` 回では終わらないことを表す。 -/
def check_loop (mapped : Nat → Bool) (start stop : Nat) : Nat → Nat → Option Bool
  | 0, _ => none
  | fuel + 1, addr =>
      if addr < stop then
        let addr := if addr < start then start else addr
        if mapped addr then check_loop mapped start stop fuel (add32 addr 4096) else some false
      else some true

/-- 最後のバイトのページも調べる。 -/
def check_user (mapped : Nat → Bool) (start size fuel : Nat) : Option Bool :=
  let stop := add32 start size
  (check_loop mapped start stop fuel (start - start % 4096)).map fun ok =>
    ok && (!decide (stop > start) || mapped (stop - 1 - (stop - 1) % 4096))

/-- 写すループの残り `n` 回。`user` は、利用者のほうの番地である。 -/
def copy_loop (user dst src : Nat) : Nat → Nat → ByteMem → ByteMem × List Nat
  | 0, _, mem => (mem, [])
  | n + 1, i, mem =>
      let (mem, accessed) := copy_loop user dst src n (i + 1) (mem.store8 (add32 dst i) (mem (add32 src i)))
      (mem, add32 user i :: accessed)

/-- 二つの関数は、どちらの番地を調べるかだけが異なる。 -/
def copy_checked (m : Phys) (mem : ByteMem) (user dst src size fuel : Nat) : Option Copied :=
  (check_user (is_page_mapped m) user size fuel).map fun ok =>
    if ok then
      let (mem, accessed) := copy_loop user dst src size 0 mem
      ⟨0, mem, accessed⟩
    else ⟨-1, mem, []⟩

def copy_to_user (m : Phys) (mem : ByteMem) (dst src size fuel : Nat) : Option Copied :=
  copy_checked m mem dst dst src size fuel

def copy_from_user (m : Phys) (mem : ByteMem) (dst src size fuel : Nat) : Option Copied :=
  copy_checked m mem src dst src size fuel

/-! ## 正しい写し -/

/-- 利用者のページにある、`user` から `size` バイト。 -/
def UserBytes (m : Phys) (user size : Nat) : Prop := ∀ i, i < size → is_page_mapped m (add32 user i) = true

/-- ちょうど `size` バイトを写した。 -/
structure CopiedAll (mem : ByteMem) (user dst src size : Nat) (r : Copied) : Prop where
  accessed : r.accessed = (List.range size).map (add32 user)
  written : (∀ i j, i < size → j < size → add32 dst i ≠ add32 src j) → ∀ i, i < size → r.mem (add32 dst i) = mem (add32 src i)
  rest : ∀ a, (∀ i, i < size → a ≠ add32 dst i) → r.mem a = mem a

/-- 呼び出し `run` は終わる。0 を返すのは利用者のページだけを写したときであり、ほかは −1 を返して何も読み書きしない。 -/
def CopyOk (m : Phys) (mem : ByteMem) (user dst src size : Nat) (run : Nat → Option Copied) : Prop :=
  ∃ fuel r, run fuel = some r ∧
    (r.ret = 0 ∧ UserBytes m user size ∧ CopiedAll mem user dst src size r ∨
      r.ret = -1 ∧ r.mem = mem ∧ r.accessed = [])

/-! ## 条件 -/

/-- ループは、少なくとも一つのページを調べる。 -/
def Enters (start stop : Nat) : Prop := start - start % 4096 < stop

/-- ループの調べるページの数。 -/
def probes (start stop : Nat) : Nat := max 1 ((stop - start + 4095) / 4096)

/-- 調べるページがどれも利用者のもので、次の番地が 32 ビットで折り返す。 -/
def Spins (mapped : Nat → Bool) (start stop : Nat) : Prop :=
  Enters start stop ∧ (∀ k, k < probes start stop → mapped (start + 4096 * k) = true) ∧
    2 ^ 32 ≤ start + 4096 * probes start stop

/-- 範囲は 32 ビットで折り返さないか、折り返しても、すべてが利用者のページにあるか、最初のページで断る。 -/
def Checks (m : Phys) (user size : Nat) : Prop :=
  user + size < 2 ^ 32 ∨ UserBytes m user size ∨ Enters user (add32 user size) ∧ is_page_mapped m user = false

end MyOS.Mem
