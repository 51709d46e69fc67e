import Mathlib.Data.List.Chain
import Mathlib.Data.List.Nodup
import MyOS.Mem.Virt

/-!
# カーネルのヒープ（mem/malloc.c）

ヘッダはヒープの中のバイト列として持ち、`next` の番地をたどる。ポインタの計算は 32 ビットで折り返す。
フレームを渡す `alloc_blocks(1)` は引数 `alloc` とし、ヒープの `i` 番目のページに使うフレームの番号を返す。
割り込みの保存と復帰（`irq_save`、`irq_restore`）はヒープの状態に触れないので置かない。
-/

namespace MyOS.Heap
open MyOS.Lib

export Blocks (BLOCK_SIZE MAX_BLOCK_ENTRIES)
export Mem (KERNEL_VIRTUAL_BASE)

def MALLOC_INITIAL_SIZE : Nat := 1024 * 1024

def malloc_virt_address : Nat := 4 * 1024 * 1024 + KERNEL_VIRTUAL_BASE

/-- `sizeof(malloc_header_t)`。`size` は 0、`free` は 4、`next` は 8 バイト目にある。 -/
def sizeofHeader : Nat := 12

/-! ## ヘッダの欄 -/

namespace Header

def size (m : ByteMem) (a : Nat) : Nat := m.load32 a
def free (m : ByteMem) (a : Nat) : Bool := m (a + 4) != 0
def next (m : ByteMem) (a : Nat) : Nat := m.load32 (a + 8)

def setSize (m : ByteMem) (a v : Nat) : ByteMem := m.store32 a v
def setFree (m : ByteMem) (a : Nat) (v : Bool) : ByteMem := m.store8 (a + 4) (if v then 1 else 0)
def setNext (m : ByteMem) (a v : Nat) : ByteMem := m.store32 (a + 8) v

end Header

/-- `pages` は、ヒープの先頭から順に、各ページへ `map_address` で割り当てたフレーム。 -/
structure State where
  mem : ByteMem
  malloc_head : Nat
  malloc_reserved_blocks : Nat
  pages : List Nat

/-- ヒープの末尾に `n` ページを足すときの `alloc_blocks` と `map_address` の繰り返し。 -/
def mapPages (alloc : Nat → Nat) (pages : List Nat) (start n : Nat) : List Nat :=
  pages ++ (List.range n).map fun i => alloc (start + i)

def init_malloc (alloc : Nat → Nat) (mem : ByteMem) : State :=
  let malloc_reserved_blocks := (MALLOC_INITIAL_SIZE + sizeofHeader + BLOCK_SIZE - 1) / BLOCK_SIZE
  let actual_reserved := malloc_reserved_blocks * BLOCK_SIZE - sizeofHeader
  let malloc_head := malloc_virt_address
  let mem := Header.setNext mem malloc_head 0
  let mem := Header.setFree mem malloc_head true
  let mem := Header.setSize mem malloc_head actual_reserved
  { mem, malloc_head, malloc_reserved_blocks, pages := mapPages alloc [] 0 malloc_reserved_blocks }

def malloc_split (m : ByteMem) (node req_size : Nat) : ByteMem :=
  if add32 req_size sizeofHeader ≥ Header.size m node then m
  else
    let new_node := add32 (add32 node req_size) sizeofHeader
    let m := Header.setNext m new_node (Header.next m node)
    let m := Header.setFree m new_node (Header.free m node)
    let m := Header.setSize m new_node (sub32 (sub32 (Header.size m node) req_size) sizeofHeader)
    let m := Header.setSize m node req_size
    Header.setNext m node new_node

/-- `malloc` の先頭の `while`。合う空きブロックか、なければ最後のブロックの番地を返す。 -/
def malloc_find (m : ByteMem) (size : Nat) : Nat → Nat → Option Nat
  | 0, _ => none
  | fuel + 1, cur =>
      if (Header.size m cur < size ∨ Header.free m cur = false) ∧ Header.next m cur ≠ 0 then
        malloc_find m size fuel (Header.next m cur)
      else some cur

/-- ヒープの長さ。どのヘッダも 12 バイトを占めるので、リストをたどる回数はこれより小さい。 -/
def State.fuel (s : State) : Nat := s.malloc_reserved_blocks * BLOCK_SIZE + 1

/-- 見つけたブロックを分け、使用中にして、ペイロードの番地を返す。 -/
def malloc_take (s : State) (cur size : Nat) : State × Nat :=
  ({ s with mem := Header.setFree (malloc_split s.mem cur size) cur false }, add32 cur sizeofHeader)

/-- 最後のブロックが使用中のとき、末尾に新しい空きブロックを足す。 -/
def malloc_append (alloc : Nat → Nat) (s : State) (cur size : Nat) : State × Nat :=
  let needed_blocks := add32 (add32 size sizeofHeader) (BLOCK_SIZE - 1) / BLOCK_SIZE
  let pages := mapPages alloc s.pages s.malloc_reserved_blocks needed_blocks
  let new_node := add32 malloc_virt_address (mul32 s.malloc_reserved_blocks BLOCK_SIZE)
  let m := Header.setSize s.mem new_node (sub32 (mul32 needed_blocks BLOCK_SIZE) sizeofHeader)
  let m := Header.setFree m new_node true
  let m := Header.setNext m new_node 0
  let m := Header.setNext m cur new_node
  ({ s with
      mem := m, pages
      malloc_reserved_blocks := add32 s.malloc_reserved_blocks needed_blocks }, new_node)

/-- 最後のブロックが空きのとき、そのブロックを伸ばす。 -/
def malloc_extend (alloc : Nat → Nat) (s : State) (cur size : Nat) : State :=
  let needed_blocks := add32 (sub32 size (Header.size s.mem cur)) (BLOCK_SIZE - 1) / BLOCK_SIZE
  let pages := mapPages alloc s.pages s.malloc_reserved_blocks needed_blocks
  { s with
    mem := Header.setSize s.mem cur
      (add32 (Header.size s.mem cur) (mul32 needed_blocks BLOCK_SIZE))
    pages
    malloc_reserved_blocks := add32 s.malloc_reserved_blocks needed_blocks }

/-- `none` は、リストをたどる繰り返しが終わらないことを表す。 -/
def malloc (alloc : Nat → Nat) (s : State) (size : Nat) : Option (State × Nat) :=
  match malloc_find s.mem size s.fuel s.malloc_head with
  | none => none
  | some cur =>
      if Header.size s.mem cur ≥ size ∧ Header.free s.mem cur = true then
        some (malloc_take s cur size)
      else if Header.free s.mem cur = false then
        let (s, cur) := malloc_append alloc s cur size
        some (malloc_take s cur size)
      else
        some (malloc_take (malloc_extend alloc s cur size) cur size)

/-- 前のブロック `prev` が空きならつなぐ。`prev = 0` は前のブロックがないことを表す。 -/
def merge_prev (m : ByteMem) (prev cur : Nat) : ByteMem × Nat :=
  if prev ≠ 0 ∧ Header.free m prev = true then
    let m := Header.setSize m prev
      (add32 (Header.size m prev) (add32 (Header.size m cur) sizeofHeader))
    (Header.setNext m prev (Header.next m cur), prev)
  else (m, cur)

def merge_next (m : ByteMem) (cur : Nat) : ByteMem :=
  let next := Header.next m cur
  if next ≠ 0 ∧ Header.free m next = true then
    let m := Header.setSize m cur
      (add32 (Header.size m cur) (add32 (Header.size m next) sizeofHeader))
    Header.setNext m cur (Header.next m next)
  else m

/-- 空きにしたブロックを前後の空きブロックとつなぐ。 -/
def free_merge (m : ByteMem) (prev cur : Nat) : ByteMem :=
  let (m, cur) := merge_prev (Header.setFree m cur true) prev cur
  merge_next m cur

def free_loop (m : ByteMem) (address : Nat) : Nat → Nat → Nat → Option ByteMem
  | 0, _, _ => none
  | fuel + 1, prev, cur =>
      if cur = 0 then some m
      else if add32 cur sizeofHeader = address then some (free_merge m prev cur)
      else free_loop m address fuel cur (Header.next m cur)

def free (s : State) (address : Nat) : Option State :=
  (free_loop s.mem address (s.fuel + 1) 0 s.malloc_head).map fun mem => { s with mem }

/-!
## ブロックの並び

ヒープは、先頭から末尾まで隙間なく並ぶブロックの列である。ここでは、その列と、メモリの中のヘッダの
リストとの対応を定める。
-/

/-- 番地 `addr` にヘッダがあり、その後に `size` バイトのペイロードが続くブロック。 -/
structure Block where
  addr : Nat
  size : Nat
  free : Bool
deriving DecidableEq, Repr

namespace Block

/-- ブロックの直後の番地。 -/
def stop (b : Block) : Nat := b.addr + sizeofHeader + b.size

/-- ペイロードの番地。 -/
def payload (b : Block) : Nat := b.addr + sizeofHeader

/-- 番地 `x` がペイロードの中にある。 -/
def Holds (b : Block) (x : Nat) : Prop := b.payload ≤ x ∧ x < b.stop

end Block

/-- 後にブロックが続くときの `next` の値。最後のブロックでは 0 である。 -/
def nextOf (b : Block) : List Block → Nat
  | [] => 0
  | _ :: _ => b.stop

structure HeaderAt (m : ByteMem) (b : Block) (next : Nat) : Prop where
  size : Header.size m b.addr = b.size
  free : Header.free m b.addr = b.free
  next : Header.next m b.addr = next

/-- `a` から `c` の直前まで並び、最後のブロックの `next` も `c` を指す列。 -/
def Seg (m : ByteMem) : Nat → List Block → Nat → Prop
  | a, [], c => a = c
  | a, b :: l, c => b.addr = a ∧ HeaderAt m b b.stop ∧ Seg m b.stop l c

/-- `a` から `e` の直前まで並び、最後のブロックの `next` が 0 である列。 -/
def Tiles (m : ByteMem) : Nat → List Block → Nat → Prop
  | a, [], e => a = e
  | a, b :: l, e => b.addr = a ∧ HeaderAt m b (nextOf b l) ∧ Tiles m b.stop l e

/-- 隣り合う二つのブロックがともに空きであることはない。 -/
def NoAdjFree (l : List Block) : Prop := l.IsChain fun b c => ¬ (b.free = true ∧ c.free = true)

/-- フレームがすべて異なり、物理メモリのビットマップの範囲にある。 -/
def Fresh (pages : List Nat) : Prop :=
  pages.Nodup ∧ ∀ f ∈ pages, f < MAX_BLOCK_ENTRIES * 32

/-- ヒープの末尾の番地。 -/
def State.stop (s : State) : Nat := malloc_virt_address + s.malloc_reserved_blocks * BLOCK_SIZE

/-- ヒープの不変条件。`l` は先頭のヘッダからたどったブロックの列である。 -/
structure HeapOk (s : State) (l : List Block) : Prop where
  head : s.malloc_head = malloc_virt_address
  nonempty : l ≠ []
  tiles : Tiles s.mem s.malloc_head l s.stop
  noAdj : NoAdjFree l
  pages : s.pages.length = s.malloc_reserved_blocks
  fresh : Fresh s.pages

end MyOS.Heap
