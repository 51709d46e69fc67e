import MyOS.Lib.Bytes

/-!
# ブロックの割り当て表（mem/phys_mem.c）

`mem_bitmap` は 32 ビットの語の並びで、立ったビットが空きのブロックを表す。`ref_counts` は別の配列で、
ブロックの番号で引く。どちらの配列も `MAX_BLOCK_ENTRIES` 個の要素を持つ。
-/

namespace MyOS.Blocks
open MyOS.Lib

def BLOCK_SIZE : Nat := 4096
def MAX_BLOCK_ENTRIES : Nat := 4096

/-- `base` は `mem_bitmap` の物理番地。配列の外の要素も、後に続くメモリとして持つ。`words` と `refs` は、書いた
`mem_bitmap` の語の番号と、読み書きした `ref_counts` の番号を新しい順に残す。 -/
structure State where
  base : Nat
  mem_bitmap : Nat → BitVec 32
  ref_counts : Nat → Nat
  words : List Nat
  refs : List Nat

/-- 0 で埋まったメモリ。 -/
def blank : State := ⟨0, fun _ => 0, fun _ => 0, [], []⟩

def set_block (s : State) (id : Nat) (val : BitVec 32) : State :=
  let w := (s.mem_bitmap (id / 32) &&& ~~~(1#32 <<< (id % 32))) ||| (val <<< (id % 32))
  { s with
    mem_bitmap := fun k => if k = id / 32 then w else s.mem_bitmap k
    words := id / 32 :: s.words }

def test_block (s : State) (id : Nat) : Bool := s.mem_bitmap (id / 32) &&& (1#32 <<< (id % 32)) != 0#32

/-- 起動前のメモリ `s` の上に、空きのない表を作る。 -/
def init_phys_mem (s : State) (start_address : Nat) : State where
  base := start_address
  mem_bitmap k := if k < MAX_BLOCK_ENTRIES then 0#32 else s.mem_bitmap k
  ref_counts k := if k < MAX_BLOCK_ENTRIES then 0 else s.ref_counts k
  words := List.range MAX_BLOCK_ENTRIES
  refs := List.range MAX_BLOCK_ENTRIES

/-- `start` から `n` 個のブロックに `val` を書く。 -/
def set_blocks (val : BitVec 32) : Nat → Nat → State → State
  | 0, _, s => s
  | n + 1, start, s => set_blocks val n (start + 1) (set_block s start val)

def initialize_memory_region (s : State) (start size : Nat) : State :=
  let start_block := add32 start (BLOCK_SIZE - 1) / BLOCK_SIZE
  let end_block := add32 start size / BLOCK_SIZE
  set_blocks 1 (end_block - start_block) start_block s

def deinitialize_memory_region (s : State) (start size : Nat) : State :=
  let start_block := start / BLOCK_SIZE
  let end_block := add32 (add32 start size) (BLOCK_SIZE - 1) / BLOCK_SIZE
  set_blocks 0 (end_block - start_block) start_block s

/-- 内側の `for`。`i + j` から `n` 個のブロックのうち、使われている最初のものの `j`。 -/
def first_used (s : State) (i : Nat) : Nat → Nat → Option Nat
  | 0, _ => none
  | n + 1, j => if test_block s (i + j) then first_used s i n (j + 1) else some j

/-- 外側の `for`。空きのない語と、最初の使用中のブロックとを飛ばす。外側の `none` は終わらないことを、
内側の `none` は −1 を表す。 -/
def find_loop (s : State) (size limit : Nat) : Nat → Nat → Option (Option Nat)
  | 0, _ => none
  | fuel + 1, i =>
      if i ≤ limit - size then
        if s.mem_bitmap (i / 32) = 0#32 then find_loop s size limit fuel ((i / 32 + 1) * 32 - 1 + 1)
        else match first_used s i size 0 with
        | some j => find_loop s size limit fuel (i + j + 1)
        | none => some (some i)
      else some none

def find_first_free_blocks (s : State) (size : Nat) : Option (Option Nat) :=
  let limit := MAX_BLOCK_ENTRIES * 32
  if size = 0 then some (some 0)
  else if size > limit then some none
  else find_loop s size limit (limit + 1) 0

def alloc_loop (start_block : Nat) : Nat → Nat → State → State
  | 0, _, s => s
  | n + 1, i, s =>
      let s := set_block s (start_block + i) 0
      alloc_loop start_block n (i + 1)
        { s with
          ref_counts := fun k => if k = start_block + i then 1 else s.ref_counts k
          refs := (start_block + i) :: s.refs }

/-- 空きが足りなければ `NULL` の 0 を返す。 -/
def alloc_blocks (s : State) (size : Nat) : Option (State × Nat) :=
  (find_first_free_blocks s size).map fun
    | none => (s, 0)
    | some start_block => (alloc_loop start_block size 0 s, start_block * BLOCK_SIZE)

/-- `break` すれば、残りのブロックは空きに戻らない。 -/
def free_loop (start_block : Nat) : Nat → Nat → State → State
  | 0, _, s => s
  | n + 1, i, s =>
      let b := start_block + i
      if b ≥ MAX_BLOCK_ENTRIES then s
      else
        let t := { s with refs := b :: s.refs }
        free_loop start_block n (i + 1)
          (if s.ref_counts b > 1 then
            { t with ref_counts := fun k => if k = b then s.ref_counts b - 1 else s.ref_counts k }
          else set_block { t with ref_counts := fun k => if k = b then 0 else s.ref_counts k } b 1)

def free_blocks (s : State) (address size : Nat) : State := free_loop (address / BLOCK_SIZE) size 0 s

/-! ## 表の読み方 -/

/-- 領域の登録が空きにする範囲の始まりと終わり。 -/
def first_block (start : Nat) : Nat := add32 start (BLOCK_SIZE - 1) / BLOCK_SIZE
def last_block (start size : Nat) : Nat := add32 start size / BLOCK_SIZE

/-- 領域の取り消しが使用中にする範囲の終わり。 -/
def stop_block (start size : Nat) : Nat := add32 (add32 start size) (BLOCK_SIZE - 1) / BLOCK_SIZE

/-- ブロック `b` のビットが立っている。 -/
def State.free (s : State) (b : Nat) : Bool := (s.mem_bitmap (b / 32)).getLsbD (b % 32)

/-- `i` から `n` 個のブロックが表の中にあり、どれも空いている。 -/
def FreeRun (s : State) (n i : Nat) : Prop :=
  i + n ≤ MAX_BLOCK_ENTRIES * 32 ∧ ∀ j < n, s.free (i + j) = true

/-!
## 起動時のメモリの登録（kmain.c の `init_memory_regions`）

Multiboot の表は、空き領域の番地と長さを 64 ビットで示す。`init_memory_regions` はその下位 32 ビットだけを読む。
表は、カーネルの末尾と initrd の末尾の大きい方に置かれる。
-/

def MULTIBOOT_MEMORY_AVAILABLE : Nat := 1
def MULTIBOOT_BOOTLOADER_MAGIC : Nat := 0x2BADB002

/-- `multiboot_memory_map_t`。 -/
structure MmapEntry where
  addr_low : Nat
  addr_high : Nat
  len_low : Nat
  len_high : Nat
  type : Nat
deriving DecidableEq

/-- `multiboot_info_t` のうち使う欄。`mod_start` と `mod_end` は最初のモジュール（initrd）の範囲である。 -/
structure Info where
  flags : Nat
  mod_start : Nat
  mod_end : Nat
  mmap : List MmapEntry

def init_region (s : State) (mmmt : MmapEntry) : State :=
  if mmmt.type = MULTIBOOT_MEMORY_AVAILABLE then initialize_memory_region s mmmt.addr_low mmmt.len_low else s

/-- `none` は、`cli; hlt` で止まることを表す。`s` は起動前のメモリである。 -/
def init_memory_regions (s : State) (magic kend : Nat) (mbd : Info) : Option State :=
  let initrd_end := mbd.mod_end
  let s := mbd.mmap.foldl init_region (init_phys_mem s (max kend initrd_end))
  if magic ≠ MULTIBOOT_BOOTLOADER_MAGIC then none
  else if mbd.flags.testBit 6 then
    let s := deinitialize_memory_region s 0 (add32 kend (MAX_BLOCK_ENTRIES * 4))
    some (deinitialize_memory_region s 0xB8000 0x1000)
  else none

/-! ## 登録の正しさ -/

def MmapEntry.addr (e : MmapEntry) : Nat := e.addr_high * 2 ^ 32 + e.addr_low
def MmapEntry.len (e : MmapEntry) : Nat := e.len_high * 2 ^ 32 + e.len_low

/-- ブロック `b` の全体が、空き領域の一つに入る。 -/
def Available (mmap : List MmapEntry) (b : Nat) : Prop :=
  ∃ e ∈ mmap, e.type = MULTIBOOT_MEMORY_AVAILABLE ∧ e.addr ≤ b * BLOCK_SIZE ∧ (b + 1) * BLOCK_SIZE ≤ e.addr + e.len

/-- ブロック `b` が、番地 `x` から `y` の直前までと重ならない。 -/
def Apart (b x y : Nat) : Prop := y ≤ x ∨ y ≤ b * BLOCK_SIZE ∨ (b + 1) * BLOCK_SIZE ≤ x

/-- ブロック `b` が、カーネルとも、表とも、initrd とも重ならない。`base` は表の番地である。 -/
structure Untouched (kstart kend base : Nat) (mbd : Info) (b : Nat) : Prop where
  kernel : Apart b kstart kend
  bitmap : Apart b base (base + MAX_BLOCK_ENTRIES * 4)
  initrd : Apart b mbd.mod_start mbd.mod_end

/-- 空きとされたブロックはどれも空き領域に入り、使っている場所と重ならない。表の外の語は書かれない。 -/
structure BootSafe (kstart kend : Nat) (mbd : Info) (s : State) : Prop where
  available : ∀ b < MAX_BLOCK_ENTRIES * 32, s.free b = true → Available mbd.mmap b
  untouched : ∀ b < MAX_BLOCK_ENTRIES * 32, s.free b = true → Untouched kstart kend s.base mbd b
  words : ∀ w ∈ s.words, w < MAX_BLOCK_ENTRIES

/-- 空き領域 `e` として登録されるブロック。 -/
def MmapEntry.Covers (e : MmapEntry) (b : Nat) : Prop :=
  e.type = MULTIBOOT_MEMORY_AVAILABLE ∧ first_block e.addr_low ≤ b ∧ b < last_block e.addr_low e.len_low

/-- カーネルの後に取り置く範囲の終わりのブロック。 -/
def reserved_end (kend : Nat) : Nat := stop_block 0 (add32 kend (MAX_BLOCK_ENTRIES * 4))

/-- 登録され、取り置きの外にあるブロック。 -/
def Stray (kend : Nat) (mbd : Info) (b : Nat) : Prop :=
  (∃ e ∈ mbd.mmap, e.Covers b) ∧ reserved_end kend ≤ b ∧ b ≠ 0xB8000 / BLOCK_SIZE

/-- 番地と長さの下位 32 ビットだけで、領域の始まりと終わりが決まる。 -/
def MmapEntry.Low (e : MmapEntry) : Prop :=
  e.addr_high = 0 ∧ e.addr_low + (BLOCK_SIZE - 1) < 2 ^ 32 ∧ e.addr_low + e.len_low < 2 ^ 32

/-- 登録が正しく終わる表の条件。下位 32 ビットで決まらない領域が登録するブロックは、取り置かれるか、別の
空き領域に入る。 -/
structure Fits (kstart kend : Nat) (mbd : Info) : Prop where
  reserved : reserved_end kend ≤ MAX_BLOCK_ENTRIES * 32
  below : ∀ e ∈ mbd.mmap, ∀ b, e.Covers b → b < MAX_BLOCK_ENTRIES * 32
  high : ∀ b, Stray kend mbd b → (∀ e ∈ mbd.mmap, e.Covers b → ¬ e.Low) → Available mbd.mmap b
  apart : ∀ b, Stray kend mbd b → Untouched kstart kend (max kend mbd.mod_end) mbd b

end MyOS.Blocks
