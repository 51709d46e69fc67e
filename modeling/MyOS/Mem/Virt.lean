import MyOS.Blocks.Phys

/-!
# 物理メモリとページ表

`phys_mem.c` の割り当て表と、`virt_mem.c` の二段のページ表。ブロックは 4096 バイトで、`mem_bitmap` の立ったビットが空きを
表す。ディレクトリと表は物理メモリの中にあり、項目は 32 ビットの語である。語の並びとしての `mem_bitmap`（`Blocks.State`）
との対応は `Models` が示す。
-/

namespace MyOS.Mem
open MyOS.Lib

/-! ## 物理メモリ -/

export Blocks (BLOCK_SIZE MAX_BLOCK_ENTRIES)

def KERNEL_VIRTUAL_BASE : Nat := 0xC0000000
def USER_CODE_BASE : Nat := 0x08048000

/-- 物理メモリの状態。`ram` は物理番地のバイトで、`KERNEL_VIRTUAL_BASE` を足した番地の読み書きも同じバイトに届く。
    `cur_page_dir` と `kernel_page_dir` はディレクトリの物理番地である。 -/
structure Phys where
  ram : ByteMem
  mem_bitmap : Nat → Bool
  ref_counts : Nat → Nat
  cur_page_dir : Nat
  kernel_page_dir : Nat

def Phys.store32 (m : Phys) (a v : Nat) : Phys := { m with ram := m.ram.store32 a v }

/-- ブロックを 0 で埋める。 -/
def Phys.clear (m : Phys) (a : Nat) : Phys := { m with ram := m.ram.fill a BLOCK_SIZE 0 }

def set_block (m : Phys) (id : Nat) (val : Bool) : Phys :=
  { m with mem_bitmap := fun b => if b = id then val else m.mem_bitmap b }

/-- `i` から `n` 個のブロックのうち、最初の空き。 -/
def first_free (bitmap : Nat → Bool) : Nat → Nat → Option Nat
  | 0, _ => none
  | n + 1, i => if bitmap i then some i else first_free bitmap n (i + 1)

/-- 一つのブロックを探す。 -/
def find_first_free_blocks (m : Phys) : Option Nat :=
  first_free m.mem_bitmap (MAX_BLOCK_ENTRIES * 32) 0

/-- `alloc_blocks(1)`。空きがなければ `NULL` の 0 を返す。 -/
def alloc_blocks (m : Phys) : Phys × Nat :=
  match find_first_free_blocks m with
  | none => (m, 0)
  | some b =>
    ({ set_block m b false with ref_counts := fun c => if c = b then 1 else m.ref_counts c },
      b * BLOCK_SIZE)

/-- `free_blocks(address, 1)`。`MAX_BLOCK_ENTRIES` 以上のブロックは空きに戻らない。 -/
def free_blocks (m : Phys) (address : Nat) : Phys :=
  let b := address / BLOCK_SIZE
  if MAX_BLOCK_ENTRIES ≤ b then m
  else if 1 < m.ref_counts b then
    { m with ref_counts := fun c => if c = b then m.ref_counts b - 1 else m.ref_counts c }
  else
    { set_block m b true with ref_counts := fun c => if c = b then 0 else m.ref_counts c }

/-! ## ページ表 -/

def PAGE_PRESENT : Nat := 1
def PAGE_RW : Nat := 2
def PAGE_USER : Nat := 4
def KERNEL_PAGE_NUMBER : Nat := 768

/-- 項目の三つの読み方。`present` と `user` はビットを、`page_addr` は `PAGE_ADDR` の部分を読む。 -/
def present (e : Nat) : Bool := e.testBit 0
def user (e : Nat) : Bool := e.testBit 2
def page_addr (e : Nat) : Nat := e / 4096 * 4096

def pd_index (virt : Nat) : Nat := virt / 2 ^ 22
def pt_index (virt : Nat) : Nat := virt / 2 ^ 12 % 1024

/-- ディレクトリ `dir` の項目。 -/
def pde (ram : ByteMem) (dir pd : Nat) : Nat := ram.load32 (dir + 4 * pd)

/-- 表の項目の番地。 -/
def pte_at (ram : ByteMem) (dir pd pt : Nat) : Nat := page_addr (pde ram dir pd) + 4 * pt

/-- 項目の番地を返す。表がなければ作り、カーネルの側では `kernel_page_dir` にも書く。 -/
def get_page (m : Phys) (virt additional_flags : Nat) : Phys × Nat :=
  let pd := pd_index virt
  if present (pde m.ram m.cur_page_dir pd) then
    (m, pte_at m.ram m.cur_page_dir pd (pt_index virt))
  else
    let (m, table) := alloc_blocks m
    let e := table ||| (PAGE_PRESENT ||| PAGE_RW) ||| additional_flags
    let m := (m.clear table).store32 (m.cur_page_dir + 4 * pd) e
    let m := if KERNEL_PAGE_NUMBER ≤ pd then m.store32 (m.kernel_page_dir + 4 * pd) e else m
    (m, page_addr e + 4 * pt_index virt)

/-- 前のページがあれば解放する。 -/
def replace_page (m : Phys) (page phys : Nat) : Phys :=
  let old := m.ram.load32 page
  if present old ∧ page_addr old ≠ 0 ∧ page_addr old ≠ phys then free_blocks m (page_addr old) else m

def map_address (m : Phys) (virt phys : Nat) : Phys :=
  let (m, page) := get_page m virt 0
  (replace_page m page phys).store32 page (page_addr phys ||| PAGE_PRESENT ||| PAGE_RW)

def map_address_user (m : Phys) (virt phys : Nat) : Phys :=
  let (m, page) := get_page m virt PAGE_USER
  (replace_page m page phys).store32 page (page_addr phys ||| PAGE_PRESENT ||| PAGE_RW ||| PAGE_USER)

def unmap_address (m : Phys) (virt : Nat) : Phys :=
  if present (pde m.ram m.cur_page_dir (pd_index virt)) then
    let page := pte_at m.ram m.cur_page_dir (pd_index virt) (pt_index virt)
    let e := m.ram.load32 page
    let m := if present e ∧ page_addr e ≠ 0 then free_blocks m (page_addr e) else m
    m.store32 page 0
  else m

def set_page_dir (m : Phys) (page_dir : Nat) : Phys := { m with cur_page_dir := page_dir }

/-- カーネルの側の表は分け合い、ユーザの側には空の表を置く。 -/
def clone_entry (new_dir : Nat) (m : Phys) (i : Nat) : Phys :=
  let e := pde m.ram m.cur_page_dir i
  if present e then
    if KERNEL_PAGE_NUMBER ≤ i then m.store32 (new_dir + 4 * i) e
    else
      let (m, new_table) := alloc_blocks m
      (m.clear new_table).store32 (new_dir + 4 * i) (new_table ||| e % 4096)
  else m

def vmm_clone_directory (m : Phys) : Phys × Nat :=
  let (m, new_dir) := alloc_blocks m
  ((List.range 1024).foldl (clone_entry new_dir) (m.clear new_dir), new_dir)

/-- `free_page`。 -/
def free_page (m : Phys) (page : Nat) : Phys :=
  let address := page_addr (m.ram.load32 page)
  (if address ≠ 0 then free_blocks m address else m).store32 page 0

def free_entry (table : Nat) (m : Phys) (j : Nat) : Phys :=
  if present (m.ram.load32 (table + 4 * j)) then free_page m (table + 4 * j) else m

def free_table (dir : Nat) (m : Phys) (i : Nat) : Phys :=
  let e := pde m.ram dir i
  if present e then
    free_blocks ((List.range 1024).foldl (free_entry (page_addr e)) m) (page_addr e)
  else m

/-- 今のディレクトリで、ユーザのページがある。 -/
def is_page_mapped (m : Phys) (virt : Nat) : Bool :=
  let e := pde m.ram m.cur_page_dir (pd_index virt)
  let p := m.ram.load32 (pte_at m.ram m.cur_page_dir (pd_index virt) (pt_index virt))
  present e && (present p && user p)

/-- 表 `src_table` の一つのページを写す。ブロックがなければ飛ばす。 -/
def copy_page (pd src_table : Nat) (m : Phys) (pt : Nat) : Phys :=
  let e := m.ram.load32 (src_table + 4 * pt)
  if present e && user e then
    let (m, new_phys) := alloc_blocks m
    if new_phys = 0 then m
    else
      let m := { m with ram := m.ram.copy new_phys (page_addr e) 4096 }
      let (m, page) := get_page m (pd * 2 ^ 22 + pt * 2 ^ 12) PAGE_USER
      m.store32 page (page_addr new_phys ||| PAGE_PRESENT ||| PAGE_RW ||| PAGE_USER)
  else m

def copy_table (source_dir : Nat) (m : Phys) (pd : Nat) : Phys :=
  let e := pde m.ram source_dir pd
  if present e then (List.range 1024).foldl (copy_page pd (page_addr e)) m else m

def vmm_copy_user_pages (m : Phys) (source_dir : Nat) : Phys :=
  (List.range KERNEL_PAGE_NUMBER).foldl (copy_table source_dir) m

/-- `fork_process` がアドレス空間を写す部分。子のディレクトリを返す。 -/
def fork_space (m : Phys) (parent_dir : Nat) : Phys × Nat :=
  let saved_dir := m.cur_page_dir
  let (m, child_dir) := vmm_clone_directory (set_page_dir m parent_dir)
  (set_page_dir (vmm_copy_user_pages (set_page_dir m child_dir) parent_dir) saved_dir, child_dir)

/-!
## ページングの初期化とカーネルのページ

`init_paging` は最初の 4 MB の表を一つだけ作り、番地 0 からと `KERNEL_VIRTUAL_BASE` からの両方に置く。
-/

/-- 番地 `a` から 1024 個の語を順に書く。 -/
def write_words (ram : ByteMem) (a : Nat) (f : Nat → Nat) : ByteMem :=
  (List.range 1024).foldl (fun ram i => ram.store32 (a + 4 * i) (f i)) ram

/-- ディレクトリに書く部分。番地 0 からの項目は `KERNEL_VIRTUAL_BASE` からの項目の写しである。 -/
def init_dir (ram : ByteMem) (dir table : Nat) : ByteMem :=
  let ram := write_words ram dir fun _ => PAGE_RW
  let ram := ram.store32 (dir + 4 * KERNEL_PAGE_NUMBER) (table ||| PAGE_PRESENT ||| PAGE_RW)
  ram.store32 (dir + 4 * 0) (pde ram dir KERNEL_PAGE_NUMBER)

def init_paging (m : Phys) : Phys :=
  let (m, dir) := alloc_blocks m
  let (m, table) := alloc_blocks m
  let ram := init_dir m.ram dir table
  let ram := write_words ram table fun i => i * 2 ^ 12 ||| PAGE_PRESENT ||| PAGE_RW
  set_page_dir { m with ram := ram, kernel_page_dir := dir } dir

/-! `init_malloc` と `malloc` の繰り返し。ブロックを一つ割り当てて、次のページに写す。どちらの呼び出しの結果も調べない。 -/

def map_block (m : Phys) (virt : Nat) : Phys :=
  let (m, phys_address) := alloc_blocks m
  map_address m virt phys_address

/-- 番地 `base` から数えて `start` 枚目から `n` 枚を足す。 -/
def map_blocks (m : Phys) (base start n : Nat) : Phys :=
  (List.range n).foldl (fun m i => map_block m (add32 base (mul32 (start + i) BLOCK_SIZE))) m

/-- `i` 枚目のページに割り当てる番地。 -/
def block_at (m : Phys) (base start i : Nat) : Nat := (alloc_blocks (map_blocks m base start (i - start))).2

/-- ページ `p` から `n` 枚を足すときに作る表の数。表がなければ、その表の最初のページで作る。 -/
def tables_needed (m : Phys) (p : Nat) : Nat → Nat
  | 0 => 0
  | n + 1 => tables_needed m p n +
      if present (pde m.ram m.cur_page_dir ((p + n) / 1024)) ∨ n ≠ 0 ∧ (p + n) % 1024 ≠ 0 then 0 else 1

end MyOS.Mem
