import MyOS.Mem.Virt

/-!
# メモリ領域

プロセスの領域のリストを書き換える `alloc_mem_area`、`sbrk`、`mmap`、`munmap` と `fork`。番地は 32 ビットで折り返す。
領域のノードを取る `malloc` は失敗しない。
-/

namespace MyOS.Mem
open MyOS.Lib

def SIGNAL_TRAMPOLINE_VADDR : Nat := 0x7FFFE000

def VMA_READ : Nat := 0x1
def VMA_WRITE : Nat := 0x2
def VMA_HEAP : Nat := 0x10
def VMA_USER : Nat := 0x100

structure Vma where
  start : Nat
  «end» : Nat
  flags : Nat
deriving DecidableEq

/-- 今のディレクトリで走るプロセス。 -/
structure Space where
  phys : Phys
  memory_regions : List Vma

def ALIGN_PAGE (x : Nat) : Nat := x / BLOCK_SIZE * BLOCK_SIZE
/-- 一つのページを割り当てて写す。`mmap` だけが前もって 0 で埋める。 -/
def map_page (zero : Bool) (m : Phys) (virt : Nat) : Option Phys :=
  let (m', phys) := alloc_blocks m
  if phys = 0 then none
  else some (map_address_user (if zero then m'.clear phys else m') virt phys)

/-- `virt` から `n` ページを順に写す。ブロックが尽きたら止まり、写したページの数を返す。 -/
def map_pages (zero : Bool) : Nat → Nat → Phys → Phys × Nat
  | 0, _, m => (m, 0)
  | n + 1, virt, m =>
    match map_page zero m virt with
    | none => (m, 0)
    | some m' =>
      let (m'', k) := map_pages zero n ((virt + BLOCK_SIZE) % 2 ^ 32) m'
      (m'', k + 1)

def unmap_pages : Nat → Nat → Phys → Phys
  | 0, _, m => m
  | n + 1, virt, m => unmap_pages n ((virt + BLOCK_SIZE) % 2 ^ 32) (unmap_address m virt)

/-- `ASSERT` に反すれば `none` である。 -/
def alloc_mem_area (s : Space) (start size flags : Nat) : Option Space :=
  let start := ALIGN_PAGE start
  let «end» := ALIGN_PAGE ((start + size + (BLOCK_SIZE - 1)) % 2 ^ 32)
  let pages := (size + (BLOCK_SIZE - 1)) % 2 ^ 32 / BLOCK_SIZE
  if s.memory_regions.all fun cur => decide («end» ≤ cur.start ∨ cur.end ≤ start) then
    let (m, n) := map_pages false pages start s.phys
    if n = pages then some ⟨m, s.memory_regions ++ [⟨start, «end», flags⟩]⟩ else none
  else none

def has_flags (flags : Nat) (v : Vma) : Bool := decide (v.flags &&& flags = flags)

def vmm_find_area_by_flag (memory_regions : List Vma) (flags : Nat) : Option Vma :=
  memory_regions.find? (has_flags flags)

/-- 見つけた領域の `end` を書き換える。 -/
def set_area_end (flags last : Nat) : List Vma → List Vma
  | [] => []
  | v :: l => if has_flags flags v then { v with «end» := last } :: l else v :: set_area_end flags last l

/-- `while (page < new_brk)` のループ。`fuel` 回で終わらなければ `none` である。 -/
def sbrk_loop (new_brk : Nat) : Nat → Nat → Nat → Phys → Option (Phys × Nat)
  | 0, _, _, _ => none
  | fuel + 1, page, last_mapped, m =>
    if page < new_brk then
      match map_page false m page with
      | none => some (m, last_mapped)
      | some m' =>
        sbrk_loop new_brk fuel ((page + BLOCK_SIZE) % 2 ^ 32) ((page + BLOCK_SIZE) % 2 ^ 32) m'
    else some (m, last_mapped)

/-- 負の `increment` も 32 ビットの符号なしの値として渡される。 -/
def syscall_sbrk (s : Space) (increment fuel : Nat) : Option (Space × Int) :=
  match vmm_find_area_by_flag s.memory_regions VMA_HEAP with
  | none => some (s, -1)
  | some heap =>
    let new_brk := (heap.end + increment) % 2 ^ 32
    (sbrk_loop new_brk fuel (ALIGN_PAGE heap.end) heap.end s.phys).map fun (m, last_mapped) =>
      (⟨m, set_area_end VMA_HEAP last_mapped s.memory_regions⟩,
        if last_mapped < new_brk then -1 else (heap.end : Int))

def overlaps (addr len : Nat) (v : Vma) : Bool :=
  !(decide ((addr + len) % 2 ^ 32 ≤ v.start) || decide (v.end ≤ addr))

def mmap_scan (len addr : Nat) (l : List Vma) : Nat :=
  l.foldl (fun addr v => if overlaps addr len v then v.end else addr) addr

/-- `do … while (changed)` のループ。重なりを避けるたびに `addr` は増えるので、領域の数より多くは回らない。 -/
def mmap_search (len : Nat) (l : List Vma) : Nat → Nat → Nat
  | 0, addr => addr
  | n + 1, addr =>
    let addr' := mmap_scan len addr l
    if addr' = addr then addr else mmap_search len l n addr'

def mmap_pages (length : Nat) : Nat :=
  let pages := (length + (BLOCK_SIZE - 1)) % 2 ^ 32 / BLOCK_SIZE
  if pages = 0 then 1 else pages

/-- 番地を指定しなければ、ここから探す。 -/
def mmap_base (addr : Nat) : Nat := if addr = 0 then USER_CODE_BASE + 0x400000 else addr

def syscall_mmap (s : Space) (addr length flags : Nat) : Space × Int :=
  let pages := mmap_pages length
  let addr := mmap_search (pages * BLOCK_SIZE) s.memory_regions (s.memory_regions.length + 1) (mmap_base addr)
  let vma_flags := VMA_USER ||| VMA_READ ||| if flags.testBit 1 then VMA_WRITE else 0
  let (m, n) := map_pages true pages addr s.phys
  if n = pages then
    (⟨m, s.memory_regions ++ [⟨addr, (addr + pages * BLOCK_SIZE) % 2 ^ 32, vma_flags⟩]⟩, (addr : Int))
  else (⟨unmap_pages n addr m, s.memory_regions⟩, -1)

def syscall_munmap (s : Space) (addr length : Nat) : Space × Int :=
  if addr = 0 ∨ length = 0 then (s, -1)
  else
    let start := ALIGN_PAGE addr
    let «end» := ALIGN_PAGE ((addr + length + (BLOCK_SIZE - 1)) % 2 ^ 32)
    if s.memory_regions.any fun v => decide (v.start = start ∧ v.end = «end») then
      (⟨unmap_pages (((«end» + 2 ^ 32 - start) % 2 ^ 32) / BLOCK_SIZE) start s.phys,
        s.memory_regions.eraseP fun v => decide (v.start = start ∧ v.end = «end»)⟩, 0)
    else (s, -1)

/-- 親か子のどちらかとして続ける。領域のリストは写される。 -/
def fork (s : Space) (child : Bool) : Space :=
  let (m, child_dir) := fork_space s.phys s.phys.cur_page_dir
  ⟨if child then set_page_dir m child_dir else m, s.memory_regions⟩

def map_signal_trampoline (s : Space) (signal_trampoline_phys : Nat) : Space :=
  if signal_trampoline_phys = 0 then s
  else ⟨map_address_user s.phys SIGNAL_TRAMPOLINE_VADDR signal_trampoline_phys, s.memory_regions⟩

inductive Call
  | alloc_mem_area (start size flags : Nat)
  | sbrk (increment fuel : Nat)
  | mmap (addr length flags : Nat)
  | munmap (addr length : Nat)
  | fork (child : Bool)
  | map_signal_trampoline (phys : Nat)

def Space.step (s : Space) : Call → Option Space
  | .alloc_mem_area start size flags => Mem.alloc_mem_area s start size flags
  | .sbrk increment fuel => (syscall_sbrk s increment fuel).map Prod.fst
  | .mmap addr length flags => some (syscall_mmap s addr length flags).1
  | .munmap addr length => some (syscall_munmap s addr length).1
  | .fork child => some (Mem.fork s child)
  | .map_signal_trampoline phys => some (Mem.map_signal_trampoline s phys)

end MyOS.Mem
