import MyOS.Elf.Types
import MyOS.Mem.Vmm
import MyOS.Proc.Process

/-!
# 読み込み先のメモリ

読み込みは、プロセスのディレクトリのもとで利用者の番地へ直接に書く。写していないページに触れると、カーネルは止まる。
ライブラリの読み込みは `Loader` の見るメモリの上で、アプリの読み込みは物理メモリの上で述べる。二つの書き込みの対応は
`Seen` が示す。
-/

namespace MyOS.Elf
open MyOS.Lib MyOS.Mem

def VMA_EXEC : Nat := 0x4
/-- CPU が今のディレクトリで番地を変換した先。`none` はページフォールトである。 -/
def translate (m : Phys) (virt : Nat) : Option Nat :=
  let page := m.ram.load32 (pte_at m.ram m.cur_page_dir (pd_index virt) (pt_index virt))
  if present (pde m.ram m.cur_page_dir (pd_index virt)) && present page then some (page_addr page + virt % 4096)
  else none

/-- `p_flags` から領域の旗を作る。 -/
def segment_flags (ph : Elf32_Phdr) : Nat :=
  let flags := VMA_USER
  let flags := if ph.p_flags.testBit 0 then flags ||| VMA_EXEC else flags
  let flags := if ph.p_flags.testBit 1 then flags ||| VMA_WRITE else flags
  if ph.p_flags.testBit 2 then flags ||| VMA_READ else flags

/-- `space` はプロセスのページと領域、`mem` は今のディレクトリで見えるメモリである。まだ写していないページのバイトは、
    これから写すブロックの中身を表す。ページ表とファイルは、書き込みで壊れないとする。 -/
structure Loader where
  space : Space
  mem : ByteMem

namespace Loader

/-- `a` から `n` バイトのページがどれもある。 -/
def mapped (s : Loader) (a : Nat) : Nat → Bool
  | 0 => true
  | n + 1 => (translate s.space.phys a).isSome && s.mapped (add32 a 1) n

def load32 (s : Loader) (a : Nat) : Option Nat := if s.mapped a 4 then some (s.mem.load32 a) else none

def store32 (s : Loader) (a v : Nat) : Option Loader :=
  if s.mapped a 4 then some { s with mem := s.mem.store32 a v } else none

def sym (s : Loader) (a : Nat) : Option Elf32_Sym :=
  if s.mapped a Elf32_Sym.size then some (.read s.mem a) else none

def rel (s : Loader) (a : Nat) : Option Elf32_Rel :=
  if s.mapped a Elf32_Rel.size then some (.read s.mem a) else none

/-- `dst` から残り `n` バイトを書くループ。`i` 番目のバイトは `byte i` である。 -/
def write (byte : Nat → UInt8) (dst : Nat) : Nat → Nat → ByteMem → ByteMem
  | 0, _, m => m
  | n + 1, i, m => write byte dst n (i + 1) (m.store8 (add32 dst i) (byte i))

/-- ファイルの `off` から `n` バイトを `dst` へ読む。 -/
def read_fs (s : Loader) (f : File) (off n dst : Nat) : Option Loader :=
  if s.mapped dst (f.count off n) then
    some { s with mem := write (fun i => f.bytes (add32 off i)) dst (f.count off n) 0 s.mem }
  else none

/-- `memset(dst, 0, count)`。`count` は `int` なので、`2^31` からは負の数になり、何も書かない。 -/
def memset (s : Loader) (dst count : Nat) : Option Loader :=
  if count < 2 ^ 31 then
    if s.mapped dst count then some { s with mem := write (fun _ => 0) dst count 0 s.mem } else none
  else some s

/-- `PT_LOAD` の一つを `vaddr` に置く。 -/
def load_segment (s : Loader) (f : File) (ph : Elf32_Phdr) (vaddr : Nat) : Option Loader := do
  let space ← alloc_mem_area s.space vaddr ph.p_memsz (segment_flags ph)
  let s ← read_fs { s with space } f ph.p_offset ph.p_filesz vaddr
  if ph.p_memsz > ph.p_filesz then s.memset (add32 vaddr ph.p_filesz) (ph.p_memsz - ph.p_filesz) else some s

end Loader

/-- `d_tag` が `DT_NULL` になるまで、`k` 番目から項目を順に処理する。バッファの終わりは調べない。`none` は、`fuel` 回では
    終わらないことを表す。 -/
def scan_dyn {α : Type} (step : α → Elf32_Dyn → α) (dyns : ByteMem) : Nat → Nat → α → Option α
  | 0, _, _ => none
  | fuel + 1, k, t =>
      let d := Elf32_Dyn.read dyns (entry_at 0 Elf32_Dyn.size k)
      if d.d_tag = DT_NULL then some t else scan_dyn step dyns fuel (add32 k 1) (step t d)

/-!
## アプリの読み込み（proc/elf.c の `load_elf`）

`PT_LOAD` を順に割り当てて読み、スタックとヒープを加え、最初の枠を作る。`PT_DYNAMIC` の処理は `link` とする。
-/

/-- 利用者の番地へ一バイト書く。 -/
def user_store (m : Phys) (virt : Nat) (v : UInt8) : Option Phys :=
  (translate m virt).map fun a => { m with ram := m.ram.store8 a v }

/-- `dst` から残り `n` バイトを書くループ。`i` 番目のバイトは `byte i` である。 -/
def user_write (byte : Nat → UInt8) (dst : Nat) : Nat → Nat → Phys → Option Phys
  | 0, _, m => some m
  | n + 1, i, m => (user_store m (add32 dst i) (byte i)).bind (user_write byte dst n (i + 1))

/-- ファイルの `off` から `n` バイトを `dst` へ読む。 -/
def user_read_fs (m : Phys) (f : File) (off n dst : Nat) : Option Phys :=
  user_write (fun i => f.bytes (add32 off i)) dst (f.count off n) 0 m

/-- `memset(dst, 0, count)`。`count` は `int` である。 -/
def user_memset (m : Phys) (dst count : Nat) : Option Phys :=
  if count < 2 ^ 31 then user_write (fun _ => 0) dst count 0 m else some m

end MyOS.Elf
