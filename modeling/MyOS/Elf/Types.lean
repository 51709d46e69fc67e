import MyOS.Lib.Bytes

/-!
# ELF の形（proc/elf.h）

構造体はメモリのバイトから、リトルエンディアンで読む。番地の計算は 32 ビットで折り返す。
-/

namespace MyOS.Elf
open MyOS.Lib

def ET_DYN : Nat := 3

def PT_LOAD : Nat := 1
def PT_DYNAMIC : Nat := 2

def DT_NULL : Nat := 0
def DT_NEEDED : Nat := 1
def DT_PLTRELSZ : Nat := 2
def DT_HASH : Nat := 4
def DT_STRTAB : Nat := 5
def DT_SYMTAB : Nat := 6
def DT_REL : Nat := 17
def DT_RELSZ : Nat := 18
def DT_JMPREL : Nat := 23

def STB_GLOBAL : Nat := 1
def STB_WEAK : Nat := 2
def SHN_UNDEF : Nat := 0

def R_386_32 : Nat := 1
def R_386_PC32 : Nat := 2
def R_386_GLOB_DAT : Nat := 6
def R_386_JMP_SLOT : Nat := 7
def R_386_RELATIVE : Nat := 8

/-- 共有ライブラリの置き場所。 -/
def SHLIB_BASE : Nat := 0x40000000

/-- 2 バイトをリトルエンディアンで読む。 -/
def load16 (m : ByteMem) (a : Nat) : Nat := (m a).toNat + 256 * (m (a + 1)).toNat

/-- 使わない欄は省く。 -/
structure Elf32_Ehdr where
  e_ident : Nat → UInt8
  e_type : Nat
  e_machine : Nat
  e_entry : Nat
  e_phoff : Nat
  e_phentsize : Nat
  e_phnum : Nat

def Elf32_Ehdr.size : Nat := 52

def Elf32_Ehdr.read (m : ByteMem) (a : Nat) : Elf32_Ehdr :=
  ⟨fun i => m (a + i), load16 m (a + 16), load16 m (a + 18), m.load32 (a + 24), m.load32 (a + 28), load16 m (a + 42),
    load16 m (a + 44)⟩

structure Elf32_Phdr where
  p_type : Nat
  p_offset : Nat
  p_vaddr : Nat
  p_filesz : Nat
  p_memsz : Nat
  p_flags : Nat
deriving DecidableEq

def Elf32_Phdr.size : Nat := 32

def Elf32_Phdr.read (m : ByteMem) (a : Nat) : Elf32_Phdr :=
  ⟨m.load32 a, m.load32 (a + 4), m.load32 (a + 8), m.load32 (a + 16), m.load32 (a + 20), m.load32 (a + 24)⟩

/-- `d_un` は、`d_val` と `d_ptr` のどちらとしても読む。 -/
structure Elf32_Dyn where
  d_tag : Nat
  d_un : Nat
deriving DecidableEq

def Elf32_Dyn.size : Nat := 8

def Elf32_Dyn.read (m : ByteMem) (a : Nat) : Elf32_Dyn := ⟨m.load32 a, m.load32 (a + 4)⟩

structure Elf32_Sym where
  st_name : Nat
  st_value : Nat
  st_info : UInt8
  st_shndx : Nat
deriving DecidableEq

def Elf32_Sym.size : Nat := 16

def Elf32_Sym.read (m : ByteMem) (a : Nat) : Elf32_Sym :=
  ⟨m.load32 a, m.load32 (a + 4), m (a + 12), load16 m (a + 14)⟩

def ELF32_ST_BIND (info : UInt8) : Nat := info.toNat / 16

structure Elf32_Rel where
  r_offset : Nat
  r_info : Nat
deriving DecidableEq

def Elf32_Rel.size : Nat := 8

def Elf32_Rel.read (m : ByteMem) (a : Nat) : Elf32_Rel := ⟨m.load32 a, m.load32 (a + 4)⟩

def ELF32_R_SYM (info : Nat) : Nat := info / 2 ^ 8
def ELF32_R_TYPE (info : Nat) : Nat := info % 2 ^ 8

/-- 表 `a` の `k` 番目の要素の番地。 -/
def entry_at (a size k : Nat) : Nat := add32 a (size * k)

/-! ## ヘッダの検査 -/

def elf_check_file (hdr : Elf32_Ehdr) : Bool :=
  hdr.e_ident 0 = 0x7F && hdr.e_ident 1 = 'E'.toUInt8 && hdr.e_ident 2 = 'L'.toUInt8 && hdr.e_ident 3 = 'F'.toUInt8

/-- 通常のファイル。内容は、メモリの中の `size` バイトである。 -/
structure File where
  bytes : ByteMem
  size : Nat
  word : size < 2 ^ 32

/-- `seek_fs` で `off` へ動いてから `n` バイトを頼んだとき、`initrd_read_fs` が読む量。 -/
def File.count (f : File) (off n : Nat) : Nat :=
  if off ≥ f.size then 0 else if add32 off n > f.size then f.size - off else n

/-- `malloc` したバッファへ読んだ後の中身。読まなかったところは、前の中身 `junk` のままである。 -/
def File.read (f : File) (junk : ByteMem) (off n : Nat) : ByteMem :=
  fun i => if i < f.count off n then f.bytes (add32 off i) else junk i

def File.ehdr (f : File) (junk : ByteMem) : Elf32_Ehdr := .read (f.read junk 0 Elf32_Ehdr.size) 0

/-- `i` 番目のプログラムヘッダを読む。 -/
def File.phdr (f : File) (hdr : Elf32_Ehdr) (junk : ByteMem) (i : Nat) : Elf32_Phdr :=
  .read (f.read junk (add32 hdr.e_phoff (i * hdr.e_phentsize)) Elf32_Phdr.size) 0

/-- プログラムヘッダの列。 -/
def File.phdrs (f : File) (hdr : Elf32_Ehdr) (junk : Nat → ByteMem) : List Elf32_Phdr :=
  (List.range hdr.e_phnum).map fun i => f.phdr hdr (junk i) i

def is_load (ph : Elf32_Phdr) : Bool := ph.p_type = PT_LOAD
def is_dynamic (ph : Elf32_Phdr) : Bool := ph.p_type = PT_DYNAMIC

end MyOS.Elf
