import MyOS.Elf.Memory
import MyOS.Elf.Reloc

/-!
# 共有ライブラリ（proc/elf.c の `load_shared_library`）

ライブラリを `load_addr` に置き、自分の PLT と GOT を書き換える。`load_elf` は、その後でライブラリの記号を集める。
リンクの番地から実行の番地を作るところを、順に `Use` として残す。`DT_HASH` の値は、ファイルの位置として使われる。

`none` は、カーネルが止まるか、`fuel` 回では終わらないことを表す。`junk k i` は、`k` 番目の `malloc` の、ループの
`i` 回目に得たバッファの、読む前の中身である。
-/

namespace MyOS.Elf
open MyOS.Lib

/-- リンクの番地 `link` を、実行の番地 `run` とした。 -/
structure Use where
  link : Nat
  run : Nat
deriving DecidableEq

/-- 受け付けるライブラリのヘッダ。 -/
def is_library (hdr : Elf32_Ehdr) : Bool := elf_check_file hdr && hdr.e_type = ET_DYN

/-- 最初の `PT_LOAD` の `p_vaddr` と、終わりの最大値を求めるループ。始めの値は −1 と 0 である。 -/
def find_extent (phs : List Elf32_Phdr) : Nat × Nat :=
  (phs.filter is_load).foldl (fun (first_vaddr, max_end) ph =>
    let «end» := add32 ph.p_vaddr ph.p_memsz
    (if first_vaddr = 2 ^ 32 - 1 then ph.p_vaddr else first_vaddr, if «end» > max_end then «end» else max_end))
    (2 ^ 32 - 1, 0)

/-- `PT_LOAD` を順に置くループ。 -/
def load_segments (f : File) (reloc_offset : Nat) : List Elf32_Phdr → Loader → Option (Loader × List Use)
  | [], s => some (s, [])
  | ph :: phs, s => do
      let vaddr := add32 ph.p_vaddr reloc_offset
      let s ← s.load_segment f ph vaddr
      let (s, uses) ← load_segments f reloc_offset phs s
      some (s, ⟨ph.p_vaddr, vaddr⟩ :: uses)

/-- ライブラリの動的セクションから取り出した値。ポインタの 0 は `NULL` である。 -/
structure LibDyn where
  strtab : Nat
  symtab : Nat
  jmprel : Nat
  jmprelsz : Nat
  rel : Nat
  relsz : Nat
  hash_off : Nat
deriving DecidableEq

def LibDyn.null : LibDyn := ⟨0, 0, 0, 0, 0, 0, 0⟩

/-- ポインタの四つの項目だけが、番地を作る。 -/
def pointer_use (tags : List Nat) (base : Nat) (d : Elf32_Dyn) : List Use :=
  if d.d_tag ∈ tags then [⟨d.d_un, add32 d.d_un base⟩] else []

def lib_tags : List Nat := [DT_STRTAB, DT_SYMTAB, DT_JMPREL, DT_REL]

def lib_dyn (base : Nat) (t : LibDyn) (d : Elf32_Dyn) : LibDyn :=
  let ptr := add32 d.d_un base
  if d.d_tag = DT_STRTAB then { t with strtab := ptr }
  else if d.d_tag = DT_SYMTAB then { t with symtab := ptr }
  else if d.d_tag = DT_JMPREL then { t with jmprel := ptr }
  else if d.d_tag = DT_PLTRELSZ then { t with jmprelsz := d.d_un }
  else if d.d_tag = DT_REL then { t with rel := ptr }
  else if d.d_tag = DT_RELSZ then { t with relsz := d.d_un }
  else if d.d_tag = DT_HASH then { t with hash_off := d.d_un }
  else t

/-- 集めた値と、その間に作った番地。 -/
def collect (step : LibDyn → Elf32_Dyn → LibDyn) (tags : List Nat) (base : Nat) (t : LibDyn × List Use)
    (d : Elf32_Dyn) : LibDyn × List Use :=
  (step t.1 d, t.2 ++ pointer_use tags base d)

/-- ハッシュ表の `nchain` を記号の数とする。 -/
def sym_count (f : File) (junk : ByteMem) (hash_off : Nat) : Nat :=
  if hash_off ≠ 0 then (f.read junk hash_off 8).load32 4 else 0

/-- 自分の PLT の一つの項目。 -/
def self_plt (t : LibDyn) (load_addr sym_count : Nat) (s : Loader) (j : Nat) : Option (Loader × List Use) := do
  let r ← s.rel (entry_at t.jmprel Elf32_Rel.size j)
  let sym_idx := ELF32_R_SYM r.r_info
  let loc := add32 r.r_offset load_addr
  if ELF32_R_TYPE r.r_info = R_386_JMP_SLOT ∧ sym_idx ≠ 0 ∧ sym_idx < sym_count then
    let sym ← s.sym (entry_at t.symtab Elf32_Sym.size sym_idx)
    if sym.st_shndx = SHN_UNDEF then some (s, [⟨r.r_offset, loc⟩])
    else
      let sym_val := add32 sym.st_value load_addr
      let s ← s.store32 loc sym_val
      some (s, [⟨r.r_offset, loc⟩, ⟨sym.st_value, sym_val⟩])
  else some (s, [⟨r.r_offset, loc⟩])

/-- 自分の `.rel.dyn` の一つの項目。 -/
def self_rel (t : LibDyn) (load_addr sym_count : Nat) (s : Loader) (j : Nat) : Option (Loader × List Use) := do
  let r ← s.rel (entry_at t.rel Elf32_Rel.size j)
  let type := ELF32_R_TYPE r.r_info
  let sym_idx := ELF32_R_SYM r.r_info
  let loc := add32 r.r_offset load_addr
  if type = R_386_RELATIVE then
    let A ← s.load32 loc
    let s ← s.store32 loc (add32 A load_addr)
    some (s, [⟨r.r_offset, loc⟩, ⟨A, add32 A load_addr⟩])
  else if (type = R_386_GLOB_DAT ∨ type = R_386_JMP_SLOT) ∧ sym_idx ≠ 0 ∧ sym_idx < sym_count ∧ t.symtab ≠ 0 ∧
      t.strtab ≠ 0 then
    let sym ← s.sym (entry_at t.symtab Elf32_Sym.size sym_idx)
    if sym.st_shndx ≠ SHN_UNDEF then
      let s ← s.store32 loc (add32 sym.st_value load_addr)
      some (s, [⟨r.r_offset, loc⟩, ⟨sym.st_value, add32 sym.st_value load_addr⟩])
    else some (s, [⟨r.r_offset, loc⟩])
  else some (s, [⟨r.r_offset, loc⟩])

/-- 始めの `n` 項目を順に処理する。 -/
def self_loop (step : Loader → Nat → Option (Loader × List Use)) : Nat → Loader → Option (Loader × List Use)
  | 0, s => some (s, [])
  | n + 1, s => do
      let (s, uses) ← self_loop step n s
      let (s, more) ← step s n
      some (s, uses ++ more)

/-- 動的セクションを読み、自分の項目を書き換える。 -/
def self_relocate (f : File) (ph : Elf32_Phdr) (load_addr : Nat) (dyns hash : ByteMem) (fuel : Nat) (s : Loader) :
    Option (Loader × List Use) := do
  let (t, uses) ← scan_dyn (collect (lib_dyn load_addr) lib_tags load_addr)
    (f.read dyns ph.p_offset ph.p_filesz) fuel 0 (.null, [])
  let count := sym_count f hash t.hash_off
  let plt := if t.jmprel ≠ 0 ∧ t.jmprelsz ≠ 0 ∧ t.symtab ≠ 0 ∧ t.strtab ≠ 0 ∧ count > 0 then
    t.jmprelsz / Elf32_Rel.size else 0
  let (s, uses₁) ← self_loop (self_plt t load_addr count) plt s
  let rel := if t.rel ≠ 0 ∧ t.relsz ≠ 0 then t.relsz / Elf32_Rel.size else 0
  let (s, uses₂) ← self_loop (self_rel t load_addr count) rel s
  some (s, uses ++ uses₁ ++ uses₂)

/-- 最初の `PT_DYNAMIC` だけを処理するループ。 -/
def relocate_library (f : File) (phs : List Elf32_Phdr) (load_addr : Nat) (dyns hash : ByteMem) (fuel : Nat)
    (s : Loader) : Option (Loader × List Use) :=
  match phs.find? is_dynamic with
  | none => some (s, [])
  | some ph => self_relocate f ph load_addr dyns hash fuel s

/-- 戻り値は、置いたイメージの終わりの番地、失敗なら 0 である。 -/
def load_shared_library (s : Loader) (lib_node : Option File) (load_addr : Nat) (junk : Nat → Nat → ByteMem)
    (fuel : Nat) : Option (Loader × Nat × List Use) :=
  match lib_node with
  | none => some (s, 0, [])
  | some f =>
      let hdr := f.ehdr (junk 0 0)
      if is_library hdr then do
        let (first_vaddr, max_end) := find_extent (f.phdrs hdr (junk 1))
        let (s, uses₁) ← load_segments f (sub32 load_addr first_vaddr) ((f.phdrs hdr (junk 2)).filter is_load) s
        let (s, uses₂) ← relocate_library f (f.phdrs hdr (junk 3)) load_addr (junk 4 0) (junk 5 0) fuel s
        some (s, add32 load_addr (sub32 max_end first_vaddr), uses₁ ++ uses₂)
      else some (s, 0, [])

/-! ## ライブラリの記号 -/

def export_tags : List Nat := [DT_STRTAB, DT_SYMTAB]

def export_dyn (base : Nat) (t : LibDyn) (d : Elf32_Dyn) : LibDyn :=
  if d.d_tag = DT_STRTAB then { t with strtab := add32 d.d_un base }
  else if d.d_tag = DT_SYMTAB then { t with symtab := add32 d.d_un base }
  else if d.d_tag = DT_HASH then { t with hash_off := d.d_un }
  else t

/-- `k` 番目から `n` 個の記号を調べ、定義された大域の記号を、256 個まで表に加える。 -/
def export_loop (s : Loader) (t : LibDyn) (base : Nat) : Nat → Nat → List SymEntry → Option (List SymEntry × List Use)
  | 0, _, globals => some (globals, [])
  | n + 1, k, globals => do
      let sym ← s.sym (entry_at t.symtab Elf32_Sym.size k)
      if sym.st_shndx = SHN_UNDEF then export_loop s t base n (k + 1) globals
      else if ELF32_ST_BIND sym.st_info ≠ STB_GLOBAL ∧ ELF32_ST_BIND sym.st_info ≠ STB_WEAK then
        export_loop s t base n (k + 1) globals
      else if globals.length < 256 then
        let addr := add32 sym.st_value base
        let (globals, uses) ←
          export_loop s t base n (k + 1) (globals ++ [⟨add32 t.strtab sym.st_name, addr, add32_lt⟩])
        some (globals, ⟨sym.st_value, addr⟩ :: uses)
      else export_loop s t base n (k + 1) globals

/-- ライブラリの動的セクションをもう一度読み、記号を集める。 -/
def export_symbols (s : Loader) (f : File) (base : Nat) (junk : Nat → Nat → ByteMem) (fuel : Nat)
    (globals : List SymEntry) : Option (List SymEntry × List Use) :=
  let hdr := f.ehdr (junk 0 0)
  match (f.phdrs hdr (junk 1)).find? is_dynamic with
  | none => some (globals, [])
  | some ph => do
      let (t, uses) ← scan_dyn (collect (export_dyn base) export_tags base)
        (f.read (junk 2 0) ph.p_offset ph.p_filesz) fuel 0 (.null, [])
      let count := sym_count f (junk 3 0) t.hash_off
      if t.symtab ≠ 0 ∧ t.strtab ≠ 0 ∧ count > 0 then
        let (globals, more) ← export_loop s t base (count - 1) 1 globals
        some (globals, uses ++ more)
      else some (globals, uses)

/-!
## ライブラリの読み込み（proc/elf.c の `load_elf`）

動的セクションに `DT_NEEDED` があれば、その名前のライブラリを順に読む。なければ `libc.so` を読む。どちらの道でも、
読んだライブラリの記号を `global_syms` に集める。
-/

/-- `/lib/` -/
def LIB_DIR : List UInt8 := [0x2F, 0x6C, 0x69, 0x62, 0x2F]

/-- `libc.so` -/
def LIBC_NAME : List UInt8 := [0x6C, 0x69, 0x62, 0x63, 0x2E, 0x73, 0x6F]

/-- パスの名前の部分は、249 バイトまでである。 -/
def LIB_NAME_MAX : Nat := 249

/-- 文字列を `n` バイトまで読む。 -/
def Loader.name (s : Loader) : Nat → Nat → Option (List UInt8)
  | 0, a => if s.mapped a 1 then some [] else none
  | n + 1, a =>
      if s.mapped a 1 then
        if s.mem a = 0 then some [] else (s.name n (add32 a 1)).map (s.mem a :: ·)
      else none

/-- `libs` は、読んだライブラリのパスと置いた番地である。 -/
structure Linked where
  s : Loader
  next_lib_base : Nat
  globals : List SymEntry
  libs : List (List UInt8 × Nat)

def Linked.init (s : Loader) : Linked := ⟨s, SHLIB_BASE, [], []⟩

section

variable (files : List UInt8 → Option File) (junk : Nat → Nat → Nat → ByteMem) (fuel : Nat)

/-- `n` 番目の `DT_NEEDED`。`files` は、パスの通常のファイルを探す。 -/
def load_needed (dyn_strtab : Nat) (n : Nat) (l : Linked) (d_val : Nat) : Option Linked := do
  let name ← l.s.name LIB_NAME_MAX (add32 dyn_strtab d_val)
  let lib_path := LIB_DIR ++ name
  let lib_base := l.next_lib_base
  let (s, lib_top, _) ← load_shared_library l.s (files lib_path) lib_base (junk (2 * n)) fuel
  if lib_top = 0 then some { l with s }
  else
    let libs := if l.libs.length < 16 then l.libs ++ [(lib_path, lib_base)] else l.libs
    let next_lib_base := add32 lib_top 0xFFF / 4096 * 4096
    match files lib_path with
    | none => some ⟨s, next_lib_base, l.globals, libs⟩
    | some f =>
        (export_symbols s f lib_base (junk (2 * n + 1)) fuel l.globals).map fun (globals, _) =>
          ⟨s, next_lib_base, globals, libs⟩

def load_all_needed (dyn_strtab : Nat) : Nat → List Nat → Linked → Option Linked
  | _, [], l => some l
  | n, d_val :: needed, l => do
      let l ← load_needed files junk fuel dyn_strtab n l d_val
      load_all_needed dyn_strtab (n + 1) needed l

/-- `DT_NEEDED` がないときの `libc.so`。 -/
def load_default (s : Loader) : Option Linked := do
  let (s, lib_base, _) ← load_shared_library s (files (LIB_DIR ++ LIBC_NAME)) SHLIB_BASE (junk 0) fuel
  if lib_base ≠ 0 then
    match files (LIB_DIR ++ LIBC_NAME) with
    | none => some (.init s)
    | some f => (export_symbols s f lib_base (junk 1) fuel []).map fun (globals, _) => ⟨s, SHLIB_BASE, globals, []⟩
  else some (.init s)

/-- `needed` は 16 個までの `DT_NEEDED` の値である。 -/
def load_libraries (dyn_strtab : Nat) (needed : List Nat) (s : Loader) : Option Linked := do
  let l ← load_all_needed files junk fuel dyn_strtab 0 needed (.init s)
  if needed = [] then load_default files junk fuel l.s else some l

end

/-! ## 二つの道の一致 -/

/-- 名前の記号の番地。 -/
def Linked.addr (l : Linked) (sym_name : Nat) : Option Nat := (find_global l.s.mem l.globals sym_name).map SymEntry.addr

/-- `libc.so` の記号は、もう一つの道でも同じ番地になり、どのアプリの語も同じに書き換わる。 -/
structure Agree (l l' : Linked) : Prop where
  addr : ∀ sym_name a, l.addr sym_name = some a → l'.addr sym_name = some a
  words : ∀ d m, rel_dyn d l.globals m = rel_dyn d l'.globals m ∧ rel_plt d l.globals m = rel_plt d l'.globals m

/-- 最初の `PT_LOAD` から終わりまでの大きさ。 -/
def image_size (f : File) (junk : Nat → Nat → ByteMem) : Nat :=
  let (first_vaddr, max_end) := find_extent (f.phdrs (f.ehdr (junk 0 0)) (junk 1))
  sub32 max_end first_vaddr

end MyOS.Elf
