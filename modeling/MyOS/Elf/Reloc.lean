import MyOS.Elf.Types

/-!
# アプリの再配置（proc/elf.c の `load_elf`）

`.rel.dyn` と `.rel.plt` の項目を、ライブラリから集めた記号の表で順に解決する。どちらの表も、書き換えている途中の
メモリから読む。
-/

namespace MyOS.Elf
open MyOS.Lib

/-- `global_syms` の一つの項目。`name` は名前の番地である。 -/
structure SymEntry where
  name : Nat
  addr : Nat
  word : addr < 2 ^ 32

/-- 二つの文字列を `n` バイトまで比べる。 -/
def same_string (m : ByteMem) : Nat → Nat → Nat → Bool
  | 0, _, _ => false
  | n + 1, a, b => m a = m b && (m a = 0 || same_string m n (add32 a 1) (add32 b 1))

/-- `strcmp(a, b) == 0`。番地は一周で尽きるので、それより長くは続かない。 -/
def strcmp_eq (m : ByteMem) (a b : Nat) : Bool := same_string m (2 ^ 32) a b

/-- `global_syms` から名前を探すループ。 -/
def find_global (m : ByteMem) (globals : List SymEntry) (sym_name : Nat) : Option SymEntry :=
  globals.find? fun g => strcmp_eq m g.name sym_name

/-- アプリの動的セクションから取り出した値。ポインタの 0 は `NULL` である。 -/
structure AppDyn where
  strtab : Nat
  symtab : Nat
  rel : Nat
  relsz : Nat
  jmprel : Nat
  jmprelsz : Nat

/-- `app_reloc_offset`。アプリはリンクの番地に置かれる。 -/
def app_reloc_offset : Nat := 0

/-- `dyn_symtab[sym_idx]`。 -/
def AppDyn.sym (d : AppDyn) (m : ByteMem) (sym_idx : Nat) : Elf32_Sym :=
  .read m (entry_at d.symtab Elf32_Sym.size sym_idx)

/-- `dyn_strtab + dyn_symtab[sym_idx].st_name`。 -/
def AppDyn.sym_name (d : AppDyn) (m : ByteMem) (sym_idx : Nat) : Nat := add32 d.strtab (d.sym m sym_idx).st_name

/-- `dyn_symtab && dyn_strtab && sym_idx != 0`。 -/
def AppDyn.has_sym (d : AppDyn) (sym_idx : Nat) : Bool := d.symtab ≠ 0 && d.strtab ≠ 0 && sym_idx ≠ 0

/-- `R_386_32` と `R_386_PC32` の記号の値。表になければ、アプリの記号の値を使う。 -/
def sym_or_own (d : AppDyn) (globals : List SymEntry) (m : ByteMem) (sym_idx : Nat) : Nat :=
  match find_global m globals (d.sym_name m sym_idx) with
  | some g => g.addr
  | none => add32 (d.sym m sym_idx).st_value app_reloc_offset

/-- `R_386_GLOB_DAT` と `R_386_JMP_SLOT` の記号の値。表になければ 0 である。 -/
def sym_or_zero (d : AppDyn) (globals : List SymEntry) (m : ByteMem) (sym_idx : Nat) : Nat :=
  match find_global m globals (d.sym_name m sym_idx) with
  | some g => g.addr
  | none => 0

/-- `R_386_GLOB_DAT` と `R_386_JMP_SLOT` の書き込み。 -/
def write_slot (d : AppDyn) (globals : List SymEntry) (m : ByteMem) (loc sym_idx : Nat) : ByteMem :=
  if d.has_sym sym_idx then
    let sym_val := sym_or_zero d globals m sym_idx
    if sym_val ≠ 0 then m.store32 loc sym_val else m
  else m

/-- `.rel.dyn` の一つの項目。 -/
def apply_rel (d : AppDyn) (globals : List SymEntry) (m : ByteMem) (j : Nat) : ByteMem :=
  let r := Elf32_Rel.read m (entry_at d.rel Elf32_Rel.size j)
  let type := ELF32_R_TYPE r.r_info
  let sym_idx := ELF32_R_SYM r.r_info
  let loc := r.r_offset
  if type = R_386_RELATIVE then m.store32 loc (add32 (m.load32 loc) app_reloc_offset)
  else if type = R_386_32 then
    if d.has_sym sym_idx then m.store32 loc (sym_or_own d globals m sym_idx) else m
  else if type = R_386_PC32 then
    if d.has_sym sym_idx then
      m.store32 loc (sub32 (add32 (sym_or_own d globals m sym_idx) (m.load32 loc)) loc)
    else m
  else if type = R_386_GLOB_DAT ∨ type = R_386_JMP_SLOT then write_slot d globals m loc sym_idx
  else m

/-- `.rel.plt` の一つの項目。 -/
def apply_plt (d : AppDyn) (globals : List SymEntry) (m : ByteMem) (j : Nat) : ByteMem :=
  let r := Elf32_Rel.read m (entry_at d.jmprel Elf32_Rel.size j)
  if ELF32_R_TYPE r.r_info = R_386_JMP_SLOT then write_slot d globals m r.r_offset (ELF32_R_SYM r.r_info) else m

/-- 始めの `n` 項目を順に処理する。 -/
def run_entries (step : ByteMem → Nat → ByteMem) : Nat → ByteMem → ByteMem
  | 0, m => m
  | n + 1, m => step (run_entries step n m) n

def AppDyn.rel_count (d : AppDyn) : Nat := if d.rel ≠ 0 ∧ d.relsz ≠ 0 then d.relsz / Elf32_Rel.size else 0
def AppDyn.plt_count (d : AppDyn) : Nat := if d.jmprel ≠ 0 ∧ d.jmprelsz ≠ 0 then d.jmprelsz / Elf32_Rel.size else 0

def rel_dyn (d : AppDyn) (globals : List SymEntry) (m : ByteMem) : ByteMem :=
  run_entries (apply_rel d globals) d.rel_count m

def rel_plt (d : AppDyn) (globals : List SymEntry) (m : ByteMem) : ByteMem :=
  run_entries (apply_plt d globals) d.plt_count m

/-! ## 再配置の式 -/

/-- 記号の値 `S`。ライブラリの記号が先で、なければアプリが定義する記号の値である。 -/
def resolve (d : AppDyn) (globals : List SymEntry) (m : ByteMem) (sym_idx : Nat) : Option Nat :=
  if d.has_sym sym_idx then
    match find_global m globals (d.sym_name m sym_idx) with
    | some g => some g.addr
    | none => if (d.sym m sym_idx).st_shndx = SHN_UNDEF then none else some (d.sym m sym_idx).st_value
  else none

/-- `loc` の語に式の値を書く。解決できない記号の項目は、何も書き換えない。アプリの基準の番地 `B` は 0 である。 -/
def formula (d : AppDyn) (globals : List SymEntry) (m : ByteMem) (j : Nat) : ByteMem :=
  let r := Elf32_Rel.read m (entry_at d.rel Elf32_Rel.size j)
  let P := r.r_offset
  let A := m.load32 P
  let type := ELF32_R_TYPE r.r_info
  if type = R_386_RELATIVE then m.store32 P (add32 0 A)
  else
    match resolve d globals m (ELF32_R_SYM r.r_info) with
    | none => m
    | some S =>
        if type = R_386_32 then m.store32 P (add32 S A)
        else if type = R_386_PC32 then m.store32 P (sub32 (add32 S A) P)
        else if type = R_386_GLOB_DAT ∨ type = R_386_JMP_SLOT then m.store32 P S
        else m

/-- どの項目の処理も、その前のメモリに式を当てはめたものになる。 -/
def RelDynOk (d : AppDyn) (globals : List SymEntry) (m : ByteMem) : Prop :=
  ∀ j, j < d.rel_count →
    run_entries (apply_rel d globals) (j + 1) m = formula d globals (run_entries (apply_rel d globals) j m) j

/-! ## 条件 -/

/-- ライブラリの記号で解決する。 -/
def Global (d : AppDyn) (globals : List SymEntry) (m : ByteMem) (sym_idx S : Nat) : Prop :=
  d.has_sym sym_idx = true ∧ ∃ g, find_global m globals (d.sym_name m sym_idx) = some g ∧ g.addr = S

/-- ライブラリの記号にはなく、アプリの記号の表だけにある。 -/
def Own (d : AppDyn) (globals : List SymEntry) (m : ByteMem) (sym_idx : Nat) : Prop :=
  d.has_sym sym_idx = true ∧ find_global m globals (d.sym_name m sym_idx) = none

/-- 項目 `j` のメモリ `m` について、`A` は書き換える前の語である。
    `R_386_32` は、解決できれば `A` が 0 であり、できなければ `A` がすでに記号の値である。
    `R_386_PC32` は、解決できるか、記号の値が場所の番地である。
    `R_386_GLOB_DAT` と `R_386_JMP_SLOT` は、値が 0 の記号とアプリの定義する記号について、`A` がすでに記号の値である。 -/
structure EntryOk (d : AppDyn) (globals : List SymEntry) (m : ByteMem) (type loc sym_idx : Nat) : Prop where
  abs : type = R_386_32 → (∀ S, resolve d globals m sym_idx = some S → m.load32 loc = 0) ∧
    (Own d globals m sym_idx → (d.sym m sym_idx).st_shndx = SHN_UNDEF → m.load32 loc = (d.sym m sym_idx).st_value)
  pc : type = R_386_PC32 → Own d globals m sym_idx → (d.sym m sym_idx).st_shndx = SHN_UNDEF →
    (d.sym m sym_idx).st_value = loc
  slot : type = R_386_GLOB_DAT ∨ type = R_386_JMP_SLOT → (Global d globals m sym_idx 0 → m.load32 loc = 0) ∧
    (Own d globals m sym_idx → (d.sym m sym_idx).st_shndx ≠ SHN_UNDEF → m.load32 loc = (d.sym m sym_idx).st_value)

/-- 式を順に当てはめていくとき、どの項目でも条件が成り立つ。 -/
def EntriesOk (d : AppDyn) (globals : List SymEntry) (m : ByteMem) : Prop :=
  ∀ j, j < d.rel_count →
    let m := run_entries (formula d globals) j m
    let r := Elf32_Rel.read m (entry_at d.rel Elf32_Rel.size j)
    EntryOk d globals m (ELF32_R_TYPE r.r_info) r.r_offset (ELF32_R_SYM r.r_info)

end MyOS.Elf
