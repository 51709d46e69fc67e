import MyOS.Lib.CString
import MyOS.Proc.Syscalls

/-!
# `exec` の引数

シェルの `run_stage` がコマンド行をつなぎ、`syscall_exec` が分け、`load_program` が新しいスタックに積む。
コマンド行の配列 `cmdline` は、どちらの側のものも 0 から始まる別のメモリとする。
-/

namespace MyOS.Proc
open MyOS.Lib

def LINE_MAX : Nat := 256

/-- `cmdline[pos++] = c`。配列を越える書き込みは `none`。 -/
def put_cmdline (b : ByteMem) (pos : Nat) (c : UInt8) : Option (ByteMem × Nat) :=
  if pos < LINE_MAX then some (b.store8 pos c, pos + 1) else none

/-- `while (args[i][j]) cmdline[pos++] = args[i][j++]`。配列を越えるまでに止まる。 -/
def copy_arg (m : ByteMem) : Nat → Nat → ByteMem → Nat → Option (ByteMem × Nat)
  | 0, _, _, _ => none
  | n + 1, src, b, pos =>
    if m src = 0 then some (b, pos)
    else (put_cmdline b pos (m src)).bind fun (b, pos) => copy_arg m n (src + 1) b pos

def join_args (m : ByteMem) (i : Nat) : List Nat → ByteMem → Nat → Option (ByteMem × Nat)
  | [], b, pos => some (b, pos)
  | arg :: args, b, pos => do
    let (b, pos) ← if 0 < i then put_cmdline b pos SPACE else some (b, pos)
    let (b, pos) ← copy_arg m (LINE_MAX + 1) arg b pos
    join_args m (i + 1) args b pos

/-- `run_stage` が `exec` に渡すコマンド行。`b` は配列の初めの内容である。 -/
def run_stage_cmdline (m : ByteMem) (args : List Nat) (b : ByteMem) : Option ByteMem := do
  let (b, pos) ← join_args m 0 args b 0
  let (b, _) ← put_cmdline b pos 0
  return b

/-- 255 バイトまでを写す。 -/
def copy_cmdline (user : ByteMem) (cmdline_user : Nat) : Nat → Nat → ByteMem → ByteMem × Nat
  | 0, len, b => (b, len)
  | n + 1, len, b =>
    if user (cmdline_user + len) = 0 then (b, len)
    else copy_cmdline user cmdline_user n (len + 1) (b.store8 len (user (cmdline_user + len)))

def skip_spaces (m : ByteMem) (p : Nat) : Option Nat := scan (· == SPACE) m LINE_MAX p

def skip_word (m : ByteMem) (p : Nat) : Option Nat := scan (fun c => c != 0 && c != SPACE) m LINE_MAX p

/-- `n` は `argv` の残りの数である。 -/
def split_args : Nat → Nat → ByteMem → List Nat → Option (ByteMem × List Nat)
  | 0, _, m, argv => some (m, argv)
  | n + 1, p, m, argv =>
    if m p = 0 then some (m, argv)
    else do
      let e ← skip_word m p
      if m e = 0 then split_args n e m (argv ++ [p])
      else
        let m := m.store8 e 0
        let q ← skip_spaces m (e + 1)
        split_args n q m (argv ++ [p])

/-- `syscall_exec` が `argv` に分けるまで。`b` は配列の初めの内容である。 -/
def exec_argv (user : ByteMem) (cmdline_user : Nat) (b : ByteMem) : Option (ByteMem × List Nat) := do
  let (b, len) := copy_cmdline user cmdline_user 255 0 b
  let b := b.store8 len 0
  let p ← skip_spaces b 0
  split_args 15 p b []

/-- NUL までの、長くても `n` 個のバイト。 -/
def take_bytes (m : ByteMem) : Nat → Nat → List UInt8
  | 0, _ => []
  | n + 1, a => if m a = 0 then [] else m a :: take_bytes m n (a + 1)

/-- `/bin/<argv[0]>.bin`。 -/
def exec_path (b : ByteMem) (argv0 : Nat) : List UInt8 :=
  [0x2F, 0x62, 0x69, 0x6E, 0x2F] ++ take_bytes b 118 argv0 ++ [0x2E, 0x62, 0x69, 0x6E]

/-- パスの先頭から取った `proc_name`。 -/
def exec_name (path : List UInt8) : List UInt8 := path.take 19

/-- コマンド行と `proc_name` を加えた `syscall_exec`。`b` は `cmdline` の初めの内容、`load` は
    `load_program` の結果である。 -/
def exec_call (K : Kernel) (names : Nat → List UInt8) (i : Nat) (user b : ByteMem)
    (load : List UInt8 → List Nat → Option Image) (env : Env) (r : Regs) : Option Outcome × (Nat → List UInt8) :=
  match exec_argv user r.ebx b with
  | none => (none, names)
  | some (_, []) => (syscall_exec K i { env with args := false } r, names)
  | some (b, argv0 :: argv) =>
    let path := exec_path b argv0
    (syscall_exec K i { env with args := true, load := load path (argv0 :: argv) } r,
      fun j => if j = i then exec_name path else names j)

/-- `& ~3`。 -/
def align4 (a : Nat) : Nat := a / 4 * 4

def total_str_len (b : ByteMem) : List Nat → Nat → Option Nat
  | [], total => some total
  | s :: argv, total => do
    let e ← scan (· != 0) b (2 ^ 32) s
    total_str_len b argv (add32 total (e - s + 1))

/-- 文字列を `str_off` から、その番地を `ustack` から順に置く。 -/
def push_args (b : ByteMem) : List Nat → Nat → Nat → ByteMem → Option ByteMem
  | [], _, _, m => some m
  | s :: argv, ustack, str_off, m => do
    let m := m.store32 ustack str_off
    let e ← scan (· != 0) b (2 ^ 32) s
    let slen := e - s + 1
    push_args b argv (add32 ustack 4) (add32 str_off slen) (m.copyFrom str_off b s slen)

/-- `load_elf` の後の `load_program`。`m` は新しい空間のメモリで、`esp` も返す。 -/
def load_program_args (b : ByteMem) (argv : List Nat) (m : ByteMem) : Option (ByteMem × Nat) := do
  let argc := argv.length
  let stack_top := USER_STACK_TOP - 16
  let total ← total_str_len b argv 0
  let str_area := align4 (sub32 stack_top total)
  let esp := align4 (sub32 str_area (mul32 (argc + 3) 4))
  let m := m.store32 esp argc
  let m ← push_args b argv (add32 esp 4) str_area m
  let m := m.store32 (add32 esp (4 * (1 + argc))) 0
  let m := m.store32 (add32 esp (4 * (2 + argc))) 0
  return (m, esp)

/-- `crt0` が読むスタック。`esp` に語の数、続いて順に語を指す番地、二つの 0 があり、文字列は番地の並びの
    上にある。どれも `USER_STACK_TOP` の下の 4 ページに入る。 -/
structure ArgStack (m : ByteMem) (esp : Nat) (words : List (List UInt8)) : Prop where
  argc : m.load32 esp = words.length
  argv : ∀ k (h : k < words.length), CStr m (m.load32 (esp + 4 * (k + 1))) words[k]
  null : m.load32 (esp + 4 * (words.length + 1)) = 0 ∧ m.load32 (esp + 4 * (words.length + 2)) = 0
  above : ∀ k < words.length, esp + 4 * (words.length + 3) ≤ m.load32 (esp + 4 * (k + 1))
  order : ∀ j k (h : k < words.length) (hjk : j < k),
    m.load32 (esp + 4 * (j + 1)) + words[j].length + 1 ≤ m.load32 (esp + 4 * (k + 1))
  bottom : USER_STACK_TOP - 4 * 4096 ≤ esp
  top : ∀ k (h : k < words.length), m.load32 (esp + 4 * (k + 1)) + words[k].length + 1 ≤ USER_STACK_TOP

end MyOS.Proc
