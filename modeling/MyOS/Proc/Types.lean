import MyOS.Mem.Virt

/-!
# プロセス表の型

`process.h`、`isr.h`、`vfs.h`、`pipe.h` の構造体のうち、プロセス、信号、開いたファイルに関わるもの。
表の添字とノードの番号でポインタを表す。
-/

namespace MyOS.Proc

export Mem (KERNEL_VIRTUAL_BASE USER_CODE_BASE)

def MAX_PROCESSES : Nat := 10
def MAX_FILES : Nat := 32
def NSIG : Nat := 32
def PIPE_BUF_SIZE : Nat := 4096
def PIT_FREQ_HZ : Nat := 18
def USER_STACK_TOP : Nat := 0xA0000000

def SIG_DFL : Nat := 0
def SIG_IGN : Nat := 1
def SIGINT : Nat := 2
def SIGKILL : Nat := 9
def SIGSTOP : Nat := 17
def SIGCONT : Nat := 18
def SIGCHLD : Nat := 19
def SIGTSTP : Nat := 20
def SIGTTIN : Nat := 21
def SIGTTOU : Nat := 22

def FILE_READ : Nat := 1
def FILE_WRITE : Nat := 2

/-- カーネルとユーザのコードのセレクタ。 -/
def KERNEL_CS : Nat := 0x08
def USER_CS : Nat := 0x1B

/-- 32 ビットの -1。 -/
def NEG1 : Nat := 0xFFFFFFFF

/-- `SIG_BIT(sig)`。 -/
def SIG_BIT (sig : Nat) : BitVec 32 := 1#32 <<< sig

inductive ProcState
  | new
  | ready
  | running
  | blocked
  | terminated
  | stopped
  deriving DecidableEq, Repr

/-- `struct regs`。割り込みで積まれる枠。 -/
structure Regs where
  gs : Nat := 0
  fs : Nat := 0
  es : Nat := 0
  ds : Nat := 0
  edi : Nat := 0
  esi : Nat := 0
  ebp : Nat := 0
  esp : Nat := 0
  ebx : Nat := 0
  edx : Nat := 0
  ecx : Nat := 0
  eax : Nat := 0
  int_no : Nat := 0
  err_code : Nat := 0
  eip : Nat := 0
  cs : Nat := 0
  eflags : Nat := 0
  useresp : Nat := 0
  ss : Nat := 0
  deriving DecidableEq, Repr

/-- `FILE`。`id` は確保した領域の番号である。 -/
structure File where
  id : Nat
  flags : Nat
  file : Nat
  deriving DecidableEq, Repr

inductive NodeKind
  | pipe_read
  | pipe_write
  | other
  deriving DecidableEq, Repr

/-- `fs_node_t`。`ptr` はパイプの番号である。 -/
structure FsNode where
  kind : NodeKind := .other
  refcount : Nat := 0
  ptr : Option Nat := none
  deriving DecidableEq, Repr

/-- `pipe_buf_t`。 -/
structure PipeBuf where
  buf : Nat → UInt8 := fun _ => 0
  read_pos : Nat := 0
  write_pos : Nat := 0
  count : Nat := 0
  refcount : Nat := 0
  readers : Nat := 0
  writers : Nat := 0

/-- `pipe_read_fn` か `pipe_write_fn` の途中。`buffer` は読んだバイト、または書くバイトの列で、`done`
    は `read` か `written` である。`sti` の後は `intr` が立ち、割り込みを受ける。 -/
structure PipeCall where
  pipe : Nat
  writing : Bool
  total : Nat
  done : Nat := 0
  buffer : List UInt8
  intr : Bool := false
  regs : Regs

/-- `signal_state_t`。`frame_call` は、`frame.eip` がパイプの繰り返しの中を指すときのその続きである。 -/
structure SignalState where
  pending : BitVec 32 := 0#32
  disposition : Nat → Nat := fun _ => 0
  mask : BitVec 32 := 0#32
  saved_mask : BitVec 32 := 0#32
  stopped_by : Nat := 0
  in_handler : Bool := false
  frame : Regs := {}
  frame_call : Option PipeCall := none

/-- `pcb_t`。`children` は `children_id` の先頭 `num_children` 個、`tf` は `regs.esp` が指す枠、`iret`
    は `kernel_stack_top` に置かれた最初の枠、`pipe_call` はカーネルスタックに残る呼び出しである。
    `kernel_stack_alloc`、`cr3`、`memory_regions` は、スタック、ページディレクトリ、VMA の領域の番号。 -/
structure Pcb where
  pid : Nat := 0
  state : ProcState := .new
  files_open : Nat → Option File := fun _ => none
  children : List Nat := []
  parent_id : Nat := 0
  sig : SignalState := {}
  waiting_on_pid : Nat := 0
  pgid : Nat := 0
  wake_tick : Nat := 0
  sleep_next : Option Nat := none
  tf : Regs := {}
  iret : Regs := {}
  pipe_call : Option PipeCall := none
  kernel_stack_alloc : Option Nat := none
  cr3 : Option Nat := none
  memory_regions : List Nat := []

/-- `close_fs` に続く `free(node)` の記録。`refs` は、閉じる項目を除いてまだ `node` を指す `FILE` の
    数、`global` はカーネルの大域変数かマウントの項目が指すこと。 -/
structure Freed where
  node : Nat
  refs : Nat
  global : Bool
  deriving DecidableEq, Repr

/-- カーネルの状態。`ctx` は最後の `iret` で戻った文脈、`next_block` は次に確保する領域の番号である。残りは
    記録で、`owner` は領域を確保したプロセス、`released` は解放した領域、`cleaned` は後始末をした
    プロセス、`freed` は解放したノード、`reports` は `wait` と `waitpid` が返した終了した子、`redirects`
    はハンドラへ向け変えた枠の `cs`、`switched` は `switch_to_process` に渡した項目の状態である。 -/
structure Kernel where
  table : Nat → Pcb
  next_pid : Nat
  num_processes : Nat
  cur_proccess_id : Option Nat
  current_process : Option Nat
  foreground_pgid : Nat
  sleep_queue : Option Nat
  ticks : Nat
  nodes : Nat → FsNode
  next_node : Nat
  pipes : Nat → PipeBuf
  next_pipe : Nat
  stdin_node : Nat
  stdout_node : Nat
  mounts : List Nat
  ctx : Regs
  next_block : Nat
  owner : Nat → Nat
  released : List Nat
  cleaned : List Nat
  freed : List Freed
  reports : List (Nat × Nat)
  redirects : List Nat
  switched : List ProcState

/-- 表の項目 `i` を `f` で書き換える。 -/
def Kernel.modify (K : Kernel) (i : Nat) (f : Pcb → Pcb) : Kernel :=
  { K with table := fun j => if j = i then f (K.table i) else K.table j }

def Kernel.setNode (K : Kernel) (n : Nat) (nd : FsNode) : Kernel :=
  { K with nodes := fun m => if m = n then nd else K.nodes m }

def Kernel.setPipe (K : Kernel) (q : Nat) (pb : PipeBuf) : Kernel :=
  { K with pipes := fun m => if m = q then pb else K.pipes m }

/-- プロセス `pid` のために `n` 個の領域を確保する。番号は `next_block` から始まる。 -/
def Kernel.alloc (K : Kernel) (pid n : Nat) : Kernel :=
  { K with
    next_block := K.next_block + n
    owner := fun b => if K.next_block ≤ b ∧ b < K.next_block + n then pid else K.owner b }

def Kernel.release (K : Kernel) (bs : List Nat) : Kernel := { K with released := bs ++ K.released }

theorem Kernel.modify_table (K : Kernel) (i j : Nat) (f : Pcb → Pcb) :
    (K.modify i f).table j = if j = i then f (K.table i) else K.table j := rfl

@[simp] theorem Kernel.modify_self (K : Kernel) (i : Nat) (f : Pcb → Pcb) :
    (K.modify i f).table i = f (K.table i) := if_pos rfl

theorem Kernel.modify_ne {i j : Nat} (K : Kernel) (f : Pcb → Pcb) (h : j ≠ i) :
    (K.modify i f).table j = K.table j := if_neg h

theorem Kernel.modify_of_eq {K : Kernel} {i : Nat} {f : Pcb → Pcb} (h : f (K.table i) = K.table i) :
    K.modify i f = K := by
  unfold Kernel.modify
  congr 1
  funext j
  by_cases hj : j = i
  · rw [if_pos hj, h, hj]
  · rw [if_neg hj]

theorem Kernel.modify_modify (K : Kernel) (i : Nat) (f g : Pcb → Pcb) :
    (K.modify i f).modify i g = K.modify i (fun p => g (f p)) := by
  unfold Kernel.modify
  congr 1
  funext j
  by_cases hj : j = i
  · simp [hj]
  · simp [hj]

end MyOS.Proc
