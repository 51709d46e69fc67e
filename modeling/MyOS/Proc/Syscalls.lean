import MyOS.Proc.Schedule
import MyOS.Lib.Run

/-!
# システムコールと機械の一歩

`handle_syscalls` は `eax` の番号で呼び出しを選ぶ。ここで扱う状態を読みも書きもしない呼び出しは、任意の
値を返すものとする。
-/

namespace MyOS.Proc
open MyOS.Lib

/-- 呼び出しの外から決まるもの。ユーザのメモリの内容、ファイルの検索、読み込みの成否など。 -/
structure Env where
  /-- コマンド行に語がある。 -/
  args : Bool := true
  load : Option Image := none
  look : Lookup := .missing
  modes : Nat := 0
  copied : Bool := true
  mapped : Bool := true
  user_set : BitVec 32 := 0#32
  data : List UInt8 := []
  /-- `munmap` が選ぶ VMA の位置。 -/
  vma : Nat := 0
  ret : Nat := 0

/-- 呼び出しの結果。ユーザへ戻るか、`schedule` やパイプの待ちへ移る。 -/
inductive Outcome
  | returns (K : Kernel) (r : Regs) (v : Nat)
  | leaves (K : Kernel)

/-- `schedule` へ移る。 -/
def to_schedule (K : Kernel) (r : Regs) : Option Outcome := (schedule K r).map .leaves

def returns_of (r : Regs) (x : Kernel × Nat) : Option Outcome := some (.returns x.1 r x.2)

def syscall_exit (K : Kernel) (i : Nat) (r : Regs) : Option Outcome :=
  let pid := (K.table i).pid
  let K := drop_files K i (List.range MAX_FILES)
  let K := kill_children_of K pid
  let K := K.modify i fun p => { p with state := .terminated }
  let K := unblock_parent K pid true
  to_schedule { K with current_process := none } r

/-- 終了した子を列から除き、後始末する。 -/
def reap_child (K : Kernel) (i dead : Nat) : Kernel :=
  let K := remove_child_from_parent K i dead
  match get_process_by_pid K dead with
  | none => K
  | some c => process_cleanup_child K c

/-- 終了した子の番号を返す。 -/
def reap (K : Kernel) (i dead : Nat) (r : Regs) : Option Outcome :=
  let K := reap_child K i dead
  some (.returns { K with reports := ((K.table i).pid, dead) :: K.reports } { r with eax := dead } dead)

def syscall_wait (K : Kernel) (i : Nat) (r : Regs) : Option Outcome :=
  let my_pid := (K.table i).pid
  let dead := find_terminated_child K my_pid
  if dead ≠ 0 then reap K i dead r
  else if has_live_children K my_pid then
    to_schedule (K.modify i fun p => { p with waiting_on_pid := 0, state := .blocked }) r
  else returns_of r (K, NEG1)

/-- 止まっている子の番号の符号を変えて返す。 -/
def neg32 (n : Nat) : Nat := sub32 0 n

def syscall_waitpid (K : Kernel) (i : Nat) (r : Regs) : Option Outcome :=
  let req_pid := r.ebx
  let my_pid := (K.table i).pid
  let dead := find_terminated_child K my_pid
  let stopped := find_stopped_child K my_pid
  let set_waiting := fun (K : Kernel) (w : Nat) => K.modify i fun p => { p with waiting_on_pid := w }
  if dead ≠ 0 ∧ (req_pid = 0 ∨ req_pid = dead) then reap K i dead r
  else if r.ecx % 2 = 1 then
    if stopped ≠ 0 ∧ (req_pid = 0 ∨ req_pid = stopped) then
      some (.returns K { r with eax := neg32 stopped } (neg32 stopped))
    else some (.returns K { r with eax := 0 } 0)
  -- 繰り返しの一周目で戻るか、`schedule` へ移る。終了した子は上で調べたものと同じである
  else if has_live_children K my_pid then
    if stopped ≠ 0 ∧ (req_pid = 0 ∨ req_pid = stopped) then
      some (.returns (set_waiting K 0) { r with eax := neg32 stopped } (neg32 stopped))
    else
      to_schedule ((set_waiting K req_pid).modify i fun p => { p with state := .blocked }) r
  else returns_of r (set_waiting K 0, NEG1)

def syscall_sleep (K : Kernel) (i : Nat) (r : Regs) : Option Outcome :=
  if r.ebx = 0 then returns_of r (K, 0)
  else
    let wake_tick := add32 K.ticks (mul32 r.ebx PIT_FREQ_HZ)
    (sleep_enqueue (K.modify i fun p => { p with state := .blocked }) i wake_tick).bind fun K =>
      to_schedule K r

def syscall_fork (K : Kernel) (i : Nat) (r : Regs) : Option Outcome :=
  (fork_process K i r).map fun
    | (K, none) => .returns K r NEG1
    | (K, some slot) => .returns K r (K.table slot).pid

def syscall_spawn (K : Kernel) (i : Nat) (env : Env) (r : Regs) : Option Outcome :=
  if !env.args then returns_of r (K, NEG1)
  else (create_process K (K.table i).pid env.load).bind fun K => returns_of r (K, 0)

/-- 受け取る信号の扱いを戻し、溜まった信号を捨てる。 -/
def exec_signals (s : SignalState) : SignalState :=
  { s with
    disposition := fun n =>
      if 1 ≤ n ∧ n < NSIG ∧ s.disposition n ≠ SIG_IGN then SIG_DFL else s.disposition n
    in_handler := false
    mask := 0#32
    pending := 0#32 }

/-- 古いディレクトリ、VMA、2 以上の記述子を解放し、新しいディレクトリを確保する。 -/
def exec_reset (K : Kernel) (i : Nat) : Kernel :=
  let p := K.table i
  let K := drop_files (K.release (p.cr3.toList ++ p.memory_regions)) i (List.range' 2 (MAX_FILES - 2))
  (K.alloc p.pid 1).modify i fun p =>
    { p with
      memory_regions := []
      sig := exec_signals p.sig
      cr3 := some K.next_block }

/-- 読み込みに失敗すると、解放したディレクトリを `cr3` に残したまま終わる。 -/
def syscall_exec (K : Kernel) (i : Nat) (env : Env) (r : Regs) : Option Outcome :=
  if !env.args then returns_of r (K, NEG1)
  else
    let K := exec_reset K i
    match env.load with
    | none =>
      let K := (K.release (K.table i).cr3.toList).modify i fun p => { p with state := .terminated }
      to_schedule (unblock_parent K (K.table i).pid true) r
    | some img =>
      let K' := (K.alloc (K.table i).pid img.vmas).modify i fun p =>
        { p with
          state := .running
          iret := user_frame img.eip img.esp
          memory_regions := List.range' K.next_block img.vmas }
      some (.returns K'
        { r with eip := img.eip, cs := USER_CS, eflags := 0x202, useresp := img.esp, ss := 0x23 } 0)

def syscall_kill (K : Kernel) (r : Regs) : Kernel × Nat :=
  let signal := r.ecx
  if r.ebx = 0 ∨ NSIG ≤ signal then (K, NEG1)
  else match get_process_by_pid K r.ebx with
  | none => (K, NEG1)
  | some j =>
    if (K.table j).state = .terminated then (K, NEG1)
    else if signal = 0 then (K, 0)
    else
      let K := K.modifySig j fun s => { s with pending := s.pending ||| SIG_BIT signal }
      if signal = SIGCONT ∧ (K.table j).state = .stopped then
        (K.modify j fun p => { p with sig := { p.sig with stopped_by := 0 }, state := .ready }, 0)
      else (K, 0)

/-- 控えた文脈とマスクを戻す。`cs` は戻さない。 -/
def syscall_sigreturn (K : Kernel) (i : Nat) (r : Regs) : Option Outcome :=
  let s := (K.table i).sig
  if s.in_handler then
    let K := K.modify i fun p =>
      { p with
        sig := { p.sig with in_handler := false, mask := p.sig.saved_mask, frame_call := none }
        pipe_call := p.sig.frame_call }
    some (.returns K
      { r with
        eip := s.frame.eip, useresp := s.frame.useresp, eax := s.frame.eax, ebx := s.frame.ebx,
        ecx := s.frame.ecx, edx := s.frame.edx, esi := s.frame.esi, edi := s.frame.edi,
        ebp := s.frame.ebp, eflags := s.frame.eflags } s.frame.eax)
  else returns_of r (K, NEG1)

def syscall_signal (K : Kernel) (i : Nat) (r : Regs) : Kernel × Nat :=
  let signum := r.ebx
  let handler := r.ecx
  if NSIG ≤ signum ∨ signum = 0 then (K, NEG1)
  else if signum = SIGKILL ∨ signum = SIGSTOP then (K, NEG1)
  else if handler ≠ SIG_DFL ∧ handler ≠ SIG_IGN ∧ !is_user_ptr handler then (K, NEG1)
  else (K.modifySig i fun s =>
    { s with disposition := fun n => if n = signum then handler else s.disposition n }, 0)

def syscall_setpgid (K : Kernel) (r : Regs) : Kernel × Nat :=
  let pid := r.ebx
  let pgid := r.ecx
  if pid = 0 then ({ K with foreground_pgid := pgid }, 0)
  else match get_process_by_pid K pid with
  | none => (K, NEG1)
  | some j =>
    let pgid := if pgid = 0 then pid else pgid
    ({ K.modify j (fun p => { p with pgid := pgid }) with foreground_pgid := pgid }, 0)

/-- `env.user_set` は `*user_set` の値である。 -/
def syscall_sigprocmask (K : Kernel) (i : Nat) (env : Env) (r : Regs) : Kernel × Nat :=
  let user_set := r.ecx
  let user_oldset := r.edx
  if 2 < r.ebx then (K, NEG1)
  else if user_oldset ≠ 0 ∧ !is_user_ptr user_oldset then (K, NEG1)
  else if user_set = 0 then (K, 0)
  else if !is_user_ptr user_set then (K, NEG1)
  else
    let new_set := env.user_set &&& ~~~(SIG_BIT SIGKILL ||| SIG_BIT SIGSTOP)
    (K.modifySig i fun s =>
      { s with
        mask := if r.ebx = 0 then s.mask ||| new_set
          else if r.ebx = 1 then s.mask &&& ~~~new_set else new_set }, 0)

/-- 読み書きの許可、パイプの端、拒まれたときの値。 -/
def rw_flag (writing : Bool) : Nat := if writing then FILE_WRITE else FILE_READ
def rw_kind (writing : Bool) : NodeKind := if writing then .pipe_write else .pipe_read
def rw_refused (writing : Bool) : Nat := if writing then 0 else NEG1

/-- パイプの繰り返しに入る。 -/
def pipe_start (K : Kernel) (i : Nat) (call : PipeCall) : Kernel :=
  { K.modify i (fun p => { p with pipe_call := some call }) with
    ctx := { call.regs with cs := KERNEL_CS } }

/-- `syscall_read` と `syscall_write`。パイプでないノードの結果は `env.ret` である。 -/
def syscall_rw (K : Kernel) (i : Nat) (writing : Bool) (env : Env) (r : Regs) : Option Outcome :=
  let fd := r.esi
  let size := r.ecx
  let count := r.edx
  let total := mul32 size count
  if MAX_FILES ≤ fd then returns_of r (K, NEG1)
  else match (K.table i).files_open fd with
  | none => returns_of r (K, NEG1)
  | some fp =>
    if count ≠ 0 ∧ total / count ≠ size then returns_of r (K, NEG1)
    else if !env.mapped then returns_of r (K, NEG1)
    else if fp.flags &&& rw_flag writing = 0 then returns_of r (K, rw_refused writing)
    else if (K.nodes fp.file).kind = rw_kind writing then
      (K.nodes fp.file).ptr.map fun q =>
        .leaves (pipe_start K i
          { pipe := q, writing := writing, total := total
            buffer := if writing then env.data else [], regs := r })
    else returns_of r (K, env.ret)

/-- VMA の登録だけを扱う。`env.ret` は返す番地か -1 である。 -/
def syscall_mmap (K : Kernel) (i : Nat) (env : Env) : Kernel × Nat :=
  if env.ret = NEG1 then (K, NEG1)
  else ((K.alloc (K.table i).pid 1).modify i fun p =>
    { p with memory_regions := p.memory_regions ++ [K.next_block] }, env.ret)

def syscall_munmap (K : Kernel) (i : Nat) (env : Env) : Kernel × Nat :=
  match (K.table i).memory_regions[env.vma]? with
  | none => (K, NEG1)
  | some v => ((K.modify i fun p =>
      { p with memory_regions := p.memory_regions.eraseIdx env.vma }).release [v], 0)

/-- `syscalls[eax]`。 -/
def syscall (K : Kernel) (i : Nat) (env : Env) (r : Regs) : Option Outcome :=
  match r.eax with
  | 2 => returns_of r (fopen K i env.look env.modes)
  | 3 => syscall_rw K i false env r
  | 4 => syscall_rw K i true env r
  | 5 => syscall_exit K i r
  | 6 => to_schedule K r
  | 8 => syscall_spawn K i env r
  | 9 => syscall_wait K i r
  | 10 => syscall_exec K i env r
  | 11 => returns_of r (syscall_dup K i r.ebx)
  | 12 => returns_of r (syscall_pipe K i r.ebx env.copied)
  | 13 => returns_of r (syscall_kill K r)
  | 14 => returns_of r (K, (K.table i).pid)
  | 20 => returns_of r (syscall_close K i r.ebx)
  | 24 => syscall_fork K i r
  | 25 => returns_of r (syscall_mmap K i env)
  | 26 => returns_of r (syscall_munmap K i env)
  | 27 => returns_of r (syscall_dup2 K i r.ebx r.ecx)
  | 28 => syscall_sigreturn K i r
  | 29 => returns_of r (syscall_signal K i r)
  | 30 => returns_of r (syscall_setpgid K r)
  | 31 => syscall_waitpid K i r
  | 32 => returns_of r (syscall_sigprocmask K i env r)
  | 36 => syscall_sleep K i r
  | n => returns_of r (K, if 36 < n then NEG1 else env.ret)

def handle_syscalls (K : Kernel) (i : Nat) (env : Env) (r : Regs) : Option Kernel :=
  (syscall K i env r).map fun
    | .returns K r v => return_to K r v
    | .leaves K => K

/-- ユーザの文脈の例外で、直の子とともに今のプロセスを終わらせる。開いたファイルは閉じない。 -/
def fault_handler (K : Kernel) (i : Nat) (r : Regs) : Option Kernel :=
  let pid := (K.table i).pid
  let K := kill_children_of K pid
  let K := K.modify i fun p => { p with state := .terminated }
  let K := unblock_parent K pid true
  schedule { K with current_process := none } r

/-- 機械の事象。`r` は割り込みや呼び出しの時のレジスタで、`cs` は走っている文脈のものに限る。 -/
inductive Event
  | boot (load : Option Image)
  | timer (r : Regs)
  | keyboard (z : Bool) (r : Regs)
  | syscall (env : Env) (r : Regs)
  | fault (r : Regs)
  | pipe

/-- 今のプロセスがパイプの繰り返しの途中にいるときの、その呼び出し。 -/
def current_call (K : Kernel) : Option PipeCall :=
  K.current_process.bind fun i => (K.table i).pipe_call

/-- 割り込みを受ける。システムコールの中では、`sti` の後だけである。 -/
def interruptible (K : Kernel) : Bool := (current_call K).all fun c => c.intr

/-- `kmain` は、最初の割り込みの前にシェルを作る。休止のプロセスは呼び出しをしない。カーネルの文脈の例外では、
    機械が止まる。 -/
def step (K : Kernel) : Event → Option Kernel
  | .boot load => if K.cur_proccess_id = none ∧ K.next_pid = 1 then create_process K 0 load else none
  | .timer r => if interruptible K then timer_handler K { r with cs := K.ctx.cs } else none
  | .keyboard z r => if interruptible K then keyboard_handler K z { r with cs := K.ctx.cs } else none
  | .syscall env r =>
    match K.current_process with
    | none => none
    | some i =>
      if i = 0 ∨ (K.table i).pipe_call.isSome then none
      else handle_syscalls K i env { r with cs := K.ctx.cs }
  | .fault r =>
    match K.current_process with
    | none => none
    | some i =>
      if i = 0 ∨ (K.table i).pipe_call.isSome ∨ K.ctx.cs % 4 ≠ 3 then none
      else fault_handler K i { r with cs := K.ctx.cs }
  | .pipe =>
    match K.current_process with
    | none => none
    | some i => (K.table i).pipe_call.map fun c => pipe_iter K i c

/-- `init_multitasking` の後の状態。`stdin_node` と `stdout_node` の `refcount` は書かれていない。 -/
def boot (rc_in rc_out : Nat) (mounts : Nat) : Kernel where
  table := fun i =>
    if i = 0 then
      { init_signals_default {} with
        iret := { cs := KERNEL_CS, eflags := 0x202, ss := 0x10 }
        kernel_stack_alloc := some 0 }
    else {}
  next_pid := 1
  num_processes := 1
  cur_proccess_id := none
  current_process := none
  foreground_pgid := 0
  sleep_queue := none
  ticks := 0
  nodes := fun n => if n = 0 then { refcount := rc_in } else if n = 1 then { refcount := rc_out } else {}
  next_node := 2 + mounts
  pipes := fun _ => {}
  next_pipe := 0
  stdin_node := 0
  stdout_node := 1
  mounts := List.range' 2 mounts
  ctx := { cs := KERNEL_CS }
  next_block := 1
  owner := fun _ => 0
  released := []
  cleaned := []
  freed := []
  reports := []
  redirects := []
  switched := []

/-! 具体的な実行に使う事象。スタックの番地はユーザの範囲に入る。 -/

def shell_image : Image := ⟨0x08048000, 0x9FFF0000, 1⟩

def user_regs : Regs := { useresp := 0x9FFF0000 }

/-- 番号 `n` の呼び出し。 -/
def call (n : Nat) (ebx : Nat := 0) (ecx : Nat := 0) : Event :=
  .syscall {} { user_regs with eax := n, ebx := ebx, ecx := ecx }

def tick : Event := .timer user_regs

def crash : Event := .fault user_regs

/-- シェルを作り、休止のプロセスからシェルへ移る。 -/
def start_shell : List Event := [.boot (some shell_image), tick, tick]

end MyOS.Proc
