import Mathlib.Logic.Relation
import MyOS.Proc.Signal

/-!
# 一歩の中の書き込み

機械の一歩を、源の関数ごとの書き込み `Act` の列と、最後に CPU の文脈を決める `Fin` に分ける。不変条件は、
書き込みの一つずつについて示せばよい。`K₀` は歩の前の状態、`ev` は事象である。
-/

namespace MyOS.Proc
open MyOS.Lib

/-- プロセス `i` が CPU にある。 -/
structure OnCpu (i : Nat) (K : Kernel) : Prop where
  cur : K.cur_proccess_id = some i
  current : K.current_process = some i
  lt : i < K.num_processes
  running : (K.table i).state = .running

/-- 二つの事象の間では、選ばれているプロセスが CPU にある。 -/
structure Synced (K : Kernel) : Prop where
  num : 0 < K.num_processes
  max : K.num_processes ≤ MAX_PROCESSES
  current : K.current_process = K.cur_proccess_id
  on_cpu : ∀ i, K.cur_proccess_id = some i → OnCpu i K

/-- 事象 `ev` は、今のプロセス `i` の呼び出しで、枠は `r` である。 -/
structure Calls (K₀ : Kernel) (ev : Event) (i : Nat) (env : Env) (r : Regs) : Prop
    extends OnCpu i K₀ where
  event : ∃ r₀, ev = .syscall env r₀ ∧ r = { r₀ with cs := K₀.ctx.cs }
  pos : i ≠ 0
  call : (K₀.table i).pipe_call = none

/-- 事象 `ev` は、ユーザの文脈で走る今のプロセス `i` の例外で、枠は `r` である。 -/
structure Faults (K₀ : Kernel) (ev : Event) (i : Nat) (r : Regs) : Prop extends OnCpu i K₀ where
  event : ∃ r₀, ev = .fault r₀ ∧ r = { r₀ with cs := K₀.ctx.cs }
  pos : i ≠ 0
  call : (K₀.table i).pipe_call = none
  user : K₀.ctx.cs % 4 = 3

/-- 今のプロセス `i` が、`exit` を呼ぶか、例外で終わる。`fds` は、そのとき閉じる記述子である。 -/
inductive Quits (K₀ : Kernel) (ev : Event) (i : Nat) : List Nat → Prop
  | exit {env r} : Calls K₀ ev i env r → r.eax = 5 → Quits K₀ ev i (List.range MAX_FILES)
  | fault {r} : Faults K₀ ev i r → Quits K₀ ev i []

/-- `exit` か例外で終わるプロセス。 -/
def quits (K : Kernel) : Event → Option Nat
  | .syscall _ r => if r.eax = 5 then K.current_process else none
  | .fault _ => K.current_process
  | _ => none

/-- 走っているプロセスのまま `schedule` に入るときの状態と枠。 -/
def at_schedule (K : Kernel) : Event → Option (Kernel × Regs)
  | .timer r =>
    (sleep_check_wakeup { K with ticks := add32 K.ticks 1 } (add32 K.ticks 1)).map fun K' =>
      (K', { r with cs := K.ctx.cs })
  | .keyboard z r =>
    some (send_signal_to_foreground K (if z then SIGTSTP else SIGINT), { r with cs := K.ctx.cs })
  | .syscall _ r => if r.eax = 6 then some (K, { r with cs := K.ctx.cs }) else none
  | _ => none

/-- 記述子 `fds` を閉じて終わる。直の子も終わる。 -/
def exit_tree (K : Kernel) (i : Nat) (fds : List Nat) : Kernel :=
  (kill_children_of (drop_files K i fds) (K.table i).pid).modify i
    fun p => { p with state := .terminated }

/-- `exec` の読み込みに失敗して終わる。 -/
def exec_fail (K : Kernel) (i : Nat) : Kernel :=
  (K.release (K.table i).cr3.toList).modify i fun p => { p with state := .terminated }

/-- `exec` で読み込んだ。 -/
def exec_load (K : Kernel) (i : Nat) (img : Image) : Kernel :=
  (K.alloc (K.table i).pid img.vmas).modify i fun p =>
    { p with
      state := .running
      iret := user_frame img.eip img.esp
      memory_regions := List.range' K.next_block img.vmas }

/-- `sigprocmask` の後のマスク。 -/
def new_mask (how : Nat) (user_set mask : BitVec 32) : BitVec 32 :=
  let new_set := user_set &&& ~~~(SIG_BIT SIGKILL ||| SIG_BIT SIGSTOP)
  if how = 0 then mask ||| new_set else if how = 1 then mask &&& ~~~new_set else new_set

/-- `sleep` で眠りの列に加わる。 -/
def doze (K : Kernel) (i : Nat) (r : Regs) : Option Kernel :=
  sleep_enqueue (K.modify i fun p => { p with state := .blocked }) i
    (add32 K.ticks (mul32 r.ebx PIT_FREQ_HZ))

/-- 眠りの列の先頭を外す。 -/
def sleep_pop (K : Kernel) (h : Nat) : Kernel :=
  { K.modify h (fun p =>
      { p with
        sleep_next := none
        state := if p.state = .blocked then .ready else p.state }) with
    sleep_queue := (K.table h).sleep_next }

/-- 終了した子を除き、その番号を返す。 -/
def reaped (K : Kernel) (i dead : Nat) : Kernel :=
  { reap_child K i dead with
    reports := (((reap_child K i dead).table i).pid, dead) :: (reap_child K i dead).reports }

/-- 信号を処理した項目を書く。 -/
def written (K : Kernel) (i : Nat) (r : Regs) (p' : Pcb) (fate : Fate) : Kernel :=
  { K.modify i (fun _ => p') with
    redirects := match fate with | .caught _ => r.cs :: K.redirects | _ => K.redirects }

/-- 走っていたプロセスを `READY` に戻した状態。 -/
def requeued (K : Kernel) : Kernel :=
  match K.cur_proccess_id with
  | none => K
  | some i => K.modify i requeue

/-- 信号を処理した後、次を選んで移る。 -/
def pick (K : Kernel) (r : Regs) : Option Kernel := dispatch (requeued K) r

/-- 開いたファイルだけを変える呼び出し。 -/
inductive FileCall (K : Kernel) (i : Nat) (env : Env) (r : Regs) : Kernel → Prop
  | fopen : r.eax = 2 → FileCall K i env r (fopen K i env.look env.modes).1
  | close : r.eax = 20 → FileCall K i env r (syscall_close K i r.ebx).1
  | dup : r.eax = 11 → FileCall K i env r (syscall_dup K i r.ebx).1
  | dup2 : r.eax = 27 → FileCall K i env r (syscall_dup2 K i r.ebx r.ecx).1
  | pipe : r.eax = 12 → FileCall K i env r (syscall_pipe K i r.ebx env.copied).1

/-- `create_process` を呼ぶ事象と親の番号。 -/
inductive Creates (K₀ : Kernel) : Event → Nat → Option Image → Prop
  | boot {load} : K₀.cur_proccess_id = none → K₀.next_pid = 1 → Creates K₀ (.boot load) 0 load
  | spawn {ev i env r} : Calls K₀ ev i env r → r.eax = 8 → Creates K₀ ev (K₀.table i).pid env.load

/-- 呼び出した `i` が終わった、または止まった (`false`) 状態。 -/
inductive Ends (K₀ : Kernel) (ev : Event) (i : Nat) : Bool → Kernel → Prop
  | exit {fds} : Quits K₀ ev i fds → Ends K₀ ev i true (exit_tree K₀ i fds)
  | fail {env r} : Calls K₀ ev i env r → r.eax = 10 → env.load = none →
      Ends K₀ ev i true (exec_fail (exec_reset K₀ i) i)
  | signal {K r p'} : at_schedule K₀ ev = some (K, r) → K.cur_proccess_id = some i →
      Signals (K.table i) → Signalled (K.table i) r .ends p' → Ends K₀ ev i true (written K i r p' .ends)
  | stop {K r p'} : at_schedule K₀ ev = some (K, r) → K.cur_proccess_id = some i →
      Signals (K.table i) → Signalled (K.table i) r .stops p' →
      Ends K₀ ev i false (written K i r p' .stops)

/-- `wait`、または `waitpid` が、終了した子 `dead` を返す。 -/
def Reaps (r : Regs) (dead : Nat) : Prop := r.eax = SYS_WAIT ∨ r.eax = SYS_WAITPID ∧ (r.ebx = 0 ∨ r.ebx = dead)

/-- 一歩の中の書き込み。 -/
inductive Act (K₀ : Kernel) (ev : Event) : Kernel → Kernel → Prop
  | file {i env r K'} : Calls K₀ ev i env r → FileCall K₀ i env r K' → Act K₀ ev K₀ K'
  | create {pid load K'} : Creates K₀ ev pid load → create_process K₀ pid load = some K' →
      Act K₀ ev K₀ K'
  | fork {i env r slot K'} : Calls K₀ ev i env r → r.eax = 24 → fork_slot K₀ = some slot →
      fork_into K₀ i slot r = some K' → Act K₀ ev K₀ K'
  | reap {i env r} : Calls K₀ ev i env r → Reaps r (find_terminated_child K₀ (K₀.table i).pid) →
      find_terminated_child K₀ (K₀.table i).pid ≠ 0 →
      Act K₀ ev K₀ (reaped K₀ i (find_terminated_child K₀ (K₀.table i).pid))
  | await {i env r} (w : Nat) : Calls K₀ ev i env r → r.eax = SYS_WAITPID →
      Act K₀ ev K₀ (K₀.modify i fun p => { p with waiting_on_pid := w })
  | block {i env r} (w : Nat) : Calls K₀ ev i env r →
      r.eax = SYS_WAIT ∨ r.eax = SYS_WAITPID ∨ r.eax = SYS_SLEEP →
      Act K₀ ev K₀ (K₀.modify i fun p => { p with waiting_on_pid := w, state := .blocked })
  | enqueue {i env r K'} : Calls K₀ ev i env r → r.eax = SYS_SLEEP → r.ebx ≠ 0 →
      doze K₀ i r = some K' → Act K₀ ev (K₀.modify i fun p => { p with state := .blocked }) K'
  | tick {r} : ev = .timer r → Act K₀ ev K₀ { K₀ with ticks := add32 K₀.ticks 1 }
  | wake {r h K} : ev = .timer r → K.sleep_queue = some h →
      (K.table h).wake_tick ≤ add32 K₀.ticks 1 → Act K₀ ev K (sleep_pop K h)
  | group {i env r} (g : Nat) : Calls K₀ ev i env r → r.eax = 30 →
      Act K₀ ev K₀ { K₀ with foreground_pgid := g }
  | setpgid {i env r j} (g : Nat) : Calls K₀ ev i env r → r.eax = 30 → r.ebx ≠ 0 →
      get_process_by_pid K₀ r.ebx = some j →
      Act K₀ ev K₀ { K₀.modify j (fun p => { p with pgid := g }) with foreground_pgid := g }
  | send {i env r j} : Calls K₀ ev i env r → r.eax = 13 → r.ebx ≠ 0 → r.ecx < NSIG → r.ecx ≠ 0 →
      get_process_by_pid K₀ r.ebx = some j → (K₀.table j).state ≠ .terminated →
      Act K₀ ev K₀ (K₀.modifySig j fun s => { s with pending := s.pending ||| SIG_BIT r.ecx })
  | cont {i env r j} : Calls K₀ ev i env r → r.eax = 13 → r.ebx ≠ 0 → r.ecx = SIGCONT →
      get_process_by_pid K₀ r.ebx = some j → (K₀.table j).state = .stopped →
      Act K₀ ev K₀ (K₀.modify j fun p =>
        { p with
          sig := { p.sig with pending := p.sig.pending ||| SIG_BIT r.ecx, stopped_by := 0 }
          state := .ready })
  | keys {z r} : ev = .keyboard z r →
      Act K₀ ev K₀ (send_signal_to_foreground K₀ (if z then SIGTSTP else SIGINT))
  | action {i env r} : Calls K₀ ev i env r → r.eax = 29 → r.ebx ≠ SIGKILL → r.ebx ≠ SIGSTOP →
      r.ecx = SIG_DFL ∨ r.ecx = SIG_IGN ∨ r.ecx < KERNEL_VIRTUAL_BASE →
      Act K₀ ev K₀ (K₀.modifySig i fun s =>
        { s with disposition := fun n => if n = r.ebx then r.ecx else s.disposition n })
  | mask {i env r} : Calls K₀ ev i env r → r.eax = 32 →
      Act K₀ ev K₀ (K₀.modifySig i fun s => { s with mask := new_mask r.ebx env.user_set s.mask })
  | sigreturn {i env r} : Calls K₀ ev i env r → r.eax = 28 → (K₀.table i).sig.in_handler = true →
      Act K₀ ev K₀ (K₀.modify i fun p =>
        { p with
          sig := { p.sig with in_handler := false, mask := p.sig.saved_mask, frame_call := none }
          pipe_call := p.sig.frame_call })
  | exit {i fds} : Quits K₀ ev i fds → Act K₀ ev K₀ (exit_tree K₀ i fds)
  | reset {i env r} : Calls K₀ ev i env r → r.eax = 10 → Act K₀ ev K₀ (exec_reset K₀ i)
  | load {i env r img} : Calls K₀ ev i env r → r.eax = 10 → env.load = some img →
      Act K₀ ev (exec_reset K₀ i) (exec_load (exec_reset K₀ i) i img)
  | fail {i env r} : Calls K₀ ev i env r → r.eax = 10 → env.load = none →
      Act K₀ ev (exec_reset K₀ i) (exec_fail (exec_reset K₀ i) i)
  | mmap {i env r} : Calls K₀ ev i env r → r.eax = 25 →
      Act K₀ ev K₀ ((K₀.alloc (K₀.table i).pid 1).modify i fun p =>
        { p with memory_regions := p.memory_regions ++ [K₀.next_block] })
  | munmap {i env r v} : Calls K₀ ev i env r → r.eax = 26 →
      (K₀.table i).memory_regions[env.vma]? = some v →
      Act K₀ ev K₀ ((K₀.modify i fun p =>
        { p with memory_regions := p.memory_regions.eraseIdx env.vma }).release [v])
  | signal {i r fate p' K} : at_schedule K₀ ev = some (K, r) → K.cur_proccess_id = some i →
      Signals (K.table i) → Signalled (K.table i) r fate p' → Act K₀ ev K (written K i r p' fate)
  | unblock {i b K} : Ends K₀ ev i b K → Act K₀ ev K (unblock_parent K (K.table i).pid b)
  | leave {i fds} : Quits K₀ ev i fds →
      Act K₀ ev (unblock_parent (exit_tree K₀ i fds) (K₀.table i).pid true)
        { unblock_parent (exit_tree K₀ i fds) (K₀.table i).pid true with current_process := none }

/-- `schedule` に入るとき、今のプロセスは選ばれている項目である。`exit` と例外では空で、選ばれている項目は
    終わっている。 -/
def Leaving (K : Kernel) : Prop :=
  K.current_process = K.cur_proccess_id ∨
    K.current_process = none ∧ ∀ i, K.cur_proccess_id = some i → (K.table i).state = .terminated

/-- 書き込みの後、CPU の文脈を決める。 -/
inductive Fin (K₀ : Kernel) (ev : Event) : Kernel → Kernel → Prop
  | stays {K} : K.cur_proccess_id = none → K.current_process = none → Fin K₀ ev K K
  | returns {i env r r' K} (v : Nat) : Calls K₀ ev i env r → OnCpu i K → r'.cs = K₀.ctx.cs ∨ r'.cs = USER_CS →
      Fin K₀ ev K (return_to K r' v)
  | pipe_start {i env r fp c} : Calls K₀ ev i env r → (K₀.table i).files_open r.esi = some fp →
      (K₀.nodes fp.file).kind = rw_kind c.writing → (K₀.nodes fp.file).ptr = some c.pipe →
      c.regs = r → Fin K₀ ev K₀ (pipe_start K₀ i c)
  | pipe_iter {i c} : ev = .pipe → OnCpu i K₀ → (K₀.table i).pipe_call = some c →
      Fin K₀ ev K₀ (pipe_iter K₀ i c)
  | switch {r K K'} : r.cs = K₀.ctx.cs → 0 < K.num_processes → Leaving K →
      (at_schedule K₀ ev).isSome ∨
        (∃ i env, Calls K₀ ev i env r ∧ (r.eax = SYS_SLEEP → r.ebx ≠ 0 ∧ doze K₀ i r = some K)) ∨
        (∃ i, Faults K₀ ev i r) →
      pick K r = some K' → Fin K₀ ev K K'

abbrev Acts (K₀ : Kernel) (ev : Event) : Kernel → Kernel → Prop := Relation.ReflTransGen (Act K₀ ev)

/-- 一つの書き込みが、項目 `j` の信号の状態に残すもの。止まった状態になるのは、信号の処理だけである。 -/
inductive SigStep (K₀ : Kernel) (ev : Event) (K : Kernel) (j : Nat) (p p' : Pcb) : Prop
  | same : p'.sig = p.sig → (p'.state = .stopped → p.state = .stopped) → SigStep K₀ ev K j p p'
  | cleaned : p'.sig = { p.sig with pending := 0#32, stopped_by := 0 } →
      (p'.state = .stopped → p.state = .stopped) → SigStep K₀ ev K j p p'
  | send {i env r} : Calls K₀ ev i env r → r.eax = 13 → r.ecx < NSIG → r.ebx ≠ 0 →
      get_process_by_pid K₀ r.ebx = some j → (K₀.table j).state ≠ .terminated →
      p'.sig = { p.sig with pending := p.sig.pending ||| SIG_BIT r.ecx } → p'.state = p.state →
      SigStep K₀ ev K j p p'
  | cont {i env r} : Calls K₀ ev i env r → r.eax = 13 → r.ecx = SIGCONT → r.ebx ≠ 0 →
      get_process_by_pid K₀ r.ebx = some j → (K₀.table j).state = .stopped →
      p'.sig = { p.sig with pending := p.sig.pending ||| SIG_BIT r.ecx, stopped_by := 0 } →
      p'.state = .ready → SigStep K₀ ev K j p p'
  | key {z r} : ev = .keyboard z r → j < MAX_PROCESSES → (K₀.table j).pgid = K₀.foreground_pgid →
      K₀.foreground_pgid ≠ 0 → (K₀.table j).state ≠ .terminated →
      p'.sig = { p.sig with pending := p.sig.pending ||| SIG_BIT (if z then SIGTSTP else SIGINT) } →
      p'.state = p.state → SigStep K₀ ev K j p p'
  | action {env r} : Calls K₀ ev j env r → r.eax = 29 → r.ebx ≠ SIGKILL → r.ebx ≠ SIGSTOP →
      r.ecx = SIG_DFL ∨ r.ecx = SIG_IGN ∨ r.ecx < KERNEL_VIRTUAL_BASE →
      p'.sig = { p.sig with disposition := fun n => if n = r.ebx then r.ecx else p.sig.disposition n } →
      p'.state = p.state → SigStep K₀ ev K j p p'
  | mask {env r} : Calls K₀ ev j env r → r.eax = 32 →
      p'.sig = { p.sig with mask := new_mask r.ebx env.user_set p.sig.mask } →
      p'.state = p.state → SigStep K₀ ev K j p p'
  | sigreturn {env r} : Calls K₀ ev j env r → r.eax = 28 → p.sig.in_handler = true →
      p'.sig = { p.sig with in_handler := false, mask := p.sig.saved_mask, frame_call := none } →
      p'.state = p.state → SigStep K₀ ev K j p p'
  | exec {env r} : Calls K₀ ev j env r → r.eax = 10 → p'.sig = exec_signals p.sig →
      p'.state = p.state → SigStep K₀ ev K j p p'
  | signalled {r fate} : at_schedule K₀ ev = some (K, r) → K.cur_proccess_id = some j → Signals p →
      Signalled p r fate p' → SigStep K₀ ev K j p p'
  | fresh : j = K.num_processes → p'.sig = (init_signals_default p).sig → p'.state ≠ .stopped →
      SigStep K₀ ev K j p p'
  | forked {i env r} : Calls K₀ ev i env r → r.eax = 24 → fork_slot K₀ = some j →
      p'.sig = (init_signals_from (K₀.table i) p).sig → p'.state = .ready → SigStep K₀ ev K j p p'

/-!
## 切り替えと、信号の枠の権限

`schedule` が渡すのは `READY` か `NEW` の項目で、走るのは選ばれた項目だけである。ハンドラへ向け変える枠は
ユーザの文脈でなければならないが、パイプの待ちの中では `sti` の後なので、カーネルの文脈で `schedule` に
入ることがある。
-/

/-- セレクタの RPL が 3 である。 -/
def Rpl3 (cs : Nat) : Prop := cs % 4 = 3

instance (cs : Nat) : Decidable (Rpl3 cs) := inferInstanceAs (Decidable (cs % 4 = 3))

/-- `schedule` に入ると、ハンドラのある信号が届く。 -/
def CaughtNext (p : Pcb) : Prop := Signals p ∧ ∃ pre sig, FirstDue p pre sig ∧ Caught p.sig sig

/-- パイプの待ちの中で `schedule` に入り、枠 `r` からハンドラのある信号が届く。 -/
def KernelDelivery (K : Kernel) (r : Regs) : Prop :=
  ∃ i, K.cur_proccess_id = some i ∧ (K.table i).pipe_call.isSome ∧ CaughtNext (K.table i) ∧
    stack_ok r = true

/-- パイプの待ちの中で、ハンドラのある信号を届ける割り込みを受けない。 -/
def WaitSafe (K : Kernel) (ev : Event) : Prop :=
  ∀ K₁ r, at_schedule K ev = some (K₁, r) → ¬ KernelDelivery K₁ r

/-- 番号の一巡で 0 を得たプロセスが、`exit` を呼ばず、例外も起こさない。そうすると、親の番号が 0 の休止の
    プロセスも終わる。 -/
def NoZeroExit (K : Kernel) (ev : Event) : Prop := ∀ i, quits K ev = some i → (K.table i).pid ≠ 0

/-- 休止のプロセスは信号を受けず、親を持たない。 -/
structure Idle (p : Pcb) : Prop where
  pid : p.pid = 0
  parent : p.parent_id = 0
  pgid : p.pgid = 0
  pending : p.sig.pending = 0#32

/-- 休止のプロセスはいつでも選べ、走るのは選ばれた項目だけである。 -/
structure SchedInv (K : Kernel) : Prop where
  idle : Idle (K.table 0)
  awake : (K.table 0).state = .new ∨ (K.table 0).state = .ready ∨
    (K.table 0).state = .running ∧ K.cur_proccess_id = some 0
  only : ∀ j, (K.table j).state = .running → K.cur_proccess_id = some j
  switched : ∀ s ∈ K.switched, s = .ready ∨ s = .new

/-- 枠が控えてある状態。 -/
def Saved (s : ProcState) : Prop := s = .ready ∨ s = .blocked ∨ s = .stopped

/-- 控えた枠はユーザの文脈か、パイプの待ちの中の文脈である。 -/
structure FrameOk (p : Pcb) : Prop where
  first : p.state = .new → Rpl3 p.iret.cs
  saved : Saved p.state → Rpl3 p.tf.cs ∨ p.pipe_call.isSome

/-- 選ばれた項目の枠は CPU にあり、その `cs` は `cs` である。ほかの項目の枠は控えてある。 -/
structure TrapInv (cs : Nat) (K : Kernel) : Prop where
  frames : ∀ i, 0 < i → i < K.num_processes → K.cur_proccess_id ≠ some i → FrameOk (K.table i)
  calls : ∀ i c, (K.table i).pipe_call = some c → Rpl3 c.regs.cs
  handler : ∀ i c, (K.table i).sig.frame_call = some c → Rpl3 c.regs.cs
  redirects : ∀ cs ∈ K.redirects, Rpl3 cs
  cur : ∀ i, K.cur_proccess_id = some i → i ≠ 0 → Rpl3 cs ∨ (K.table i).pipe_call.isSome

end MyOS.Proc
