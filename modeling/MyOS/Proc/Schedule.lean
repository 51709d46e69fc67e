import MyOS.Proc.Process

/-!
# スケジューラ

`schedule` は、今のプロセスへ溜まった信号を届け、次のプロセスを選び、`switch_to_process` で移る。
呼んだ側には戻らない。
-/

namespace MyOS.Proc
open MyOS.Lib

/-- 今のプロセスの信号の状態を書き換える。 -/
def Kernel.modifySig (K : Kernel) (i : Nat) (f : SignalState → SignalState) : Kernel :=
  K.modify i fun p => { p with sig := f p.sig }

/-- `cur->sig.pending &= ~SIG_BIT(sig)`。 -/
def clear_pending (sig : Nat) (s : SignalState) : SignalState :=
  { s with pending := s.pending &&& ~~~SIG_BIT sig }

/-- 信号で止まる。 -/
def stop_by (K : Kernel) (i sig : Nat) : Kernel :=
  unblock_parent
    (K.modify i fun p =>
      { p with
        sig := { clear_pending sig p.sig with stopped_by := sig }
        state := .stopped })
    (K.table i).pid false

/-- 信号で終わる。 -/
def terminate_by (K : Kernel) (i : Nat) (f : SignalState → SignalState) : Kernel :=
  unblock_parent (K.modify i fun p => { p with sig := f p.sig, state := .terminated })
    (K.table i).pid true

/-- 信号の枠を置くスタックがユーザの範囲に入る。 -/
def stack_ok (r : Regs) : Bool :=
  !(decide (sub32 r.useresp 4 < USER_CODE_BASE) ||
    decide (USER_STACK_TOP < add32 (sub32 r.useresp 4) 8))

/-- ハンドラへ移る前に、元の文脈とマスクを控える。 -/
def save_context (sig : Nat) (r : Regs) (call : Option PipeCall) (s : SignalState) : SignalState :=
  { s with
    frame := { s.frame with
      eip := r.eip, useresp := r.useresp, eax := r.eax, ebx := r.ebx, ecx := r.ecx, edx := r.edx,
      esi := r.esi, edi := r.edi, ebp := r.ebp, eflags := r.eflags }
    frame_call := call
    in_handler := true
    saved_mask := s.mask
    mask := s.mask ||| SIG_BIT sig }

/-- ユーザのハンドラへ枠を向け変える。スタックが範囲の外なら終わる。 -/
def enter_handler (K : Kernel) (i sig handler : Nat) (r : Regs) : Kernel × Regs :=
  let K := K.modify i fun p => { p with sig := save_context sig r p.pipe_call p.sig }
  if stack_ok r then
    ({ K.modify i (fun p => { p with sig := clear_pending sig p.sig, pipe_call := none }) with
        redirects := r.cs :: K.redirects },
      { r with useresp := sub32 (sub32 r.useresp 4) 4, eip := handler, ebx := sig })
  else (terminate_by K i fun s => { s with mask := s.saved_mask }, r)

/-- `SIGKILL` のないときの、番号の小さい順の繰り返し。`pending` は始めに読んだ値である。 -/
def signal_loop (i : Nat) (pending : BitVec 32) : Kernel → Regs → List Nat → Kernel × Regs
  | K, r, [] => (K, r)
  | K, r, sig :: sigs =>
    let p := K.table i
    let disp := p.sig.disposition sig
    if !pending.getLsbD sig then signal_loop i pending K r sigs
    else if p.sig.mask.getLsbD sig then signal_loop i pending K r sigs
    else if sig = SIGCONT then
      let K := K.modifySig i (clear_pending sig)
      let K := if p.sig.stopped_by ≠ 0 then
        K.modify i fun p => { p with sig := { p.sig with stopped_by := 0 }, state := .ready } else K
      signal_loop i pending K r sigs
    else if sig = SIGSTOP then (stop_by K i sig, r)
    else if disp = SIG_IGN then signal_loop i pending (K.modifySig i (clear_pending sig)) r sigs
    else if disp = SIG_DFL then
      if sig = SIGTSTP ∨ sig = SIGTTIN ∨ sig = SIGTTOU then (stop_by K i sig, r)
      else if sig = SIGCHLD then signal_loop i pending (K.modifySig i (clear_pending sig)) r sigs
      else (terminate_by K i (clear_pending sig), r)
    else enter_handler K i sig disp r

/-- `sig = 1 .. NSIG - 1`。 -/
def signals : List Nat := List.range' 1 (NSIG - 1)

/-- 今のプロセスの信号を処理する。 -/
def deliver_signals (K : Kernel) (r : Regs) : Kernel × Regs :=
  match K.cur_proccess_id with
  | none => (K, r)
  | some i =>
    let p := K.table i
    if p.sig.pending ≠ 0#32 ∧ p.state = .running ∧ p.sig.in_handler = false then
      if p.sig.pending.getLsbD SIGKILL then
        (terminate_by K i fun s => { s with pending := 0#32 }, r)
      else signal_loop i p.sig.pending K r signals
    else (K, r)

/-- 次の候補から順に、`READY` か `NEW` の項目を探す。元の項目まで戻れば、そこで終わる。 -/
def select_loop (K : Kernel) (original : Option Nat) : Nat → Nat → Option Nat
  | 0, _ => none
  | n + 1, c =>
    if (K.table c).state = .ready ∨ (K.table c).state = .new then some c
    else if original = some c then some c
    else select_loop K original n ((c + 1) % K.num_processes)

def select_next (K : Kernel) : Option Nat :=
  select_loop K K.cur_proccess_id K.num_processes
    ((match K.cur_proccess_id with | none => 0 | some c => c + 1) % K.num_processes)

/-- 今の枠を控える。 -/
def save_frame (K : Kernel) (r : Regs) : Kernel :=
  match K.current_process with
  | none => K
  | some c => if (K.table c).state = .new then K else K.modify c fun p => { p with tf := r }

/-- 今の枠を控え、`next` の枠へ移る。 -/
def switch_to_process (K : Kernel) (next : Nat) (r : Regs) : Kernel :=
  let K := save_frame K r
  let p := K.table next
  { K.modify next (fun p => { p with state := .running }) with
    current_process := some next
    ctx := if p.state = .new then p.iret else p.tf }

/-- 走っていたプロセスを `READY` に戻す。 -/
def requeue (p : Pcb) : Pcb := { p with state := if p.state = .running then .ready else p.state }

/-- 次を選んで移る。選んだ項目が `TERMINATED` なら、`current_process` を空にして `sti; hlt` を経る。 -/
def dispatch (K : Kernel) (r : Regs) : Option Kernel :=
  (select_next K).map fun next =>
    let s := (K.table next).state
    switch_to_process
      { K with
        cur_proccess_id := some next
        current_process := if s = .terminated then none else K.current_process
        switched := s :: K.switched }
      next r

def schedule (K : Kernel) (r : Regs) : Option Kernel :=
  if K.num_processes = 0 then some K
  else
    let (K, r) := deliver_signals K r
    match K.cur_proccess_id with
    | none => dispatch K r
    | some i => dispatch (K.modify i requeue) r

def timer_handler (K : Kernel) (r : Regs) : Option Kernel :=
  let ticks := add32 K.ticks 1
  (sleep_check_wakeup { K with ticks := ticks } ticks).bind fun K => schedule K r

def send_signal_to_foreground (K : Kernel) (sig : Nat) : Kernel :=
  if K.foreground_pgid ≠ 0 then
    { K with
      table := fun i =>
        if i < MAX_PROCESSES ∧ (K.table i).pgid = K.foreground_pgid ∧
            (K.table i).state ≠ .terminated then
          { K.table i with
            sig := { (K.table i).sig with pending := (K.table i).sig.pending ||| SIG_BIT sig } }
        else K.table i }
  else K

/-- `Ctrl+C` は `SIGINT`、`Ctrl+Z` は `SIGTSTP` を送る。ほかの鍵は `schedule` を呼ばない。 -/
def keyboard_handler (K : Kernel) (z : Bool) (r : Regs) : Option Kernel :=
  schedule (send_signal_to_foreground K (if z then SIGTSTP else SIGINT)) r

end MyOS.Proc
