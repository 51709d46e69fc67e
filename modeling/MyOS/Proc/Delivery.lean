import MyOS.Proc.Acts

/-!
# 信号の約束

マスクと扱いの不変条件、`SIGKILL`、ハンドラからの戻り、停止と再開の順序。
-/

namespace MyOS.Proc
open MyOS.Lib

/-- `SIGKILL` と `SIGSTOP` のビットを含まない。 -/
def Unblockable (m : BitVec 32) : Prop :=
  m.getLsbD SIGKILL = false ∧ m.getLsbD SIGSTOP = false

/-- マスクは `SIGKILL` と `SIGSTOP` を含まず、この二つの扱いは既定で、ほかの扱いは既定、無視、または
    ユーザの番地である。 -/
structure SigOk (s : SignalState) : Prop where
  mask : Unblockable s.mask
  saved : Unblockable s.saved_mask
  kill : s.disposition SIGKILL = SIG_DFL
  stop : s.disposition SIGSTOP = SIG_DFL
  user : ∀ n, s.disposition n = SIG_DFL ∨ s.disposition n = SIG_IGN ∨
    s.disposition n < KERNEL_VIRTUAL_BASE

/-- `schedule` が次のプロセスを選ぶときの状態。 -/
def picking (K : Kernel) (r : Regs) : Kernel := requeued (deliver_signals K r).1

/-- 項目 `i` のプロセスが、`exec` も `sigreturn` も呼ばず、別のプロセスに使い直されない。 -/
def StaysInHandler (i : Nat) (K : Kernel) : Event → Prop
  | .syscall _ r =>
    (K.current_process = some i → r.eax ≠ 10 ∧ r.eax ≠ 28) ∧ (r.eax = 24 → fork_slot K ≠ some i)
  | _ => True

/-- `sigreturn` が戻すレジスタ。 -/
structure SameRegs (r r' : Regs) : Prop where
  eip : r'.eip = r.eip
  useresp : r'.useresp = r.useresp
  eax : r'.eax = r.eax
  ebx : r'.ebx = r.ebx
  ecx : r'.ecx = r.ecx
  edx : r'.edx = r.edx
  esi : r'.esi = r.esi
  edi : r'.edi = r.edi
  ebp : r'.ebp = r.ebp
  eflags : r'.eflags = r.eflags

/-- 止める信号。 -/
def stop_signals : List Nat := [SIGSTOP, SIGTSTP, SIGTTIN, SIGTTOU]

/-- 事象が項目 `j` に送る、止める信号または `SIGCONT`。 -/
def sent_to (K : Kernel) (j : Nat) : Event → Option Nat
  | .syscall _ r =>
    if r.eax = 13 ∧ r.ebx ≠ 0 ∧ get_process_by_pid K r.ebx = some j ∧
        (K.table j).state ≠ .terminated ∧ (r.ecx = SIGCONT ∨ r.ecx ∈ stop_signals) then some r.ecx
    else none
  | .keyboard true _ =>
    if K.foreground_pgid ≠ 0 ∧ j < MAX_PROCESSES ∧ (K.table j).pgid = K.foreground_pgid ∧
        (K.table j).state ≠ .terminated then some SIGTSTP
    else none
  | _ => none

/-- 事象が項目 `j` を新しいプロセスにする。 -/
def reuses (K : Kernel) (j : Nat) : Event → Bool
  | .boot _ => j == K.num_processes
  | .syscall _ r => (r.eax == 8 && j == K.num_processes) || (r.eax == 24 && fork_slot K == some j)
  | _ => false

/-- 項目 `j` に最後に送られた、止める信号または `SIGCONT` を添えた機械。 -/
structure Watched where
  kernel : Kernel
  last : Option Nat

def watch (j : Nat) (w : Watched) (ev : Event) : Option Watched :=
  (step w.kernel ev).map fun K' =>
    ⟨K', if reuses w.kernel j ev then none else (sent_to w.kernel j ev).or w.last⟩

/-- `SIGCONT` を送るときに、止める信号が溜まっていない。 -/
def NoStopPending (j : Nat) (w : Watched) (ev : Event) : Prop :=
  sent_to w.kernel j ev = some SIGCONT →
    ∀ s ∈ stop_signals, (w.kernel.table j).sig.pending.getLsbD s = false

end MyOS.Proc
