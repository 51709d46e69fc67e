import MyOS.Proc.Syscalls

/-!
# 信号の場合分け

`schedule` は溜まった信号を番号の小さい順に調べる。捨てる信号は通り過ぎ、止める信号、終える信号、ハンドラの
ある信号で繰り返しが終わる。
-/

namespace MyOS.Proc
open MyOS.Lib

/-- 溜まっていて、マスクされていない。 -/
def Due (pending : BitVec 32) (s : SignalState) (sig : Nat) : Prop :=
  pending.getLsbD sig = true ∧ s.mask.getLsbD sig = false

/-- 溜まっていない、マスクされている、または捨てられる信号。繰り返しは次へ進む。 -/
def Passed (pending : BitVec 32) (s : SignalState) (sig : Nat) : Prop :=
  pending.getLsbD sig = false ∨ s.mask.getLsbD sig = true ∨ sig = SIGCONT ∨
    sig ≠ SIGSTOP ∧ s.disposition sig = SIG_IGN ∨ sig = SIGCHLD ∧ s.disposition sig = SIG_DFL

/-- 止める信号。 -/
def Stops (s : SignalState) (sig : Nat) : Prop :=
  sig = SIGSTOP ∨ (sig = SIGTSTP ∨ sig = SIGTTIN ∨ sig = SIGTTOU) ∧ s.disposition sig = SIG_DFL

/-- 既定の扱いで終える信号。 -/
def Kills (s : SignalState) (sig : Nat) : Prop :=
  s.disposition sig = SIG_DFL ∧ sig ≠ SIGCONT ∧ sig ≠ SIGCHLD ∧ sig ≠ SIGSTOP ∧ sig ≠ SIGTSTP ∧
    sig ≠ SIGTTIN ∧ sig ≠ SIGTTOU

/-- ユーザのハンドラがある信号。 -/
def Caught (s : SignalState) (sig : Nat) : Prop :=
  sig ≠ SIGCONT ∧ sig ≠ SIGSTOP ∧ s.disposition sig ≠ SIG_IGN ∧ s.disposition sig ≠ SIG_DFL

/-- 捨てる信号を一つ通り過ぎたときの項目。`SIGCONT` は止まっていたプロセスを `READY` にする。 -/
def pass_one (pending : BitVec 32) (p : Pcb) (sig : Nat) : Pcb :=
  if pending.getLsbD sig = false ∨ p.sig.mask.getLsbD sig = true then p
  else
    { p with
      sig := { clear_pending sig p.sig with
        stopped_by := if sig = SIGCONT then 0 else p.sig.stopped_by }
      state := if sig = SIGCONT ∧ p.sig.stopped_by ≠ 0 then .ready else p.state }

def pass_all (pending : BitVec 32) (pre : List Nat) (p : Pcb) : Pcb :=
  pre.foldl (pass_one pending) p

/-- 信号で止まった項目。 -/
def stopped_pcb (sig : Nat) (p : Pcb) : Pcb :=
  { p with
    sig := { clear_pending sig p.sig with stopped_by := sig }
    state := .stopped }

/-- 信号で終わった項目。 -/
def ended_pcb (f : SignalState → SignalState) (p : Pcb) : Pcb :=
  { p with
    sig := f p.sig
    state := .terminated }

/-- 元の文脈を控えた項目。 -/
def saved_pcb (sig : Nat) (r : Regs) (p : Pcb) : Pcb :=
  { p with sig := save_context sig r p.pipe_call p.sig }

/-- ハンドラへ移る項目。 -/
def handler_pcb (sig : Nat) (p : Pcb) : Pcb :=
  { p with
    sig := clear_pending sig p.sig
    pipe_call := none }

/-- `pre` を通り過ぎ、`sig` で繰り返しが終わる。 -/
structure FirstDue (p : Pcb) (pre : List Nat) (sig : Nat) : Prop where
  split : ∃ post, signals = pre ++ sig :: post
  kill : p.sig.pending.getLsbD SIGKILL = false
  passed : ∀ s ∈ pre, Passed p.sig.pending p.sig s
  due : Due p.sig.pending p.sig sig

/-- 信号の処理の行方。 -/
inductive Fate
  | passes
  | stops
  | ends
  | caught (sig : Nat)

/-- 走っている項目 `p` の信号を、枠 `r` で処理した行方と、その項目。 -/
inductive Signalled (p : Pcb) (r : Regs) : Fate → Pcb → Prop
  | killed : p.sig.pending.getLsbD SIGKILL = true →
      Signalled p r .ends (ended_pcb (fun s => { s with pending := 0#32 }) p)
  | passed : p.sig.pending.getLsbD SIGKILL = false →
      (∀ s ∈ signals, Passed p.sig.pending p.sig s) →
      Signalled p r .passes (pass_all p.sig.pending signals p)
  | stops {pre sig} : FirstDue p pre sig → Stops p.sig sig →
      Signalled p r .stops (stopped_pcb sig (pass_all p.sig.pending pre p))
  | kills {pre sig} : FirstDue p pre sig → Kills p.sig sig →
      Signalled p r .ends (ended_pcb (clear_pending sig) (pass_all p.sig.pending pre p))
  | overflow {pre sig} : FirstDue p pre sig → Caught p.sig sig → stack_ok r = false →
      Signalled p r .ends (ended_pcb (fun s => { s with mask := s.saved_mask })
        (saved_pcb sig r (pass_all p.sig.pending pre p)))
  | caught {pre sig} : FirstDue p pre sig → Caught p.sig sig → stack_ok r = true →
      Signalled p r (.caught sig) (handler_pcb sig (saved_pcb sig r (pass_all p.sig.pending pre p)))

/-- 信号を処理した項目 `p'` を書き、行方に応じて親を起こすか、枠を向け変える。 -/
def settle (K : Kernel) (i : Nat) (r : Regs) (p' : Pcb) : Fate → Kernel × Regs
  | .passes => (K.modify i fun _ => p', r)
  | .stops => (unblock_parent (K.modify i fun _ => p') p'.pid false, r)
  | .ends => (unblock_parent (K.modify i fun _ => p') p'.pid true, r)
  | .caught sig =>
    ({ K.modify i (fun _ => p') with redirects := r.cs :: K.redirects },
      { r with useresp := sub32 (sub32 r.useresp 4) 4, eip := p'.sig.disposition sig, ebx := sig })

/-- 信号を処理する条件。 -/
def Signals (p : Pcb) : Prop :=
  p.sig.pending ≠ 0#32 ∧ p.state = .running ∧ p.sig.in_handler = false

end MyOS.Proc
