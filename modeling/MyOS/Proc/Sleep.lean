import MyOS.Lib.Linked
import MyOS.Proc.Acts

/-!
# 眠りの列

`sleep_queue` は PCB の `sleep_next` でつなぐ列で、`wake_tick` の順に並ぶ。列から外すのは
`sleep_check_wakeup` だけである。
-/

namespace MyOS.Proc
open MyOS.Lib

/-- `sleep_next` でつながり、`wake_tick` の順に並ぶ列。 -/
structure SleepList (K : Kernel) (l : List Nat) : Prop where
  linked : Linked (fun j => (K.table j).sleep_next) K.sleep_queue l
  sorted : l.Pairwise fun a b => (K.table a).wake_tick ≤ (K.table b).wake_tick

/-- 眠りの列は `l` で、列の外の項目はどこも指さない。 -/
structure Queued (K : Kernel) (l : List Nat) : Prop where
  linked : Linked (fun j => (K.table j).sleep_next) K.sleep_queue l
  sorted : l.Pairwise fun a b => (K.table a).wake_tick ≤ (K.table b).wake_tick
  outside : ∀ j, j ∉ l → (K.table j).sleep_next = none

/-- `sleep` の中で待っている。番号は控えた枠の `eax` に残る。 -/
def Asleep (p : Pcb) : Prop := p.state = .blocked ∧ p.tf.eax = SYS_SLEEP

instance (p : Pcb) : Decidable (Asleep p) := inferInstanceAs (Decidable (_ ∧ _))

/-- 項目 `i` が、まだ眠りの列につながっている。 -/
def InQueue (K : Kernel) (i : Nat) : Prop :=
  K.sleep_queue = some i ∨ ∃ j, j < MAX_PROCESSES ∧ (K.table j).sleep_next = some i

instance (K : Kernel) (i : Nat) : Decidable (InQueue K i) := inferInstanceAs (Decidable (_ ∨ _))

/-- まだ列につながっているプロセスは、`sleep` を呼ばない。 -/
def SleepOnce (K : Kernel) : Event → Prop
  | .syscall _ r => r.eax = SYS_SLEEP → r.ebx ≠ 0 → ∀ i, K.current_process = some i → ¬ InQueue K i
  | _ => True

instance (K : Kernel) (ev : Event) : Decidable (SleepOnce K ev) :=
  match ev with
  | .syscall _ r => inferInstanceAs (Decidable (r.eax = SYS_SLEEP → r.ebx ≠ 0 →
      ∀ i ∈ K.current_process, ¬ InQueue K i))
  | .boot _ => inferInstanceAs (Decidable True)
  | .timer _ => inferInstanceAs (Decidable True)
  | .keyboard _ _ => inferInstanceAs (Decidable True)
  | .fault _ => inferInstanceAs (Decidable True)
  | .pipe => inferInstanceAs (Decidable True)

/-- 眠りの列は整っていて、`sleep` の中で待っているプロセスをすべて含む。 -/
def SleepInv (K : Kernel) : Prop :=
  ∃ l, Queued K l ∧ (∀ j ∈ l, j < K.num_processes) ∧
    ∀ j, j < K.num_processes → Asleep (K.table j) → j ∈ l

/-- 書き込みが眠りの列に残すもの。 -/
inductive SleepStep (K₀ : Kernel) (ev : Event) (K K' : Kernel) : Prop
  | same : K'.sleep_queue = K.sleep_queue → (∀ j, (K'.table j).sleep_next = (K.table j).sleep_next ∧
      (K'.table j).wake_tick = (K.table j).wake_tick) → SleepStep K₀ ev K K'
  | enqueue {i env r} : Calls K₀ ev i env r → r.eax = SYS_SLEEP → r.ebx ≠ 0 →
      K = (K₀.modify i fun p => { p with state := .blocked }) → doze K₀ i r = some K' →
      SleepStep K₀ ev K K'
  | wake {h r} : ev = .timer r → K.sleep_queue = some h → (K.table h).wake_tick ≤ add32 K₀.ticks 1 →
      K' = sleep_pop K h → SleepStep K₀ ev K K'

/-- CPU にない項目 `j` の、状態と控えた枠の変わり方。 -/
inductive OffCpu (K₀ : Kernel) (ev : Event) (K K' : Kernel) (j : Nat) : Prop
  | kept : j < K.num_processes → (K'.table j).state = (K.table j).state →
      (K'.table j).tf = (K.table j).tf → OffCpu K₀ ev K K' j
  | dies : (K'.table j).state = .terminated → OffCpu K₀ ev K K' j
  | wake {r} : ev = .timer r → (K.table j).wake_tick ≤ add32 K₀.ticks 1 → (K.table j).state = .blocked →
      (K'.table j).state = .ready → (K'.table j).tf = (K.table j).tf → OffCpu K₀ ev K K' j
  | unblock {i b c} : Ends K₀ ev i b K → get_process_by_pid K (K.table i).pid = some c →
      get_process_by_pid K (K.table c).parent_id = some j → (K.table j).state = .blocked →
      (K.table j).waiting_on_pid = 0 ∨ (K.table j).waiting_on_pid = (K.table i).pid →
      (K'.table j).state = .ready → (K'.table j).tf = { (K.table j).tf with eax := (K.table i).pid } →
      OffCpu K₀ ev K K' j
  | cont : (K.table j).state = .stopped → (K'.table j).state = .ready → OffCpu K₀ ev K K' j
  | born : K = K₀ → K.num_processes ≤ j ∨ (K.table j).state = .terminated →
      (K'.table j).state = .ready ∨ (K'.table j).state = .new → OffCpu K₀ ev K K' j

/-! `sleep` から戻るまで。 -/

/-- 待っているプロセスが CPU に戻るまでの実行。`elapsed` は、待っている間に進んだ時計の数である。 -/
structure Nap where
  kernel : Kernel
  elapsed : Nat

/-- 事象の前に `i` が待っていれば、時計の割り込みを数える。 -/
def naps (K : Kernel) (i : Nat) : Event → Nat
  | .timer _ => if (K.table i).state = .blocked then 1 else 0
  | _ => 0

/-- 項目 `i` が CPU に戻るか終わるまで進む。 -/
def nap (i : Nat) (w : Nap) (ev : Event) : Option Nap :=
  if w.kernel.current_process = some i ∨ (w.kernel.table i).state = .terminated then none
  else (step w.kernel ev).map fun K => ⟨K, w.elapsed + naps w.kernel i ev⟩

/-- 休止のプロセスの番号と親の番号は 0 である。 -/
structure Rooted (K : Kernel) : Prop where
  num : 0 < K.num_processes
  pid : (K.table 0).pid = 0
  parent : (K.table 0).parent_id = 0

/-- 待っている項目が、控えた `eax` に残す値。起こす子の番号が入ることもある。 -/
inductive Answer (V : Nat → Prop) (p : Pcb) : Prop
  | dead : p.state = .terminated → Answer V p
  | ready : p.state = .ready → V p.tf.eax → Answer V p
  | blocked : p.state = .blocked → V p.tf.eax → (∀ v, v ≠ 0 → V v) → Answer V p

/-- CPU に戻るときの `eax` は `V` を満たす。 -/
structure NapInv (V : Nat → Prop) (j : Nat) (K : Kernel) : Prop where
  rooted : Rooted K
  lt : j < K.num_processes
  off : K.cur_proccess_id ≠ some j → Answer V (K.table j)
  back : K.cur_proccess_id = some j → V K.ctx.eax

end MyOS.Proc
