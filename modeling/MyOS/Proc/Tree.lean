import MyOS.Proc.Acts

/-!
# プロセスの木

書き込みのうち、番号、親、子の列、状態を変えるもの。ほかの書き込みは `quiet` にまとめる。
-/

namespace MyOS.Proc
open MyOS.Lib

/-- 番号、親、子の列、待ちの対象、控えた枠が同じである。 -/
structure SameTree (p p' : Pcb) : Prop where
  pid : p'.pid = p.pid
  parent : p'.parent_id = p.parent_id
  children : p'.children = p.children
  waiting : p'.waiting_on_pid = p.waiting_on_pid
  tf : p'.tf = p.tf

/-- 表のほかで、木に関わるものが同じである。 -/
structure TreeRest (K K' : Kernel) : Prop where
  num : K'.num_processes = K.num_processes
  next_pid : K'.next_pid = K.next_pid
  reports : K'.reports = K.reports
  cur : K'.cur_proccess_id = K.cur_proccess_id

/-- 終わりを除いて、項目 `i` の状態が変わる理由。 -/
inductive Move (K₀ : Kernel) (ev : Event) (K : Kernel) (i : Nat) (p' : Pcb) : Prop
  | block {env r} : Calls K₀ ev i env r →
      r.eax = SYS_WAIT ∨ r.eax = SYS_WAITPID ∨ r.eax = SYS_SLEEP → (K.table i).state = .running →
      p'.state = .blocked → Move K₀ ev K i p'
  | wake {r} : ev = .timer r → K.sleep_queue = some i → (K.table i).wake_tick ≤ add32 K₀.ticks 1 →
      (K.table i).state = .blocked → p'.state = .ready → p'.tf = (K.table i).tf → Move K₀ ev K i p'
  | cont {k env r} : Calls K₀ ev k env r → (K.table i).state = .stopped → p'.state = .ready →
      Move K₀ ev K i p'
  | load {env r} : Calls K₀ ev i env r → (K.table i).state = .running → p'.state = .running →
      Move K₀ ev K i p'
  | signal {r fate} : at_schedule K₀ ev = some (K, r) → K.cur_proccess_id = some i →
      Signals (K.table i) → Signalled (K.table i) r fate p' → p'.state ≠ .terminated →
      p'.state ≠ .new → Move K₀ ev K i p'

/-- 信号か、読み込みの失敗で、項目 `i` だけが終わる。 -/
inductive Falls (K₀ : Kernel) (ev : Event) (i : Nat) (K K' : Kernel) : Prop
  | fail {env r} : Calls K₀ ev i env r → r.eax = 10 → env.load = none → K = exec_reset K₀ i →
      K' = exec_fail (exec_reset K₀ i) i → Falls K₀ ev i K K'
  | signal {r p'} : at_schedule K₀ ev = some (K, r) → K.cur_proccess_id = some i →
      Signals (K.table i) → Signalled (K.table i) r .ends p' → K' = written K i r p' .ends →
      Falls K₀ ev i K K'

/-- 書き込みを木の上で見たもの。 -/
inductive TreeStep (K₀ : Kernel) (ev : Event) (K K' : Kernel) : Prop
  | quiet : TreeRest K K' → (∀ j, SameTree (K.table j) (K'.table j)) →
      (∀ j, (K'.table j).state = (K.table j).state) → TreeStep K₀ ev K K'
  | await {i env r} : Calls K₀ ev i env r → TreeRest K K' → (K.table i).state = .running →
      (∀ j, j ≠ i → SameTree (K.table j) (K'.table j)) →
      (K'.table i).pid = (K.table i).pid → (K'.table i).parent_id = (K.table i).parent_id →
      (K'.table i).children = (K.table i).children →
      (∀ j, (K'.table j).state = (K.table j).state) → TreeStep K₀ ev K K'
  | move {i} : Move K₀ ev K i (K'.table i) → TreeRest K K' →
      (∀ j, j ≠ i → SameTree (K.table j) (K'.table j) ∧ (K'.table j).state = (K.table j).state) →
      (K'.table i).pid = (K.table i).pid → (K'.table i).parent_id = (K.table i).parent_id →
      (K'.table i).children = (K.table i).children → TreeStep K₀ ev K K'
  | dies {i} : Falls K₀ ev i K K' → TreeRest K K' → K.cur_proccess_id = some i →
      (K.table i).state = .running → (∀ j, SameTree (K.table j) (K'.table j)) →
      (∀ j, j ≠ i → (K'.table j).state = (K.table j).state) →
      (K'.table i).state = .terminated → TreeStep K₀ ev K K'
  | exit {i fds} : Quits K₀ ev i fds → K = K₀ → K' = exit_tree K₀ i fds → TreeStep K₀ ev K K'
  | unblock {i b} : Ends K₀ ev i b K → K' = unblock_parent K (K.table i).pid b → TreeStep K₀ ev K K'
  | reap {i env r} : Calls K₀ ev i env r → K = K₀ → find_terminated_child K₀ (K₀.table i).pid ≠ 0 →
      K' = reaped K₀ i (find_terminated_child K₀ (K₀.table i).pid) → TreeStep K₀ ev K K'
  | create {pid load} : K = K₀ → Creates K₀ ev pid load → create_process K₀ pid load = some K' →
      TreeStep K₀ ev K K'
  | fork {i env r slot} : K = K₀ → Calls K₀ ev i env r → r.eax = 24 → fork_slot K₀ = some slot →
      fork_into K₀ i slot r = some K' → TreeStep K₀ ev K K'

/-! 番号と親。 -/

/-- 項目を加える事象。 -/
def creates : Event → Bool
  | .boot _ => true
  | .syscall _ r => r.eax == 8 || r.eax == 24
  | _ => false

/-- 番号が一巡しない。 -/
def NoWrap (K : Kernel) (ev : Event) : Prop := creates ev = true → K.next_pid + 1 < 2 ^ 32

/-- `fork` が、まだ子の列に残る番号の項目を使い回さない。`Q` は、列を見る親の状態である。 -/
def ReuseOk (Q : ProcState → Prop) (K : Kernel) : Event → Prop
  | .syscall _ r => r.eax = 24 → ∀ slot, fork_slot K = some slot → slot < K.num_processes →
      ∀ j, j < K.num_processes → Q (K.table j).state → (K.table slot).pid ∉ (K.table j).children
  | _ => True

instance (K : Kernel) (ev : Event) : Decidable (NoWrap K ev) := inferInstanceAs (Decidable (_ → _))

instance (Q : ProcState → Prop) [DecidablePred Q] (K : Kernel) (ev : Event) : Decidable (ReuseOk Q K ev) :=
  match ev with
  | .syscall _ r => inferInstanceAs (Decidable (r.eax = 24 → ∀ slot ∈ fork_slot K, slot < K.num_processes →
      ∀ j, j < K.num_processes → Q (K.table j).state → (K.table slot).pid ∉ (K.table j).children))
  | .boot _ => inferInstanceAs (Decidable True)
  | .timer _ => inferInstanceAs (Decidable True)
  | .keyboard _ _ => inferInstanceAs (Decidable True)
  | .fault _ => inferInstanceAs (Decidable True)
  | .pipe => inferInstanceAs (Decidable True)

/-- 事象が子の列に加える親の項目。 -/
def adds (K : Kernel) : Event → Option Nat
  | .syscall env r => K.current_process.bind fun i =>
      if r.eax = 24 then (fork_slot K).map fun _ => i
      else if r.eax = 8 ∧ env.args = true ∧ K.num_processes < MAX_PROCESSES then
        get_process_by_pid (reserve K (K.table i).pid) (K.table i).pid
      else none
  | _ => none

/-- 表の中の番号は、次の番号より小さく、互いに異なる。 -/
structure PidInv (K : Kernel) : Prop where
  idle : (K.table 0).pid = 0
  lt : ∀ j, j < K.num_processes → (K.table j).pid < K.next_pid
  inj : ∀ j k, j < K.num_processes → k < K.num_processes → (K.table j).pid = (K.table k).pid → j = k

/-- 子の列は重ならず、どれも自分を親とする表の項目の番号である。 -/
structure KidsOf (K : Kernel) (j : Nat) : Prop where
  nodup : (K.table j).children.Nodup
  entry : ∀ c ∈ (K.table j).children, ∃ k, k < K.num_processes ∧ (K.table k).pid = c ∧
    (K.table k).parent_id = (K.table j).pid

def KidsInv (Q : ProcState → Prop) (K : Kernel) : Prop :=
  ∀ j, j < K.num_processes → Q (K.table j).state → KidsOf K j

/-- 表の項目の番号と親を変えない書き込み。子の列からは除くだけで、終わった項目は終わったままである。 -/
structure SameIds (K K' : Kernel) (next : Nat) : Prop where
  num : K'.num_processes = K.num_processes
  next : K'.next_pid = next
  pid : ∀ j, j < K.num_processes → (K'.table j).pid = (K.table j).pid
  parent : ∀ j, j < K.num_processes → (K'.table j).parent_id = (K.table j).parent_id
  children : ∀ j, j < K.num_processes → (K'.table j).children = (K.table j).children ∨
    ∃ x, (K'.table j).children = remove_id x (K.table j).children
  dead : ∀ j, j < K.num_processes → (K.table j).state = .terminated → (K'.table j).state = .terminated

/-- 項目 `slot` に新しいプロセスを置く書き込み。`adder` は、子の列に加える親の項目である。 -/
structure Born (K : Kernel) (slot parent : Nat) (adder : Option Nat) (K' : Kernel) : Prop where
  le : slot ≤ K.num_processes
  num : K'.num_processes = if slot = K.num_processes then K.num_processes + 1 else K.num_processes
  next : K'.next_pid = add32 K.next_pid 1
  reports : K'.reports = K.reports
  pid : (K'.table slot).pid = K.next_pid
  parent_id : (K'.table slot).parent_id = parent
  children : (K'.table slot).children = []
  live : (K'.table slot).state ≠ .terminated
  old : ∀ j, j < K.num_processes → j ≠ slot → (K'.table j).pid = (K.table j).pid ∧
    (K'.table j).parent_id = (K.table j).parent_id ∧ (K'.table j).state = (K.table j).state ∧
    (K'.table j).children =
      if adder = some j then (K.table j).children ++ [K.next_pid] else (K.table j).children
  adder_spec : ∀ j, adder = some j → j < K.num_processes ∧ j ≠ slot ∧ (K.table j).pid = parent
  alone : adder = none → parent = 0 ∨ ∀ j, j < K.num_processes → (K.table j).pid ≠ parent

/-- 新しいプロセスを置く事象。 -/
inductive Births (K : Kernel) (ev : Event) (slot parent : Nat) : Prop
  | boot {load} : ev = .boot load → slot = K.num_processes → parent = 0 → Births K ev slot parent
  | spawn {i env r} : Calls K ev i env r → r.eax = 8 → slot = K.num_processes →
      parent = (K.table i).pid → Births K ev slot parent
  | fork {i env r} : Calls K ev i env r → r.eax = 24 → fork_slot K = some slot →
      parent = (K.table i).pid → Births K ev slot parent

/-- 番号と親について、書き込みにできること。 -/
inductive Kin (K₀ : Kernel) (ev : Event) (K K' : Kernel) : Prop
  | same : SameIds K K' K.next_pid → Kin K₀ ev K K'
  | skips : K = K₀ → creates ev = true → SameIds K K' (add32 K.next_pid 1) → Kin K₀ ev K K'
  | born {slot parent adder} : K = K₀ → creates ev = true → Births K ev slot parent →
      Born K slot parent adder K' → Kin K₀ ev K K'

/-! 終わった祖先。 -/

/-- `schedule` に入ると、信号で終わる。 -/
def DiesNext (p : Pcb) (r : Regs) : Prop :=
  Signals p ∧ (p.sig.pending.getLsbD SIGKILL = true ∨
    ∃ pre sig, FirstDue p pre sig ∧ (Kills p.sig sig ∨ Caught p.sig sig ∧ stack_ok r = false))

/-- 生きている子がない。 -/
def NoLiveChild (K : Kernel) (i : Nat) : Prop :=
  ∀ j, j < K.num_processes → (K.table j).parent_id = (K.table i).pid → (K.table j).state = .terminated

/-- `exit` か例外で終わるプロセスの生きている子には、生きている子がない。信号か読み込みの失敗で終わるプロセスには、
    生きている子がない。 -/
structure OrphanSafe (K : Kernel) (ev : Event) : Prop where
  wrap : NoWrap K ev
  exit : ∀ i fds, Quits K ev i fds → ∀ k, k < K.num_processes →
    (K.table k).parent_id = (K.table i).pid → (K.table k).state ≠ .terminated → NoLiveChild K k
  fail : ∀ i env r, Calls K ev i env r → r.eax = 10 → env.load = none → NoLiveChild K i
  signal : ∀ K₁ r i, at_schedule K ev = some (K₁, r) → K₁.cur_proccess_id = some i →
    DiesNext (K₁.table i) r → NoLiveChild K₁ i

/-- 項目 `k` は `j` の親である。 -/
def ParentOf (K : Kernel) (j k : Nat) : Prop :=
  (K.table j).parent_id ≠ 0 ∧ k < K.num_processes ∧ (K.table k).pid = (K.table j).parent_id

instance (K : Kernel) (j k : Nat) : Decidable (ParentOf K j k) := inferInstanceAs (Decidable (_ ∧ _ ∧ _))

/-- 生きている項目の親は生きている。 -/
def LiveInv (K : Kernel) : Prop :=
  ∀ j, j < K.num_processes → (K.table j).state ≠ .terminated → (K.table j).parent_id = 0 ∨
    ∃ k, ParentOf K j k ∧ (K.table k).state ≠ .terminated

/-! 終了した子の報告。終わった子は、親の `wait` か `waitpid` が番号を返すまで、親の子の列と表に残る。 -/

/-- 終わっていない。 -/
def Live (s : ProcState) : Prop := s ≠ .terminated

instance : DecidablePred Live := fun s => inferInstanceAs (Decidable (s ≠ .terminated))

/-- 親が `wait` でも `waitpid` でもなく待っていて、子 `i` の終わりで起きる。 -/
def SleepingParent (K : Kernel) (i : Nat) : Prop :=
  ∃ j, j < K.num_processes ∧ (K.table j).pid = (K.table i).parent_id ∧ (K.table j).state = .blocked ∧
    ((K.table j).waiting_on_pid = 0 ∨ (K.table j).waiting_on_pid = (K.table i).pid) ∧
    (K.table j).tf.eax ≠ SYS_WAIT ∧ (K.table j).tf.eax ≠ SYS_WAITPID

/-- 番号が一巡せず、`fork` は生きている親の列に残る項目を使い回さず、眠っている親の子が終わらない。 -/
structure WaitOk (K : Kernel) (ev : Event) : Prop where
  wrap : NoWrap K ev
  reuse : ReuseOk Live K ev
  exit : ∀ i fds, Quits K ev i fds → ¬ SleepingParent K i
  fail : ∀ i env r, Calls K ev i env r → r.eax = 10 → env.load = none → ¬ SleepingParent K i
  signal : ∀ K₁ r i, at_schedule K ev = some (K₁, r) → K₁.cur_proccess_id = some i →
    DiesNext (K₁.table i) r → ¬ SleepingParent K₁ i

/-- 生きている親の、まだ報告していない子は列にある。報告した子は終わっていて、列にはない。 -/
structure WaitInv (K : Kernel) : Prop where
  pids : PidInv K
  kids : KidsInv Live K
  parents : ∀ k, k < K.num_processes → (K.table k).parent_id < K.next_pid
  listed : ∀ j k, j < K.num_processes → k < K.num_processes → j ≠ 0 → Live (K.table j).state →
    (K.table k).parent_id = (K.table j).pid →
    ((K.table j).pid, (K.table k).pid) ∉ K.reports → (K.table k).pid ∈ (K.table j).children
  old : ∀ x ∈ K.reports, x.1 < K.next_pid ∧ x.2 < K.next_pid
  gone : ∀ x ∈ K.reports, ∀ j, j < K.num_processes → (K.table j).pid = x.1 → Live (K.table j).state →
    x.2 ∉ (K.table j).children
  dead : ∀ x ∈ K.reports, ∀ k, k < K.num_processes → (K.table k).pid = x.2 →
    (K.table k).state = .terminated
  once : K.reports.Nodup

/-- 番号 `p` の親が生きている間、まだ報告していない終わった子 `c` は表に残る。 -/
def Findable (p c : Nat) (K : Kernel) : Prop :=
  (p, c) ∈ K.reports ∨ (∀ j, j < K.num_processes → (K.table j).pid = p → (K.table j).state = .terminated) ∨
    ∃ k, k < K.num_processes ∧ (K.table k).pid = c ∧ (K.table k).parent_id = p ∧
      (K.table k).state = .terminated

end MyOS.Proc
