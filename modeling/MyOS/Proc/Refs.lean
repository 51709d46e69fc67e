import MyOS.Proc.Tree

/-!
# ノードの参照の数とパイプの端

`refcount` は `FILE` の数に等しいはずだが、増やさずに `FILE` を作る所、閉じずに上書きする所、閉じずに終わる所がある。
-/

namespace MyOS.Proc
open MyOS.Lib

/-- 表の中の記述子が `n` を指す。 -/
def Refers (K : Kernel) (n j d : Nat) : Prop := j < K.num_processes ∧ d < MAX_FILES ∧ refers K n j d = true

instance (K : Kernel) (n j d : Nat) : Decidable (Refers K n j d) := inferInstanceAs (Decidable (_ ∧ _ ∧ _))

/-- `FILE` が指すか、マウントの項目のノードである。 -/
def Counted (K : Kernel) (n : Nat) : Prop := 0 < open_count K n ∨ n ∈ K.mounts

/-- `dup2` が引数を受け入れ、`fp` を写す。 -/
def Dup2Of (K : Kernel) (i old_fd new_fd : Nat) (fp : File) : Prop :=
  old_fd < MAX_FILES ∧ new_fd < MAX_FILES ∧ old_fd ≠ new_fd ∧ (K.table i).files_open old_fd = some fp

/-- `spawn` と `exec` のコマンド行に語がある。 -/
def HasArgs : Event → Prop
  | .syscall env r => r.eax = 8 ∨ r.eax = 10 → env.args = true
  | _ => True

instance (ev : Event) : Decidable (HasArgs ev) :=
  match ev with
  | .syscall env r => inferInstanceAs (Decidable (r.eax = 8 ∨ r.eax = 10 → env.args = true))
  | .boot _ => inferInstanceAs (Decidable True)
  | .timer _ => inferInstanceAs (Decidable True)
  | .keyboard _ _ => inferInstanceAs (Decidable True)
  | .fault _ => inferInstanceAs (Decidable True)
  | .pipe => inferInstanceAs (Decidable True)

/-- 親 `j` は、番号 `pid` の子 `c` の終わりを待っている。 -/
structure AwaitsChild (K : Kernel) (pid c j : Nat) : Prop where
  child : get_process_by_pid K pid = some c
  parent : get_process_by_pid K (K.table c).parent_id = some j
  blocked : (K.table j).state = .blocked
  waiting : (K.table j).waiting_on_pid = 0 ∨ (K.table j).waiting_on_pid = pid

/-- 一歩で閉じる記述子。`shared` は、終わるプロセスと同じ番号のほかの項目を後始末することである。 -/
inductive Closes (K : Kernel) (ev : Event) : Nat → Nat → Prop
  | close {i env r} : Calls K ev i env r → r.eax = 20 → 3 ≤ r.ebx → Closes K ev i r.ebx
  | dup2 {i env r fp} : Calls K ev i env r → r.eax = 27 → Dup2Of K i r.ebx r.ecx fp → 3 ≤ r.ecx → Closes K ev i r.ecx
  | exit {i env r} (d : Nat) : Calls K ev i env r → r.eax = 5 → Closes K ev i d
  | exec {i env r d} : Calls K ev i env r → r.eax = 10 → 2 ≤ d → Closes K ev i d
  | reap {i env r c} (d : Nat) : Calls K ev i env r → Reaps r (find_terminated_child K (K.table i).pid) →
      find_terminated_child K (K.table i).pid ≠ 0 →
      get_process_by_pid K (find_terminated_child K (K.table i).pid) = some c → Closes K ev c d
  | shared {i c j L} (d : Nat) : Ends K ev i true L → AwaitsChild L (L.table i).pid c j → c ≠ i → Closes K ev c d

/-- 参照の数を保つ歩。`spawn` は成功せず、`dup2` は開いた 0 から 2 へは写さず、`fork` は閉じていない項目を使い回さず、
    大域のノードを指す最後の `FILE` は閉じない。 -/
structure NodeSafe (K : Kernel) (ev : Event) : Prop where
  spawn : HasArgs ev → ∀ i env r, Calls K ev i env r → r.eax = 8 → env.load = none ∨ MAX_PROCESSES ≤ K.num_processes
  dup2 : ∀ i env r fp, Calls K ev i env r → r.eax = 27 → Dup2Of K i r.ebx r.ecx fp → r.ecx < 3 →
    (K.table i).files_open r.ecx = none
  fork : ∀ i env r slot, Calls K ev i env r → r.eax = 24 → fork_slot K = some slot → slot < K.num_processes →
    ∀ d, d < MAX_FILES → (K.table slot).files_open d = none
  keeps : HasArgs ev → ∀ n j d, is_global K n = true → Refers K n j d → Closes K ev j d →
    ∃ j' d', Refers K n j' d' ∧ ¬ Closes K ev j' d'

/-- 指されているノードの `refcount` は `FILE` の数に等しく、解放したノードを指すものはない。 -/
structure RefInv (K : Kernel) : Prop where
  refs : ∀ n, Counted K n → (K.nodes n).refcount = open_count K n
  fresh : ∀ n, K.next_node ≤ n → open_count K n = 0 ∧ is_global K n = false
  apart : K.stdin_node ≠ K.stdout_node ∧ K.stdin_node ∉ K.mounts ∧ K.stdout_node ∉ K.mounts
  early : K.cur_proccess_id = none → K.next_pid = 1 → (∀ j d, (K.table j).files_open d = none) ∧
    (K.nodes K.stdin_node).refcount = 1 ∧ (K.nodes K.stdout_node).refcount = 1
  freed : ∀ f ∈ K.freed, f.refs = 0 ∧ f.global = false

/-! 書き込みの分類。 -/

/-- 読み手または書き手の数。 -/
def PipeBuf.users (pb : PipeBuf) (writing : Bool) : Nat := if writing then pb.writers else pb.readers

/-- 表のほかで、ノード、パイプの端の数、解放の記録が同じである。 -/
structure FileRest (K K' : Kernel) : Prop where
  users : ∀ q w, (K'.pipes q).users w = (K.pipes q).users w
  cur : K'.cur_proccess_id = none → K.cur_proccess_id = none
  rest : K' = { K with
    table := K'.table
    cur_proccess_id := K'.cur_proccess_id
    current_process := K'.current_process
    foreground_pgid := K'.foreground_pgid
    sleep_queue := K'.sleep_queue
    ticks := K'.ticks
    pipes := K'.pipes
    ctx := K'.ctx
    next_block := K'.next_block
    owner := K'.owner
    released := K'.released
    cleaned := K'.cleaned
    reports := K'.reports
    redirects := K'.redirects
    switched := K'.switched }

/-- 開いたファイルも同じである。 -/
structure Quiet (K K' : Kernel) : Prop extends FileRest K K' where
  files : ∀ j, (K'.table j).files_open = (K.table j).files_open

/-- 新しく終わる項目はない。 -/
def Fewer (K K' : Kernel) : Prop := ∀ j, (K'.table j).state = .terminated → (K.table j).state = .terminated

/-- 書き込みを開いたファイルの上で見たもの。`dies` は、ファイルを閉じずに終わることである。 -/
inductive FileStep (K₀ : Kernel) (ev : Event) (K K' : Kernel) : Prop
  | quiet : Quiet K K' → Fewer K K' → FileStep K₀ ev K K'
  | dies {i} : Falls K₀ ev i K K' → Quiet K K' →
      (∀ j, j ≠ i → (K'.table j).state = .terminated → (K.table j).state = .terminated) → FileStep K₀ ev K K'
  | file {i env r} : K = K₀ → Calls K₀ ev i env r → FileCall K₀ i env r K' → FileStep K₀ ev K K'
  | create {pid load} : K = K₀ → Creates K₀ ev pid load → create_process K₀ pid load = some K' → FileStep K₀ ev K K'
  | fork {i env r slot} : K = K₀ → Calls K₀ ev i env r → r.eax = 24 → fork_slot K₀ = some slot →
      fork_into K₀ i slot r = some K' → FileStep K₀ ev K K'
  | reap {i env r} : K = K₀ → Calls K₀ ev i env r → Reaps r (find_terminated_child K₀ (K₀.table i).pid) →
      find_terminated_child K₀ (K₀.table i).pid ≠ 0 →
      K' = reaped K₀ i (find_terminated_child K₀ (K₀.table i).pid) → FileStep K₀ ev K K'
  | exit {i fds} : K = K₀ → Quits K₀ ev i fds → K' = exit_tree K₀ i fds → FileStep K₀ ev K K'
  | reset {i env r} : K = K₀ → Calls K₀ ev i env r → r.eax = 10 → K' = exec_reset K₀ i → FileStep K₀ ev K K'
  | unblock {i b} : Ends K₀ ev i b K → K' = unblock_parent K (K.table i).pid b → FileStep K₀ ev K K'

/-! パイプの端。 -/

/-- パイプ `q` の端のノード。 -/
def EndOf (K : Kernel) (writing : Bool) (q n : Nat) : Prop :=
  (K.nodes n).kind = rw_kind writing ∧ (K.nodes n).ptr = some q

/-- 表にあって、終わっていない。 -/
def Alive (K : Kernel) (j : Nat) : Prop := j < K.num_processes ∧ (K.table j).state ≠ .terminated

/-- 終わっていないプロセスが、パイプ `q` の端を開いている。 -/
def Holds (K : Kernel) (writing : Bool) (q : Nat) : Prop :=
  ∃ j d fp, Alive K j ∧ d < MAX_FILES ∧ (K.table j).files_open d = some fp ∧ EndOf K writing q fp.file

instance (K : Kernel) (writing : Bool) (q n : Nat) : Decidable (EndOf K writing q n) := inferInstanceAs (Decidable (_ ∧ _))

/-- 記述子 `d` はパイプの端を指さない。 -/
def NoEnd (K : Kernel) (i d : Nat) : Prop := ∀ fp, (K.table i).files_open d = some fp → (K.nodes fp.file).kind = .other

/-- 端を閉じる歩。`pipe` には空いた記述子が二つあり、`dup2` は 0 から 2 の端へは写さず、閉じずに終わるプロセスは端を
    開いていない。 -/
structure EndSafe (K : Kernel) (ev : Event) : Prop where
  pipe : ∀ i env r, Calls K ev i env r → r.eax = 12 → is_user_ptr r.ebx = true →
    ∃ rfd, free_fd K i 3 = some rfd ∧ (free_fd K i (rfd + 1)).isSome
  dup2 : ∀ i env r fp, Calls K ev i env r → r.eax = 27 → Dup2Of K i r.ebx r.ecx fp → r.ecx < 3 → NoEnd K i r.ecx
  exit : ∀ i fds, Quits K ev i fds → ∀ k, k < K.num_processes → k ≠ i →
    (K.table k).parent_id = (K.table i).pid → (K.table k).state ≠ .terminated → ∀ d, d < MAX_FILES → NoEnd K k d
  fault : ∀ i r, Faults K ev i r → ∀ d, d < MAX_FILES → NoEnd K i d
  fail : HasArgs ev → ∀ i env r, Calls K ev i env r → r.eax = 10 → env.load = none → ∀ d, d < 2 → NoEnd K i d
  signal : ∀ K₁ r i, at_schedule K ev = some (K₁, r) → K₁.cur_proccess_id = some i → DiesNext (K₁.table i) r →
    ∀ d, d < MAX_FILES → NoEnd K₁ i d

/-- 端のノードは、指す `FILE` のある間だけパイプに残る。 -/
structure EndInv (K : Kernel) : Prop where
  refs : ∀ w q n, EndOf K w q n → (K.nodes n).refcount = open_count K n ∧ 0 < open_count K n ∧ q < K.next_pipe
  linked : ∀ n, 0 < open_count K n → (K.nodes n).kind ≠ .other → (K.nodes n).ptr ≠ none
  globals : ∀ n, is_global K n = true → n < K.next_node ∧ (K.nodes n).kind = .other
  unique : ∀ w q n m, EndOf K w q n → EndOf K w q m → n = m
  users : ∀ w q, q < K.next_pipe →
    ((K.pipes q).users w = 1 ∧ ∃ n, EndOf K w q n) ∨ ((K.pipes q).users w = 0 ∧ ∀ n, ¬ EndOf K w q n)
  bound : ∀ j d fp, d < MAX_FILES → (K.table j).files_open d = some fp → fp.file < K.next_node

/-- 終わったプロセスと表の外の項目は、端を開いていない。 -/
def EndIdle (K : Kernel) : Prop := ∀ j, ¬ Alive K j → ∀ d, d < MAX_FILES → NoEnd K j d

end MyOS.Proc
