import MyOS.Proc.Delivery
import MyOS.Proc.Lemmas.Trap

/-!
# 切り替えと権限の定理

`schedule` が選ぶ項目の状態と、信号の枠を向け変える文脈の権限。
-/

namespace MyOS.Proc
open MyOS.Lib

variable {K : Kernel}

/-! ## 切り替え -/

/-- 番号 0 のプロセスが `exit` を呼ばない実行では、`switch_to_process` に渡る項目は `READY` か `NEW` で、
    走っているのは選ばれた項目だけである。次の `schedule` も、必ずそのような項目を見つける。 -/
theorem switched_selectable (rc_in rc_out mounts : Nat)
    (h : Steps step NoZeroExit (boot rc_in rc_out mounts) K) :
    (∀ s ∈ K.switched, s = .ready ∨ s = .new) ∧
      (∀ i, K.cur_proccess_id = some i → ∀ j, (K.table j).state = .running ↔ j = i) ∧
      ∀ r, ∃ next, select_next (picking K r) = some next ∧
        (((picking K r).table next).state = .ready ∨ ((picking K r).table next).state = .new) := by
  have hs := Synced.run h (.boot rc_in rc_out mounts)
  have hz := SchedInv.run (fun _ _ h => h) h (.boot rc_in rc_out mounts) (.boot rc_in rc_out mounts)
  refine ⟨hz.switched, fun i hi j => ⟨fun hj => ?_, fun hj => ?_⟩, fun r => ?_⟩
  · exact Option.some.inj ((hz.only j hj).symm.trans hi)
  · rw [hj]
    exact (hs.on_cpu i hi).running
  · obtain ⟨hnum, hcur⟩ := deliver_signals_num K r
    refine (hz.deliver r).selects (hnum.symm ▸ hs.num) fun i hi => ?_
    rw [hnum]
    exact (hs.on_cpu i (hcur ▸ hi)).lt

/-- `NoZeroExit` を計算する。 -/
def no_zero_exit (K : Kernel) (ev : Event) : Bool := (quits K ev).all fun i => (K.table i).pid != 0

theorem no_zero_exit_spec (K : Kernel) (ev : Event) (h : no_zero_exit K ev = true) : NoZeroExit K ev := by
  intro i hi
  simpa [no_zero_exit, hi] using h

/-- 子を作り、子へ移り、子が例外で終わる。 -/
def fork_trace : Trace (checked step no_zero_exit (boot 1 1 0)) (fun K =>
    K.switched = [.ready, .ready, .new, .new] ∧ (K.table 2).state = .terminated) :=
  ⟨start_shell ++ [call 24, tick, crash], by decide +kernel⟩

theorem switched_selectable_fork :
    ∃ K, Steps step NoZeroExit (boot 1 1 0) K ∧ K.switched = [.ready, .ready, .new, .new] ∧
      (K.table 2).state = .terminated ∧ (∀ s ∈ K.switched, s = .ready ∨ s = .new) ∧
      ∀ i, K.cur_proccess_id = some i → ∀ j, (K.table j).state = .running ↔ j = i := by
  obtain ⟨K, hK, hsw, hdead⟩ := fork_trace.steps_checked no_zero_exit_spec
  have h := switched_selectable 1 1 0 hK
  exact ⟨K, hK, hsw, hdead, h.1, h.2.1⟩

/-! 番号の一巡。読み込みに失敗する `spawn` を繰り返し、次の番号が 0 になった後で `fork` する。 -/

/-- シェルが走る状態。 -/
def shell_state : Kernel := (exec step (boot 1 1 0) start_shell).getD (boot 1 1 0)

theorem shell_state_run : Steps step (fun _ _ => True) (boot 1 1 0) shell_state := by
  have hsome : (exec step (boot 1 1 0) start_shell).isSome = true := by decide +kernel
  obtain ⟨K, hK⟩ := Option.isSome_iff_exists.mp hsome
  rw [shell_state, hK]
  exact .of_exec hK

/-- 読み込みに失敗した `spawn` の後の状態。番号だけが進む。 -/
def spawn_failed (K : Kernel) : Kernel :=
  return_to (unload (reserve K 1) K.next_block) { user_regs with eax := 8, cs := K.ctx.cs } 0

theorem step_spawn_failed (hcur : K.current_process = some 1) (hnum : K.num_processes = 2)
    (hcall : (K.table 1).pipe_call = none) (hpid₀ : (K.table 0).pid = 0) (hpid₁ : (K.table 1).pid = 1)
    (hroom : (K.table 1).children.length < MAX_PROCESSES) :
    step K (call 8) = some (spawn_failed K) := by
  have hold : ∀ j, j ≠ 2 → (reserve K 1).table j = K.table j := by
    intro j hj
    exact if_neg (hnum ▸ hj)
  have hfind : get_process_by_pid (reserve K 1) 1 = some 1 := by
    have hn : (reserve K 1).num_processes = 2 := hnum
    rw [get_process_by_pid, hn]
    simp [List.range_succ, hold, hpid₀, hpid₁]
  have hadd : add_child (reserve K 1) 1 K.next_pid = some ((reserve K 1).modify 1 fun p =>
      { p with children := p.children ++ [K.next_pid] }) := by
    rw [add_child, if_pos]
    rw [hold 1 (by decide)]
    exact hroom
  have hcreate : create_process K 1 none = some (unload (reserve K 1) K.next_block) := by
    rw [create_process, if_neg (by rw [hnum]; decide)]
    simp [hfind, hadd]
  simp only [step, call, hcur]
  rw [if_neg (by simp [hcall])]
  simp only [handle_syscalls, syscall, syscall_spawn, hpid₁]
  simp [hcreate, returns_of, spawn_failed, user_regs]

def spins : Nat → Kernel
  | 0 => shell_state
  | n + 1 => spawn_failed (spins n)

/-- 失敗した `spawn` が変えるのは、表の外の項目、番号、領域の記録だけである。 -/
def spun (n : Nat) (K : Kernel) : Kernel :=
  { shell_state with
    table := fun j => if j = 2 then K.table 2 else shell_state.table j
    next_pid := (2 + n) % 2 ^ 32
    next_block := 6 + 4 * n
    owner := K.owner
    released := K.released
    ctx := K.ctx }

theorem shell_state_eq : shell_state = spun 0 shell_state := by
  have hpid : (2 + 0) % 2 ^ 32 = shell_state.next_pid := by decide +kernel
  have hblock : 6 + 4 * 0 = shell_state.next_block := by decide +kernel
  have htable : (fun j => if j = 2 then shell_state.table 2 else shell_state.table j) = shell_state.table := by
    funext j
    split
    next h => rw [h]
    · rfl
  rw [spun, htable, hblock, hpid]

theorem spawn_failed_spun (n : Nat) (K : Kernel) :
    spawn_failed (spun n K) = spun (n + 1) (spawn_failed (spun n K)) := by
  have hnum : (spun n K).num_processes = 2 := by
    show shell_state.num_processes = 2
    decide +kernel
  have hpid : add32 ((2 + n) % 2 ^ 32) 1 = (2 + (n + 1)) % 2 ^ 32 := by
    rw [add32]
    omega
  have htable : (spawn_failed (spun n K)).table = fun j =>
      if j = 2 then (spawn_failed (spun n K)).table 2 else shell_state.table j := by
    funext j
    split
    next h => rw [h]
    next h =>
      have hj : j ≠ (spun n K).num_processes := hnum.symm ▸ h
      exact (if_neg hj).trans (if_neg h)
  have hrest : spawn_failed (spun n K) = { shell_state with
      table := (spawn_failed (spun n K)).table
      next_pid := add32 ((2 + n) % 2 ^ 32) 1
      next_block := 6 + 4 * n + 4
      owner := (spawn_failed (spun n K)).owner
      released := (spawn_failed (spun n K)).released
      ctx := (spawn_failed (spun n K)).ctx } := rfl
  rw [hpid] at hrest
  rw [htable] at hrest
  exact hrest

theorem spins_eq (n : Nat) : spins n = spun n (spins n) := by
  induction n with
  | zero => exact shell_state_eq
  | succ n ih =>
    rw [spins, ih]
    exact spawn_failed_spun n (spins n)

theorem spins_run (n : Nat) : Steps step (fun _ _ => True) (boot 1 1 0) (spins n) := by
  induction n with
  | zero => exact shell_state_run
  | succ n ih =>
    refine ih.tail (call 8) trivial ?_
    have h := spins_eq n
    rw [spins]
    generalize spins n = K at h
    rw [h]
    apply step_spawn_failed
    · show shell_state.current_process = some 1
      decide +kernel
    · show shell_state.num_processes = 2
      decide +kernel
    · show (shell_state.table 1).pipe_call = none
      exact Option.isNone_iff_eq_none.mp (by decide +kernel)
    · show (shell_state.table 0).pid = 0
      decide +kernel
    · show (shell_state.table 1).pid = 1
      decide +kernel
    · show (shell_state.table 1).children.length < MAX_PROCESSES
      decide +kernel

theorem spins_exit : (exec step (spun 4294967294 (spins 4294967294)) [call 24, tick, call 5]).any
    (fun K => decide (ProcState.terminated ∈ K.switched)) = true := by decide +kernel

/-- 番号 0 の子が `exit` を呼ぶと、休止のプロセスもシェルも終わり、終わった項目へ移る。 -/
theorem terminated_switched :
    ∃ K, Steps step (fun _ _ => True) (boot 1 1 0) K ∧ ProcState.terminated ∈ K.switched := by
  obtain ⟨K, hK, hmem⟩ := (Option.any_eq_true _ _).mp spins_exit
  rw [← spins_eq] at hK
  exact ⟨K, (spins_run _).trans (.of_exec hK), of_decide_eq_true hmem⟩

/-! ## 信号の枠の権限 -/

theorem TrapInv.boot (rc_in rc_out mounts : Nat) :
    TrapInv (boot rc_in rc_out mounts).ctx.cs (boot rc_in rc_out mounts) := by
  have hcall : ∀ i, ((Proc.boot rc_in rc_out mounts).table i).pipe_call = none ∧
      ((Proc.boot rc_in rc_out mounts).table i).sig.frame_call = none := by
    intro i
    simp only [Proc.boot]
    split
    · exact ⟨rfl, rfl⟩
    · exact ⟨rfl, rfl⟩
  refine ⟨fun i h0 hi => ?_, fun i c hc => ?_, fun i c hc => ?_, fun cs hcs => ?_, fun i hi => ?_⟩
  · simp only [Proc.boot] at hi
    omega
  · rw [(hcall i).1] at hc
    cases hc
  · rw [(hcall i).2] at hc
    cases hc
  · cases hcs
  · cases hi

end MyOS.Proc
