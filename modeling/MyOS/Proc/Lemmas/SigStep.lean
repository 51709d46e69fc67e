import MyOS.Proc.Lemmas.Schedule

/-! 書き込みの一つずつが、項目の信号の状態に残すもの。 -/

namespace MyOS.Proc
open MyOS.Lib

variable {K₀ K K' : Kernel} {ev : Event} {i j k : Nat} {r : Regs} {p p' : Pcb}

theorem FileCall.frame {env : Env} (h : FileCall K i env r K') : FileFrame K K' := by
  cases h with
  | fopen => exact .fopen ..
  | close => exact .syscall_close ..
  | dup => exact .syscall_dup ..
  | dup2 => exact .syscall_dup2 ..
  | pipe => exact .syscall_pipe ..

/-- 項目 `i` だけを `q` に書き換える。 -/
theorem SigStep.modify {q : Pcb} (ht : ∀ k, K'.table k = if k = i then q else K.table k)
    (h : SigStep K₀ ev K i (K.table i) q) (k : Nat) :
    SigStep K₀ ev K k (K.table k) (K'.table k) := by
  rw [ht]
  split
  next hk =>
    subst hk
    exact h
  · exact .same rfl id

theorem SigStep.refl (p : Pcb) : SigStep K₀ ev K j p p := .same rfl id

/-- 後始末は、溜まった信号を捨てる。 -/
theorem SigStep.cleanup (c : Nat) (h : p.sig = (K.table j).sig)
    (hst : p.state = .stopped → (K.table j).state = .stopped) {L : Kernel} (hL : L.table j = p) :
    SigStep K₀ ev K j (K.table j) ((process_cleanup_child L c).table j) := by
  rw [cleanup_table]
  by_cases hj : j = c
  · subst hj
    refine .cleaned ?_ ?_
    · simp only [if_pos, hL, cleaned_pcb, h]
    · simp only [if_pos, hL, cleaned_pcb]
      exact hst
  · refine .same ?_ ?_
    · simp only [if_neg hj, hL, h]
    · simp only [if_neg hj, hL]
      exact hst

theorem SigStep.unblock (K : Kernel) (pid : Nat) (b : Bool) (j : Nat) :
    SigStep K₀ ev K j (K.table j) ((unblock_parent K pid b).table j) := by
  have hwake : ∀ k, ((wake_parent K k pid b).table j).sig = (K.table j).sig ∧
      (((wake_parent K k pid b).table j).state = .stopped → (K.table j).state = .stopped) := by
    intro k
    by_cases hj : j = k
    · subst hj
      rw [wake_parent_self]
      exact ⟨rfl, fun h => by cases h⟩
    · rw [wake_parent_ne hj]
      exact ⟨rfl, id⟩
  rcases unblock_parent_cases K pid b with h | ⟨c, k, -, -, -, -, ⟨h, -⟩ | ⟨-, -, h⟩⟩
  · rw [h]
    exact .refl _
  · rw [h]
    exact .same (hwake k).1 (hwake k).2
  · rw [h]
    exact .cleanup c (hwake k).1 (hwake k).2 rfl

theorem SigStep.reaped (K : Kernel) (i dead j : Nat) :
    SigStep K₀ ev K j (K.table j) ((reaped K i dead).table j) := by
  have hrem : ((remove_child_from_parent K i dead).table j).sig = (K.table j).sig ∧
      (((remove_child_from_parent K i dead).table j).state = .stopped →
        (K.table j).state = .stopped) := by
    rw [remove_child_from_parent, Kernel.modify_table]
    split
    next h =>
      subst h
      exact ⟨rfl, id⟩
    · exact ⟨rfl, id⟩
  show SigStep K₀ ev K j (K.table j) ((reap_child K i dead).table j)
  rw [reap_child]
  split
  · exact .same hrem.1 hrem.2
  next c _ => exact .cleanup c hrem.1 hrem.2 rfl

theorem exit_tree_table (K : Kernel) (i : Nat) (fds : List Nat) (j : Nat) :
    (exit_tree K i fds).table j =
      { K.table j with
        files_open := ((exit_tree K i fds).table j).files_open
        state := if j = i ∨ j < MAX_PROCESSES ∧ (K.table j).parent_id = (K.table i).pid then .terminated
          else (K.table j).state } := by
  have hd := (FileFrame.drop_files i fds K).pcb
  unfold exit_tree
  generalize drop_files K i fds = L at *
  have hkill : (kill_children_of L (K.table i).pid).table j =
      { K.table j with
        files_open := (L.table j).files_open
        state := if j < MAX_PROCESSES ∧ (K.table j).parent_id = (K.table i).pid then .terminated
          else (K.table j).state } := by
    unfold kill_children_of
    dsimp only
    rw [hd j]
    dsimp only
    by_cases hc : j < MAX_PROCESSES ∧ (K.table j).parent_id = (K.table i).pid
    · rw [if_pos hc]
      by_cases ht : (K.table j).state = .terminated
      · rw [if_neg (fun h => h.2.2 ht), ht]
      · rw [if_pos ⟨hc.1, hc.2, ht⟩]
    · rw [if_neg hc, if_neg (fun h => hc ⟨h.1, h.2.1⟩)]
  rw [Kernel.modify_table]
  by_cases hj : j = i
  · subst hj
    rw [if_pos rfl, hkill]
    simp only [true_or, if_true]
  · rw [if_neg hj, hkill]
    simp only [hj, false_or]

theorem SigStep.create {pid : Nat} {load : Option Image} (hc : create_process K pid load = some K')
    (j : Nat) : SigStep K₀ ev K j (K.table j) (K'.table j) := by
  by_cases hlt : j < K.num_processes
  · rw [(CreateFrame.create hc).old j hlt]
    exact .same rfl id
  rcases create_process_new hc hlt with ⟨-, h⟩ | ⟨rfl, ⟨-, h⟩ | ⟨img, -, -, h⟩⟩
  · rw [h]
    exact .refl _
  · rw [h]
    exact .fresh rfl rfl (by simp [new_pcb, init_signals_default])
  · rw [h]
    exact .fresh rfl rfl (by simp)

/-- どの書き込みも、項目の信号の状態を `SigStep` のどれかで変える。 -/
theorem Act.sig_step (h : Act K₀ ev K K') (j : Nat) : SigStep K₀ ev K j (K.table j) (K'.table j) := by
  cases h with
  | file hc hf =>
    rw [hf.frame.pcb j]
    exact .same rfl id
  | create _ hcr => exact .create hcr j
  | fork hc heax hslot hf =>
    have hne := hc.toOnCpu.ne_slot hslot
    rw [fork_into_table hne hf j, fork_entry]
    split
    next hj =>
      subst hj
      exact .forked hc heax hslot rfl rfl
    · split
      next hj =>
        subst hj
        exact .same rfl id
      · exact .same rfl id
  | reap => exact .reaped ..
  | await w =>
    refine .modify (fun _ => rfl) ?_ j
    exact .same rfl id
  | block w =>
    refine .modify (fun _ => rfl) ?_ j
    exact .same rfl (fun h => by cases h)
  | enqueue _ _ _ he =>
    rw [(sleep_enqueue_frame he).pcb j]
    exact .same rfl id
  | tick => exact .refl _
  | wake =>
    refine .modify (fun _ => rfl) ?_ j
    refine .same rfl ?_
    dsimp only
    split
    · exact fun h => by cases h
    · exact id
  | group g => exact .refl _
  | setpgid g =>
    refine .modify (fun _ => rfl) ?_ j
    exact .same rfl id
  | send hc heax hpid hlt _ hj hlive =>
    refine .modify (fun _ => rfl) ?_ j
    exact .send hc heax hlt hpid hj hlive rfl rfl
  | cont hc heax hpid hsig hj hst =>
    refine .modify (fun _ => rfl) ?_ j
    exact .cont hc heax hsig hpid hj hst rfl rfl
  | keys hev =>
    rw [send_signal_to_foreground]
    split
    next hfg =>
      dsimp only
      split
      next hj => exact .key hev hj.1 hj.2.1 hfg hj.2.2 rfl rfl
      · exact .refl _
    · exact .refl _
  | action hc heax hk hs hh =>
    refine .modify (fun _ => rfl) ?_ j
    exact .action hc heax hk hs hh rfl rfl
  | mask hc heax =>
    refine .modify (fun _ => rfl) ?_ j
    exact .mask hc heax rfl rfl
  | sigreturn hc heax hin =>
    refine .modify (fun _ => rfl) ?_ j
    exact .sigreturn hc heax hin rfl rfl
  | exit =>
    rw [exit_tree_table]
    refine .same rfl ?_
    dsimp only
    split
    · exact fun h => by cases h
    · exact id
  | @reset i _ _ hc heax =>
    rw [exec_reset_table]
    by_cases hj : j = i
    · subst hj
      simp only [if_pos]
      exact .exec hc heax rfl rfl
    · simp only [if_neg hj]
      exact .same rfl id
  | load =>
    refine .modify (fun _ => rfl) ?_ j
    exact .same rfl (fun h => by cases h)
  | fail =>
    refine .modify (fun _ => rfl) ?_ j
    exact .same rfl (fun h => by cases h)
  | mmap =>
    refine .modify (fun _ => rfl) ?_ j
    exact .same rfl id
  | munmap =>
    refine .modify (fun _ => rfl) ?_ j
    exact .same rfl id
  | signal hat hcur hsig hp =>
    refine .modify (fun _ => rfl) ?_ j
    exact .signalled hat hcur hsig hp
  | unblock => exact .unblock ..
  | leave => exact .refl _

theorem Fin.num (h : Fin K₀ ev K K') : K.num_processes ≤ K'.num_processes := by
  refine Nat.le_of_eq ?_
  cases h with
  | stays => rfl
  | returns => rfl
  | pipe_start => rfl
  | pipe_iter => rw [(PipeFrame.pipe_iter ..).rest]
  | switch _ hnum _ _ hp =>
    obtain ⟨next, hpick⟩ := pick_spec hnum hp
    rw [hpick.rest]

/-- CPU の文脈を決めるときは、信号の状態を変えない。 -/
theorem Fin.sig (h : Fin K₀ ev K K') (j : Nat) :
    (K'.table j).sig = (K.table j).sig ∧
      ((K'.table j).state = .stopped → (K.table j).state = .stopped) := by
  cases h with
  | stays => exact ⟨rfl, id⟩
  | returns => exact ⟨rfl, id⟩
  | pipe_start =>
    rw [(PipeFrame.pipe_start ..).pcb j]
    exact ⟨rfl, id⟩
  | pipe_iter =>
    rw [(PipeFrame.pipe_iter ..).pcb j]
    exact ⟨rfl, id⟩
  | switch _ hnum _ _ hp =>
    obtain ⟨next, hpick⟩ := pick_spec hnum hp
    rw [hpick.table j]
    refine ⟨rfl, ?_⟩
    dsimp only
    split
    · exact fun h => by cases h
    · rw [requeued_table]
      split
      · unfold requeue
        dsimp only
        split
        · exact fun h => by cases h
        · exact id
      · exact id

end MyOS.Proc
