import MyOS.Proc.Acts
import MyOS.Proc.Lemmas.SigStep

/-! 書き込みの一つずつが `SchedInv` を保つこと。 -/

namespace MyOS.Proc
open MyOS.Lib

variable {K₀ K K' : Kernel} {ev : Event} {i j : Nat} {r : Regs} {p p' : Pcb}

/-- 走らせず、起きている親のない項目をそのままにする。 -/
structure Calm (p p' : Pcb) : Prop where
  idle : Idle p → Idle p'
  running : p'.state = .running → p.state = .running
  awake : p.parent_id = 0 → p.state = .new ∨ p.state = .ready ∨ p.state = .running →
    p'.state = p.state

/-- 番号、組、溜まった信号、状態が同じである。 -/
theorem Calm.same (hpid : p'.pid = p.pid) (hparent : p'.parent_id = p.parent_id)
    (hpgid : p'.pgid = p.pgid) (hpending : p'.sig.pending = p.sig.pending ∨ p'.sig.pending = 0#32)
    (hstate : p'.state = p.state) : Calm p p' := by
  refine ⟨fun h => ⟨hpid.trans h.pid, hparent.trans h.parent, hpgid.trans h.pgid, ?_⟩,
    fun h => hstate ▸ h, fun _ _ => hstate⟩
  rcases hpending with h' | h'
  · exact h'.trans h.pending
  · exact h'

theorem Calm.refl (p : Pcb) : Calm p p := .same rfl rfl rfl (.inl rfl) rfl

/-- `BLOCKED` の項目を `READY` にする。 -/
theorem Calm.wake (hpid : p'.pid = p.pid) (hparent : p'.parent_id = p.parent_id)
    (hpgid : p'.pgid = p.pgid) (hpending : p'.sig.pending = p.sig.pending ∨ p'.sig.pending = 0#32)
    (hb : p.state = .blocked) (hr : p'.state = .ready) : Calm p p' := by
  have hsame : Calm p { p' with state := p.state } := .same hpid hparent hpgid hpending rfl
  refine ⟨fun h => ?_, fun h => ?_, fun _ h => ?_⟩
  · have := hsame.idle h
    exact ⟨this.pid, this.parent, this.pgid, this.pending⟩
  · rw [hr] at h
    cases h
  · rw [hb] at h
    rcases h with h | h | h <;> cases h

theorem SchedInv.calm (h : SchedInv K) (hcur : K'.cur_proccess_id = K.cur_proccess_id)
    (hsw : K'.switched = K.switched) (h0 : Calm (K.table 0) (K'.table 0))
    (hrun : ∀ j, (K'.table j).state = .running →
      (K.table j).state = .running ∨ K.cur_proccess_id = some j) : SchedInv K' := by
  have hst : (K'.table 0).state = (K.table 0).state := by
    refine h0.awake h.idle.parent ?_
    rcases h.awake with h | h | h
    · exact .inl h
    · exact .inr (.inl h)
    · exact .inr (.inr h.1)
  refine ⟨h0.idle h.idle, ?_, fun j hj => ?_, hsw ▸ h.switched⟩
  · rw [hst, hcur]
    exact h.awake
  · rw [hcur]
    rcases hrun j hj with h' | h'
    · exact h.only j h'
    · exact h'

theorem SchedInv.calm_all (h : SchedInv K) (hcur : K'.cur_proccess_id = K.cur_proccess_id)
    (hsw : K'.switched = K.switched) (hall : ∀ j, Calm (K.table j) (K'.table j)) : SchedInv K' :=
  h.calm hcur hsw (hall 0) fun j hj => .inl ((hall j).running hj)

/-- 休止でない項目の書き換え。 -/
theorem SchedInv.modify {q : Pcb} (h : SchedInv K) (hcur : K'.cur_proccess_id = K.cur_proccess_id)
    (hsw : K'.switched = K.switched) (ht : ∀ k, K'.table k = if k = i then q else K.table k)
    (h0 : i ≠ 0) (hrun : q.state = .running → (K.table i).state = .running ∨ K.cur_proccess_id = some i) :
    SchedInv K' := by
  refine h.calm hcur hsw ?_ fun j hj => ?_
  · rw [ht, if_neg (Ne.symm h0)]
    exact .refl _
  · rw [ht] at hj
    split at hj
    next hji =>
      subst hji
      exact hrun hj
    · exact .inl hj

theorem Calm.cleanup (c : Nat) (h : Calm p (K.table j)) : Calm p ((process_cleanup_child K c).table j) := by
  rw [cleanup_table]
  by_cases hj : j = c
  · subst hj
    simp only [if_pos]
    exact ⟨fun hp => ⟨(h.idle hp).pid, (h.idle hp).parent, (h.idle hp).pgid, rfl⟩, h.running, h.awake⟩
  · simp only [if_neg hj]
    exact ⟨fun hp => ⟨(h.idle hp).pid, (h.idle hp).parent, (h.idle hp).pgid, (h.idle hp).pending⟩,
      h.running, h.awake⟩

theorem Calm.unblock (K : Kernel) (pid : Nat) (b : Bool) (j : Nat) :
    Calm (K.table j) ((unblock_parent K pid b).table j) := by
  have hwake : ∀ k, (K.table k).state = .blocked →
      Calm (K.table j) ((wake_parent K k pid b).table j) := by
    intro k hk
    by_cases hj : j = k
    · subst hj
      rw [wake_parent_self]
      exact .wake rfl rfl rfl (.inl rfl) hk rfl
    · rw [wake_parent_ne hj]
      exact .refl _
  rcases unblock_parent_cases K pid b with h | ⟨c, k, -, -, hk, -, ⟨h, -⟩ | ⟨-, -, h⟩⟩
  · rw [h]
    exact .refl _
  · rw [h]
    exact hwake k hk
  · rw [h]
    exact (hwake k hk).cleanup c

theorem Calm.reaped (K : Kernel) (i dead j : Nat) : Calm (K.table j) ((reaped K i dead).table j) := by
  have hrem : Calm (K.table j) ((remove_child_from_parent K i dead).table j) := by
    rw [remove_child_from_parent, Kernel.modify_table]
    split
    next h =>
      subst h
      exact .same rfl rfl rfl (.inl rfl) rfl
    · exact .refl _
  show Calm (K.table j) ((reap_child K i dead).table j)
  rw [reap_child]
  split
  · exact hrem
  next c _ => exact hrem.cleanup c

/-- 番号が 0 でない項目は、休止のプロセスではない。 -/
theorem SchedInv.ne_zero {pid : Nat} (h : SchedInv K) (hpid : pid ≠ 0)
    (hj : get_process_by_pid K pid = some j) : j ≠ 0 := by
  rintro rfl
  exact hpid ((get_process_by_pid_spec hj).2.symm.trans h.idle.pid)

theorem SchedInv.slot_ne_zero {slot : Nat} (h : SchedInv K) (hnum : 0 < K.num_processes)
    (hslot : fork_slot K = some slot) : slot ≠ 0 := by
  rcases fork_slot_spec hslot with ⟨-, -, hpid⟩ | ⟨hn, -⟩
  · rintro rfl
    exact hpid h.idle.pid
  · omega

theorem SchedInv.create {pid : Nat} {load : Option Image} (h : SchedInv K) (hnum : 0 < K.num_processes)
    (hc : create_process K pid load = some K') : SchedInv K' := by
  have hf := CreateFrame.create hc
  refine h.calm (by rw [hf.rest]) (by rw [hf.rest]) ?_ fun j hj => ?_
  · rw [hf.old 0 hnum]
    exact .same rfl rfl rfl (.inl rfl) rfl
  · by_cases hlt : j < K.num_processes
    · rw [hf.old j hlt] at hj
      exact .inl hj
    rcases create_process_new hc hlt with ⟨-, h⟩ | ⟨rfl, ⟨-, h⟩ | ⟨img, -, -, h⟩⟩
    · exact .inl (h ▸ hj)
    · rw [h] at hj
      cases hj
    · rw [h] at hj
      cases hj

/-- 番号 0 のプロセスの終わりを除いて、どの書き込みも保つ。 -/
theorem SchedInv.act (hs : Synced K₀) (hz : SchedInv K₀)
    (hok : ∀ i fds, Quits K₀ ev i fds → (K₀.table i).pid ≠ 0) (h : SchedInv K)
    (ha : Act K₀ ev K K') : SchedInv K' := by
  have hframe := ha.frame
  have hcur := hframe.cur
  have hsw := hframe.switched
  cases ha with
  | file hc hf =>
    refine h.calm_all hcur hsw fun j => ?_
    rw [hf.frame.pcb j]
    exact .same rfl rfl rfl (.inl rfl) rfl
  | create _ hcr => exact h.create hs.num hcr
  | @fork i env r slot K' hc heax hslot hf =>
    have hne := hc.toOnCpu.ne_slot hslot
    have h0 := hz.slot_ne_zero hs.num hslot
    have hother : ∀ j, j ≠ slot → Calm (K₀.table j) (K'.table j) := by
      intro j hj
      rw [fork_into_table hne hf j, fork_entry, if_neg hj]
      split
      next hji =>
        subst hji
        exact .same rfl rfl rfl (.inl rfl) rfl
      · exact .same rfl rfl rfl (.inl rfl) rfl
    refine h.calm hcur hsw (hother 0 (Ne.symm h0)) fun j hj => ?_
    by_cases hjs : j = slot
    · subst hjs
      rw [fork_into_table hne hf j, fork_entry, if_pos rfl] at hj
      cases hj
    · exact .inl ((hother j hjs).running hj)
  | reap => exact h.calm_all hcur hsw (Calm.reaped K₀ _ _)
  | await w hc =>
    exact h.modify hcur hsw (fun _ => rfl) hc.pos fun hr => .inl hr
  | block w hc =>
    refine h.modify hcur hsw (fun _ => rfl) hc.pos ?_
    exact fun hr => by cases hr
  | enqueue _ _ _ he =>
    refine h.calm_all hcur hsw fun j => ?_
    rw [(sleep_enqueue_frame he).pcb j]
    exact .same rfl rfl rfl (.inl rfl) rfl
  | tick => exact h.calm_all hcur hsw fun _ => .refl _
  | @wake r hd K _ _ _ =>
    refine h.calm_all hcur hsw fun j => ?_
    simp only [sleep_pop]
    rw [Kernel.modify_table]
    split
    next hj =>
      subst hj
      split
      next hb => exact .wake rfl rfl rfl (.inl rfl) hb rfl
      · exact .same rfl rfl rfl (.inl rfl) rfl
    · exact .refl _
  | group g => exact h.calm_all hcur hsw fun _ => .refl _
  | setpgid g hc _ hpid hj =>
    exact h.modify hcur hsw (fun _ => rfl) (h.ne_zero hpid hj) fun hr => .inl hr
  | send hc _ hpid _ _ hj _ =>
    exact h.modify hcur hsw (fun _ => rfl) (h.ne_zero hpid hj) fun hr => .inl hr
  | cont hc _ hpid _ hj _ =>
    refine h.modify hcur hsw (fun _ => rfl) (h.ne_zero hpid hj) ?_
    exact fun hr => by cases hr
  | keys hev =>
    refine h.calm_all hcur hsw fun j => ?_
    rw [send_signal_to_foreground]
    split
    next hfg =>
      dsimp only
      split
      next hj =>
        exact ⟨fun hi => absurd (hj.2.1.symm.trans hi.pgid) hfg, id, fun _ _ => rfl⟩
      · exact .refl _
    · exact .refl _
  | action hc => exact h.modify hcur hsw (fun _ => rfl) hc.pos fun hr => .inl hr
  | mask hc => exact h.modify hcur hsw (fun _ => rfl) hc.pos fun hr => .inl hr
  | sigreturn hc => exact h.modify hcur hsw (fun _ => rfl) hc.pos fun hr => .inl hr
  | @exit i fds hq =>
    have hpid := hok i fds hq
    refine h.calm hcur hsw ?_ fun j hj => ?_
    · rw [exit_tree_table, if_neg]
      · exact .same rfl rfl rfl (.inl rfl) rfl
      · rintro (h' | ⟨-, h'⟩)
        · exact hq.pos h'.symm
        · exact hpid (h'.symm.trans h.idle.parent)
    · rw [exit_tree_table] at hj
      dsimp only at hj
      split at hj
      · cases hj
      · exact .inl hj
  | @reset i env r hc heax =>
    refine h.calm_all hcur hsw fun j => ?_
    rw [exec_reset_table]
    by_cases hj : j = i
    · subst hj
      simp only [if_pos]
      exact .same rfl rfl rfl (.inr rfl) rfl
    · simp only [if_neg hj]
      exact .same rfl rfl rfl (.inl rfl) rfl
  | load hc => exact h.modify hcur hsw (fun _ => rfl) hc.pos fun _ => .inr hc.toOnCpu.exec_reset.cur
  | fail hc =>
    refine h.modify hcur hsw (fun _ => rfl) hc.pos ?_
    exact fun hr => by cases hr
  | mmap hc => exact h.modify hcur hsw (fun _ => rfl) hc.pos fun hr => .inl hr
  | munmap hc => exact h.modify hcur hsw (fun _ => rfl) hc.pos fun hr => .inl hr
  | signal _ hci hsig _ =>
    refine h.modify hcur hsw (fun _ => rfl) ?_ fun _ => .inr hci
    rintro rfl
    exact hsig.1 h.idle.pending
  | unblock => exact h.calm_all hcur hsw fun j => Calm.unblock _ _ _ j
  | leave => exact h.calm_all hcur hsw fun _ => .refl _

theorem requeue_state (p : Pcb) : (requeue p).state ≠ .running := by
  unfold requeue
  dsimp only
  split
  · simp
  next h => exact h

/-- 走っていた項目を戻すと、休止のプロセスは選べる。 -/
theorem SchedInv.idle_selectable (h : SchedInv K) : Selectable ((requeued K).table 0).state := by
  have hreq : ∀ p : Pcb, Selectable p.state → Selectable (requeue p).state := by
    rintro p (hp | hp) <;> simp [requeue, Selectable, hp]
  rw [requeued_table]
  rcases h.awake with h0 | h0 | ⟨h0, hcur⟩
  · split
    · exact hreq _ (.inr h0)
    · exact .inr h0
  · split
    · exact hreq _ (.inl h0)
    · exact .inl h0
  · rw [if_pos hcur]
    simp [requeue, Selectable, h0]

/-- 次は必ず見つかり、`READY` か `NEW` である。 -/
theorem SchedInv.selects (h : SchedInv K) (hnum : 0 < K.num_processes)
    (hlt : ∀ i, K.cur_proccess_id = some i → i < K.num_processes) :
    ∃ next, select_next (requeued K) = some next ∧ Selectable ((requeued K).table next).state := by
  have hrest := requeued_rest K
  have hn : (requeued K).num_processes = K.num_processes := by rw [hrest]
  have hcur : (requeued K).cur_proccess_id = K.cur_proccess_id := by rw [hrest]
  refine select_next_selectable (fun i hi => ?_) (hn.symm ▸ hnum) h.idle_selectable
  rw [hn]
  exact hlt i (hcur ▸ hi)

theorem SchedInv.picked {next : Nat} (h : SchedInv K)
    (hlt : ∀ i, K.cur_proccess_id = some i → i < K.num_processes) (hp : Picked K r next K') :
    SchedInv K' ∧ Selectable ((requeued K).table next).state := by
  obtain ⟨n, hn, hsel⟩ := h.selects (Nat.lt_of_le_of_lt (Nat.zero_le _) hp.lt) hlt
  obtain rfl := Option.some.inj (hn.symm.trans hp.selected)
  have hcur : K'.cur_proccess_id = some n := by rw [hp.rest]
  refine ⟨⟨?_, ?_, fun j hj => ?_, ?_⟩, hsel⟩
  · rw [hp.table 0]
    exact ⟨h.idle.pid, h.idle.parent, h.idle.pgid, h.idle.pending⟩
  · rw [hp.table 0, hcur]
    dsimp only
    split
    next h0 =>
      subst h0
      exact .inr (.inr ⟨rfl, rfl⟩)
    · rcases h.idle_selectable with h0 | h0
      · exact .inr (.inl h0)
      · exact .inl h0
  · rw [hp.table j] at hj
    dsimp only at hj
    split at hj
    next hjn =>
      subst hjn
      exact hcur
    next hjn =>
      -- 選ばれていた項目は戻してあり、ほかの項目は走っていない
      rw [requeued_table] at hj
      split at hj
      · exact absurd hj (requeue_state _)
      next hne => exact absurd (h.only j hj) hne
  · rw [hp.rest]
    exact List.forall_mem_cons.mpr ⟨hsel, h.switched⟩

theorem SchedInv.pipe (h : SchedInv K) (hp : PipeFrame K K') : SchedInv K' := by
  refine h.calm_all (by rw [hp.rest]) (by rw [hp.rest]) fun j => ?_
  rw [hp.pcb j]
  exact .same rfl rfl rfl (.inl rfl) rfl

theorem SchedInv.fin (h : SchedInv K)
    (hlt : ∀ i, K.cur_proccess_id = some i → i < K.num_processes) (hf : Fin K₀ ev K K') : SchedInv K' := by
  cases hf with
  | stays => exact h
  | returns => exact ⟨h.idle, h.awake, h.only, h.switched⟩
  | pipe_start => exact h.pipe (.pipe_start ..)
  | pipe_iter => exact h.pipe (.pipe_iter ..)
  | switch _ hnum _ _ hp =>
    obtain ⟨next, hpick⟩ := pick_spec hnum hp
    exact (h.picked hlt hpick).1

/-- 信号を処理しても、休止のプロセスは選べるままである。 -/
theorem SchedInv.deliver (h : SchedInv K) (r : Regs) : SchedInv (deliver_signals K r).1 := by
  rcases hcur : K.cur_proccess_id with _ | i
  · rw [deliver_signals_none hcur]
    exact h
  by_cases hsig : Signals (K.table i)
  · obtain ⟨fate, p', -, heq⟩ := deliver_signals_running (r := r) hcur hsig
    have h0 : i ≠ 0 := by
      rintro rfl
      exact hsig.1 h.idle.pending
    have hmod : ∀ L : Kernel, L.cur_proccess_id = K.cur_proccess_id → L.switched = K.switched →
        (∀ k, L.table k = if k = i then p' else K.table k) → SchedInv L :=
      fun L hc hsw ht => h.modify hc hsw ht h0 fun _ => .inr hcur
    have hw : SchedInv (K.modify i fun _ => p') := hmod _ rfl rfl fun _ => rfl
    have hunblock : ∀ b, SchedInv (unblock_parent (K.modify i fun _ => p') p'.pid b) := by
      intro b
      have hc := CleanFrame.unblock_parent (K.modify i fun _ => p') p'.pid b
      exact hw.calm_all hc.cur (by rw [hc.rest]) fun j => .unblock ..
    rw [heq]
    cases fate with
    | passes => exact hw
    | stops => exact hunblock false
    | ends => exact hunblock true
    | caught sig => exact hmod _ rfl rfl fun _ => rfl
  · rw [deliver_signals_skip hcur hsig]
    exact h

theorem deliver_signals_num (K : Kernel) (r : Regs) :
    (deliver_signals K r).1.num_processes = K.num_processes ∧
      (deliver_signals K r).1.cur_proccess_id = K.cur_proccess_id := by
  rcases hcur : K.cur_proccess_id with _ | i
  · rw [deliver_signals_none hcur]
    exact ⟨rfl, hcur⟩
  by_cases hsig : Signals (K.table i)
  · obtain ⟨fate, p', -, heq⟩ := deliver_signals_running (r := r) hcur hsig
    have hunblock : ∀ b, (unblock_parent (K.modify i fun _ => p') p'.pid b).num_processes = K.num_processes ∧
        (unblock_parent (K.modify i fun _ => p') p'.pid b).cur_proccess_id = some i := by
      intro b
      have hc := CleanFrame.unblock_parent (K.modify i fun _ => p') p'.pid b
      exact ⟨hc.num, hc.cur.trans hcur⟩
    rw [heq]
    cases fate with
    | passes => exact ⟨rfl, hcur⟩
    | stops => exact hunblock false
    | ends => exact hunblock true
    | caught sig => exact ⟨rfl, hcur⟩
  · rw [deliver_signals_skip hcur hsig]
    exact ⟨rfl, hcur⟩

theorem SchedInv.boot (rc_in rc_out mounts : Nat) : SchedInv (boot rc_in rc_out mounts) := by
  refine ⟨⟨rfl, rfl, rfl, rfl⟩, .inl rfl, fun j hj => ?_, fun s hs => by cases hs⟩
  simp only [Proc.boot] at hj
  split at hj
  · cases hj
  · cases hj

/-- 歩の途中でも、選ばれている項目は表の中にある。 -/
theorem Acts.cur_lt (hs : Synced K₀) (h : Acts K₀ ev K₀ K) :
    ∀ i, K.cur_proccess_id = some i → i < K.num_processes := by
  intro i hi
  have hf := h.frame
  exact Nat.lt_of_lt_of_le (hs.on_cpu i (hf.cur ▸ hi)).lt hf.num

theorem SchedInv.run {ok : Kernel → Event → Prop} (hok : ∀ K ev, ok K ev → NoZeroExit K ev)
    (h : Steps step ok K K') (hs : Synced K) (hI : SchedInv K) : SchedInv K' :=
  run_inv (I := SchedInv) (M := fun K₀ ev K => SchedInv K ∧ Acts K₀ ev K₀ K)
    (fun _ _ _ hI _ => ⟨hI, .refl⟩)
    (fun _ _ _ _ hs hI h hM ha => ⟨SchedInv.act hs hI (fun _ _ hq => hok _ _ h _ hq.quits) hM.1 ha, hM.2.tail ha⟩)
    (fun _ _ _ _ hs _ _ hM hf => hM.1.fin (hM.2.cur_lt hs) hf) h hs hI

end MyOS.Proc
