import MyOS.Proc.Acts
import MyOS.Proc.Lemmas.Signal

/-! 機械の一歩が、書き込みの列と `Fin` に分かれること。 -/

namespace MyOS.Proc
open MyOS.Lib

variable {K₀ K K' : Kernel} {ev : Event} {i j : Nat} {env : Env} {r r' : Regs} {o : Outcome} {v : Nat}

theorem Calls.cs (h : Calls K₀ ev i env r) : r.cs = K₀.ctx.cs := by
  obtain ⟨r₀, -, rfl⟩ := h.event
  rfl

theorem Calls.not_faults (h : Calls K₀ ev i env r) : ¬ Faults K₀ ev j r' := by
  obtain ⟨r₀, rfl, -⟩ := h.event
  rintro ⟨-, ⟨r₁, hev, -⟩, -, -, -⟩
  cases hev

/-- 書き込みの列と `Fin` で `K'` に着く。 -/
def Reaches (K₀ : Kernel) (ev : Event) (K' : Kernel) : Prop := ∃ K, Acts K₀ ev K₀ K ∧ Fin K₀ ev K K'

/-! CPU にあることを保つ書き換え。 -/

theorem OnCpu.clean (h : OnCpu i K) (hc : CleanFrame K K')
    (hs : (K'.table i).state = (K.table i).state) : OnCpu i K' :=
  ⟨hc.cur.trans h.cur, hc.current.trans h.current, hc.num ▸ h.lt, hs.trans h.running⟩

theorem OnCpu.files (h : OnCpu i K) (hf : FileFrame K K') : OnCpu i K' :=
  h.clean hf.clean (by rw [hf.pcb i])

theorem OnCpu.modify {f : Pcb → Pcb} (h : OnCpu i K)
    (hs : (f (K.table j)).state = (K.table j).state) : OnCpu i (K.modify j f) := by
  refine h.clean (.modify K j f) ?_
  rw [Kernel.modify_table]
  split
  next hij =>
    subst hij
    exact hs
  · rfl

/-! `schedule`。 -/

theorem schedule_eq (h : 0 < K.num_processes) :
    schedule K r = pick (deliver_signals K r).1 (deliver_signals K r).2 := by
  rw [schedule, if_neg (by omega), pick, requeued]
  generalize deliver_signals K r = d
  obtain ⟨K', r'⟩ := d
  cases hcur : K'.cur_proccess_id with
  | none => simp only [hcur]
  | some i => simp only [hcur]

theorem CleanFrame.leaving (h : CleanFrame K K') (hl : K.current_process = K.cur_proccess_id) :
    Leaving K' := .inl (h.current.trans (hl.trans h.cur.symm))

/-- 走っているプロセスから `schedule` に入る。 -/
theorem Reaches.schedule (hacts : Acts K₀ ev K₀ K) (hat : at_schedule K₀ ev = some (K, r))
    (hcs : r.cs = K₀.ctx.cs) (hnum : 0 < K.num_processes)
    (hcurrent : K.current_process = K.cur_proccess_id) (hs : schedule K r = some K') :
    Reaches K₀ ev K' := by
  have hsome : (at_schedule K₀ ev).isSome := by rw [hat]; rfl
  rw [schedule_eq hnum] at hs
  rcases hcur : K.cur_proccess_id with _ | i
  · rw [deliver_signals_none hcur] at hs
    exact ⟨K, hacts, .switch hcs hnum (.inl hcurrent) (.inl hsome) hs⟩
  by_cases hsig : Signals (K.table i)
  · obtain ⟨fate, p', hp, hd⟩ := deliver_signals_running (r := r) hcur hsig
    have hact := hacts.tail (.signal hat hcur hsig hp)
    have hpid : ((written K i r p' fate).table i).pid = p'.pid :=
      congrArg Pcb.pid (K.modify_self i fun _ => p')
    have hun : ∀ b, CleanFrame K (unblock_parent (K.modify i fun _ => p') p'.pid b) :=
      fun b => (CleanFrame.modify K i fun _ => p').trans (.unblock_parent _ _ _)
    rw [hd] at hs
    cases fate with
    | passes => exact ⟨_, hact, .switch hcs hnum (.inl hcurrent) (.inl hsome) hs⟩
    | caught sig =>
      exact ⟨_, hact, .switch (r := (settle K i r p' (.caught sig)).2) hcs hnum (.inl hcurrent)
        (.inl hsome) hs⟩
    | stops =>
      have hacts := hact.tail (.unblock (.stop hat hcur hsig hp))
      rw [hpid] at hacts
      exact ⟨_, hacts, .switch hcs ((hun false).num.symm ▸ hnum) ((hun false).leaving hcurrent)
        (.inl hsome) hs⟩
    | ends =>
      have hacts := hact.tail (.unblock (.signal hat hcur hsig hp))
      rw [hpid] at hacts
      exact ⟨_, hacts, .switch hcs ((hun true).num.symm ▸ hnum) ((hun true).leaving hcurrent)
        (.inl hsome) hs⟩
  · rw [deliver_signals_skip hcur hsig] at hs
    exact ⟨K, hacts, .switch hcs hnum (.inl hcurrent) (.inl hsome) hs⟩

/-! それぞれの呼び出し。 -/

/-- 呼び出しの結果に着く。 -/
def Lands (K₀ : Kernel) (ev : Event) : Outcome → Prop
  | .returns K r v => Reaches K₀ ev (return_to K r v)
  | .leaves K => Reaches K₀ ev K

/-- 走っていない呼び出し側から `schedule` に入る。 -/
theorem Fin.of_schedule (hcs : r.cs = K₀.ctx.cs) (hcur : K.cur_proccess_id = some i)
    (hnum : 0 < K.num_processes) (hst : (K.table i).state ≠ .running) (hl : Leaving K)
    (hvia : (∃ i env, Calls K₀ ev i env r ∧ (r.eax = SYS_SLEEP → r.ebx ≠ 0 ∧ doze K₀ i r = some K)) ∨
      ∃ i, Faults K₀ ev i r)
    (hs : Proc.schedule K r = some K') : Fin K₀ ev K K' := by
  rw [schedule_eq hnum, deliver_signals_skip hcur fun h => hst h.2.1] at hs
  exact .switch hcs hnum hl (.inr hvia) hs

theorem Lands.to_schedule (hacts : Acts K₀ ev K₀ K) (hcall : Calls K₀ ev i env r)
    (hcur : K.cur_proccess_id = some i) (hnum : 0 < K.num_processes)
    (hst : (K.table i).state ≠ .running) (hl : Leaving K)
    (hdoze : r.eax = SYS_SLEEP → r.ebx ≠ 0 ∧ doze K₀ i r = some K) (hs : to_schedule K r = some o) :
    Lands K₀ ev o := by
  obtain ⟨K', hK', rfl⟩ := Option.map_eq_some_iff.mp hs
  exact ⟨K, hacts, .of_schedule hcall.cs hcur hnum hst hl (.inl ⟨i, env, hcall, hdoze⟩) hK'⟩

/-- 書き込みの一つの後で戻る。 -/
theorem Lands.returns (h : Calls K₀ ev i env r) (hact : Act K₀ ev K₀ K) (hon : OnCpu i K)
    (hcs : r'.cs = K₀.ctx.cs ∨ r'.cs = USER_CS) : Lands K₀ ev (.returns K r' v) :=
  ⟨K, .single hact, .returns v h hon hcs⟩

/-- 何も書かずに戻る。 -/
theorem Lands.same (h : Calls K₀ ev i env r) (hcs : r'.cs = K₀.ctx.cs) :
    Lands K₀ ev (.returns K₀ r' v) :=
  ⟨K₀, .refl, .returns v h h.toOnCpu (.inl hcs)⟩

theorem Lands.file (h : Calls K₀ ev i env r) {x : Kernel × Nat} (hf : FileCall K₀ i env r x.1)
    (hframe : FileFrame K₀ x.1) (ho : returns_of r x = some o) : Lands K₀ ev o := by
  cases ho
  exact .returns h (.file h hf) (h.toOnCpu.files hframe) (.inl h.cs)

theorem Lands.syscall_rw {w : Bool} (h : Calls K₀ ev i env r) (ho : syscall_rw K₀ i w env r = some o) :
    Lands K₀ ev o := by
  have hsame : ∀ {v}, returns_of r (K₀, v) = some o → Lands K₀ ev o := by
    intro v ho
    cases ho
    exact .same h h.cs
  simp only [Proc.syscall_rw] at ho
  split at ho
  · exact hsame ho
  split at ho
  · exact hsame ho
  next fp hfp =>
  split at ho
  · exact hsame ho
  split at ho
  · exact hsame ho
  split at ho
  · exact hsame ho
  split at ho
  next hkind =>
    obtain ⟨q, hq, rfl⟩ := Option.map_eq_some_iff.mp ho
    exact ⟨K₀, .refl, .pipe_start h hfp hkind hq rfl⟩
  · exact hsame ho

theorem exit_tree_clean (K : Kernel) (i : Nat) (fds : List Nat) : CleanFrame K (exit_tree K i fds) := by
  have hd := (FileFrame.drop_files i fds K).clean
  unfold exit_tree
  generalize drop_files K i fds = L at *
  refine hd.trans (CleanFrame.trans ?_ (.modify _ i _))
  exact ⟨rfl⟩

theorem exit_tree_state (K : Kernel) (i : Nat) (fds : List Nat) :
    ((exit_tree K i fds).table i).state = .terminated := by
  rw [exit_tree, Kernel.modify_self]

theorem exit_tree_pid (K : Kernel) (i : Nat) (fds : List Nat) :
    ((exit_tree K i fds).table i).pid = (K.table i).pid := by
  rw [exit_tree, Kernel.modify_self]
  have hd := (FileFrame.drop_files i fds K).pcb i
  generalize drop_files K i fds = L at *
  unfold kill_children_of
  dsimp only
  split <;> rw [hd]

theorem Quits.onCpu {fds : List Nat} (h : Quits K₀ ev i fds) : OnCpu i K₀ := by
  cases h with
  | exit hc => exact hc.toOnCpu
  | fault hf => exact hf.toOnCpu

theorem Quits.pos {fds : List Nat} (h : Quits K₀ ev i fds) : i ≠ 0 := by
  cases h with
  | exit hc => exact hc.pos
  | fault hf => exact hf.pos

theorem Quits.quits {fds : List Nat} (h : Quits K₀ ev i fds) : quits K₀ ev = some i := by
  cases h with
  | exit hc heax =>
    obtain ⟨r₀, rfl, rfl⟩ := hc.event
    exact (if_pos heax).trans hc.current
  | fault hf =>
    obtain ⟨r₀, rfl, -⟩ := hf.event
    exact hf.current

/-- 終わったプロセスを離れるときの状態。 -/
def departed (K : Kernel) (i : Nat) (fds : List Nat) : Kernel :=
  { unblock_parent (exit_tree K i fds) (K.table i).pid true with current_process := none }

/-- `exit` と例外は、同じ書き込みの後 `schedule` に入る。 -/
theorem Quits.departs {fds : List Nat} (h : Quits K₀ ev i fds) (hcs : r.cs = K₀.ctx.cs)
    (hvia : (∃ env, Calls K₀ ev i env r ∧ r.eax = 5) ∨ Faults K₀ ev i r)
    (hs : Proc.schedule (departed K₀ i fds) r = some K') :
    Acts K₀ ev K₀ (departed K₀ i fds) ∧ Fin K₀ ev (departed K₀ i fds) K' := by
  have hun : Act K₀ ev _ _ := .unblock (.exit h)
  rw [exit_tree_pid] at hun
  have hframe := (exit_tree_clean K₀ i fds).trans (.unblock_parent (exit_tree K₀ i fds) (K₀.table i).pid true)
  have hstate : ((departed K₀ i fds).table i).state = .terminated := by
    show ((unblock_parent (exit_tree K₀ i fds) (K₀.table i).pid true).table i).state = .terminated
    rw [unblock_parent_state (by rw [exit_tree_state]; simp), exit_tree_state]
  have hcur : (departed K₀ i fds).cur_proccess_id = some i := hframe.cur.trans h.onCpu.cur
  refine ⟨((Relation.ReflTransGen.single (.exit h)).tail hun).tail (.leave h),
    .of_schedule hcs hcur ?_ ?_ (.inr ⟨rfl, fun j hj => ?_⟩) (hvia.imp ?_ fun hf => ⟨i, hf⟩) hs⟩
  · exact hframe.num.symm ▸ Nat.lt_of_le_of_lt (Nat.zero_le _) h.onCpu.lt
  · intro hr
    cases hstate.symm.trans hr
  · obtain rfl := Option.some.inj (hcur.symm.trans hj)
    exact hstate
  · rintro ⟨env, hc, heax⟩
    exact ⟨i, env, hc, fun hsleep => by simp [heax, SYS_SLEEP] at hsleep⟩

theorem Lands.syscall_exit (h : Calls K₀ ev i env r) (heax : r.eax = 5)
    (ho : syscall_exit K₀ i r = some o) : Lands K₀ ev o := by
  obtain ⟨K', hs, rfl⟩ := Option.map_eq_some_iff.mp ho
  exact ⟨_, (Quits.exit h heax).departs h.cs (.inl ⟨env, h, heax⟩) hs⟩

theorem Reaches.fault (h : Faults K₀ ev i r) (hs : fault_handler K₀ i r = some K') : Reaches K₀ ev K' := by
  have hcs : r.cs = K₀.ctx.cs := by
    obtain ⟨r₀, -, rfl⟩ := h.event
    rfl
  exact ⟨_, (Quits.fault h).departs hcs (.inr h) hs⟩

theorem reap_child_clean (K : Kernel) (j dead : Nat) : CleanFrame K (reap_child K j dead) := by
  have hrem : CleanFrame K (remove_child_from_parent K j dead) := .modify ..
  rw [reap_child]
  split
  · exact hrem
  next c _ => exact hrem.trans (.cleanup _ c)

theorem reap_child_state (K : Kernel) (j dead k : Nat) :
    ((reap_child K j dead).table k).state = (K.table k).state := by
  have hrem : ((remove_child_from_parent K j dead).table k).state = (K.table k).state := by
    rw [remove_child_from_parent, Kernel.modify_table]
    split
    next h =>
      subst h
      rfl
    · rfl
  rw [reap_child]
  split
  · exact hrem
  next c _ => rw [cleanup_state, hrem]

theorem reaped_clean (K : Kernel) (j dead : Nat) : CleanFrame K (reaped K j dead) :=
  (reap_child_clean K j dead).trans ⟨rfl⟩

theorem Lands.reap {dead : Nat} (h : Calls K₀ ev i env r) (heax : Reaps r dead)
    (hdead : find_terminated_child K₀ (K₀.table i).pid = dead) (h0 : dead ≠ 0)
    (ho : reap K₀ i dead r = some o) : Lands K₀ ev o := by
  subst hdead
  cases ho
  exact .returns h (.reap h heax h0)
    (h.toOnCpu.clean (reaped_clean K₀ i _) (reap_child_state K₀ i _ i)) (.inl h.cs)

/-- 待ちに入る。 -/
theorem Lands.block {w : Nat} (h : Calls K₀ ev i env r)
    (heax : r.eax = SYS_WAIT ∨ r.eax = SYS_WAITPID)
    (ho : Proc.to_schedule (K₀.modify i fun p => { p with waiting_on_pid := w, state := .blocked }) r = some o) :
    Lands K₀ ev o := by
  refine .to_schedule (.single (.block w h (heax.imp id .inl))) h h.cur ?_ ?_
    (.inl (h.current.trans h.cur.symm)) (fun hs => ?_) ho
  · exact Nat.lt_of_le_of_lt (Nat.zero_le _) h.lt
  · rw [Kernel.modify_self]
    simp
  · rcases heax with heax | heax <;> simp [heax, SYS_SLEEP, SYS_WAIT, SYS_WAITPID] at hs

theorem Lands.syscall_wait (h : Calls K₀ ev i env r) (heax : r.eax = SYS_WAIT)
    (ho : syscall_wait K₀ i r = some o) : Lands K₀ ev o := by
  rw [Proc.syscall_wait] at ho
  split at ho
  next h0 => exact .reap h (.inl heax) rfl h0 ho
  · split at ho
    · exact .block h (.inl heax) ho
    · cases ho
      exact .same h h.cs

theorem Lands.syscall_waitpid (h : Calls K₀ ev i env r) (heax : r.eax = SYS_WAITPID)
    (ho : syscall_waitpid K₀ i r = some o) : Lands K₀ ev o := by
  have hset : ∀ w (r' : Regs) v, r'.cs = K₀.ctx.cs →
      Lands K₀ ev (.returns (K₀.modify i fun p => { p with waiting_on_pid := w }) r' v) :=
    fun w r' v hcs => .returns h (.await w h heax) (h.toOnCpu.modify rfl) (.inl hcs)
  rw [Proc.syscall_waitpid] at ho
  dsimp only at ho
  split at ho
  next hdead => exact .reap h (.inr ⟨heax, hdead.2⟩) rfl hdead.1 ho
  split at ho
  · split at ho
    · cases ho
      exact .same h h.cs
    · cases ho
      exact .same h h.cs
  split at ho
  · split at ho
    · cases ho
      exact hset 0 _ _ h.cs
    · rw [Kernel.modify_modify] at ho
      exact .block h (.inr heax) ho
  · cases ho
    exact hset 0 _ _ h.cs

/-- 眠りの列は、`wake_tick` と `sleep_next` だけを書く。 -/
structure SleepFrame (K K' : Kernel) : Prop where
  pcb : ∀ j, K'.table j = { K.table j with
    wake_tick := (K'.table j).wake_tick
    sleep_next := (K'.table j).sleep_next }
  rest : K' = { K with
    table := K'.table
    sleep_queue := K'.sleep_queue }

theorem SleepFrame.modify (K : Kernel) (j : Nat) {f : Pcb → Pcb}
    (hf : ∀ p, ∃ w n, f p = { p with wake_tick := w, sleep_next := n }) : SleepFrame K (K.modify j f) := by
  refine ⟨fun k => ?_, rfl⟩
  rw [Kernel.modify_table]
  split
  next hk =>
    subst hk
    obtain ⟨w, n, hp⟩ := hf (K.table k)
    rw [hp]
  · rfl

theorem SleepFrame.trans {K'' : Kernel} (h : SleepFrame K K') (h' : SleepFrame K' K'') :
    SleepFrame K K'' := by
  refine ⟨fun j => ?_, ?_⟩
  · rw [h'.pcb j, h.pcb j]
  · have := h'.rest
    rw [h.rest] at this
    exact this

theorem SleepFrame.queue (h : SleepFrame K K') (q : Option Nat) :
    SleepFrame K { K' with sleep_queue := q } := by
  refine ⟨h.pcb, ?_⟩
  have := h.rest
  rw [this]

theorem sleep_enqueue_within_frame {n t : Nat} (h : sleep_enqueue_within n K i t = some K') : SleepFrame K K' := by
  have h1 : SleepFrame K (K.modify i fun p => { p with wake_tick := t, sleep_next := none }) :=
    .modify K i fun p => ⟨_, _, rfl⟩
  rw [sleep_enqueue_within] at h
  dsimp only at h
  split at h
  · cases h
    exact h1.queue _
  next hd _ =>
    split at h
    · cases h
      exact (h1.trans (.modify _ i fun p => ⟨p.wake_tick, some hd, rfl⟩)).queue _
    · obtain ⟨c, -, rfl⟩ := Option.map_eq_some_iff.mp h
      exact (h1.trans (.modify _ i fun p => ⟨p.wake_tick, _, rfl⟩)).trans
        (.modify _ c fun p => ⟨p.wake_tick, some i, rfl⟩)

theorem sleep_enqueue_frame {t : Nat} (h : sleep_enqueue K i t = some K') : SleepFrame K K' :=
  sleep_enqueue_within_frame (n := MAX_PROCESSES + 1) h

theorem Lands.syscall_sleep (h : Calls K₀ ev i env r) (heax : r.eax = SYS_SLEEP)
    (ho : syscall_sleep K₀ i r = some o) : Lands K₀ ev o := by
  rw [Proc.syscall_sleep] at ho
  split at ho
  · cases ho
    exact .same h h.cs
  next hebx =>
    obtain ⟨K₁, hK₁, ho⟩ := Option.bind_eq_some_iff.mp ho
    have hframe := sleep_enqueue_frame hK₁
    have hact : Act K₀ ev K₀ (K₀.modify i fun p => { p with state := .blocked }) :=
      .block (K₀.table i).waiting_on_pid h (.inr (.inr heax))
    have hacts : Acts K₀ ev K₀ K₁ := (Relation.ReflTransGen.single hact).tail (.enqueue h heax hebx hK₁)
    refine .to_schedule hacts h ?_ ?_ ?_ (.inl ?_) (fun _ => ⟨hebx, hK₁⟩) ho
    · rw [hframe.rest]
      exact h.cur
    · rw [hframe.rest]
      exact Nat.lt_of_le_of_lt (Nat.zero_le _) h.lt
    · rw [hframe.pcb i]
      simp
    · rw [hframe.rest]
      exact h.current.trans h.cur.symm

theorem OnCpu.create {pid : Nat} {load : Option Image} (h : OnCpu i K)
    (hc : create_process K pid load = some K') : OnCpu i K' := by
  have hf := CreateFrame.create hc
  refine ⟨?_, ?_, Nat.lt_of_lt_of_le h.lt hf.num, ?_⟩
  · rw [hf.rest]
    exact h.cur
  · rw [hf.rest]
    exact h.current
  · rw [hf.old i h.lt]
    exact h.running

theorem Lands.syscall_spawn (h : Calls K₀ ev i env r) (heax : r.eax = 8)
    (ho : syscall_spawn K₀ i env r = some o) : Lands K₀ ev o := by
  rw [Proc.syscall_spawn] at ho
  split at ho
  · cases ho
    exact .same h h.cs
  · obtain ⟨K₁, hK₁, ho⟩ := Option.bind_eq_some_iff.mp ho
    cases ho
    exact .returns h (.create (.spawn h heax) hK₁) (h.toOnCpu.create hK₁) (.inl h.cs)

/-- 走っているプロセスの項目は、子に使われない。 -/
theorem OnCpu.ne_slot {slot : Nat} (h : OnCpu i K) (hslot : fork_slot K = some slot) : i ≠ slot := by
  rintro rfl
  rcases fork_slot_spec hslot with ⟨-, ht, -⟩ | ⟨hn, -⟩
  · rw [h.running] at ht
    cases ht
  · exact absurd h.lt (by omega)

theorem OnCpu.fork {slot : Nat} (h : OnCpu i K) (hslot : fork_slot K = some slot)
    (hf : fork_into K i slot r = some K') : OnCpu i K' := by
  have hrest := fork_into_rest hf
  have hi := fork_into_table (h.ne_slot hslot) hf i
  rw [fork_entry, if_neg (h.ne_slot hslot), if_pos rfl] at hi
  refine ⟨?_, ?_, ?_, ?_⟩
  · rw [hrest]
    exact h.cur
  · rw [hrest]
    exact h.current
  · have hlt := h.lt
    rw [hrest]
    dsimp only
    split <;> omega
  · rw [hi]
    exact h.running

theorem Lands.syscall_fork (h : Calls K₀ ev i env r) (heax : r.eax = 24)
    (ho : syscall_fork K₀ i r = some o) : Lands K₀ ev o := by
  obtain ⟨⟨K₁, oslot⟩, hf, rfl⟩ := Option.map_eq_some_iff.mp ho
  rw [Proc.fork_process] at hf
  split at hf
  · cases hf
    exact .same h h.cs
  next slot hslot =>
    obtain ⟨K₂, hinto, heq⟩ := Option.map_eq_some_iff.mp hf
    cases heq
    exact .returns h (.fork h heax hslot hinto) (h.toOnCpu.fork hslot hinto) (.inl h.cs)

/-- `exec_reset` が項目に残すもの。 -/
theorem exec_reset_table (K : Kernel) (i j : Nat) :
    (exec_reset K i).table j =
      { (if j = i then { K.table i with
            memory_regions := []
            sig := exec_signals (K.table i).sig
            cr3 := ((exec_reset K i).table i).cr3 } else K.table j) with
        files_open := ((exec_reset K i).table j).files_open } := by
  have hd := (FileFrame.drop_files i (List.range' 2 (MAX_FILES - 2))
    (K.release ((K.table i).cr3.toList ++ (K.table i).memory_regions))).pcb j
  rw [exec_reset]
  generalize drop_files (K.release _) i _ = L at *
  simp only [Kernel.modify_table, if_pos]
  by_cases hj : j = i
  · subst hj
    simp only [if_pos]
    rw [show (L.alloc (K.table j).pid 1).table j = L.table j from rfl, hd]
    rfl
  · simp only [if_neg hj]
    exact hd

theorem exec_reset_clean (K : Kernel) (i : Nat) : CleanFrame K (exec_reset K i) := by
  have hd := ((FileFrame.release K ((K.table i).cr3.toList ++ (K.table i).memory_regions)).trans
    (.drop_files i (List.range' 2 (MAX_FILES - 2)) _)).clean
  rw [exec_reset]
  generalize drop_files (K.release _) i _ = L at *
  exact hd.trans (CleanFrame.trans (FileFrame.alloc L _ 1).clean (.modify _ i _))

theorem exec_reset_reports (K : Kernel) (i : Nat) : (exec_reset K i).reports = K.reports := by
  have hd := (FileFrame.release K ((K.table i).cr3.toList ++ (K.table i).memory_regions)).trans
    (.drop_files i (List.range' 2 (MAX_FILES - 2)) _)
  rw [exec_reset]
  generalize drop_files (K.release _) i _ = L at *
  show L.reports = K.reports
  rw [hd.rest]

theorem OnCpu.exec_reset (h : OnCpu i K) : OnCpu i (exec_reset K i) := by
  refine h.clean (exec_reset_clean K i) ?_
  rw [exec_reset_table]
  simp only [if_pos]

theorem exec_fail_clean (K : Kernel) (i : Nat) : CleanFrame K (exec_fail K i) := ⟨rfl⟩

theorem exec_load_clean (K : Kernel) (i : Nat) (img : Image) : CleanFrame K (exec_load K i img) := ⟨rfl⟩

theorem exec_fail_self (K : Kernel) (i : Nat) :
    (exec_fail K i).table i = { K.table i with state := .terminated } := if_pos rfl

theorem exec_load_self (K : Kernel) (i : Nat) (img : Image) :
    (exec_load K i img).table i =
      { K.table i with
        state := .running
        iret := user_frame img.eip img.esp
        memory_regions := List.range' K.next_block img.vmas } := if_pos rfl

theorem Lands.syscall_exec (h : Calls K₀ ev i env r) (heax : r.eax = 10)
    (ho : syscall_exec K₀ i env r = some o) : Lands K₀ ev o := by
  have hreset : Acts K₀ ev K₀ (exec_reset K₀ i) := .single (.reset h heax)
  have hon := h.toOnCpu.exec_reset
  rw [Proc.syscall_exec] at ho
  split at ho
  · cases ho
    exact .same h h.cs
  dsimp only at ho
  split at ho
  next hload =>
    have hacts := (hreset.tail (.fail h heax hload)).tail (.unblock (.fail h heax hload))
    have hframe := (exec_fail_clean (exec_reset K₀ i) i).trans
      (.unblock_parent (exec_fail (exec_reset K₀ i) i) ((exec_fail (exec_reset K₀ i) i).table i).pid true)
    refine .to_schedule hacts h (hframe.cur.trans hon.cur) ?_ ?_
      (hframe.leaving (hon.current.trans hon.cur.symm)) (fun hs => by simp [heax, SYS_SLEEP] at hs) ho
    · exact hframe.num.symm ▸ Nat.lt_of_le_of_lt (Nat.zero_le _) hon.lt
    · have hst : ((exec_fail (exec_reset K₀ i) i).table i).state = .terminated := by rw [exec_fail_self]
      rw [unblock_parent_state (by rw [hst]; simp), hst]
      simp
  next img hload =>
    cases ho
    refine ⟨exec_load (exec_reset K₀ i) i img, hreset.tail (.load h heax hload),
      .returns 0 h ?_ (.inr rfl)⟩
    refine hon.clean (exec_load_clean (exec_reset K₀ i) i img) ?_
    rw [exec_load_self]
    exact hon.running.symm

theorem Lands.syscall_kill (h : Calls K₀ ev i env r) (heax : r.eax = 13)
    (ho : returns_of r (syscall_kill K₀ r) = some o) : Lands K₀ ev o := by
  have hsame : ∀ v, Lands K₀ ev (.returns K₀ r v) := fun v => .same h h.cs
  cases ho
  rw [Proc.syscall_kill]
  dsimp only
  split
  · exact hsame _
  next hargs =>
  simp only [not_or, Nat.not_le] at hargs
  split
  · exact hsame _
  next j hj =>
  split
  · exact hsame _
  next hterm =>
  split
  · exact hsame _
  next hsig =>
  split
  next hcont =>
    simp only [Kernel.modifySig, Kernel.modify_self] at hcont
    dsimp only [Kernel.modifySig]
    rw [Kernel.modify_modify]
    refine .returns h (.cont h heax hargs.1 hcont.1 hj hcont.2) ?_ (.inl h.cs)
    refine h.toOnCpu.clean (.modify _ _ _) ?_
    -- 止まっている項目は、走っている項目ではない
    rw [Kernel.modify_ne]
    rintro rfl
    rw [h.running] at hcont
    cases hcont.2
  · have hon : OnCpu i (K₀.modifySig j fun s => { s with pending := s.pending ||| SIG_BIT r.ecx }) :=
      h.toOnCpu.modify rfl
    exact .returns h (.send h heax hargs.1 hargs.2 hsig hj hterm) hon (.inl h.cs)

theorem Lands.syscall_sigreturn (h : Calls K₀ ev i env r) (heax : r.eax = 28)
    (ho : syscall_sigreturn K₀ i r = some o) : Lands K₀ ev o := by
  rw [Proc.syscall_sigreturn] at ho
  dsimp only at ho
  split at ho
  next hin =>
    cases ho
    exact .returns h (.sigreturn h heax hin) (h.toOnCpu.modify rfl) (.inl h.cs)
  · cases ho
    exact .same h h.cs

theorem Lands.syscall_signal (h : Calls K₀ ev i env r) (heax : r.eax = 29)
    (ho : returns_of r (syscall_signal K₀ i r) = some o) : Lands K₀ ev o := by
  have hsame : ∀ v, Lands K₀ ev (.returns K₀ r v) := fun v => .same h h.cs
  cases ho
  rw [Proc.syscall_signal]
  split
  · exact hsame _
  split
  · exact hsame _
  next hsig =>
  split
  · exact hsame _
  next hptr =>
    simp only [not_or] at hsig
    have hhandler : r.ecx = SIG_DFL ∨ r.ecx = SIG_IGN ∨ r.ecx < KERNEL_VIRTUAL_BASE := by
      by_cases hd : r.ecx = SIG_DFL
      · exact .inl hd
      by_cases hi : r.ecx = SIG_IGN
      · exact .inr (.inl hi)
      · have huser : is_user_ptr r.ecx = true := by
          simpa [hd, hi] using hptr
        simp only [is_user_ptr, Bool.and_eq_true, decide_eq_true_eq] at huser
        exact .inr (.inr huser.1)
    have hon : OnCpu i (K₀.modifySig i fun s =>
        { s with disposition := fun n => if n = r.ebx then r.ecx else s.disposition n }) :=
      h.toOnCpu.modify rfl
    exact .returns h (.action h heax hsig.1 hsig.2 hhandler) hon (.inl h.cs)

theorem Lands.syscall_sigprocmask (h : Calls K₀ ev i env r) (heax : r.eax = 32)
    (ho : returns_of r (syscall_sigprocmask K₀ i env r) = some o) : Lands K₀ ev o := by
  have hsame : ∀ v, Lands K₀ ev (.returns K₀ r v) := fun v => .same h h.cs
  cases ho
  rw [Proc.syscall_sigprocmask]
  dsimp only
  split
  · exact hsame _
  split
  · exact hsame _
  split
  · exact hsame _
  split
  · exact hsame _
  · have hon : OnCpu i (K₀.modifySig i fun s => { s with mask := new_mask r.ebx env.user_set s.mask }) :=
      h.toOnCpu.modify rfl
    exact .returns h (.mask h heax) hon (.inl h.cs)

theorem Lands.syscall_setpgid (h : Calls K₀ ev i env r) (heax : r.eax = 30)
    (ho : returns_of r (syscall_setpgid K₀ r) = some o) : Lands K₀ ev o := by
  cases ho
  rw [Proc.syscall_setpgid]
  dsimp only
  split
  · exact .returns h (.group r.ecx h heax) ⟨h.cur, h.current, h.lt, h.running⟩ (.inl h.cs)
  next hpid =>
  split
  · exact .same h h.cs
  next j hj =>
    have hon : OnCpu i (K₀.modify j fun p => { p with pgid := if r.ecx = 0 then r.ebx else r.ecx }) :=
      h.toOnCpu.modify rfl
    exact .returns h (.setpgid (if r.ecx = 0 then r.ebx else r.ecx) h heax hpid hj)
      ⟨hon.cur, hon.current, hon.lt, hon.running⟩ (.inl h.cs)

theorem Lands.yield (h : Calls K₀ ev i env r) (heax : r.eax = 6) (ho : Proc.to_schedule K₀ r = some o) :
    Lands K₀ ev o := by
  obtain ⟨K', hK', rfl⟩ := Option.map_eq_some_iff.mp ho
  obtain ⟨r₀, rfl, rfl⟩ := h.event
  exact Reaches.schedule .refl (if_pos heax) rfl (Nat.lt_of_le_of_lt (Nat.zero_le _) h.lt)
    (h.current.trans h.cur.symm) hK'

theorem Lands.syscall_mmap (h : Calls K₀ ev i env r) (heax : r.eax = 25)
    (ho : returns_of r (syscall_mmap K₀ i env) = some o) : Lands K₀ ev o := by
  cases ho
  rw [Proc.syscall_mmap]
  split
  · exact .same h h.cs
  · have hon : OnCpu i ((K₀.alloc (K₀.table i).pid 1).modify i fun p =>
        { p with memory_regions := p.memory_regions ++ [K₀.next_block] }) :=
      (h.toOnCpu.files (.alloc K₀ (K₀.table i).pid 1)).modify rfl
    exact .returns h (.mmap h heax) hon (.inl h.cs)

theorem Lands.syscall_munmap (h : Calls K₀ ev i env r) (heax : r.eax = 26)
    (ho : returns_of r (syscall_munmap K₀ i env) = some o) : Lands K₀ ev o := by
  cases ho
  rw [Proc.syscall_munmap]
  split
  · exact .same h h.cs
  next v hv =>
    have hon : OnCpu i ((K₀.modify i fun p =>
        { p with memory_regions := p.memory_regions.eraseIdx env.vma }).release [v]) :=
      (h.toOnCpu.modify rfl).files (.release _ _)
    exact .returns h (.munmap h heax hv) hon (.inl h.cs)

theorem Lands.syscall (h : Calls K₀ ev i env r) (ho : syscall K₀ i env r = some o) : Lands K₀ ev o := by
  rw [Proc.syscall] at ho
  split at ho
  next heax => exact .file h (.fopen heax) (.fopen K₀ i env.look env.modes) ho
  · exact .syscall_rw h ho
  · exact .syscall_rw h ho
  next heax => exact .syscall_exit h heax ho
  next heax => exact .yield h heax ho
  next heax => exact .syscall_spawn h heax ho
  next heax => exact .syscall_wait h heax ho
  next heax => exact .syscall_exec h heax ho
  next heax => exact .file h (.dup heax) (.syscall_dup K₀ i r.ebx) ho
  next heax => exact .file h (.pipe heax) (.syscall_pipe K₀ i r.ebx env.copied) ho
  next heax => exact .syscall_kill h heax ho
  · cases ho
    exact .same h h.cs
  next heax => exact .file h (.close heax) (.syscall_close K₀ i r.ebx) ho
  next heax => exact .syscall_fork h heax ho
  next heax => exact .syscall_mmap h heax ho
  next heax => exact .syscall_munmap h heax ho
  next heax => exact .file h (.dup2 heax) (.syscall_dup2 K₀ i r.ebx r.ecx) ho
  next heax => exact .syscall_sigreturn h heax ho
  next heax => exact .syscall_signal h heax ho
  next heax => exact .syscall_setpgid h heax ho
  next heax => exact .syscall_waitpid h heax ho
  next heax => exact .syscall_sigprocmask h heax ho
  next heax => exact .syscall_sleep h heax ho
  · cases ho
    exact .same h h.cs

/-! 一歩。 -/

theorem sleep_check_acts {t n : Nat} (hev : ev = .timer r) (ht : t = add32 K₀.ticks 1)
    (h : sleep_check_loop K t n = some K') :
    Acts K₀ ev K K' ∧ K'.num_processes = K.num_processes ∧
      K'.cur_proccess_id = K.cur_proccess_id ∧ K'.current_process = K.current_process := by
  induction n generalizing K with
  | zero => simp [sleep_check_loop] at h
  | succ n ih =>
    rw [sleep_check_loop] at h
    split at h
    · cases h
      exact ⟨.refl, rfl, rfl, rfl⟩
    next hd hq =>
      split at h
      next hle =>
        obtain ⟨hacts, hrest⟩ := ih (K := sleep_pop K hd) h
        subst ht
        exact ⟨.head (.wake hev hq hle) hacts, hrest⟩
      · cases h
        exact ⟨.refl, rfl, rfl, rfl⟩

theorem send_signal_clean (K : Kernel) (sig : Nat) : CleanFrame K (send_signal_to_foreground K sig) := by
  rw [send_signal_to_foreground]
  split
  · exact ⟨rfl⟩
  · exact .refl K

/-- 機械の一歩は、書き込みの列と `Fin` である。 -/
theorem step_reaches (hsync : Synced K₀) (h : step K₀ ev = some K') : Reaches K₀ ev K' := by
  cases ev with
  | boot load =>
    simp only [step] at h
    split at h
    next hb =>
      have hrest := (CreateFrame.create h).rest
      refine ⟨K', .single (.create (.boot hb.1 hb.2) h), .stays ?_ ?_⟩
      · rw [hrest]
        exact hb.1
      · rw [hrest]
        exact hsync.current.trans hb.1
    · cases h
  | timer r =>
    simp only [step] at h
    split at h
    · obtain ⟨K₁, hK₁, hs⟩ := Option.bind_eq_some_iff.mp h
      obtain ⟨hacts, hnum, hcur, hcurrent⟩ :=
        sleep_check_acts (Eq.refl (Event.timer r)) (Eq.refl (add32 K₀.ticks 1)) hK₁
      have hat : at_schedule K₀ (.timer r) = some (K₁, { r with cs := K₀.ctx.cs }) := by
        simp only [at_schedule]
        rw [hK₁]
        rfl
      have hnum' : 0 < K₁.num_processes := hnum.symm ▸ hsync.num
      exact Reaches.schedule (.head (.tick rfl) hacts) hat rfl hnum'
        (hcurrent.trans (hsync.current.trans hcur.symm)) hs
    · cases h
  | keyboard z r =>
    simp only [step] at h
    split at h
    · have hsend := send_signal_clean K₀ (if z then SIGTSTP else SIGINT)
      exact Reaches.schedule (.single (.keys rfl)) rfl rfl (hsend.num.symm ▸ hsync.num)
        (hsend.current.trans (hsync.current.trans hsend.cur.symm)) h
    · cases h
  | syscall env r =>
    simp only [step] at h
    split at h
    · cases h
    next i hi =>
      split at h
      · cases h
      next hcond =>
        simp only [not_or, Option.not_isSome_iff_eq_none] at hcond
        have hon := hsync.on_cpu i (hsync.current.symm.trans hi)
        have hcall : Calls K₀ (.syscall env r) i env { r with cs := K₀.ctx.cs } :=
          ⟨hon, ⟨r, rfl, rfl⟩, hcond.1, hcond.2⟩
        obtain ⟨o, ho, rfl⟩ := Option.map_eq_some_iff.mp h
        have hland := Lands.syscall hcall ho
        cases o with
        | returns K r v => exact hland
        | leaves K => exact hland
  | fault r =>
    simp only [step] at h
    split at h
    · cases h
    next i hi =>
      split at h
      · cases h
      next hcond =>
        simp only [not_or, Option.not_isSome_iff_eq_none, ne_eq, Decidable.not_not] at hcond
        have hon := hsync.on_cpu i (hsync.current.symm.trans hi)
        exact .fault ⟨hon, ⟨r, rfl, rfl⟩, hcond.1, hcond.2.1, hcond.2.2⟩ h
  | pipe =>
    simp only [step] at h
    split at h
    · cases h
    next i hi =>
      obtain ⟨c, hc, rfl⟩ := Option.map_eq_some_iff.mp h
      exact ⟨K₀, .refl, .pipe_iter rfl (hsync.on_cpu i (hsync.current.symm.trans hi)) hc⟩

end MyOS.Proc
