import MyOS.Proc.Lemmas.Nap

/-!
# 眠りの列の定理

列の整合と、`sleep` から戻るときの値。
-/

namespace MyOS.Proc
open MyOS.Lib

variable {K₀ K K' : Kernel} {ev : Event} {i j : Nat} {r : Regs} {l : List Nat}

/-! ## 列への出入り -/

/-- 整列した眠りの列 `l` に加えると、同じ時刻の項目の後に入る。時刻 `t` には、`wake_tick` が `t` までの項目だけが起きる。
列の長さは問わない。`n` が `MAX_PROCESSES + 1` のとき、二つは `sleep_enqueue` と `sleep_check_wakeup` である。 -/
theorem sleep_list_served {n : Nat} (t : Nat) (h : SleepList K l) (hi : i ∉ l) (hn : l.length ≤ n) :
    (∃ K', sleep_enqueue_within n K i t = some K' ∧
      SleepList K' (l.filter (fun j => (K.table j).wake_tick ≤ t) ++ i :: l.filter (fun j => t < (K.table j).wake_tick)) ∧
      (∀ j, (K'.table j).wake_tick = if j = i then t else (K.table j).wake_tick) ∧ SleepFrame K K') ∧
    ∃ K', sleep_check_loop K t (n + 1) = some K' ∧ Woken K K' t l := by
  refine ⟨?_, h.check (Nat.lt_succ_of_le hn)⟩
  obtain ⟨K', hK'⟩ := h.enqueue_ends (t := t) hi hn
  obtain ⟨l₁, l₂, rfl, hq⟩ := h.enqueue hi hK'
  refine ⟨K', hK', ?_, hq.wake, sleep_enqueue_within_frame hK'⟩
  rw [hq.split.1, hq.split.2]
  exact hq.list

/-- 項目 1 が時刻 5 に、項目 2 が時刻 7 に起きる。 -/
def two_asleep : Kernel :=
  { boot 1 1 0 with
    table := fun j =>
      if j = 1 then { state := .blocked, wake_tick := 5, sleep_next := some 2 }
      else if j = 2 then { state := .blocked, wake_tick := 7 }
      else {}
    sleep_queue := some 1 }

theorem sleep_list_served_two :
    (∃ K', sleep_enqueue two_asleep 3 5 = some K' ∧ SleepList K' [1, 3, 2]) ∧
      ∃ K', sleep_check_wakeup two_asleep 5 = some K' ∧ SleepList K' [2] ∧ (K'.table 1).state = .ready := by
  have hlist : SleepList two_asleep [1, 2] := ⟨⟨rfl, rfl, rfl⟩, by decide⟩
  obtain ⟨⟨K', hK', hq, -⟩, K'', hK'', hw⟩ :=
    sleep_list_served (n := MAX_PROCESSES + 1) 5 hlist (i := 3) (by decide) (by decide)
  exact ⟨⟨K', hK', hq⟩, K'', hK'', hw.list, by rw [hw.woken 1 (by decide) (by decide)]; rfl⟩

/-! ## 列の整合 -/

/-- 歩の途中で成り立つこと。今のプロセスの枠はまだ控えていない。 -/
structure SleepMid (K₀ : Kernel) (ev : Event) (K : Kernel) (l : List Nat) : Prop where
  queued : Queued K l
  lt : ∀ j ∈ l, j < K.num_processes
  asleep : ∀ j, j < K.num_processes → K.cur_proccess_id ≠ some j → Asleep (K.table j) → j ∈ l
  cur : K.cur_proccess_id = K₀.cur_proccess_id
  on : ∀ i, K.cur_proccess_id = some i → i < K.num_processes
  calls : ∀ i, K.cur_proccess_id = some i → (K.table i).state = .blocked →
    ∃ env r, Calls K₀ ev i env r ∧ (r.eax = SYS_WAIT ∨ r.eax = SYS_WAITPID ∨ r.eax = SYS_SLEEP)

theorem SleepInv.start (hs : Synced K) (h : SleepInv K) : ∃ l, SleepMid K ev K l := by
  obtain ⟨l, hq, hlt, hasleep⟩ := h
  refine ⟨l, hq, hlt, fun j hj _ => hasleep j hj, rfl, fun i hi => (hs.on_cpu i hi).lt, fun i hi hb => ?_⟩
  cases (hs.on_cpu i hi).running.symm.trans hb

/-- 眠りの列が変わらないか短くなる書き込み。 -/
theorem SleepMid.keep {l' : List Nat} (h : SleepMid K₀ ev K l) (ha : Act K₀ ev K K') (hq : Queued K' l')
    (hsub : ∀ j ∈ l', j ∈ l) (hsup : ∀ j ∈ l, j ∉ l' → ¬ Asleep (K'.table j)) : SleepMid K₀ ev K' l' := by
  have hf := ha.frame
  refine ⟨hq, fun j hj => Nat.lt_of_lt_of_le (h.lt j (hsub j hj)) hf.num, fun j hj hcur hz => ?_,
    hf.cur.trans h.cur, fun i hi => ?_, fun i hi hb => ?_⟩
  · rw [hf.cur] at hcur
    by_cases hl : j ∈ l
    · by_cases hl' : j ∈ l'
      · exact hl'
      · exact absurd hz (hsup j hl hl')
    · -- 眠っていない項目は、歩の途中では眠らない
      exfalso
      cases ha.off_cpu h.cur hcur hj with
      | kept hold hst htf => exact hl (h.asleep j hold hcur ⟨hst ▸ hz.1, htf ▸ hz.2⟩)
      | dies hst => cases hst.symm.trans hz.1
      | wake _ _ _ hst => cases hst.symm.trans hz.1
      | unblock _ _ _ _ _ hst => cases hst.symm.trans hz.1
      | cont _ hst => cases hst.symm.trans hz.1
      | born _ _ hst => rcases hst with hst | hst <;> cases hst.symm.trans hz.1
  · rw [hf.cur] at hi
    exact Nat.lt_of_lt_of_le (h.on i hi) hf.num
  · rw [hf.cur] at hi
    rcases ha.blocked (h.on i hi) hb with hb | hc
    · exact h.calls i hi hb
    · exact hc

/-- 列につながっていないプロセスが眠る。 -/
theorem SleepInv.doze {env : Env} (hs : Synced K₀) (h : SleepInv K₀) (hok : SleepOnce K₀ ev)
    (hc : Calls K₀ ev i env r) (heax : r.eax = SYS_SLEEP) (hebx : r.ebx ≠ 0) (he : doze K₀ i r = some K') :
    ∃ l, SleepMid K₀ ev K' l ∧ i ∈ l := by
  obtain ⟨l, hq, hlt, hasleep⟩ := h
  have hi : i ∉ l := by
    intro hi
    obtain ⟨r₀, rfl, rfl⟩ := hc.event
    exact hok heax hebx i hc.current (hq.in_queue (fun j hj => Nat.lt_of_lt_of_le (hlt j hj) hs.max) hi)
  have hblock : Queued (K₀.modify i fun p => { p with state := .blocked }) l :=
    hq.same rfl (SameSleep.modify (fun _ => rfl) ⟨rfl, rfl⟩)
  obtain ⟨l₁, l₂, rfl, hq'⟩ := hblock.enqueue hi he
  have hframe := sleep_enqueue_frame he
  have hnum : K'.num_processes = K₀.num_processes := by
    rw [hframe.rest]
    rfl
  have hcur : K'.cur_proccess_id = K₀.cur_proccess_id := by
    rw [hframe.rest]
    rfl
  refine ⟨l₁ ++ i :: l₂, ⟨hq', fun j hj => ?_, fun j hj hne hz => ?_, hcur, fun k hk => ?_,
    fun k hk _ => ?_⟩, by simp⟩
  · rw [hnum]
    rcases List.mem_append.mp hj with hj | hj
    · exact hlt j (List.mem_append_left _ hj)
    · rcases List.mem_cons.mp hj with rfl | hj
      · exact hc.lt
      · exact hlt j (List.mem_append_right _ hj)
  · have hji : j ≠ i := fun h => hne (hcur.trans (h ▸ hc.cur))
    have hold : Asleep (K₀.table j) := by
      rw [hframe.pcb j, Kernel.modify_ne _ _ hji] at hz
      exact hz
    rcases List.mem_append.mp (hasleep j (hnum ▸ hj) hold) with hj | hj
    · exact List.mem_append_left _ hj
    · exact List.mem_append_right _ (List.mem_cons_of_mem _ hj)
  · rw [hnum]
    exact (hs.on_cpu k (hcur ▸ hk)).lt
  · obtain rfl := Option.some.inj (hc.cur.symm.trans (hcur.symm.trans hk))
    exact ⟨env, r, hc, .inr (.inr heax)⟩

theorem SleepMid.act (hs : Synced K₀) (hI : SleepInv K₀) (hok : SleepOnce K₀ ev) (h : SleepMid K₀ ev K l)
    (ha : Act K₀ ev K K') : ∃ l', SleepMid K₀ ev K' l' := by
  cases ha.sleep_step with
  | same hq hn => exact ⟨l, h.keep ha (h.queued.same hq hn) (fun _ hj => hj) fun j hj hj' => absurd hj hj'⟩
  | enqueue hc heax hebx _ he =>
    obtain ⟨l', h', -⟩ := hI.doze hs hok hc heax hebx he
    exact ⟨l', h'⟩
  | @wake hd _ _ hq _ hK' =>
    obtain ⟨l', rfl, hq'⟩ := h.queued.pop hq
    subst hK'
    refine ⟨l', h.keep ha hq' (fun _ hj => List.mem_cons_of_mem _ hj) fun j hj hj' hz => ?_⟩
    obtain rfl : j = hd := (List.mem_cons.mp hj).resolve_right hj'
    have hself : (sleep_pop K j).table j = _ := if_pos rfl
    have hst := hz.1
    rw [hself] at hst
    dsimp only at hst
    split at hst
    · cases hst
    next hb => exact hb hst

/-- 表と文脈を除いて、眠りに関わるものが同じである。 -/
theorem SleepMid.inv (h : SleepMid K₀ ev K l) (hq : K'.sleep_queue = K.sleep_queue)
    (hn : ∀ j, SameSleep (K.table j) (K'.table j)) (hnum : K'.num_processes = K.num_processes)
    (hasleep : ∀ j, j < K.num_processes → Asleep (K'.table j) → j ∈ l) : SleepInv K' :=
  ⟨l, h.queued.same hq hn, fun j hj => hnum ▸ h.lt j hj, fun j hj => hasleep j (hnum ▸ hj)⟩

theorem OnCpu.not_asleep (h : OnCpu i K) : ¬ Asleep (K.table i) := by
  intro hz
  cases h.running.symm.trans hz.1

/-- 今のプロセスが CPU に残る終わり方。 -/
theorem SleepMid.stays (h : SleepMid K₀ ev K l) (hon : ∀ i, K.cur_proccess_id = some i → OnCpu i K)
    (hq : K'.sleep_queue = K.sleep_queue) (hn : ∀ j, SameSleep (K.table j) (K'.table j))
    (hnum : K'.num_processes = K.num_processes)
    (hst : ∀ j, (K'.table j).state = (K.table j).state ∧ (K'.table j).tf = (K.table j).tf) : SleepInv K' := by
  refine h.inv hq hn hnum fun j hj hz => ?_
  have hz : Asleep (K.table j) := ⟨(hst j).1 ▸ hz.1, (hst j).2 ▸ hz.2⟩
  by_cases hcur : K.cur_proccess_id = some j
  · exact absurd hz (hon j hcur).not_asleep
  · exact h.asleep j hj hcur hz

theorem at_schedule_not_blocks {env : Env} (hat : (at_schedule K₀ ev).isSome) (hc : Calls K₀ ev i env r) :
    ¬ (r.eax = SYS_WAIT ∨ r.eax = SYS_WAITPID ∨ r.eax = SYS_SLEEP) := by
  obtain ⟨r₀, rfl, rfl⟩ := hc.event
  simp only [at_schedule] at hat
  split at hat
  next h => simp [h, SYS_WAIT, SYS_WAITPID, SYS_SLEEP]
  · cases hat

theorem Calls.unique {i' : Nat} {env env' : Env} {r' : Regs} (h : Calls K₀ ev i env r) (h' : Calls K₀ ev i' env' r') :
    i = i' ∧ r = r' := by
  refine ⟨Option.some.inj (h.cur.symm.trans h'.cur), ?_⟩
  obtain ⟨r₀, rfl, rfl⟩ := h.event
  obtain ⟨r₁, hev, rfl⟩ := h'.event
  cases hev
  rfl

theorem SleepMid.fin (hs : Synced K₀) (hI : SleepInv K₀) (hok : SleepOnce K₀ ev) (h : SleepMid K₀ ev K l)
    (hf : Fin K₀ ev K K') : SleepInv K' := by
  cases hf with
  | stays hcur =>
    refine h.stays (fun i hi => ?_) rfl (fun _ => ⟨rfl, rfl⟩) rfl fun _ => ⟨rfl, rfl⟩
    cases hcur.symm.trans hi
  | returns v hc hon =>
    refine h.stays (fun i hi => ?_) rfl (fun _ => ⟨rfl, rfl⟩) rfl fun _ => ⟨rfl, rfl⟩
    cases hon.cur.symm.trans hi
    exact hon
  | pipe_start hc =>
    refine h.stays hs.on_cpu rfl (fun j => ?_) rfl fun j => ?_
    · rw [(PipeFrame.pipe_start ..).pcb j]
      exact ⟨rfl, rfl⟩
    · rw [(PipeFrame.pipe_start ..).pcb j]
      exact ⟨rfl, rfl⟩
  | @pipe_iter i c _ hon =>
    have hp := PipeFrame.pipe_iter K₀ i c
    refine h.stays hs.on_cpu (by rw [hp.rest]) (fun j => ?_) (by rw [hp.rest]) fun j => ?_
    · rw [hp.pcb j]
      exact ⟨rfl, rfl⟩
    · rw [hp.pcb j]
      exact ⟨rfl, rfl⟩
  | switch _ hnum hl hwhy hp =>
    obtain ⟨next, hpick⟩ := pick_spec hnum hp
    refine h.inv (by rw [hpick.rest]) hpick.same_sleep (by rw [hpick.rest]) fun j hj hz => ?_
    have hst := hz.1
    rw [hpick.table j] at hst
    by_cases hjn : j = next
    · rw [if_pos hjn] at hst
      cases hst
    rw [if_neg hjn] at hst
    by_cases hcur : K.cur_proccess_id = some j
    · -- 今のプロセスは、`sleep` を呼んだときだけ列に入っている
      have hb : (K.table j).state = .blocked := by
        rw [requeued_table, if_pos hcur, requeue] at hst
        dsimp only at hst
        split at hst
        · cases hst
        · exact hst
      obtain ⟨env, r₁, hc, heax⟩ := h.calls j hcur hb
      rcases hwhy with hat | ⟨i, env', hc', hdoze⟩ | ⟨i, hf⟩
      · exact absurd heax (at_schedule_not_blocks hat hc)
      · obtain ⟨rfl, rfl⟩ := hc.unique hc'
        have hsleep := hz.2
        rw [hpick.saves hl hcur hb] at hsleep
        obtain ⟨hebx, hdoze⟩ := hdoze hsleep
        obtain ⟨l', h', hmem⟩ := hI.doze hs hok hc hsleep hebx hdoze
        rw [h.queued.unique h'.queued]
        exact hmem
      · exact absurd hf hc.not_faults
    · obtain ⟨htf, hreq⟩ := hpick.keeps hl hcur
      exact h.asleep j hj hcur ⟨hreq ▸ hst, htf ▸ hz.2⟩

theorem SleepInv.boot (rc_in rc_out mounts : Nat) : SleepInv (boot rc_in rc_out mounts) := by
  have htable : ∀ j, ((Proc.boot rc_in rc_out mounts).table j).sleep_next = none ∧
      ((Proc.boot rc_in rc_out mounts).table j).state = .new := by
    intro j
    simp only [Proc.boot]
    split <;> exact ⟨rfl, rfl⟩
  refine ⟨[], ⟨rfl, .nil, fun j _ => (htable j).1⟩, fun j hj => ?_, fun j _ hz => ?_⟩
  · cases hj
  · cases (htable j).2.symm.trans hz.1

theorem SleepInv.run {ok : Kernel → Event → Prop} (hok : ∀ K ev, ok K ev → SleepOnce K ev)
    (h : Steps Proc.step ok K K') (hs : Synced K) (hI : SleepInv K) : SleepInv K' := by
  refine run_inv (M := fun K₀ ev K => ∃ l, SleepMid K₀ ev K l) (fun K₀ ev hs hI _ => hI.start hs)
    (fun K₀ ev K K' hs hI ho hm ha => ?_) (fun K₀ ev K K' hs hI ho hm hf => ?_) h hs hI
  · obtain ⟨l, hm⟩ := hm
    exact hm.act hs hI (hok K₀ ev ho) ha
  · obtain ⟨l, hm⟩ := hm
    exact hm.fin hs hI (hok K₀ ev ho) hf

/-- 列につながったままのプロセスが `sleep` を呼ばない実行では、眠りの列は輪のない並びで、`wake_tick` の順に
    重複なく並び、起きる時刻に達していない眠りのプロセスをすべて含む。時計の割り込みも列を調べ終える。 -/
theorem sleep_queue_ok (rc_in rc_out mounts : Nat) (h : Steps step SleepOnce (boot rc_in rc_out mounts) K) :
    ∃ l, Linked (fun j => (K.table j).sleep_next) K.sleep_queue l ∧ l.Nodup ∧
      (l.Pairwise fun a b => (K.table a).wake_tick ≤ (K.table b).wake_tick) ∧
      (∀ j, j < K.num_processes → Asleep (K.table j) → K.ticks < (K.table j).wake_tick → j ∈ l) ∧
      ∀ t, (sleep_check_wakeup K t).isSome = true := by
  have hs := (Synced.boot rc_in rc_out mounts).run h
  obtain ⟨l, hq, hlt, hasleep⟩ := SleepInv.run (fun _ _ h => h) h (.boot ..) (SleepInv.boot ..)
  have hlen := hq.linked.length_le fun j hj => Nat.lt_of_lt_of_le (hlt j hj) hs.max
  exact ⟨l, hq.linked, hq.linked.nodup, hq.sorted, fun j hj hz _ => hasleep j hj hz,
    fun t => Option.isSome_iff_exists.mpr ((hq.list.check (Nat.lt_of_le_of_lt hlen (by decide))).imp fun _ => And.left)⟩

/-- シェルと子が続けて眠る。 -/
def sleep_trace : Trace (checked step (fun K ev => decide (SleepOnce K ev)) (boot 1 1 0)) (fun K =>
    K.num_processes = 3 ∧ K.sleep_queue = some 1 ∧ (K.table 1).sleep_next = some 2 ∧
      Asleep (K.table 2) ∧ K.ticks < (K.table 2).wake_tick) :=
  ⟨start_shell ++ [call 24, call 36 1, call 36 2], by decide +kernel⟩

theorem sleep_queue_ok_two :
    ∃ K, Steps step SleepOnce (boot 1 1 0) K ∧ (K.table 1).sleep_next = some 2 ∧
      ∃ l, Linked (fun j => (K.table j).sleep_next) K.sleep_queue l ∧ 2 ∈ l := by
  obtain ⟨K, hK, hn, -, hnext, hz, hticks⟩ := sleep_trace.steps_checked fun _ _ h => of_decide_eq_true h
  obtain ⟨l, hl, -, -, hmem, -⟩ := sleep_queue_ok 1 1 0 hK
  exact ⟨K, hK, hnext, l, hl, hmem 2 (by omega) hz hticks⟩

/-- 眠っている間に子が終わって起きたシェルが、もう一度眠る。 -/
def sleep_again : Trace (exec step (boot 1 1 0)) (fun K =>
    K.sleep_queue = some 1 ∧ (K.table 1).sleep_next = some 1) :=
  ⟨start_shell ++ [call 24, call 36 1, call 5, tick, call 36 1], by decide +kernel⟩

theorem sleep_queue_loops :
    ∃ K, Steps step (fun _ _ => True) (boot 1 1 0) K ∧
      ¬ ∃ l, Linked (fun j => (K.table j).sleep_next) K.sleep_queue l := by
  obtain ⟨K, hK, hq, hn⟩ := sleep_again.steps
  refine ⟨K, hK, fun ⟨l, hl⟩ => ?_⟩
  rw [hq] at hl
  exact Linked.no_loop hn hl

/-! ## `sleep` から戻る値 -/

/-- `sleep` の一歩。0 ならすぐ戻り、そうでなければ列に入って次へ移る。 -/
theorem step_sleep {env : Env} (hs : Synced K) (hcur : K.current_process = some i) (heax : r.eax = SYS_SLEEP)
    (h : step K (.syscall env r) = some K') :
    i ≠ 0 ∧ (r.ebx = 0 ∧ K' = return_to K { r with cs := K.ctx.cs } 0 ∨
      r.ebx ≠ 0 ∧ ∃ L, doze K i { r with cs := K.ctx.cs } = some L ∧
        pick L { r with cs := K.ctx.cs } = some K') := by
  have hon := hs.on_cpu i (hs.current ▸ hcur)
  simp only [step, hcur] at h
  split at h
  · cases h
  next hi =>
    refine ⟨fun h0 => hi (.inl h0), ?_⟩
    have hsys : syscall K i env { r with cs := K.ctx.cs } = syscall_sleep K i { r with cs := K.ctx.cs } := by
      simp only [syscall, heax, SYS_SLEEP]
    rw [handle_syscalls, hsys, syscall_sleep] at h
    dsimp only at h
    by_cases hebx : r.ebx = 0
    · rw [if_pos hebx] at h
      cases h
      exact .inl ⟨hebx, rfl⟩
    · rw [if_neg hebx] at h
      obtain ⟨o, ho, hK'⟩ := Option.map_eq_some_iff.mp h
      obtain ⟨L, hL, hsch⟩ := Option.bind_eq_some_iff.mp ho
      obtain ⟨K₁, hK₁, rfl⟩ := Option.map_eq_some_iff.mp hsch
      cases hK'
      have hframe := sleep_enqueue_frame hL
      have hLcur : L.cur_proccess_id = some i := by
        rw [hframe.rest]
        exact hon.cur
      have hLst : (L.table i).state = .blocked := by
        rw [hframe.pcb i, Kernel.modify_self]
      have hLnum : 0 < L.num_processes := by
        rw [hframe.rest]
        exact hs.num
      refine .inr ⟨hebx, L, hL, ?_⟩
      rw [schedule_eq hLnum, deliver_signals_skip hLcur (fun h => by cases hLst.symm.trans h.2.1)] at hK₁
      exact hK₁

/-- `sleep(0)` でなければ、眠ったプロセスは呼び出しの番号か、起こした子の番号を受け取る。 -/
theorem NapInv.slept {env : Env} (hs : Synced K) (hr : Rooted K) (hcur : K.current_process = some i)
    (heax : r.eax = SYS_SLEEP) (hebx : r.ebx ≠ 0) (h : Proc.step K (.syscall env r) = some K') :
    NapInv (· ≠ 0) i K' := by
  have hon := hs.on_cpu i (hs.current ▸ hcur)
  obtain ⟨hi, ⟨h0, -⟩ | ⟨-, L, hL, hp⟩⟩ := step_sleep hs hcur heax h
  · exact absurd h0 hebx
  have hframe := sleep_enqueue_frame hL
  have hnum : L.num_processes = K.num_processes := by
    rw [hframe.rest]
    rfl
  have hLcur : L.cur_proccess_id = some i := by
    rw [hframe.rest]
    exact hon.cur
  have hLst : (L.table i).state = .blocked := by
    rw [hframe.pcb i, Kernel.modify_self]
  have hl : Leaving L := by
    left
    rw [hframe.rest]
    exact hon.current.trans hon.cur.symm
  obtain ⟨next, hpick⟩ := pick_spec (hnum ▸ hs.num) hp
  have htf := hpick.saves hl hLcur hLst
  have hreq : ((requeued L).table i).state = .blocked := by
    rw [requeued_table, if_pos hLcur, requeue, hLst]
    rfl
  have hroot : Rooted K' := by
    refine ⟨?_, ?_, ?_⟩
    · rw [hpick.rest]
      exact hnum ▸ hs.num
    · rw [hpick.table 0, hframe.pcb 0, Kernel.modify_ne _ _ hi.symm]
      exact hr.pid
    · rw [hpick.table 0, hframe.pcb 0, Kernel.modify_ne _ _ hi.symm]
      exact hr.parent
  have heax' : ((K'.table i).tf).eax ≠ 0 := by
    rw [htf]
    simp [heax, SYS_SLEEP]
  refine ⟨hroot, ?_, fun hne => ?_, fun hback => ?_⟩
  · rw [hpick.rest]
    exact hnum ▸ hon.lt
  · have hin : i ≠ next := by
      rintro rfl
      rw [hpick.rest] at hne
      exact hne rfl
    refine .blocked ?_ heax' fun v hv => hv
    rw [hpick.table i, ← hreq]
    exact if_neg hin
  · obtain rfl : next = i := by
      rw [hpick.rest] at hback
      exact Option.some.inj hback
    rw [hpick.ctx, if_neg (by rw [hreq]; simp)]
    exact heax'

/-- `sleep` が 0 を返し、時計が `seconds` の 18 倍進むまで起きないのは、`seconds` が 0 のときに限る。 -/
theorem sleep_ok_iff (rc_in rc_out mounts : Nat) {K₁ K₂ : Kernel} {env : Env}
    (h : Steps step (fun _ _ => True) (boot rc_in rc_out mounts) K₁) (hcur : K₁.current_process = some i)
    (heax : r.eax = SYS_SLEEP) (hstep : step K₁ (.syscall env r) = some K₂) {w : Nap}
    (hw : Steps (nap i) (fun _ _ => True) ⟨K₂, 0⟩ w) (hback : w.kernel.current_process = some i) :
    w.kernel.ctx.eax = 0 ∧ PIT_FREQ_HZ * r.ebx ≤ w.elapsed ↔ r.ebx = 0 := by
  have hs := (Synced.boot rc_in rc_out mounts).run h
  have hr := Rooted.run h (.boot ..) (.boot ..)
  constructor
  · rintro ⟨hval, -⟩
    by_contra hebx
    have hslept := NapInv.slept hs hr hcur heax hebx hstep
    have hi := (step_sleep hs hcur heax hstep).1
    obtain ⟨hsw, hI⟩ := NapInv.run hw (hs.step hstep) hslept hi
    exact hI.back (hsw.current ▸ hback) hval
  · intro hebx
    obtain ⟨-, ⟨-, hK₂⟩ | ⟨h0, -⟩⟩ := step_sleep hs hcur heax hstep
    · have hstill : w = ⟨K₂, 0⟩ := by
        refine hw.inv (P := fun w => w = ⟨K₂, 0⟩) (fun w ev w' hw _ he => ?_) rfl
        subst hw
        refine absurd ?_ (nap_some he).1
        rw [hK₂]
        exact hcur
      subst hstill
      refine ⟨?_, by simp [hebx]⟩
      show K₂.ctx.eax = 0
      rw [hK₂]
      rfl
    · exact absurd hebx h0

/-- シェルが一秒眠る間に、事象 `evs` が起こる。 -/
def slept (evs : List Event) (P : Nap → Prop) [DecidablePred P] (K₁ : Kernel) : Bool :=
  decide (K₁.current_process = some 1) && (step K₁ (call SYS_SLEEP 1)).any fun K₂ =>
    (exec (nap 1) ⟨K₂, 0⟩ evs).any fun w => decide (w.kernel.current_process = some 1 ∧ P w)

theorem slept_spec {evs : List Event} {P : Nap → Prop} [DecidablePred P] {K₁ : Kernel} (h : slept evs P K₁ = true) :
    K₁.current_process = some 1 ∧ ∃ K₂ w, step K₁ (call SYS_SLEEP 1) = some K₂ ∧
      Steps (nap 1) (fun _ _ => True) ⟨K₂, 0⟩ w ∧ w.kernel.current_process = some 1 ∧ P w := by
  obtain ⟨hcur, h⟩ := Bool.and_eq_true_iff.mp h
  obtain ⟨K₂, hK₂, h⟩ := (Option.any_eq_true _ _).mp h
  obtain ⟨w, hw, h⟩ := (Option.any_eq_true _ _).mp h
  exact ⟨of_decide_eq_true hcur, K₂, w, hK₂, .of_exec hw, of_decide_eq_true h⟩

def alone_trace : Trace (exec step (boot 1 1 0))
    (fun K₁ => slept (List.replicate 18 tick) (fun w => w.elapsed = 18) K₁ = true) :=
  ⟨start_shell, by decide +kernel⟩

/-- 誰にも起こされずに一秒眠っても、戻り値は 0 でない。 -/
theorem sleep_ok_iff_alone :
    ∃ K₁ K₂ w, Steps step (fun _ _ => True) (boot 1 1 0) K₁ ∧ step K₁ (call SYS_SLEEP 1) = some K₂ ∧
      Steps (nap 1) (fun _ _ => True) ⟨K₂, 0⟩ w ∧ w.elapsed = 18 ∧ w.kernel.ctx.eax ≠ 0 := by
  obtain ⟨K₁, hK₁, h⟩ := alone_trace.steps
  obtain ⟨hcur, K₂, w, hK₂, hw, hback, hel⟩ := slept_spec h
  refine ⟨K₁, K₂, w, hK₁, hK₂, hw, hel, fun h0 => ?_⟩
  have h1 : (1 : Nat) = 0 := (sleep_ok_iff 1 1 0 hK₁ hcur rfl hK₂ hw hback).mp ⟨h0, by rw [hel]; decide⟩
  cases h1

def child_trace : Trace (exec step (boot 1 1 0))
    (fun K₁ => slept [call 5, tick] (fun w => w.elapsed = 0 ∧ w.kernel.ctx.eax = 2) K₁ = true) :=
  ⟨start_shell ++ [call 24], by decide +kernel⟩

/-- 眠っている間に子が終わると、シェルは時計が進む前に、子の番号を受け取って戻る。 -/
theorem sleep_cut_short :
    ∃ K₁ K₂ w, Steps step (fun _ _ => True) (boot 1 1 0) K₁ ∧ K₁.current_process = some 1 ∧
      step K₁ (call SYS_SLEEP 1) = some K₂ ∧ Steps (nap 1) (fun _ _ => True) ⟨K₂, 0⟩ w ∧
      w.kernel.current_process = some 1 ∧ w.kernel.ctx.eax ≠ 0 ∧ w.elapsed < PIT_FREQ_HZ * 1 := by
  obtain ⟨K₁, hK₁, h⟩ := child_trace.steps
  obtain ⟨hcur, K₂, w, hK₂, hw, hback, hel, hval⟩ := slept_spec h
  exact ⟨K₁, K₂, w, hK₁, hcur, hK₂, hw, hback, by simp [hval], by simp [hel, PIT_FREQ_HZ]⟩

end MyOS.Proc
