import MyOS.Proc.Lemmas.Lineage

/-! 終わった子の報告について、書き込みの一つずつにできること。 -/

namespace MyOS.Proc
open MyOS.Lib

variable {K₀ K K' : Kernel} {ev : Event} {i j : Nat} {r : Regs}

theorem live_of_dead {s s' : ProcState} (h : s = .terminated → s' = .terminated) (hl : Live s') : Live s :=
  fun hs => hl (h hs)

/-! `schedule` に入るときの状態。 -/

theorem sleep_check_loop_tree {t n : Nat} (h : sleep_check_loop K t n = some K') :
    TreeRest K K' ∧ ∀ j, SameTree (K.table j) (K'.table j) := by
  induction n generalizing K with
  | zero => cases h
  | succ n ih =>
    rw [sleep_check_loop] at h
    split at h
    · cases h
      exact ⟨⟨rfl, rfl, rfl, rfl⟩, fun _ => .refl _⟩
    · split at h
      · obtain ⟨hrest, htree⟩ := ih h
        refine ⟨⟨hrest.num, hrest.next_pid, hrest.reports, hrest.cur⟩, fun j => ?_⟩
        have hj := htree j
        simp only [Kernel.modify_table] at hj
        split at hj
        next hji =>
          subst hji
          exact ⟨hj.pid, hj.parent, hj.children, hj.waiting, hj.tf⟩
        · exact hj
      · cases h
        exact ⟨⟨rfl, rfl, rfl, rfl⟩, fun _ => .refl _⟩

theorem send_signal_tree (K : Kernel) (sig : Nat) :
    TreeRest K (send_signal_to_foreground K sig) ∧
      ∀ j, SameTree (K.table j) ((send_signal_to_foreground K sig).table j) := by
  rw [send_signal_to_foreground]
  split
  · refine ⟨⟨rfl, rfl, rfl, rfl⟩, fun j => ?_⟩
    dsimp only
    split
    · exact ⟨rfl, rfl, rfl, rfl, rfl⟩
    · exact .refl _
  · exact ⟨⟨rfl, rfl, rfl, rfl⟩, fun _ => .refl _⟩

theorem at_schedule_tree (h : at_schedule K₀ ev = some (K, r)) :
    TreeRest K₀ K ∧ ∀ j, SameTree (K₀.table j) (K.table j) := by
  cases ev with
  | boot load => cases h
  | fault r => cases h
  | pipe => cases h
  | timer r =>
    obtain ⟨K₁, hK₁, heq⟩ := Option.map_eq_some_iff.mp h
    cases heq
    obtain ⟨hrest, htree⟩ := sleep_check_loop_tree hK₁
    exact ⟨⟨hrest.num, hrest.next_pid, hrest.reports, hrest.cur⟩, htree⟩
  | keyboard z r =>
    cases h
    exact send_signal_tree ..
  | syscall env r =>
    simp only [at_schedule] at h
    split at h
    · cases h
      exact ⟨⟨rfl, rfl, rfl, rfl⟩, fun _ => .refl _⟩
    · cases h

/-! 終わった、または止まったプロセス。 -/

theorem exit_tree_reports (K : Kernel) (i : Nat) (fds : List Nat) : (exit_tree K i fds).reports = K.reports := by
  show (drop_files K i fds).reports = K.reports
  rw [(FileFrame.drop_files i fds K).rest]

theorem Ends.frame {b : Bool} (hs : Synced K₀) (h : Ends K₀ ev i b K) :
    TreeRest K₀ K ∧ i < K₀.num_processes ∧ (K₀.table i).state = .running ∧
      ∀ j, SameTree (K₀.table j) (K.table j) := by
  have hw : ∀ {L : Kernel} {r : Regs} {p' : Pcb} {fate : Fate}, at_schedule K₀ ev = some (L, r) →
      L.cur_proccess_id = some i → Signalled (L.table i) r fate p' →
      TreeRest K₀ (written L i r p' fate) ∧ i < K₀.num_processes ∧ (K₀.table i).state = .running ∧
        ∀ j, SameTree (K₀.table j) ((written L i r p' fate).table j) := by
    intro L r p' fate hat hcur hp
    obtain ⟨hrest, htree⟩ := at_schedule_tree hat
    have hon := hs.on_cpu i (hrest.cur ▸ hcur)
    refine ⟨⟨hrest.num, hrest.next_pid, hrest.reports, hrest.cur⟩, hon.lt, hon.running, fun j => ?_⟩
    have hj := htree j
    rw [show (written L i r p' fate).table j = if j = i then p' else L.table j from rfl]
    split
    next hji =>
      subst hji
      have hsig := hp.tree
      exact ⟨hsig.pid.trans hj.pid, hsig.parent.trans hj.parent, hsig.children.trans hj.children,
        hsig.waiting.trans hj.waiting, hsig.tf.trans hj.tf⟩
    · exact hj
  cases h with
  | exit hq =>
    refine ⟨(exit_tree_clean ..).tree ?_, hq.onCpu.lt, hq.onCpu.running, fun j => ?_⟩
    · rw [exit_tree_reports]
    · rw [exit_tree_table]
      exact ⟨rfl, rfl, rfl, rfl, rfl⟩
  | fail hc heax hload =>
    refine ⟨?_, hc.lt, hc.running, fun j => ?_⟩
    · have := (exec_reset_clean K₀ i).tree (exec_reset_reports K₀ i)
      exact ⟨this.num, this.next_pid, this.reports, this.cur⟩
    · have hreset := exec_reset_tree K₀ i j
      by_cases hj : j = i
      · subst hj
        rw [exec_fail_self]
        exact ⟨hreset.1.pid, hreset.1.parent, hreset.1.children, hreset.1.waiting, hreset.1.tf⟩
      · rw [exec_fail_ne hj]
        exact hreset.1
  | signal hat hcur _ hp => exact hw hat hcur hp
  | stop hat hcur _ hp => exact hw hat hcur hp

theorem Ends.terminated (h : Ends K₀ ev i true K) : (K.table i).state = .terminated := by
  cases h with
  | exit => exact exit_tree_state ..
  | fail hc heax hload => rw [exec_fail_self]
  | @signal L r p' hat hcur hsig hp =>
    rw [show (written L i r p' .ends).table i = p' from if_pos rfl]
    rcases hp.state hsig.2.1 with ⟨-, hst⟩ | ⟨hne, -⟩
    · exact hst
    · exact absurd rfl hne

/-- 親が待っているなら、木に関わらない書き込みの前でも待っている。 -/
theorem SleepingParent.back (hnum : K'.num_processes = K.num_processes)
    (htree : ∀ j, SameTree (K.table j) (K'.table j))
    (hst : ∀ j, (K'.table j).state = .blocked → (K.table j).state = .blocked) (h : SleepingParent K' i) :
    SleepingParent K i := by
  obtain ⟨j, hj, hpid, hblocked, hwait, h1, h2⟩ := h
  rw [(htree j).waiting, (htree i).pid] at hwait
  rw [(htree j).tf] at h1 h2
  rw [(htree j).pid, (htree i).parent] at hpid
  exact ⟨j, hnum ▸ hj, hpid, hst j hblocked, hwait, h1, h2⟩

/-- 終わったプロセスの親は、眠っていない。 -/
theorem Ends.not_sleeping (hok : WaitOk K₀ ev) (h : Ends K₀ ev i true K) : ¬ SleepingParent K i := by
  intro hsl
  cases h with
  | exit hq =>
    refine hok.exit i _ hq (hsl.back (exit_tree_clean ..).num (fun j => ?_) fun j hb => ?_)
    · rw [exit_tree_table]
      exact ⟨rfl, rfl, rfl, rfl, rfl⟩
    · rw [exit_tree_table] at hb
      dsimp only at hb
      split at hb
      · cases hb
      · exact hb
  | fail hc heax hload =>
    have hnum := (exec_fail_clean (exec_reset K₀ i) i).num.trans (exec_reset_clean K₀ i).num
    refine hok.fail i _ _ hc heax hload (hsl.back hnum (fun j => ?_) fun j hb => ?_)
    all_goals have hreset := exec_reset_tree K₀ i j
    all_goals by_cases hj : j = i
    · subst hj
      rw [exec_fail_self]
      exact ⟨hreset.1.pid, hreset.1.parent, hreset.1.children, hreset.1.waiting, hreset.1.tf⟩
    · rw [exec_fail_ne hj]
      exact hreset.1
    · subst hj
      rw [exec_fail_self] at hb
      cases hb
    · rw [exec_fail_ne hj, hreset.2] at hb
      exact hb
  | @signal L r p' hat hcur hsig hp =>
    have hnum : (written L i r p' .ends).num_processes = L.num_processes := rfl
    refine hok.signal L r i hat hcur (hp.dies hsig) (hsl.back hnum (fun j => ?_) fun j hb => ?_)
    all_goals by_cases hj : j = i
    · rw [show (written L i r p' .ends).table j = p' from if_pos hj, hj]
      exact hp.tree
    · rw [show (written L i r p' .ends).table j = L.table j from if_neg hj]
      exact .refl _
    · rw [show (written L i r p' .ends).table j = p' from if_pos hj] at hb
      rcases hp.state hsig.2.1 with ⟨-, hst⟩ | ⟨hne, -⟩
      · cases hst.symm.trans hb
      · exact absurd rfl hne
    · rwa [show (written L i r p' .ends).table j = L.table j from if_neg hj] at hb

/-! `WaitInv` を保つこと。 -/

/-- 子の列も報告も変えない書き込み。 -/
theorem WaitInv.quiet {next : Nat} (h : WaitInv K) (hs : SameIds K K' next) (hnext : K.next_pid ≤ next)
    (hnum : 0 < K.num_processes)
    (hchildren : ∀ j, j < K.num_processes → (K'.table j).children = (K.table j).children)
    (hreports : K'.reports = K.reports) : WaitInv K' where
  pids := h.pids.same hs hnext hnum
  kids j hj hl := by
    rw [hs.num] at hj
    exact (h.kids j hj (live_of_dead (hs.dead j hj) hl)).same hs hj
  parents k hk := by
    rw [hs.num] at hk
    rw [hs.parent k hk, hs.next]
    exact Nat.lt_of_lt_of_le (h.parents k hk) hnext
  listed j k hj hk h0 hl hparent := by
    rw [hs.num] at hj hk
    rw [hs.parent k hk, hs.pid j hj] at hparent
    rw [hs.pid j hj, hs.pid k hk, hreports, hchildren j hj]
    exact h.listed j k hj hk h0 (live_of_dead (hs.dead j hj) hl) hparent
  old x hx := by
    have := h.old x (hreports ▸ hx)
    rw [hs.next]
    omega
  gone x hx j hj hpid hl := by
    rw [hs.num] at hj
    rw [hchildren j hj]
    exact h.gone x (hreports ▸ hx) j hj ((hs.pid j hj).symm.trans hpid) (live_of_dead (hs.dead j hj) hl)
  dead x hx k hk hpid := by
    rw [hs.num] at hk
    exact hs.dead k hk (h.dead x (hreports ▸ hx) k hk ((hs.pid k hk).symm.trans hpid))
  once := hreports ▸ h.once

/-- 終わった子 `c` を親 `j` の列から除き、報告する。 -/
theorem WaitInv.report {c : Nat} (h : WaitInv K) (hs : SameIds K K' K.next_pid) (hnum : 0 < K.num_processes)
    (hj : j < K.num_processes) (hlive : Live (K.table j).state) (hc : c ∈ (K.table j).children)
    (hchildren : ∀ k, k < K.num_processes → (K'.table k).children =
      if k = j then remove_id c (K.table k).children else (K.table k).children)
    (hreports : K'.reports = ((K.table j).pid, c) :: K.reports)
    (hdead : ∀ k, k < K.num_processes → (K.table k).pid = c → (K'.table k).state = .terminated) :
    WaitInv K' := by
  have hnodup := (h.kids j hj hlive).nodup
  have hfresh : ((K.table j).pid, c) ∉ K.reports := fun hx => h.gone _ hx j hj rfl hlive hc
  refine ⟨h.pids.same hs (Nat.le_refl _) hnum, fun k hk hl => ?_, fun k hk => ?_,
    fun k m hk hm h0 hl hparent hx => ?_, fun x hx => ?_, fun x hx k hk hpid hl => ?_,
    fun x hx k hk hpid => ?_, ?_⟩
  · rw [hs.num] at hk
    exact (h.kids k hk (live_of_dead (hs.dead k hk) hl)).same hs hk
  · rw [hs.num] at hk
    rw [hs.parent k hk, hs.next]
    exact h.parents k hk
  · rw [hs.num] at hk hm
    rw [hs.parent m hm, hs.pid k hk] at hparent
    rw [hs.pid k hk, hs.pid m hm, hreports, List.mem_cons, not_or] at hx
    rw [hs.pid m hm, hchildren k hk]
    have hold := h.listed k m hk hm h0 (live_of_dead (hs.dead k hk) hl) hparent hx.2
    split
    next hkj =>
      subst hkj
      refine (mem_remove_id hnodup).mpr ⟨fun hmc => hx.1 ?_, hold⟩
      rw [hmc]
    · exact hold
  · rw [hs.next]
    rw [hreports, List.mem_cons] at hx
    rcases hx with rfl | hx
    · obtain ⟨k, hk, rfl, -⟩ := (h.kids j hj hlive).entry c hc
      exact ⟨h.pids.lt j hj, h.pids.lt k hk⟩
    · exact h.old x hx
  · rw [hs.num] at hk
    rw [hs.pid k hk] at hpid
    rw [hchildren k hk]
    rw [hreports, List.mem_cons] at hx
    have hl₀ := live_of_dead (hs.dead k hk) hl
    rcases hx with rfl | hx
    · obtain rfl := h.pids.inj k j hk hj hpid
      rw [if_pos rfl, mem_remove_id hnodup]
      exact fun hm => hm.1 rfl
    · have hold := h.gone x hx k hk hpid hl₀
      split
      · exact fun hm => hold (mem_of_mem_remove_id hm)
      · exact hold
  · rw [hs.num] at hk
    rw [hs.pid k hk] at hpid
    rw [hreports, List.mem_cons] at hx
    rcases hx with rfl | hx
    · exact hdead k hk hpid
    · exact hs.dead k hk (h.dead x hx k hk hpid)
  · rw [hreports]
    exact List.nodup_cons.mpr ⟨hfresh, h.once⟩

/-- 新しいプロセスを置く。 -/
theorem WaitInv.born {slot parent : Nat} {adder : Option Nat} (h : WaitInv K)
    (hb : Born K slot parent adder K') (h0 : slot ≠ 0) (hnum : 0 < K.num_processes)
    (hwrap : K.next_pid + 1 < 2 ^ 32) (hkids : KidsInv Live K') (hparent : parent < K.next_pid) :
    WaitInv K' := by
  have hnext : K'.next_pid = K.next_pid + 1 := hb.next.trans (add32_succ hwrap)
  refine ⟨h.pids.born hb h0 hnum hwrap, hkids, fun k hk => ?_, fun j k hj hk hj0 hl hpar hx => ?_,
    fun x hx => ?_, fun x hx j hj hpid hl => ?_, fun x hx k hk hpid => ?_, hb.reports ▸ h.once⟩
  · rw [hnext]
    rcases hb.cases_lt hk with rfl | ⟨hk, hks⟩
    · rw [hb.parent_id]
      omega
    · rw [(hb.old k hk hks).2.1]
      have := h.parents k hk
      omega
  · rw [hb.reports] at hx
    rcases hb.cases_lt hj with rfl | ⟨hj, hjs⟩
    · -- 新しいプロセスに子はない
      exfalso
      rw [hb.pid] at hpar
      rcases hb.cases_lt hk with rfl | ⟨hk, hks⟩
      · rw [hb.parent_id] at hpar
        omega
      · rw [(hb.old k hk hks).2.1] at hpar
        have := h.parents k hk
        omega
    · obtain ⟨hpid, -, hst, hch⟩ := hb.old j hj hjs
      rw [hpid] at hpar hx
      rw [hst] at hl
      rw [hch]
      rcases hb.cases_lt hk with rfl | ⟨hk, hks⟩
      · -- 親は、加えた列の持ち主である
        rw [hb.parent_id] at hpar
        rw [hb.pid]
        cases hadd : adder with
        | none =>
          exfalso
          rcases hb.alone hadd with hz | hnone
          · exact hj0 (h.pids.inj j 0 hj hnum (hpar.symm.trans (hz.trans h.pids.idle.symm)))
          · exact hnone j hj hpar.symm
        | some i =>
          obtain ⟨hi, -, hpi⟩ := hb.adder_spec i hadd
          obtain rfl := h.pids.inj i j hi hj (hpi.trans hpar)
          rw [if_pos rfl]
          simp
      · obtain ⟨hkpid, hkpar, -, -⟩ := hb.old k hk hks
        rw [hkpar] at hpar
        rw [hkpid] at hx ⊢
        have hold := h.listed j k hj hk hj0 hl hpar hx
        split
        · exact List.mem_append_left _ hold
        · exact hold
  · rw [hnext]
    have := h.old x (hb.reports ▸ hx)
    omega
  · rw [hb.reports] at hx
    have hlt := h.old x hx
    rcases hb.cases_lt hj with rfl | ⟨hj, hjs⟩
    · rw [hb.pid] at hpid
      omega
    · obtain ⟨hpid', -, hst, hch⟩ := hb.old j hj hjs
      have hold := h.gone x hx j hj (hpid'.symm.trans hpid) (hst ▸ hl)
      rw [hch]
      split
      · rw [List.mem_append, not_or]
        refine ⟨hold, ?_⟩
        rw [List.mem_singleton]
        omega
      · exact hold
  · rw [hb.reports] at hx
    have hlt := h.old x hx
    rcases hb.cases_lt hk with rfl | ⟨hk, hks⟩
    · rw [hb.pid] at hpid
      omega
    · obtain ⟨hpid', -, hst, -⟩ := hb.old k hk hks
      rw [hst]
      exact h.dead x hx k hk (hpid'.symm.trans hpid)

/-! 親を起こすことと、終わった子を除くこと。 -/

/-- 後始末は、木も報告も変えない。 -/
theorem cleanup_tree (K : Kernel) (c j : Nat) :
    ((process_cleanup_child K c).table j).children = (K.table j).children ∧
      (process_cleanup_child K c).reports = K.reports := by
  refine ⟨?_, by rw [cleanup_rest]⟩
  rw [cleanup_table]
  by_cases hj : j = c
  · rw [if_pos hj, hj]
    rfl
  · rw [if_neg hj]

/-- 親を起こせば、終わった子を列から除く。`wait` か `waitpid` で待っていれば報告する。 -/
theorem unblock_parent_tree (hp : PidInv K) (hi : i < K.num_processes) (b : Bool) :
    ((∀ k, ((unblock_parent K (K.table i).pid b).table k).children = (K.table k).children) ∧
      (unblock_parent K (K.table i).pid b).reports = K.reports) ∨
    ∃ j, j < K.num_processes ∧ (K.table j).pid = (K.table i).parent_id ∧ (K.table j).state = .blocked ∧
      ((K.table j).waiting_on_pid = 0 ∨ (K.table j).waiting_on_pid = (K.table i).pid) ∧
      (∀ k, ((unblock_parent K (K.table i).pid b).table k).children =
        if k = j ∧ b = true then remove_id (K.table i).pid (K.table k).children else (K.table k).children) ∧
      (unblock_parent K (K.table i).pid b).reports =
        if b = true ∧ ((K.table j).tf.eax = SYS_WAIT ∨ (K.table j).tf.eax = SYS_WAITPID) then
          ((K.table j).pid, (K.table i).pid) :: K.reports else K.reports := by
  have hwake : ∀ j k, ((wake_parent K j (K.table i).pid b).table k).children =
      if k = j ∧ b = true then remove_id (K.table i).pid (K.table k).children else (K.table k).children := by
    intro j k
    by_cases hk : k = j
    · subst hk
      rw [wake_parent_self]
      cases b <;> simp [woken_pcb]
    · rw [wake_parent_ne hk, if_neg (fun h => hk h.1)]
  rcases unblock_parent_cases K (K.table i).pid b with h | ⟨c, j, hc, hj, hblocked, hwait, h⟩
  · rw [h]
    exact .inl ⟨fun _ => rfl, rfl⟩
  obtain ⟨hclt, hcpid⟩ := get_process_by_pid_spec hc
  obtain rfl := hp.inj c i hclt hi hcpid
  obtain ⟨hjlt, hjpid⟩ := get_process_by_pid_spec hj
  refine .inr ⟨j, hjlt, hjpid, hblocked, hwait, fun k => ?_, ?_⟩
  · rcases h with ⟨h, -⟩ | ⟨-, -, h⟩
    · rw [h]
      exact hwake j k
    · rw [h, (cleanup_tree _ c k).1]
      exact hwake j k
  · rcases h with ⟨h, -⟩ | ⟨-, -, h⟩
    · rw [h]
      rfl
    · rw [h, (cleanup_tree _ c 0).2]
      rfl

theorem reaped_tree (K : Kernel) (i dead k : Nat) :
    ((reaped K i dead).table k).children =
      if k = i then remove_id dead (K.table k).children else (K.table k).children := by
  have hrem : ((remove_child_from_parent K i dead).table k).children =
      if k = i then remove_id dead (K.table k).children else (K.table k).children := by
    rw [remove_child_from_parent, Kernel.modify_table]
    by_cases hk : k = i
    · rw [if_pos hk, if_pos hk, hk]
    · rw [if_neg hk, if_neg hk]
  show ((reap_child K i dead).table k).children = _
  rw [reap_child]
  split
  · exact hrem
  next c _ =>
    rw [(cleanup_tree _ c k).1]
    exact hrem

theorem reaped_reports (K : Kernel) (i dead : Nat) :
    (reaped K i dead).reports = ((K.table i).pid, dead) :: K.reports := by
  have hreap : (reap_child K i dead).reports = K.reports := by
    rw [reap_child]
    split
    · rfl
    next c _ =>
      rw [(cleanup_tree _ c 0).2]
      rfl
  have hpid : ((reap_child K i dead).table i).pid = (K.table i).pid := by
    rw [reap_child]
    split
    · rw [remove_child_from_parent, Kernel.modify_self]
    next c _ =>
      rw [cleanup_table]
      by_cases hic : i = c
      · rw [if_pos hic, ← hic, remove_child_from_parent, Kernel.modify_self]
        rfl
      · rw [if_neg hic, remove_child_from_parent, Kernel.modify_self]
  show (((reap_child K i dead).table i).pid, dead) :: (reap_child K i dead).reports = _
  rw [hreap, hpid]

/-- 見つけた終わった子は、列にあり、終わっている。 -/
theorem find_terminated_child_spec (hp : PidInv K) (hi : i < K.num_processes)
    (h : find_terminated_child K (K.table i).pid ≠ 0) :
    find_terminated_child K (K.table i).pid ∈ (K.table i).children ∧
      ∀ k, k < K.num_processes → (K.table k).pid = find_terminated_child K (K.table i).pid →
        (K.table k).state = .terminated := by
  rw [find_terminated_child] at h ⊢
  cases hf : find_child K (K.table i).pid (· == .terminated) with
  | none =>
    rw [hf] at h
    exact absurd rfl h
  | some c =>
    rw [find_child] at hf
    split at hf
    · cases hf
    next i' hi' =>
      obtain ⟨hlt, hpid⟩ := get_process_by_pid_spec hi'
      obtain rfl := hp.inj i' i hlt hi hpid
      refine ⟨List.mem_of_find?_eq_some hf, fun k hk hkc => ?_⟩
      have hany := List.find?_some hf
      obtain ⟨m, hm, hst⟩ := (Option.any_eq_true _ _).mp hany
      obtain ⟨hmlt, hmpid⟩ := get_process_by_pid_spec hm
      obtain rfl := hp.inj m k hmlt hk (hmpid.trans hkc.symm)
      simpa using hst

theorem WaitInv.kin_born {slot parent : Nat} {adder : Option Nat} (h : WaitInv K₀)
    (hnum : 0 < K₀.num_processes) (hok : WaitOk K₀ ev) (hev : creates ev = true)
    (hb : Births K₀ ev slot parent) (hborn : Born K₀ slot parent adder K') : WaitInv K' := by
  have hkids : KidsInv Live K' := KidsInv.kin (fun _ _ hd hl => live_of_dead hd hl) h.pids h.kids hok.reuse
    (Kin.born rfl hev hb hborn)
  refine h.born hborn (h.pids.slot_ne_zero hnum hb) hnum (hok.wrap hev) hkids ?_
  cases hb with
  | boot _ _ h0 =>
    have := h.pids.lt 0 hnum
    omega
  | spawn hc _ _ hpar =>
    rw [hpar]
    exact h.pids.lt _ hc.lt
  | fork hc _ _ hpar =>
    rw [hpar]
    exact h.pids.lt _ hc.lt

/-- 一つの書き込み。 -/
theorem WaitInv.step (hs : Synced K₀) (h₀ : WaitInv K₀) (hz : SchedInv K) (hok : WaitOk K₀ ev)
    (hnum : 0 < K.num_processes) (h : WaitInv K) (ht : TreeStep K₀ ev K K') : WaitInv K' := by
  have hquiet : ∀ {L : Kernel}, SameIds K L K.next_pid →
      (∀ j, (L.table j).children = (K.table j).children) → L.reports = K.reports → WaitInv L :=
    fun hs hc hr => h.quiet hs (Nat.le_refl _) hnum (fun j _ => hc j) hr
  cases ht with
  | quiet hrest htree hst =>
    exact hquiet (hrest.same_ids (fun j => (htree j).pid) (fun j => (htree j).parent)
      (fun j => (htree j).children) fun j hj => (hst j).trans hj) (fun j => (htree j).children) hrest.reports
  | @await i env r hc hrest hrun hother hpid hparent hchildren hst =>
    have hall : ∀ j, (K'.table j).pid = (K.table j).pid ∧ (K'.table j).parent_id = (K.table j).parent_id ∧
        (K'.table j).children = (K.table j).children := by
      intro j
      by_cases hj : j = i
      · subst hj
        exact ⟨hpid, hparent, hchildren⟩
      · exact ⟨(hother j hj).pid, (hother j hj).parent, (hother j hj).children⟩
    exact hquiet (hrest.same_ids (fun j => (hall j).1) (fun j => (hall j).2.1) (fun j => (hall j).2.2)
      fun j hj => (hst j).trans hj) (fun j => (hall j).2.2) hrest.reports
  | @move i hm hrest hother hpid hparent hchildren =>
    have hall : ∀ j, (K'.table j).pid = (K.table j).pid ∧ (K'.table j).parent_id = (K.table j).parent_id ∧
        (K'.table j).children = (K.table j).children ∧
        ((K.table j).state = .terminated → (K'.table j).state = .terminated) := by
      intro j
      by_cases hj : j = i
      · subst hj
        exact ⟨hpid, hparent, hchildren, fun hd => absurd hd hm.alive⟩
      · obtain ⟨hsame, hst⟩ := hother j hj
        exact ⟨hsame.pid, hsame.parent, hsame.children, fun hd => hst.trans hd⟩
    exact hquiet (hrest.same_ids (fun j => (hall j).1) (fun j => (hall j).2.1) (fun j => (hall j).2.2.1)
      fun j => (hall j).2.2.2) (fun j => (hall j).2.2.1) hrest.reports
  | @dies i _ hrest _ _ htree hother hi =>
    refine hquiet (hrest.same_ids (fun j => (htree j).pid) (fun j => (htree j).parent)
      (fun j => (htree j).children) fun j hdead => ?_) (fun j => (htree j).children) hrest.reports
    by_cases hj : j = i
    · exact hj ▸ hi
    · exact (hother j hj).trans hdead
  | exit _ hK hK' =>
    subst hK hK'
    refine hquiet (exit_tree_ids ..) (fun j => ?_) (exit_tree_reports ..)
    rw [exit_tree_table]
  | @unblock i b he hK' =>
    subst hK'
    obtain ⟨hrest, hilt, hirun, htree⟩ := he.frame hs
    have hi : i < K.num_processes := hrest.num.symm ▸ hilt
    rcases unblock_parent_tree h.pids hi b with ⟨hc, hr⟩ | ⟨j, hj, hjpid, hblocked, hwait, hc, hr⟩
    · exact hquiet (unblock_parent_ids ..) hc hr
    cases b with
    | false =>
      refine hquiet (unblock_parent_ids ..) (fun k => ?_) ?_
      · rw [hc k, if_neg (by simp)]
      · rw [hr, if_neg (by simp)]
    | true =>
      -- 親は眠っていないので、報告する
      have heax : (K.table j).tf.eax = SYS_WAIT ∨ (K.table j).tf.eax = SYS_WAITPID := by
        by_contra hne
        rw [not_or] at hne
        exact he.not_sleeping hok ⟨j, hj, hjpid, hblocked, hwait, hne.1, hne.2⟩
      rw [if_pos ⟨rfl, heax⟩] at hr
      have hlive : Live (K.table j).state := by
        rw [hblocked]
        simp [Live]
      have hj0 : j ≠ 0 := by
        rintro rfl
        rcases hz.awake with h | h | h
        · cases h.symm.trans hblocked
        · cases h.symm.trans hblocked
        · cases h.1.symm.trans hblocked
      have hfresh : ((K.table j).pid, (K.table i).pid) ∉ K.reports := by
        intro hx
        rw [hrest.reports] at hx
        have := h₀.dead _ hx i hilt (htree i).pid.symm
        cases hirun.symm.trans this
      have hmem := h.listed j i hj hi hj0 hlive hjpid.symm hfresh
      refine h.report (unblock_parent_ids ..) hnum hj hlive hmem (fun k _ => ?_) hr fun k hk hpid => ?_
      · rw [hc k]
        simp
      · obtain rfl := h.pids.inj k i hk hi hpid
        exact (unblock_parent_ids K _ true).dead k hk he.terminated
  | @reap i env r hc hK h0 hK' =>
    subst hK hK'
    have hlive : Live (K.table i).state := by
      rw [hc.running]
      simp [Live]
    obtain ⟨hmem, hdead⟩ := find_terminated_child_spec h.pids hc.lt h0
    refine h.report (reaped_ids ..) hnum hc.lt hlive hmem (fun k _ => reaped_tree ..) (reaped_reports ..)
      fun k hk hpid => (reaped_ids ..).dead k hk (hdead k hk hpid)
  | create hK hc hcr =>
    subst hK
    obtain ⟨hev, hb⟩ := hc.creates
    rcases create_process_kin hcr with rfl | rfl | ⟨adder, hborn⟩
    · exact h
    · have hwrap := hok.wrap hev
      refine h.quiet (unload_ids ..) ?_ hnum (fun j hj => ?_) rfl
      · rw [add32_succ hwrap]
        omega
      · exact congrArg Pcb.children (reserve_ne (Nat.ne_of_lt hj))
    · exact h.kin_born hnum hok hev hb hborn
  | fork hK hc heax hslot hf =>
    subst hK
    obtain ⟨hev, hborn⟩ := fork_birth hc heax hslot hf
    exact h.kin_born hnum hok hev (.fork hc heax hslot rfl) hborn

end MyOS.Proc
