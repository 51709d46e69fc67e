import MyOS.Proc.Shell
import MyOS.Proc.Lemmas.Nap
import MyOS.Proc.Lemmas.Wait

/-! シェルの子について、書き込みの一つずつにできること。 -/

namespace MyOS.Proc
open MyOS.Lib

variable {K₀ K K' : Kernel} {ev : Event} {i j k f w : Nat} {r : Regs}

/-! 止まった項目と待っている項目。 -/

/-- 止まった項目 `j` へ `SIGCONT` を送る。 -/
def ContTo (K₀ : Kernel) (ev : Event) (j : Nat) : Prop :=
  ∃ i env r, Calls K₀ ev i env r ∧ r.eax = 13 ∧ r.ecx = SIGCONT ∧ get_process_by_pid K₀ r.ebx = some j

/-- 止まった項目は、`SIGCONT` を受けるか終わるまで止まっている。 -/
theorem Act.stopped (h : Act K₀ ev K K') (hj : j < K.num_processes) (hst : (K.table j).state = .stopped) :
    (K'.table j).state = .stopped ∨ (K'.table j).state = .terminated ∨ ContTo K₀ ev j := by
  have hne : ∀ {i : Nat}, (K.table i).state = .running → j ≠ i := by
    rintro i hi rfl
    cases hi.symm.trans hst
  have hother : ∀ {L : Kernel} {i : Nat} {q : Pcb}, L.table j = (if j = i then q else K.table j) → j ≠ i →
      (L.table j).state = .stopped := by
    intro L i q ht hji
    rw [ht, if_neg hji]
    exact hst
  have hkept : ∀ {L : Kernel} {i : Nat} {q : Pcb}, L.table j = (if j = i then q else K.table j) →
      q.state = (K.table i).state → (L.table j).state = .stopped := by
    intro L i q ht hq
    by_cases hji : j = i
    · rw [ht, if_pos hji, hq, ← hji]
      exact hst
    · exact hother ht hji
  have hdied : ∀ {L : Kernel}, (L.table j).state = .terminated ∨ (L.table j).state = (K.table j).state →
      (L.table j).state = .stopped ∨ (L.table j).state = .terminated ∨ ContTo K₀ ev j :=
    fun h => h.elim (fun h => .inr (.inl h)) fun h => .inl (h.trans hst)
  cases h with
  | file hc hf =>
    rw [hf.frame.pcb j]
    exact .inl hst
  | create _ hcr =>
    rw [(CreateFrame.create hcr).old j hj]
    exact .inl hst
  | @fork i env r slot _ hc heax hslot hf =>
    rw [fork_into_table (hc.toOnCpu.ne_slot hslot) hf j, fork_entry]
    have hjs : j ≠ slot := by
      rintro rfl
      rcases fork_slot_spec hslot with ⟨-, h, -⟩ | ⟨h, -⟩
      · cases h.symm.trans hst
      · omega
    rw [if_neg hjs, if_neg (hne hc.running)]
    exact .inl hst
  | reap => exact .inl ((reap_child_state ..).trans hst)
  | await w hc => exact .inl (hother rfl (hne hc.running))
  | block w hc => exact .inl (hother rfl (hne hc.running))
  | enqueue _ _ _ he =>
    rw [(sleep_enqueue_frame he).pcb j]
    exact .inl hst
  | tick => exact .inl hst
  | @wake _ h =>
    by_cases hjh : j = h
    · subst hjh
      refine .inl (hkept rfl ?_)
      simp [hst]
    · exact .inl (hother rfl hjh)
  | group => exact .inl hst
  | setpgid => exact .inl (hkept rfl rfl)
  | send => exact .inl (hkept rfl rfl)
  | @cont i env r j' hc heax _ hsig hget =>
    by_cases hjj : j = j'
    · exact .inr (.inr ⟨i, env, r, hc, heax, hsig, hjj ▸ hget⟩)
    · exact .inl (hother rfl hjj)
  | keys =>
    left
    rw [send_signal_to_foreground]
    split
    · dsimp only
      split <;> exact hst
    · exact hst
  | action hc => exact .inl (hother rfl (hne hc.running))
  | mask hc => exact .inl (hother rfl (hne hc.running))
  | sigreturn hc => exact .inl (hother rfl (hne hc.running))
  | @exit i =>
    refine hdied ?_
    rw [exit_tree_table]
    dsimp only
    split
    · exact .inl rfl
    · exact .inr rfl
  | reset => exact .inl ((exec_reset_tree ..).2.trans hst)
  | load hc => exact .inl (hother rfl (hne hc.toOnCpu.exec_reset.running))
  | fail hc =>
    rw [exec_fail_ne (hne hc.toOnCpu.exec_reset.running)]
    exact .inl hst
  | mmap hc => exact .inl (hother rfl (hne hc.running))
  | munmap hc => exact .inl (hother rfl (hne hc.running))
  | signal _ _ hsig => exact .inl (hother rfl (hne hsig.2.1))
  | unblock =>
    left
    rw [unblock_parent_state (by rw [hst]; simp)]
    exact hst
  | leave => exact .inl hst

/-- 走らず、選べない状態。 -/
def Resting (s : ProcState) : Prop := s = .blocked ∨ s = .stopped ∨ s = .terminated

/-- 文脈を決める書き込みは、選べない項目と眠りの列を変えない。 -/
structure FinRest (K K' : Kernel) : Prop where
  queue : K'.sleep_queue = K.sleep_queue
  next : ∀ j, (K'.table j).sleep_next = (K.table j).sleep_next
  waiting : ∀ j, (K'.table j).waiting_on_pid = (K.table j).waiting_on_pid
  state : ∀ j, Resting (K.table j).state → (K'.table j).state = (K.table j).state

theorem FinRest.pipe (h : PipeFrame K K') : FinRest K K' := by
  refine ⟨by rw [h.rest], fun j => ?_, fun j => ?_, fun j _ => ?_⟩
  all_goals rw [h.pcb j]

theorem requeued_resting (h : Resting (K.table j).state) : ((requeued K).table j).state = (K.table j).state := by
  rw [requeued_table]
  split
  · rw [requeue]
    dsimp only
    rw [if_neg]
    intro hr
    rcases h with h | h | h <;> cases hr.symm.trans h
  · rfl

theorem Fin.rest (hz : SchedInv K) (hlt : ∀ i, K.cur_proccess_id = some i → i < K.num_processes)
    (hf : Fin K₀ ev K K') : FinRest K K' := by
  cases hf with
  | stays => exact ⟨rfl, fun _ => rfl, fun _ => rfl, fun _ _ => rfl⟩
  | returns => exact ⟨rfl, fun _ => rfl, fun _ => rfl, fun _ _ => rfl⟩
  | pipe_start => exact .pipe (.pipe_start ..)
  | pipe_iter => exact .pipe (.pipe_iter ..)
  | switch _ hnum _ _ hp =>
    obtain ⟨next, hpick⟩ := pick_spec hnum hp
    obtain ⟨-, hsel⟩ := hz.picked hlt hpick
    refine ⟨by rw [hpick.rest], fun j => ?_, fun j => ?_, fun j hr => ?_⟩
    · rw [hpick.table j]
    · rw [hpick.table j]
    · have hjn : j ≠ next := by
        rintro rfl
        rw [requeued_resting hr] at hsel
        rcases hsel with hs | hs <;> rcases hr with hr | hr | hr <;> cases hs.symm.trans hr
      rw [hpick.table j]
      dsimp only
      rw [if_neg hjn, requeued_resting hr]

theorem cleanup_waiting (K : Kernel) (i j : Nat) :
    ((process_cleanup_child K i).table j).waiting_on_pid = (K.table j).waiting_on_pid := by
  rw [cleanup_table]
  by_cases hj : j = i
  · rw [if_pos hj, hj]
    rfl
  · rw [if_neg hj]

/-- 子 `i` が終わるか止まり、その親 `j` が起きる。 -/
structure Rouses (K₀ : Kernel) (ev : Event) (K : Kernel) (i : Nat) (b : Bool) (j : Nat) : Prop where
  ends : Ends K₀ ev i b K
  parent : (K.table i).parent_id = (K.table j).pid
  waiting : (K.table j).waiting_on_pid = 0 ∨ (K.table j).waiting_on_pid = (K.table i).pid

/-- 待っている項目は、子が起こすか終わるまで待っている。 -/
theorem TreeStep.blocked (hs : Synced K₀) (hp : PidInv K) (h : TreeStep K₀ ev K K')
    (hcur : K.cur_proccess_id = K₀.cur_proccess_id) (hoff : K.cur_proccess_id ≠ some j)
    (hj : j < K.num_processes) (hq : K.sleep_queue ≠ some j) (hb : (K.table j).state = .blocked) :
    (K'.table j).state = .terminated ∨
      (K'.table j).state = .blocked ∧ (K'.table j).waiting_on_pid = (K.table j).waiting_on_pid ∨
      ∃ i b, Rouses K₀ ev K i b j ∧ K' = unblock_parent K (K.table i).pid b := by
  have hne : ∀ {i : Nat} {env : Env} {r : Regs}, Calls K₀ ev i env r → j ≠ i := by
    rintro i env r hc rfl
    exact hoff (hcur.trans hc.cur)
  have hsame : ∀ {L : Kernel}, SameTree (K.table j) (L.table j) → (L.table j).state = (K.table j).state →
      (L.table j).state = .blocked ∧ (L.table j).waiting_on_pid = (K.table j).waiting_on_pid :=
    fun ht hst => ⟨hst.trans hb, ht.waiting⟩
  cases h with
  | quiet _ htree hst => exact .inr (.inl (hsame (htree j) (hst j)))
  | await hc _ _ htree _ _ _ hst => exact .inr (.inl (hsame (htree j (hne hc)) (hst j)))
  | @move i hm _ htree =>
    by_cases hji : j = i
    · subst hji
      cases hm with
      | block hc => exact absurd rfl (hne hc)
      | wake _ hqj => exact absurd hqj hq
      | cont _ hs => cases hs.symm.trans hb
      | load hc => exact absurd rfl (hne hc)
      | signal _ hc => exact absurd hc hoff
    · exact .inr (.inl (hsame (htree j hji).1 (htree j hji).2))
  | @dies i _ _ _ _ htree hst hdead =>
    by_cases hji : j = i
    · subst hji
      exact .inl hdead
    · exact .inr (.inl (hsame (htree j) (hst j hji)))
  | exit _ hK hK' =>
    subst hK hK'
    rw [exit_tree_table]
    dsimp only
    split
    · exact .inl rfl
    · exact .inr (.inl ⟨hb, rfl⟩)
  | @unblock i b he hK' =>
    have hilt : i < K.num_processes := (he.frame hs).1.num ▸ (he.frame hs).2.1
    rcases unblock_parent_cases K (K.table i).pid b with heq | ⟨c, k, hc, hk, -, hwait, h⟩
    · rw [hK', heq]
      exact .inr (.inl ⟨hb, rfl⟩)
    obtain ⟨hclt, hcpid⟩ := get_process_by_pid_spec hc
    obtain rfl := hp.inj c i hclt hilt hcpid
    by_cases hjk : j = k
    · subst hjk
      exact .inr (.inr ⟨c, b, ⟨he, (get_process_by_pid_spec hk).2.symm, hwait⟩, hK'⟩)
    · refine .inr (.inl ?_)
      rcases h with ⟨heq, -⟩ | ⟨-, -, heq⟩
      · rw [hK', heq, wake_parent_ne hjk]
        exact ⟨hb, rfl⟩
      · rw [hK', heq, cleanup_state, cleanup_waiting, wake_parent_ne hjk]
        exact ⟨hb, rfl⟩
  | @reap i _ _ hc hK _ hK' =>
    subst hK hK'
    refine .inr (.inl ⟨(reap_child_state ..).trans hb, ?_⟩)
    show ((reap_child K i _).table j).waiting_on_pid = _
    have hrem : ((remove_child_from_parent K i (find_terminated_child K (K.table i).pid)).table j) = K.table j :=
      Kernel.modify_ne _ _ (hne hc)
    rw [reap_child]
    split
    · rw [hrem]
    · rw [cleanup_waiting, hrem]
  | create hK _ hcr =>
    subst hK
    rw [(CreateFrame.create hcr).old j hj]
    exact .inr (.inl ⟨hb, rfl⟩)
  | @fork i _ _ slot hK hc _ hslot hf =>
    subst hK
    have hjs : j ≠ slot := by
      rintro rfl
      rcases fork_slot_spec hslot with ⟨-, h, -⟩ | ⟨h, -⟩
      · cases h.symm.trans hb
      · omega
    rw [fork_into_table (hc.toOnCpu.ne_slot hslot) hf j, fork_entry, if_neg hjs, if_neg (hne hc)]
    exact .inr (.inl ⟨hb, rfl⟩)

/-! 番号の変わらない項目。 -/

/-- 前からある番号の項目は、前からそこにある。 -/
structure OldEntry (K K' : Kernel) (k : Nat) : Prop where
  lt : k < K.num_processes
  pid : (K'.table k).pid = (K.table k).pid
  parent : (K'.table k).parent_id = (K.table k).parent_id
  dead : (K.table k).state = .terminated → (K'.table k).state = .terminated

theorem SameIds.old_entry {next : Nat} (h : SameIds K K' next) (hk : k < K'.num_processes) : OldEntry K K' k :=
  have hk := h.num ▸ hk
  ⟨hk, h.pid k hk, h.parent k hk, h.dead k hk⟩

theorem Born.old_entry {slot parent : Nat} {adder : Option Nat} (h : Born K slot parent adder K')
    (hk : k < K'.num_processes) (hlt : (K'.table k).pid < K.next_pid) : OldEntry K K' k := by
  rcases h.cases_lt hk with rfl | ⟨hk, hks⟩
  · rw [h.pid] at hlt
    omega
  · obtain ⟨hpid, hparent, hst, -⟩ := h.old k hk hks
    exact ⟨hk, hpid, hparent, fun hd => hst.trans hd⟩

theorem Kin.old_entry (h : Kin K₀ ev K K') (hk : k < K'.num_processes) (hlt : (K'.table k).pid < K.next_pid) :
    OldEntry K K' k := by
  cases h with
  | same hs => exact hs.old_entry hk
  | skips _ _ hs => exact hs.old_entry hk
  | born _ _ _ hb => exact hb.old_entry hk hlt

theorem mem_remove_id_of_ne {l : List Nat} {x y : Nat} (h : y ∈ l) (hne : y ≠ x) : y ∈ remove_id x l :=
  (remove_id_perm x l).mem_iff.mpr ((List.mem_erase_of_ne hne).mpr h)

/-- 子の列から除かれるのは、終わった子だけである。 -/
theorem TreeStep.children {c : Nat} (hs : Synced K₀) (hp : PidInv K) (ht : TreeStep K₀ ev K K')
    (hj : j < K.num_processes) (hc : c ∈ (K.table j).children)
    (hpid : (K'.table j).pid < K.next_pid) (hk : k < K.num_processes) (hkc : (K.table k).pid = c)
    (hlive : (K'.table k).state ≠ .terminated) : c ∈ (K'.table j).children := by
  have hborn : ∀ {slot parent : Nat} {adder : Option Nat}, Born K slot parent adder K' →
      c ∈ (K'.table j).children := by
    intro slot parent adder hb
    have hjs : j ≠ slot := by
      rintro rfl
      rw [hb.pid] at hpid
      omega
    rw [(hb.old j hj hjs).2.2.2]
    split
    · exact List.mem_append_left _ hc
    · exact hc
  have hremoved : ∀ {x : Nat}, (∀ m, m < K.num_processes → (K.table m).pid = x →
      (K'.table m).state = .terminated) → c ∈ remove_id x (K.table j).children := by
    intro x hx
    refine mem_remove_id_of_ne hc ?_
    rintro rfl
    exact hlive (hx k hk hkc)
  cases ht with
  | quiet _ htree =>
    rw [(htree j).children]
    exact hc
  | @await i _ _ _ _ _ htree _ _ hch =>
    by_cases hji : j = i
    · subst hji
      rw [hch]
      exact hc
    · rw [(htree j hji).children]
      exact hc
  | @move i _ _ htree _ _ hch =>
    by_cases hji : j = i
    · subst hji
      rw [hch]
      exact hc
    · rw [(htree j hji).1.children]
      exact hc
  | dies _ _ _ _ htree =>
    rw [(htree j).children]
    exact hc
  | exit _ hK hK' =>
    subst hK hK'
    rw [exit_tree_table]
    exact hc
  | @unblock i b he hK' =>
    subst hK'
    have hilt : i < K.num_processes := (he.frame hs).1.num ▸ (he.frame hs).2.1
    rcases unblock_parent_tree hp hilt b with ⟨hch, -⟩ | ⟨m, -, -, -, -, hch, -⟩
    · rw [hch]
      exact hc
    · rw [hch]
      split
      next hb =>
        obtain ⟨-, rfl⟩ := hb
        refine hremoved fun n hn hni => ?_
        obtain rfl := hp.inj n i hn hilt hni
        exact (unblock_parent_ids K _ true).dead n hn he.terminated
      · exact hc
  | @reap i _ _ hcall hK h0 hK' =>
    subst hK hK'
    rw [reaped_tree]
    split
    · obtain ⟨-, hdead⟩ := find_terminated_child_spec hp hcall.lt h0
      exact hremoved fun m hm hmd => (reaped_ids ..).dead m hm (hdead m hm hmd)
    · exact hc
  | create hK _ hcr =>
    subst hK
    rcases create_process_kin hcr with rfl | rfl | ⟨adder, hb⟩
    · exact hc
    · rw [show ((unload (reserve K _) _).table j).children = (K.table j).children from
        congrArg Pcb.children (reserve_ne (Nat.ne_of_lt hj))]
      exact hc
    · exact hborn hb
  | fork hK hcall heax hslot hf =>
    subst hK
    exact hborn (fork_birth hcall heax hslot hf).2

/-! `ShellInv` を保つこと。 -/

/-- 眠りの列に加わるのは `i` だけである。 -/
theorem sleep_enqueue_points {t : Nat} (h : sleep_enqueue K i t = some K') (hj : j ≠ i)
    (hq : K.sleep_queue ≠ some j) (hn : ∀ k, (K.table k).sleep_next ≠ some j) :
    K'.sleep_queue ≠ some j ∧ ∀ k, (K'.table k).sleep_next ≠ some j := by
  have hi : some i ≠ some j := fun h => hj (Option.some.inj h).symm
  have hput : ∀ {L : Kernel} {m : Nat} {g : Pcb → Pcb}, (∀ k, (L.table k).sleep_next ≠ some j) →
      (∀ p, (g p).sleep_next ≠ some j) → ∀ k, ((L.modify m g).table k).sleep_next ≠ some j := by
    intro L m g hL hg k
    rw [Kernel.modify_table]
    split
    · exact hg _
    · exact hL k
  have h1 : ∀ k, ((K.modify i fun p => { p with wake_tick := t, sleep_next := none }).table k).sleep_next ≠ some j :=
    hput hn fun p => by simp
  rw [sleep_enqueue, sleep_enqueue_within] at h
  dsimp only at h
  split at h
  · cases h
    exact ⟨hi, h1⟩
  next hd hhd =>
    have hhd : some hd ≠ some j := hhd ▸ hq
    split at h
    · cases h
      exact ⟨hi, hput (m := i) (g := fun p => { p with sleep_next := some hd }) h1 fun _ => hhd⟩
    · obtain ⟨cur, -, rfl⟩ := Option.map_eq_some_iff.mp h
      exact ⟨hq, hput (hput h1 fun p => h1 cur) fun p => hi⟩

theorem ShellInv.act (hs : Synced K₀) (hp : PidInv K) (hok : NoWrap K₀ ev)
    (hsleep : ∀ i env r, Calls K₀ ev i env r → r.eax = SYS_SLEEP → (K₀.table i).pid ≠ SHELL_PID)
    (h : ShellInv K) (ha : Act K₀ ev K K') : ShellInv K' := by
  have ht := ha.tree_step
  have hold : ∀ {k}, k < K'.num_processes → (K'.table k).pid = SHELL_PID → OldEntry K K' k :=
    fun hk hpid => ht.kin.old_entry hk (hpid.symm ▸ h.known)
  refine ⟨Nat.lt_of_lt_of_le h.known (ht.kin.next_le hok), fun j k hj hk hpid hpar hlive => ?_,
    fun j hj hpid => ?_⟩
  · have hoj := hold hj hpid
    have hjlt : (K'.table j).pid < K.next_pid := hpid.symm ▸ h.known
    have hpid₀ : (K.table j).pid = SHELL_PID := hoj.pid.symm.trans hpid
    have hlisted : OldEntry K K' k → (K'.table k).pid ∈ (K'.table j).children := by
      intro hok
      have hmem := h.listed j k hoj.lt hok.lt hpid₀ (hok.parent.symm.trans hpar) fun hd => hlive (hok.dead hd)
      rw [hok.pid]
      exact ht.children hs hp hoj.lt hmem hjlt hok.lt rfl hlive
    cases ht.kin with
    | same hsame => exact hlisted (hsame.old_entry hk)
    | skips _ _ hsame => exact hlisted (hsame.old_entry hk)
    | @born slot parent adder _ _ _ hb =>
      by_cases hks : k = slot
      · -- 新しい子は、シェルの列に加わる
        subst hks
        rw [hb.parent_id] at hpar
        have hjs : j ≠ k := by
          rintro rfl
          rw [hb.pid] at hjlt
          omega
        have hadd : adder = some j := by
          cases hadd : adder with
          | none =>
            rcases hb.alone hadd with h0 | hnone
            · cases h0.symm.trans hpar
            · exact absurd (hpid₀.trans hpar.symm) (hnone j hoj.lt)
          | some m =>
            obtain ⟨hm, -, hmp⟩ := hb.adder_spec m hadd
            rw [hp.inj m j hm hoj.lt ((hmp.trans hpar).trans hpid₀.symm)]
        rw [(hb.old j hoj.lt hjs).2.2.2, if_pos hadd, hb.pid]
        simp
      · refine hlisted (hb.old_entry hk ?_)
        rcases hb.cases_lt hk with rfl | ⟨hk, -⟩
        · exact absurd rfl hks
        · rw [(hb.old k hk hks).1]
          exact hp.lt k hk
  · have hoj := hold hj hpid
    have hpid₀ : (K.table j).pid = SHELL_PID := hoj.pid.symm.trans hpid
    obtain ⟨hq, hn⟩ := h.unqueued j hoj.lt hpid₀
    cases ha.sleep_step with
    | same hq' hn' =>
      refine ⟨hq' ▸ hq, fun k => ?_⟩
      rw [(hn' k).1]
      exact hn k
    | @enqueue i env r hc heax _ hK hd =>
      subst hK
      have hji : j ≠ i := by
        rintro rfl
        rw [Kernel.modify_self] at hpid₀
        exact hsleep j env r hc heax hpid₀
      exact sleep_enqueue_points hd hji hq hn
    | @wake hd r _ _ _ hK' =>
      subst hK'
      refine ⟨hn hd, fun k => ?_⟩
      by_cases hk : k = hd
      · subst hk
        simp [sleep_pop]
      · rw [show (sleep_pop K hd).table k = K.table k from if_neg hk]
        exact hn k

theorem ShellInv.fin (h : ShellInv K) (hi : FinIds K K') (hr : FinRest K K')
    (hdead : ∀ j, (K'.table j).state = .terminated ↔ (K.table j).state = .terminated) : ShellInv K' where
  known := hi.next ▸ h.known
  listed j k hj hk hpid hpar hlive := by
    rw [hi.pid, hi.children]
    exact h.listed j k (hi.num ▸ hj) (hi.num ▸ hk) (hi.pid j ▸ hpid) (hi.parent k ▸ hpar)
      fun hd => hlive ((hdead k).mpr hd)
  unqueued j hj hpid := by
    obtain ⟨hq, hn⟩ := h.unqueued j (hi.num ▸ hj) (hi.pid j ▸ hpid)
    refine ⟨hr.queue ▸ hq, fun k => ?_⟩
    rw [hr.next]
    exact hn k

/-! 前景の仕事。 -/

theorem Kid.act (hok : NoWrap K₀ ev) (h : Kid K f) (ha : Act K₀ ev K K') : Kid K' f := by
  have hk := ha.tree_step.kin
  refine ⟨h.pos, Nat.lt_of_lt_of_le h.known (hk.next_le hok), fun k hlt hpid => ?_⟩
  have hold := hk.old_entry hlt (hpid.symm ▸ h.known)
  rw [hold.parent]
  exact h.parent k hold.lt (hold.pid.symm.trans hpid)

theorem Kid.fin (h : Kid K f) (hi : FinIds K K') : Kid K' f where
  pos := h.pos
  known := hi.next ▸ h.known
  parent k hk hpid := by
    rw [hi.parent]
    exact h.parent k (hi.num ▸ hk) (hi.pid k ▸ hpid)

theorem Halted.act (hf : f < K.next_pid) (hcont : ∀ j, j < K.num_processes → (K.table j).pid = f →
    ¬ ContTo K₀ ev j) (h : Halted K f) (ha : Act K₀ ev K K') : Halted K' f := by
  intro k hk hpid
  have hold := ha.tree_step.kin.old_entry hk (hpid.symm ▸ hf)
  have hpid₀ := hold.pid.symm.trans hpid
  rcases h k hold.lt hpid₀ with hst | hst
  · rcases ha.stopped hold.lt hst with h | h | h
    · exact .inl h
    · exact .inr h
    · exact absurd h (hcont k hold.lt hpid₀)
  · exact .inr (hold.dead hst)

theorem Halted.fin (h : Halted K f) (hi : FinIds K K') (hr : FinRest K K') : Halted K' f := by
  intro k hk hpid
  have hst := h k (hi.num ▸ hk) (hi.pid k ▸ hpid)
  rw [hr.state k (.inr hst)]
  exact hst

theorem Awaits.fin (h : Awaits K w) (hi : FinIds K K') (hr : FinRest K K') : Awaits K' w := by
  intro j hj hpid
  rcases h j (hi.num ▸ hj) (hi.pid j ▸ hpid) with hst | ⟨hst, hw⟩
  · exact .inl ((hr.state j (.inr (.inr hst))).trans hst)
  · exact .inr ⟨(hr.state j (.inl hst)).trans hst, (hr.waiting j).trans hw⟩

theorem Ends.halted {b : Bool} (h : Ends K₀ ev i b K) :
    (K.table i).state = .stopped ∨ (K.table i).state = .terminated := by
  cases b with
  | true => exact .inr h.terminated
  | false =>
    cases h with
    | @stop L r p' _ _ _ hp =>
      left
      rw [show (written L i r p' .stops).table i = p' from if_pos rfl]
      cases hp
      rfl

/-- 待っているシェルを起こすのは `f` だけなので、起きたときには `f` は走らない。 -/
theorem Awaits.act (hs : Synced K₀) (hp : PidInv K) (hsh : ShellInv K)
    (hcur : K.cur_proccess_id = K₀.cur_proccess_id)
    (hoff : ∀ j, j < K.num_processes → (K.table j).pid = SHELL_PID → K.cur_proccess_id ≠ some j)
    (hw : w = 0 ∨ w = f) (halone : w = 0 → ∀ i b L, Ends K₀ ev i b L →
      (K₀.table i).parent_id = SHELL_PID → (K₀.table i).pid = f)
    (h : Awaits K w) (ha : Act K₀ ev K K') : Halted K' f ∨ Awaits K' w := by
  have ht := ha.tree_step
  by_cases hr : ∃ i b j, Rouses K₀ ev K i b j ∧ K' = unblock_parent K (K.table i).pid b ∧
      j < K.num_processes ∧ (K.table j).pid = SHELL_PID ∧ (K.table j).waiting_on_pid = w
  · obtain ⟨i, b, j, hr, rfl, hj, hpid, hwj⟩ := hr
    obtain ⟨hrest, hilt, -, htree⟩ := hr.ends.frame hs
    have hif : (K.table i).pid = f := by
      by_cases hw0 : w = 0
      · rw [(htree i).pid]
        exact halone hw0 i b K hr.ends ((htree i).parent.symm.trans (hr.parent.trans hpid))
      · rcases hr.waiting with h0 | hi
        · exact absurd (hwj.symm.trans h0) hw0
        · exact hi.symm.trans (hwj.trans (hw.resolve_left hw0))
    left
    intro k hk hkpid
    have hids := unblock_parent_ids K (K.table i).pid b
    have hold := hids.old_entry hk
    obtain rfl := hp.inj k i hold.lt (hrest.num ▸ hilt) ((hold.pid.symm.trans hkpid).trans hif.symm)
    rw [unblock_parent_state]
    · exact hr.ends.halted
    · rcases hr.ends.halted with h | h <;> simp [h]
  · right
    intro j hj hpid
    have hold := ht.kin.old_entry hj (hpid.symm ▸ hsh.known)
    have hpid₀ := hold.pid.symm.trans hpid
    rcases h j hold.lt hpid₀ with hst | ⟨hst, hwj⟩
    · exact .inl (hold.dead hst)
    · rcases ht.blocked hs hp hcur (hoff j hold.lt hpid₀) hold.lt (hsh.unqueued j hold.lt hpid₀).1 hst with
        hd | ⟨hb, hwait⟩ | ⟨i, b, hrouse, hK'⟩
      · exact .inl hd
      · exact .inr ⟨hb, hwait.trans hwj⟩
      · exact absurd ⟨i, b, j, hrouse, hK', hold.lt, hpid₀, hwj⟩ hr

theorem Births.slot_dead {slot parent : Nat} (h : Births K ev slot parent) (hlt : slot < K.num_processes) :
    (K.table slot).state = .terminated := by
  cases h with
  | boot _ hs => omega
  | spawn _ _ hs => omega
  | fork _ _ hslot =>
    rcases fork_slot_spec hslot with ⟨-, h, -⟩ | ⟨h, -⟩
    · exact h
    · omega

/-- 終わっていない項目の番号は変わらない。 -/
theorem Kin.pid_kept (h : Kin K₀ ev K K') (hj : j < K.num_processes) (hlive : (K.table j).state ≠ .terminated) :
    (K'.table j).pid = (K.table j).pid := by
  cases h with
  | same hs => exact hs.pid j hj
  | skips _ _ hs => exact hs.pid j hj
  | born _ _ hb hborn =>
    refine (hborn.old j hj ?_).1
    rintro rfl
    exact hlive (hb.slot_dead hj)

theorem Falls.running (h : Falls K₀ ev i K K') : (K.table i).state = .running := by
  cases h with
  | fail hc _ _ hK =>
    subst hK
    exact hc.toOnCpu.exec_reset.running
  | signal _ _ hsig => exact hsig.2.1

/-- シェルが `exit` でも例外でも終わらなければ、止まった子は終わらない。 -/
theorem Act.stopped_kid (hexit : ∀ i fds, Quits K₀ ev i fds → (K₀.table i).pid ≠ SHELL_PID)
    (hkid : Kid K f) (hcont : ¬ ContTo K₀ ev j) (ha : Act K₀ ev K K') (hj : j < K.num_processes)
    (hpid : (K.table j).pid = f) (hst : (K.table j).state = .stopped) : (K'.table j).state = .stopped := by
  rcases ha.stopped hj hst with h | h | h
  · exact h
  · exfalso
    rcases ha.tree_step.deaths (by rw [hst]; simp) h with hf | ⟨i, fds, hq, hK, -, rfl | hpar⟩
    · cases hf.running.symm.trans hst
    · subst hK
      cases hq.onCpu.running.symm.trans hst
    · subst hK
      exact hexit i fds hq (hpar.symm.trans (hkid.parent j hj hpid))
  · exact absurd h hcont

theorem Agrees.act {s : JobStatus} (hexit : ∀ i fds, Quits K₀ ev i fds → (K₀.table i).pid ≠ SHELL_PID)
    (hkid : Kid K f) (hcont : ∀ j, j < K.num_processes → (K.table j).pid = f → ¬ ContTo K₀ ev j)
    (h : Agrees K f s) (ha : Act K₀ ev K K') : Agrees K' f s := by
  have hk := ha.tree_step.kin
  cases s with
  | running => exact h.elim
  | stopped =>
    obtain ⟨j, hj, hpid, hst⟩ := h
    refine ⟨j, Nat.lt_of_lt_of_le hj ha.frame.num, ?_, ha.stopped_kid hexit hkid (hcont j hj hpid) hj hpid hst⟩
    exact (hk.pid_kept hj (by rw [hst]; simp)).trans hpid
  | done =>
    intro j hj hpid
    have hold := hk.old_entry hj (hpid.symm ▸ hkid.known)
    exact hold.dead (h j hold.lt (hold.pid.symm.trans hpid))

theorem Agrees.fin {s : JobStatus} (h : Agrees K f s) (hi : FinIds K K') (hr : FinRest K K') : Agrees K' f s := by
  cases s with
  | running => exact h.elim
  | stopped =>
    obtain ⟨j, hj, hpid, hst⟩ := h
    exact ⟨j, hi.num ▸ hj, (hi.pid j).trans hpid, (hr.state j (.inr (.inl hst))).trans hst⟩
  | done =>
    intro j hj hpid
    have hst := h j (hi.num ▸ hj) (hi.pid j ▸ hpid)
    exact (hr.state j (.inr (.inr hst))).trans hst

/-! 一歩。 -/

/-- 歩の途中で成り立つこと。 -/
structure ShellMid (K₀ K : Kernel) : Prop where
  cur : K.cur_proccess_id = K₀.cur_proccess_id
  le : K₀.num_processes ≤ K.num_processes
  sched : SchedInv K
  pids : PidInv K
  shell : ShellInv K

/-- シェルは `exit` も `sleep` も呼ばない。 -/
def ShellCalls (K₀ : Kernel) (ev : Event) : Prop :=
  ∀ i env r, Calls K₀ ev i env r → (K₀.table i).pid = SHELL_PID → r.eax ≠ 5 ∧ r.eax ≠ SYS_SLEEP

theorem ShellCalls.quits (hcalls : ShellCalls K₀ ev) (hstays : ShellStays K₀ ev) :
    ∀ i fds, Quits K₀ ev i fds → (K₀.table i).pid ≠ SHELL_PID := by
  intro i fds hq hpid
  cases hq with
  | exit hc heax => exact (hcalls i _ _ hc hpid).1 heax
  | fault hf => exact hstays i _ hf hpid

theorem ShellMid.act (hs : Synced K₀) (h₀ : ShellMid K₀ K₀) (hok : NoWrap K₀ ev) (hcalls : ShellCalls K₀ ev)
    (h : ShellMid K₀ K) (ha : Act K₀ ev K K') : ShellMid K₀ K' where
  cur := ha.frame.cur.trans h.cur
  le := Nat.le_trans h.le ha.frame.num
  sched := SchedInv.act hs h₀.sched (h₀.pids.exit_ne_zero hs.num) h.sched ha
  pids := h.pids.kin (Nat.lt_of_lt_of_le hs.num h.le) hok ha.tree_step.kin
  shell := h.shell.act hs h.pids hok (fun i env r hc heax hpid => (hcalls i env r hc hpid).2 heax) ha

theorem ShellMid.cur_lt (hs : Synced K₀) (h : ShellMid K₀ K) :
    ∀ i, K.cur_proccess_id = some i → i < K.num_processes :=
  fun i hi => Nat.lt_of_lt_of_le (hs.on_cpu i (h.cur.symm.trans hi)).lt h.le

/-- 書き込みの一つずつで保たれる `M` は、歩の後の `I` を導けばよい。 -/
theorem ShellMid.step {M I : Kernel → Prop} (hs : Synced K₀) (h₀ : ShellMid K₀ K₀) (hok : NoWrap K₀ ev)
    (hcalls : ShellCalls K₀ ev) (hM : M K₀)
    (act : ∀ K K', ShellMid K₀ K → M K → Act K₀ ev K K' → M K')
    (fin : ∀ K K', ShellMid K₀ K → M K → Fin K₀ ev K K' → FinIds K K' → FinRest K K' → I K')
    (h : Proc.step K₀ ev = some K') : I K' := by
  obtain ⟨K, hacts, hfin⟩ := step_reaches hs h
  have hmid : ShellMid K₀ K ∧ M K := by
    clear hfin
    induction hacts with
    | refl => exact ⟨h₀, hM⟩
    | tail _ ha ih => exact ⟨.act hs h₀ hok hcalls ih.1 ha, act _ _ ih.1 ih.2 ha⟩
  exact fin K K' hmid.1 hmid.2 hfin hfin.ids (hfin.rest hmid.1.sched (hmid.1.cur_lt hs))

section Step

variable (hs : Synced K₀) (h₀ : ShellMid K₀ K₀) (hok : NoWrap K₀ ev) (hcalls : ShellCalls K₀ ev)
  (h : Proc.step K₀ ev = some K')

include hs h₀ hok hcalls h

theorem ShellMid.next : ShellMid K' K' := by
  refine ShellMid.step (M := fun _ => True) (I := fun K => ShellMid K K) hs h₀ hok hcalls trivial
    (fun _ _ _ _ _ => trivial) (fun K L hm _ hfin hi hr => ?_) h
  have hlt := hm.cur_lt hs
  exact ⟨rfl, Nat.le_refl _, hm.sched.fin hlt hfin, hm.pids.fin hfin,
    hm.shell.fin hi hr (hfin.dead hm.sched hlt)⟩

/-- 番号 `f` の項目は、歩の前からその番号である。 -/
structure KidMid (K₀ : Kernel) (f : Nat) (K : Kernel) : Prop where
  kid : Kid K f
  named : ∀ j, j < K.num_processes → (K.table j).pid = f → (K₀.table j).pid = f

omit hs h₀ hcalls h in
theorem KidMid.act (hm : KidMid K₀ f K) (ha : Act K₀ ev K K') : KidMid K₀ f K' := by
  refine ⟨hm.kid.act hok ha, fun j hj hpid => ?_⟩
  have hold := ha.tree_step.kin.old_entry hj (hpid.symm ▸ hm.kid.known)
  exact hm.named j hold.lt (hold.pid.symm.trans hpid)

theorem Kid.step (hf : Kid K₀ f) : Kid K' f :=
  ShellMid.step (M := fun K => Kid K f) (I := fun K => Kid K f) hs h₀ hok hcalls hf
    (fun _ _ _ hf ha => hf.act hok ha) (fun _ _ _ hf _ hi _ => hf.fin hi) h

theorem Halted.step (hf : Kid K₀ f) (hcont : ∀ j, ContTo K₀ ev j → (K₀.table j).pid ≠ f) (hh : Halted K₀ f) :
    Halted K' f := by
  refine ShellMid.step (M := fun K => KidMid K₀ f K ∧ Halted K f) (I := fun K => Halted K f) hs h₀ hok hcalls
    ⟨⟨hf, fun _ _ h => h⟩, hh⟩
    (fun K K' _ hM ha => ⟨hM.1.act hok ha, ?_⟩) (fun _ _ _ hM _ hi hr => hM.2.fin hi hr) h
  exact hM.2.act hM.1.kid.known (fun j hj hpid hc => hcont j hc (hM.1.named j hj hpid)) ha

theorem Agrees.step {s : JobStatus} (hstays : ShellStays K₀ ev) (hf : Kid K₀ f) (hcont : ∀ j, ContTo K₀ ev j → (K₀.table j).pid ≠ f)
    (ha : Agrees K₀ f s) : Agrees K' f s := by
  refine ShellMid.step (M := fun K => KidMid K₀ f K ∧ Agrees K f s) (I := fun K => Agrees K f s) hs h₀ hok hcalls
    ⟨⟨hf, fun _ _ h => h⟩, ha⟩
    (fun K K' _ hM ha => ⟨hM.1.act hok ha, ?_⟩) (fun _ _ _ hM _ hi hr => hM.2.fin hi hr) h
  exact hM.2.act (hcalls.quits hstays) hM.1.kid
    (fun j hj hpid hc => hcont j hc (hM.1.named j hj hpid)) ha

/-- 待っているシェルは、`f` が走らなくなるまで待つ。 -/
theorem Awaits.step (hf : Kid K₀ f) (hcont : ∀ j, ContTo K₀ ev j → (K₀.table j).pid ≠ f)
    (hw : w = 0 ∨ w = f) (halone : w = 0 → ∀ i b L, Ends K₀ ev i b L →
      (K₀.table i).parent_id = SHELL_PID → (K₀.table i).pid = f) (ha : Awaits K₀ w) :
    Halted K' f ∨ Awaits K' w := by
  have hoff : ∀ j, j < K₀.num_processes → (K₀.table j).pid = SHELL_PID → K₀.cur_proccess_id ≠ some j := by
    intro j hj hpid hc
    have hrun := (hs.on_cpu j hc).running
    rcases ha j hj hpid with hst | ⟨hst, -⟩ <;> cases hrun.symm.trans hst
  refine ShellMid.step (M := fun K => KidMid K₀ f K ∧ (Halted K f ∨ Awaits K w ∧
      ∀ j, j < K.num_processes → (K.table j).pid = SHELL_PID → K.cur_proccess_id ≠ some j))
    (I := fun K => Halted K f ∨ Awaits K w) hs h₀ hok hcalls ⟨⟨hf, fun _ _ h => h⟩, .inr ⟨ha, hoff⟩⟩ ?_ ?_ h
  · rintro K K' hmid ⟨hkid, hM⟩ ha
    refine ⟨hkid.act hok ha, ?_⟩
    rcases hM with hM | ⟨hM, hoff⟩
    · exact .inl (hM.act hkid.kid.known (fun j hj hpid hc => hcont j hc (hkid.named j hj hpid)) ha)
    · refine (hM.act hs hmid.pids hmid.shell hmid.cur hoff hw halone ha).imp id fun hA => ⟨hA, ?_⟩
      intro j hj hpid
      have hold := ha.tree_step.kin.old_entry hj (hpid.symm ▸ hmid.shell.known)
      rw [ha.frame.cur]
      exact hoff j hold.lt (hold.pid.symm.trans hpid)
  · rintro K K' - ⟨-, hM⟩ - hi hr
    exact hM.imp (fun hM => hM.fin hi hr) fun hM => hM.1.fin hi hr

end Step

end MyOS.Proc
