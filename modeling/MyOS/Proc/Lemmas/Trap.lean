import MyOS.Proc.Lemmas.Sched
import MyOS.Proc.Lemmas.Tree

/-! 書き込みの一つずつが `TrapInv` を保つこと。 -/

namespace MyOS.Proc
open MyOS.Lib

variable {K₀ K K' : Kernel} {ev : Event} {i j cs : Nat} {r : Regs} {p p' : Pcb} {fate : Fate}

/-- 枠と、カーネルに残る呼び出しを変えない。 -/
structure SameFrame (p p' : Pcb) : Prop where
  call : p'.pipe_call = p.pipe_call
  handler : p'.sig.frame_call = p.sig.frame_call
  iret : p'.iret = p.iret
  cs : p'.tf.cs = p.tf.cs
  new : p'.state = .new → p.state = .new
  saved : Saved p'.state → Saved p.state ∨ p.state = .running

theorem SameFrame.same (hcall : p'.pipe_call = p.pipe_call)
    (hhandler : p'.sig.frame_call = p.sig.frame_call) (hiret : p'.iret = p.iret)
    (hcs : p'.tf.cs = p.tf.cs) (hstate : p'.state = p.state) : SameFrame p p' :=
  ⟨hcall, hhandler, hiret, hcs, fun h => hstate ▸ h, fun h => .inl (hstate ▸ h)⟩

theorem SameFrame.refl (p : Pcb) : SameFrame p p := .same rfl rfl rfl rfl rfl

/-- 終わった項目には、控えた枠の条件がない。 -/
theorem SameFrame.ended (hcall : p'.pipe_call = p.pipe_call)
    (hhandler : p'.sig.frame_call = p.sig.frame_call) (hiret : p'.iret = p.iret)
    (hcs : p'.tf.cs = p.tf.cs) (hstate : p'.state = .terminated) : SameFrame p p' := by
  refine ⟨hcall, hhandler, hiret, hcs, fun h => ?_, fun h => ?_⟩
  · rw [hstate] at h
    cases h
  · rw [hstate] at h
    rcases h with h | h | h <;> cases h

/-- 控えた枠の状態の間で移る。 -/
theorem SameFrame.move (hcall : p'.pipe_call = p.pipe_call)
    (hhandler : p'.sig.frame_call = p.sig.frame_call) (hiret : p'.iret = p.iret)
    (hcs : p'.tf.cs = p.tf.cs) (hold : Saved p.state ∨ p.state = .running) (hnew : Saved p'.state) :
    SameFrame p p' := by
  refine ⟨hcall, hhandler, hiret, hcs, fun h => ?_, fun _ => hold⟩
  rw [h] at hnew
  rcases hnew with h | h | h <;> cases h

theorem FrameOk.same (h : FrameOk p) (hp : SameFrame p p') (hrun : p.state ≠ .running) : FrameOk p' where
  first hs := by
    rw [hp.iret]
    exact h.first (hp.new hs)
  saved hs := by
    rw [hp.cs, hp.call]
    exact h.saved ((hp.saved hs).resolve_right hrun)

theorem TrapInv.same_all (h : TrapInv cs K) (hz : SchedInv K) (hnum : K'.num_processes = K.num_processes)
    (hcur : K'.cur_proccess_id = K.cur_proccess_id) (hred : K'.redirects = K.redirects)
    (hall : ∀ j, SameFrame (K.table j) (K'.table j)) : TrapInv cs K' where
  frames i h0 hi hne := by
    rw [hcur] at hne
    exact (h.frames i h0 (hnum ▸ hi) hne).same (hall i) fun hr => hne (hz.only i hr)
  calls i c hc := h.calls i c ((hall i).call ▸ hc)
  handler i c hc := h.handler i c ((hall i).handler ▸ hc)
  redirects := hred ▸ h.redirects
  cur i hi h0 := by
    rw [(hall i).call]
    exact h.cur i (hcur ▸ hi) h0

theorem TrapInv.clean (h : TrapInv cs K) (hz : SchedInv K) (hc : CleanFrame K K')
    (hall : ∀ j, SameFrame (K.table j) (K'.table j)) : TrapInv cs K' :=
  h.same_all hz hc.num hc.cur (by rw [hc.rest]) hall

/-- 一つの項目の書き換え。 -/
theorem TrapInv.modify {q : Pcb} (h : TrapInv cs K) (hz : SchedInv K)
    (hnum : K'.num_processes = K.num_processes) (hcur : K'.cur_proccess_id = K.cur_proccess_id)
    (hred : K'.redirects = K.redirects) (ht : ∀ k, K'.table k = if k = i then q else K.table k)
    (hq : SameFrame (K.table i) q) : TrapInv cs K' := by
  refine h.same_all hz hnum hcur hred fun j => ?_
  rw [ht]
  split
  next hj =>
    subst hj
    exact hq
  · exact .refl _

/-- 選ばれている項目の書き換え。枠の条件はいらないが、カーネルに残る呼び出しは元のものに限る。 -/
theorem TrapInv.modify_cur {q : Pcb} (h : TrapInv cs K) (hci : K.cur_proccess_id = some i)
    (hnum : K'.num_processes = K.num_processes) (hcur : K'.cur_proccess_id = K.cur_proccess_id)
    (hred : ∀ cs ∈ K'.redirects, Rpl3 cs) (ht : ∀ k, K'.table k = if k = i then q else K.table k)
    (hcall : ∀ c, q.pipe_call = some c → (K.table i).pipe_call = some c ∨ (K.table i).sig.frame_call = some c)
    (hhandler : ∀ c, q.sig.frame_call = some c →
      (K.table i).pipe_call = some c ∨ (K.table i).sig.frame_call = some c)
    (hq : i ≠ 0 → Rpl3 cs ∨ q.pipe_call.isSome) : TrapInv cs K' := by
  have hold : ∀ c, (K.table i).pipe_call = some c ∨ (K.table i).sig.frame_call = some c → Rpl3 c.regs.cs :=
    fun c hc => hc.elim (h.calls i c) (h.handler i c)
  refine ⟨fun k h0 hk hne => ?_, fun k c hc => ?_, fun k c hc => ?_, hred, fun k hk h0 => ?_⟩
  · rw [hcur] at hne
    rw [ht, if_neg (fun hki : k = i => hne (hki ▸ hci))]
    exact h.frames k h0 (hnum ▸ hk) hne
  · rw [ht] at hc
    split at hc
    · exact hold c (hcall c hc)
    · exact h.calls k c hc
  · rw [ht] at hc
    split at hc
    · exact hold c (hhandler c hc)
    · exact h.handler k c hc
  · obtain rfl := Option.some.inj (hci.symm.trans (hcur ▸ hk))
    rw [ht, if_pos rfl]
    exact hq h0

/-! それぞれの書き込み。 -/

theorem SameFrame.cleanup (c : Nat) (h : SameFrame p (K.table j)) :
    SameFrame p ((process_cleanup_child K c).table j) := by
  rw [cleanup_table]
  by_cases hj : j = c
  · subst hj
    simp only [if_pos]
    exact ⟨h.call, h.handler, h.iret, h.cs, h.new, h.saved⟩
  · simp only [if_neg hj]
    exact ⟨h.call, h.handler, h.iret, h.cs, h.new, h.saved⟩

theorem SameFrame.unblock (K : Kernel) (pid : Nat) (b : Bool) (j : Nat) :
    SameFrame (K.table j) ((unblock_parent K pid b).table j) := by
  have hwake : ∀ k, (K.table k).state = .blocked →
      SameFrame (K.table j) ((wake_parent K k pid b).table j) := by
    intro k hk
    by_cases hj : j = k
    · subst hj
      rw [wake_parent_self]
      exact .move rfl rfl rfl rfl (.inl (.inr (.inl hk))) (.inl rfl)
    · rw [wake_parent_ne hj]
      exact .refl _
  rcases unblock_parent_cases K pid b with h | ⟨c, k, -, -, hk, -, ⟨h, -⟩ | ⟨-, -, h⟩⟩
  · rw [h]
    exact .refl _
  · rw [h]
    exact hwake k hk
  · rw [h]
    exact (hwake k hk).cleanup c

theorem SameFrame.reaped (K : Kernel) (i dead j : Nat) :
    SameFrame (K.table j) ((reaped K i dead).table j) := by
  have hrem : SameFrame (K.table j) ((remove_child_from_parent K i dead).table j) := by
    rw [remove_child_from_parent, Kernel.modify_table]
    split
    next h =>
      subst h
      exact .same rfl rfl rfl rfl rfl
    · exact .refl _
  show SameFrame (K.table j) ((reap_child K i dead).table j)
  rw [reap_child]
  split
  · exact hrem
  next c _ => exact hrem.cleanup c

theorem at_schedule_cs (h : at_schedule K₀ ev = some (K, r)) : r.cs = K₀.ctx.cs := by
  cases ev with
  | boot load => cases h
  | fault r => cases h
  | pipe => cases h
  | timer r =>
    obtain ⟨K₁, -, heq⟩ := Option.map_eq_some_iff.mp h
    cases heq
    rfl
  | keyboard z r =>
    cases h
    rfl
  | syscall env r =>
    simp only [at_schedule] at h
    split at h
    · cases h
      rfl
    · cases h

theorem PassSame.call (h : PassSame p p') : p'.pipe_call = p.pipe_call := by rw [h.rest]

theorem PassSame.handler (h : PassSame p p') : p'.sig.frame_call = p.sig.frame_call := by rw [h.rest]

/-- 信号を処理した項目。ハンドラへ移るときは、待ちの中の呼び出しを控える。 -/
theorem TrapInv.signal (h : TrapInv cs K) (hci : K.cur_proccess_id = some i) (h0 : i ≠ 0)
    (hcs : r.cs = cs) (hsig : Signals (K.table i)) (hsafe : ¬ KernelDelivery K r)
    (hp : Signalled (K.table i) r fate p') : TrapInv cs (written K i r p' fate) := by
  have hlink := h.cur i hci h0
  have hpass := fun pre => pass_all_same (K.table i).sig.pending pre (K.table i)
  -- ハンドラへ移らない行方では、呼び出しを変えない
  have hsame : ∀ {q : Pcb} {f : Fate}, (∀ sig, f ≠ .caught sig) → q.pipe_call = (K.table i).pipe_call →
      (∀ c, q.sig.frame_call = some c → (K.table i).pipe_call = some c ∨
        (K.table i).sig.frame_call = some c) → TrapInv cs (written K i r q f) := by
    intro q f hf hcall hhandler
    refine h.modify_cur hci rfl rfl ?_ (fun _ => rfl) (fun c hc => .inl (hcall ▸ hc)) hhandler ?_
    · cases f with
      | caught sig => exact absurd rfl (hf sig)
      | passes => exact h.redirects
      | stops => exact h.redirects
      | ends => exact h.redirects
    · rw [hcall]
      exact fun _ => hlink
  cases hp with
  | killed => exact hsame (by simp) rfl fun c hc => .inr hc
  | passed => exact hsame (by simp) (hpass _).call fun c hc => .inr ((hpass _).handler ▸ hc)
  | stops => exact hsame (by simp) (hpass _).call fun c hc => .inr ((hpass _).handler ▸ hc)
  | kills => exact hsame (by simp) (hpass _).call fun c hc => .inr ((hpass _).handler ▸ hc)
  | overflow => exact hsame (by simp) (hpass _).call fun c hc => .inl ((hpass _).call ▸ hc)
  | @caught pre sig hfirst hcaught hstack =>
    have hr : Rpl3 cs := by
      rcases hlink with hr | hcall
      · exact hr
      · exact absurd ⟨i, hci, hcall, ⟨hsig, pre, sig, hfirst, hcaught⟩, hstack⟩ hsafe
    refine h.modify_cur hci rfl rfl ?_ (fun _ => rfl) (fun c hc => by cases hc)
      (fun c hc => .inl ((hpass pre).call ▸ hc)) fun _ => .inl hr
    exact List.forall_mem_cons.mpr ⟨hcs ▸ hr, h.redirects⟩

theorem TrapInv.create {pid : Nat} {load : Option Image} (h : TrapInv cs K)
    (hs : Synced K) (hc : create_process K pid load = some K') : TrapInv cs K' := by
  have hf := CreateFrame.create hc
  have hcur : K'.cur_proccess_id = K.cur_proccess_id := by rw [hf.rest]
  have hred : K'.redirects = K.redirects := by rw [hf.rest]
  have hnew : ∀ j, ¬ j < K.num_processes → K'.num_processes ≤ j ∧ K'.table j = K.table j ∨
      (K'.table j).pipe_call = none ∧ (K'.table j).sig.frame_call = (K.table j).sig.frame_call ∧
        (j < K'.num_processes → FrameOk (K'.table j)) := by
    intro j hj
    rcases create_process_new hc hj with ⟨hle, h⟩ | ⟨rfl, ⟨hn, h⟩ | ⟨img, -, -, h⟩⟩
    · exact .inl ⟨hle, h⟩
    · exact .inr ⟨by rw [h]; rfl, by rw [h]; rfl, fun hlt => absurd (hn ▸ hlt) hj⟩
    · refine .inr ⟨by rw [h]; rfl, by rw [h]; rfl, fun _ => ?_⟩
      rw [h]
      refine ⟨fun _ => by simp [user_frame, USER_CS, Rpl3], fun hs => ?_⟩
      rcases hs with hs | hs | hs <;> cases hs
  have hold : ∀ j, (K'.table j).pipe_call = (K.table j).pipe_call ∧
      (K'.table j).sig.frame_call = (K.table j).sig.frame_call ∨ (K'.table j).pipe_call = none ∧
      (K'.table j).sig.frame_call = (K.table j).sig.frame_call := by
    intro j
    by_cases hj : j < K.num_processes
    · rw [hf.old j hj]
      exact .inl ⟨rfl, rfl⟩
    · rcases hnew j hj with ⟨-, h⟩ | ⟨h1, h2, -⟩
      · rw [h]
        exact .inl ⟨rfl, rfl⟩
      · exact .inr ⟨h1, h2⟩
  refine ⟨fun j h0 hj hne => ?_, fun j c hc => ?_, fun j c hc => ?_, hred ▸ h.redirects, fun j hj h0 => ?_⟩
  · by_cases hlt : j < K.num_processes
    · rw [hf.old j hlt]
      have := h.frames j h0 hlt (hcur ▸ hne)
      exact ⟨this.first, this.saved⟩
    · rcases hnew j hlt with ⟨hle, -⟩ | ⟨-, -, hf⟩
      · omega
      · exact hf hj
  · rcases hold j with h' | h'
    · exact h.calls j c (h'.1 ▸ hc)
    · rw [h'.1] at hc
      cases hc
  · rcases hold j with h' | h'
    · exact h.handler j c (h'.2 ▸ hc)
    · exact h.handler j c (h'.2 ▸ hc)
  · have hlt := (hs.on_cpu j (hcur ▸ hj)).lt
    rw [hf.old j hlt]
    exact h.cur j (hcur ▸ hj) h0

theorem TrapInv.fork {slot : Nat} {env : Env} (h : TrapInv cs K) (hz : SchedInv K)
    (hc : Calls K ev i env r) (hcs : Rpl3 r.cs) (hslot : fork_slot K = some slot)
    (hf : fork_into K i slot r = some K') : TrapInv cs K' := by
  have hne := hc.toOnCpu.ne_slot hslot
  have htable := fork_into_table hne hf
  have hrest := fork_into_rest hf
  have hcur : K'.cur_proccess_id = K.cur_proccess_id := by rw [hrest]
  have hother : ∀ j, j ≠ slot → SameFrame (K.table j) (K'.table j) := by
    intro j hj
    rw [htable j, fork_entry, if_neg hj]
    split
    next hji =>
      subst hji
      exact .same rfl rfl rfl rfl rfl
    · exact .same rfl rfl rfl rfl rfl
  have hchild : K'.table slot = { fork_pcb K (K.table i) r (K.table slot) with
      state := .ready, files_open := (K'.table slot).files_open } := by
    have := htable slot
    rw [fork_entry, if_pos rfl] at this
    exact this
  refine ⟨fun j h0 hj hjc => ?_, fun j c hjc => ?_, fun j c hjc => ?_, ?_, fun j hj h0 => ?_⟩
  · rw [hcur] at hjc
    by_cases hjs : j = slot
    · subst hjs
      rw [hchild]
      exact ⟨fun hn => (by cases hn), fun _ => .inl hcs⟩
    · have hlt : j < K.num_processes := by
        have hnum : K'.num_processes =
            if slot = K.num_processes then K.num_processes + 1 else K.num_processes :=
          congrArg Kernel.num_processes hrest
        rw [hnum] at hj
        split at hj
        · omega
        · exact hj
      exact (h.frames j h0 hlt hjc).same (hother j hjs) fun hr => hjc (hz.only j hr)
  · by_cases hjs : j = slot
    · subst hjs
      rw [hchild] at hjc
      cases hjc
    · exact h.calls j c ((hother j hjs).call ▸ hjc)
  · by_cases hjs : j = slot
    · subst hjs
      rw [hchild] at hjc
      exact h.handler j c hjc
    · exact h.handler j c ((hother j hjs).handler ▸ hjc)
  · rw [hrest]
    exact h.redirects
  · have hij : i = j := Option.some.inj (hc.cur.symm.trans (hcur ▸ hj))
    subst hij
    rw [(hother i hne).call]
    exact h.cur i hc.cur h0

/-- 呼び出しのできるプロセスは、ユーザの文脈から入っている。 -/
theorem TrapInv.user {env : Env} (h : TrapInv K₀.ctx.cs K₀) (hc : Calls K₀ ev i env r) :
    Rpl3 K₀.ctx.cs := by
  rcases h.cur i hc.cur hc.pos with h | h
  · exact h
  · rw [hc.call] at h
    cases h

/-- 待ちの中で信号を届けない限り、どの書き込みも保つ。 -/
theorem TrapInv.act (hs : Synced K₀) (hT : TrapInv K₀.ctx.cs K₀) (hok : WaitSafe K₀ ev)
    (hz : SchedInv K) (h : TrapInv K₀.ctx.cs K) (ha : Act K₀ ev K K') : TrapInv K₀.ctx.cs K' := by
  have hcur := ha.frame.cur
  cases ha with
  | @file _ _ _ K' hc hf =>
    refine h.clean hz hf.frame.clean fun j => ?_
    rw [hf.frame.pcb j]
    exact .same rfl rfl rfl rfl rfl
  | create _ hcr => exact h.create hs hcr
  | fork hc _ hslot hf => exact h.fork hz hc (hc.cs.symm ▸ hT.user hc) hslot hf
  | reap => exact h.clean hz (reaped_clean ..) fun j => .reaped ..
  | await w => exact h.modify hz rfl hcur rfl (fun _ => rfl) (.same rfl rfl rfl rfl rfl)
  | block w hc =>
    refine h.modify hz rfl hcur rfl (fun _ => rfl) ?_
    exact .move rfl rfl rfl rfl (.inr hc.running) (.inr (.inl rfl))
  | enqueue _ _ _ he =>
    have hframe := sleep_enqueue_frame he
    refine h.same_all hz (by rw [hframe.rest]) hcur (by rw [hframe.rest]) fun j => ?_
    rw [hframe.pcb j]
    exact .same rfl rfl rfl rfl rfl
  | tick => exact h.same_all hz rfl hcur rfl fun _ => .refl _
  | wake =>
    refine h.modify hz rfl hcur rfl (fun _ => rfl) ?_
    split
    next hb => exact .move rfl rfl rfl rfl (.inl (.inr (.inl hb))) (.inl rfl)
    · exact .same rfl rfl rfl rfl rfl
  | group g => exact h.same_all hz rfl hcur rfl fun _ => .refl _
  | setpgid g => exact h.modify hz rfl hcur rfl (fun _ => rfl) (.same rfl rfl rfl rfl rfl)
  | send => exact h.modify hz rfl hcur rfl (fun _ => rfl) (.same rfl rfl rfl rfl rfl)
  | cont _ _ _ _ _ hst =>
    refine h.modify hz rfl hcur rfl (fun _ => rfl) ?_
    exact .move rfl rfl rfl rfl (.inl (.inr (.inr hst))) (.inl rfl)
  | keys =>
    rw [send_signal_to_foreground]
    split
    · refine h.same_all hz rfl rfl rfl fun j => ?_
      dsimp only
      split
      · exact .same rfl rfl rfl rfl rfl
      · exact .refl _
    · exact h
  | action => exact h.modify hz rfl hcur rfl (fun _ => rfl) (.same rfl rfl rfl rfl rfl)
  | mask => exact h.modify hz rfl hcur rfl (fun _ => rfl) (.same rfl rfl rfl rfl rfl)
  | sigreturn hc =>
    exact h.modify_cur hc.cur rfl rfl h.redirects (fun _ => rfl) (fun c hcall => .inr hcall)
      (fun c hcall => by cases hcall) fun _ => .inl (hT.user hc)
  | exit hc =>
    refine h.clean hz (exit_tree_clean ..) fun j => ?_
    rw [exit_tree_table]
    split
    · exact .ended rfl rfl rfl rfl rfl
    · exact .same rfl rfl rfl rfl rfl
  | @reset i env r hc heax =>
    refine h.clean hz (exec_reset_clean ..) fun j => ?_
    rw [exec_reset_table]
    by_cases hj : j = i
    · subst hj
      simp only [if_pos]
      exact .same rfl rfl rfl rfl rfl
    · simp only [if_neg hj]
      exact .same rfl rfl rfl rfl rfl
  | @load i _ _ _ hc =>
    have hci := hc.toOnCpu.exec_reset.cur
    -- 空けたあとの状態の中身は要らない
    generalize exec_reset K₀ i = K at h hz hcur hci ⊢
    exact h.modify_cur hci rfl rfl h.redirects (fun _ => rfl) (fun c hcall => .inl hcall)
      (fun c hcall => .inr hcall) fun _ => .inl (hT.user hc)
  | @fail i =>
    generalize exec_reset K₀ i = K at h hz hcur ⊢
    exact h.modify hz rfl hcur rfl (fun _ => rfl) (.ended rfl rfl rfl rfl rfl)
  | mmap => exact h.modify hz rfl hcur rfl (fun _ => rfl) (.same rfl rfl rfl rfl rfl)
  | munmap => exact h.modify hz rfl hcur rfl (fun _ => rfl) (.same rfl rfl rfl rfl rfl)
  | @signal i r _ _ K hat hci hsig hp =>
    have h0 : i ≠ 0 := by
      rintro rfl
      exact hsig.1 hz.idle.pending
    exact h.signal hci h0 (at_schedule_cs hat) hsig (hok K r hat) hp
  | unblock => exact h.clean hz (.unblock_parent ..) fun j => .unblock ..
  | leave => exact h.same_all hz rfl hcur rfl fun _ => .refl _

/-! 文脈を決める書き込み。 -/

/-- 表の中の項目は、書き込みで `NEW` にならない。 -/
theorem Act.not_new (ha : Act K₀ ev K K') (hlt : j < K.num_processes) (hnew : (K'.table j).state = .new) :
    (K.table j).state = .new := by
  have hmove : ∀ {i : Nat} {q : Pcb}, Move K₀ ev K i q → q.state ≠ .new := by
    intro i q hm hq
    cases hm with
    | block _ _ _ h => cases h.symm.trans hq
    | wake _ _ _ _ h _ => cases h.symm.trans hq
    | cont _ _ h => cases h.symm.trans hq
    | load _ _ h => cases h.symm.trans hq
    | signal _ _ _ _ _ h => exact h hq
  cases ha.tree_step with
  | quiet _ _ hst => exact hst j ▸ hnew
  | await _ _ _ _ _ _ _ hst => exact hst j ▸ hnew
  | @move i hm _ hother =>
    by_cases hj : j = i
    · subst hj
      exact absurd hnew (hmove hm)
    · exact (hother j hj).2 ▸ hnew
  | @dies i _ _ _ _ _ hother hi =>
    by_cases hj : j = i
    · subst hj
      cases hi.symm.trans hnew
    · exact hother j hj ▸ hnew
  | exit _ hK hK' =>
    subst hK hK'
    rw [exit_tree_table] at hnew
    dsimp only at hnew
    split at hnew
    · cases hnew
    · exact hnew
  | unblock _ hK' =>
    subst hK'
    exact (SameFrame.unblock ..).new hnew
  | reap _ hK _ hK' =>
    subst hK hK'
    exact (SameFrame.reaped ..).new hnew
  | create hK _ hcr =>
    subst hK
    rw [(CreateFrame.create hcr).old j hlt] at hnew
    exact hnew
  | @fork i env r slot hK hc _ hslot hf =>
    subst hK
    rw [fork_into_table (hc.toOnCpu.ne_slot hslot) hf j, fork_entry] at hnew
    split at hnew
    · cases hnew
    · split at hnew
      next hj =>
        subst hj
        exact hnew
      · exact hnew

theorem Acts.cur_not_new (hs : Synced K₀) (h : Acts K₀ ev K₀ K) (hi : K.cur_proccess_id = some i) :
    (K.table i).state ≠ .new := by
  induction h with
  | refl =>
    rw [(hs.on_cpu i hi).running]
    simp
  | tail h ha ih =>
    have hi' := ha.frame.cur ▸ hi
    exact fun hnew => ih hi' (ha.not_new (Acts.cur_lt hs h i hi') hnew)

theorem TrapInv.pipe {c : PipeCall} (h : TrapInv cs K) (hci : K.cur_proccess_id = some i)
    (hf : PipeFrame K K') (hother : ∀ j, j ≠ i → (K'.table j).pipe_call = (K.table j).pipe_call)
    (hcall : ∀ d, (K'.table i).pipe_call = some d → d.regs = c.regs) (hc : Rpl3 c.regs.cs)
    (hctx : Rpl3 K'.ctx.cs ∨ (K'.table i).pipe_call.isSome) : TrapInv K'.ctx.cs K' := by
  have hcur : K'.cur_proccess_id = K.cur_proccess_id := by rw [hf.rest]
  have hnum : K'.num_processes = K.num_processes := by rw [hf.rest]
  have hred : K'.redirects = K.redirects := by rw [hf.rest]
  refine ⟨fun j h0 hj hne => ?_, fun j d hd => ?_, fun j d hd => ?_, hred ▸ h.redirects, fun j hj h0 => ?_⟩
  · have hji : j ≠ i := by
      rintro rfl
      exact hne (hcur.trans hci)
    have hold := h.frames j h0 (hnum ▸ hj) (hcur ▸ hne)
    rw [hf.pcb j]
    refine ⟨hold.first, fun hs => ?_⟩
    dsimp only
    rw [hother j hji]
    exact hold.saved hs
  · by_cases hji : j = i
    · subst hji
      rw [hcall d hd]
      exact hc
    · exact h.calls j d (hother j hji ▸ hd)
  · rw [hf.pcb j] at hd
    exact h.handler j d hd
  · obtain rfl := Option.some.inj (hci.symm.trans (hcur ▸ hj))
    exact hctx

theorem TrapInv.pipe_start {c : PipeCall} (h : TrapInv cs K) (hci : K.cur_proccess_id = some i)
    (hc : Rpl3 c.regs.cs) : TrapInv (pipe_start K i c).ctx.cs (pipe_start K i c) := by
  have hi : (Proc.pipe_start K i c).table i = { K.table i with pipe_call := some c } := if_pos rfl
  refine h.pipe (c := c) hci (.pipe_start ..) (fun j hj => ?_) (fun d hd => ?_) hc (.inr ?_)
  · rw [show (Proc.pipe_start K i c).table j = K.table j from if_neg hj]
  · rw [hi] at hd
    cases hd
    rfl
  · rw [hi]
    rfl

theorem pipe_fn_moved {pb pb' : PipeBuf} {c c' : PipeCall} (h : pipe_fn pb c = .moved pb' c') :
    c'.regs = c.regs := by
  simp only [pipe_fn, pipe_read_fn, pipe_write_fn] at h
  split at h <;> split at h <;> (try split at h) <;> (try split at h) <;> cases h <;> rfl

theorem TrapInv.pipe_iter {c : PipeCall} (h : TrapInv K.ctx.cs K) (hci : K.cur_proccess_id = some i)
    (hcall : (K.table i).pipe_call = some c) :
    TrapInv (pipe_iter K i c).ctx.cs (pipe_iter K i c) := by
  have hc := h.calls i c hcall
  have hf := PipeFrame.pipe_iter K i c
  have hother : ∀ j, j ≠ i → (Proc.pipe_iter K i c).table j = K.table j := by
    intro j hj
    rw [Proc.pipe_iter]
    split <;> exact if_neg hj
  refine h.pipe (c := c) hci hf (fun j hj => by rw [hother j hj]) (fun d hd => ?_) hc ?_
  · rw [Proc.pipe_iter] at hd
    split at hd
    next pb c' hm =>
      simp only [Kernel.modify_self] at hd
      cases hd
      exact pipe_fn_moved hm
    · simp only [Kernel.modify_self] at hd
      cases hd
      rfl
    · simp only [return_to, Kernel.modify_self] at hd
      cases hd
  · rw [Proc.pipe_iter]
    split
    · right
      simp only [Kernel.modify_self]
      rfl
    · right
      simp only [Kernel.modify_self]
      rfl
    · exact .inl hc

/-- 次へ移る。控える枠と、戻す枠を調べる。 -/
theorem TrapInv.picked {next : Nat} (h : TrapInv cs K) (hcs : r.cs = cs) (hz : SchedInv K)
    (hlt : ∀ i, K.cur_proccess_id = some i → i < K.num_processes)
    (hnew : ∀ i, K.cur_proccess_id = some i → (K.table i).state ≠ .new) (hleave : Leaving K)
    (hp : Picked K r next K') : TrapInv K'.ctx.cs K' := by
  obtain ⟨-, hsel⟩ := hz.picked hlt hp
  have hcur : K'.cur_proccess_id = some next := by rw [hp.rest]
  have hnum : K'.num_processes = K.num_processes := by rw [hp.rest]
  have hred : K'.redirects = K.redirects := by rw [hp.rest]
  have hnt : ((requeued K).table next).state ≠ .terminated := by
    rcases hsel with h | h <;> rw [h] <;> simp
  have htf : ∀ j, (K'.table j).tf =
      if K.current_process = some j ∧ ((requeued K).table j).state ≠ .new then r else (K.table j).tf := by
    intro j
    rw [hp.tf j, if_neg hnt]
  -- 選ばれていない項目の枠は変わらない
  have hother : ∀ j, K.cur_proccess_id ≠ some j →
      ((requeued K).table j).state = (K.table j).state ∧ (K'.table j).tf = (K.table j).tf := by
    intro j hj
    refine ⟨by rw [requeued_table, if_neg hj], ?_⟩
    rw [htf, if_neg]
    rintro ⟨hc, -⟩
    rcases hleave with hl | ⟨hl, -⟩
    · exact hj (hl.symm.trans hc)
    · cases hl.symm.trans hc
  -- 選ばれていた項目は、終わっていなければ今の枠を控える
  have hself : ∀ j, K.cur_proccess_id = some j → ((requeued K).table j).state ≠ .new ∧
      (((requeued K).table j).state ≠ .terminated → (K'.table j).tf = r) := by
    intro j hj
    have hreq : ((requeued K).table j).state = (requeue (K.table j)).state := by
      rw [requeued_table, if_pos hj]
    have hn : ((requeued K).table j).state ≠ .new := by
      rw [hreq, requeue]
      dsimp only
      split
      · simp
      · exact hnew j hj
    refine ⟨hn, fun ht => ?_⟩
    rw [htf, if_pos]
    refine ⟨?_, hn⟩
    rcases hleave with hl | ⟨-, hl⟩
    · exact hl.trans hj
    · refine absurd ?_ ht
      rw [hreq, requeue]
      simp [hl j hj]
  refine ⟨fun j h0 hj hne => ?_, fun j c hc => ?_, fun j c hc => ?_, hred ▸ h.redirects, fun j hj h0 => ?_⟩
  · have hjn : j ≠ next := by
      rintro rfl
      exact hne hcur
    have hst : (K'.table j).state = ((requeued K).table j).state := by
      rw [hp.table j]
      exact if_neg hjn
    have hiret : (K'.table j).iret = (K.table j).iret := by rw [hp.table j]
    have hcall : (K'.table j).pipe_call = (K.table j).pipe_call := by rw [hp.table j]
    refine ⟨fun hs => ?_, fun hs => ?_⟩
    · by_cases hjc : K.cur_proccess_id = some j
      · exact absurd (hst ▸ hs) (hself j hjc).1
      · rw [hiret]
        refine (h.frames j h0 (hnum ▸ hj) hjc).first ?_
        rw [← (hother j hjc).1, ← hst]
        exact hs
    · rw [hcall]
      by_cases hjc : K.cur_proccess_id = some j
      · have ht : ((requeued K).table j).state ≠ .terminated := by
          rw [← hst]
          rintro ht
          rw [ht] at hs
          rcases hs with h | h | h <;> cases h
        rw [(hself j hjc).2 ht, hcs]
        exact h.cur j hjc (by omega)
      · rw [(hother j hjc).2]
        refine (h.frames j h0 (hnum ▸ hj) hjc).saved ?_
        rw [← (hother j hjc).1, ← hst]
        exact hs
  · rw [hp.table j] at hc
    exact h.calls j c hc
  · rw [hp.table j] at hc
    exact h.handler j c hc
  · obtain rfl := Option.some.inj (hcur.symm.trans hj)
    have hcall : (K'.table next).pipe_call = (K.table next).pipe_call := by rw [hp.table next]
    rw [hcall, hp.ctx]
    by_cases hjc : K.cur_proccess_id = some next
    · rw [if_neg (hself next hjc).1, (hself next hjc).2 hnt, hcs]
      exact h.cur next hjc h0
    · have hframe := h.frames next (by omega) hp.lt hjc
      rcases hsel with hs | hs
      · rw [if_neg (by simp [hs]), (hother next hjc).2]
        refine hframe.saved (.inl ?_)
        rw [← (hother next hjc).1, hs]
      · rw [if_pos hs]
        refine .inl (hframe.first ?_)
        rw [← (hother next hjc).1, hs]

theorem TrapInv.fin (hs : Synced K₀) (hT : TrapInv K₀.ctx.cs K₀) (hz : SchedInv K)
    (hacts : Acts K₀ ev K₀ K) (h : TrapInv K₀.ctx.cs K) (hf : Fin K₀ ev K K') : TrapInv K'.ctx.cs K' := by
  cases hf with
  | stays => exact hacts.frame.ctx.symm ▸ h
  | @returns i env r r' K v hc hon hcs =>
    refine ⟨h.frames, h.calls, h.handler, h.redirects, fun _ _ _ => .inl ?_⟩
    show Rpl3 r'.cs
    rcases hcs with hcs | hcs
    · rw [hcs]
      exact hT.user hc
    · rw [hcs]
      decide
  | pipe_start hc _ _ _ hr =>
    refine h.pipe_start hc.cur ?_
    rw [hr, hc.cs]
    exact hT.user hc
  | @pipe_iter i c _ hon hcall => exact hT.pipe_iter hon.cur hcall
  | switch hcs hnum hleave _ hp =>
    obtain ⟨next, hpick⟩ := pick_spec hnum hp
    exact h.picked hcs hz (hacts.cur_lt hs) (fun _ => hacts.cur_not_new hs) hleave hpick

end MyOS.Proc
