import MyOS.Proc.Delivery
import MyOS.Proc.Lemmas.SigStep

/-! 信号の処理が保つもの。 -/

namespace MyOS.Proc
open MyOS.Lib

variable {K₀ K K' : Kernel} {ev : Event} {i j : Nat} {r : Regs} {p p' : Pcb} {s : SignalState}
  {fate : Fate} {sig n : Nat}

theorem getLsbD_sig_bit (hn : n < 32) : (SIG_BIT sig).getLsbD n = decide (n = sig) := by
  rw [SIG_BIT, BitVec.getLsbD_shiftLeft]
  by_cases h : n = sig
  · subst h
    simp [hn]
  · rcases Nat.lt_or_gt_of_ne h with hlt | hgt
    · simp [h, hlt]
    · have hpos : n - sig ≠ 0 := by omega
      simp [h, BitVec.getLsbD_one, hpos]

theorem FirstDue.mem {pre : List Nat} (h : FirstDue p pre sig) : sig ∈ signals := by
  obtain ⟨post, hsplit⟩ := h.split
  rw [hsplit]
  simp

/-! マスクと扱い。 -/

theorem Unblockable.or {m m' : BitVec 32} (h : Unblockable m) (h' : Unblockable m') :
    Unblockable (m ||| m') := by
  refine ⟨?_, ?_⟩
  · rw [BitVec.getLsbD_or, h.1, h'.1]
    rfl
  · rw [BitVec.getLsbD_or, h.2, h'.2]
    rfl

theorem Unblockable.and {m m' : BitVec 32} (h : Unblockable m) : Unblockable (m &&& m') := by
  refine ⟨?_, ?_⟩
  · rw [BitVec.getLsbD_and, h.1]
    rfl
  · rw [BitVec.getLsbD_and, h.2]
    rfl

theorem Unblockable.zero : Unblockable 0#32 := by simp [Unblockable]

theorem Unblockable.sig_bit (hk : sig ≠ SIGKILL) (hs : sig ≠ SIGSTOP) : Unblockable (SIG_BIT sig) := by
  refine ⟨?_, ?_⟩
  · rw [getLsbD_sig_bit (by decide)]
    exact decide_eq_false (Ne.symm hk)
  · rw [getLsbD_sig_bit (by decide)]
    exact decide_eq_false (Ne.symm hs)

theorem Unblockable.new_set (u : BitVec 32) :
    Unblockable (u &&& ~~~(SIG_BIT SIGKILL ||| SIG_BIT SIGSTOP)) := by
  refine ⟨?_, ?_⟩
  all_goals
    rw [BitVec.getLsbD_and, BitVec.getLsbD_not, BitVec.getLsbD_or, getLsbD_sig_bit (by decide),
      getLsbD_sig_bit (by decide)]
    simp [SIGKILL, SIGSTOP]

theorem Unblockable.new_mask {how : Nat} {u m : BitVec 32} (h : Unblockable m) :
    Unblockable (new_mask how u m) := by
  rw [Proc.new_mask]
  split
  · exact h.or (.new_set u)
  split
  · exact h.and
  · exact .new_set u

/-- マスクと扱いのほかだけが違う。 -/
theorem SigOk.congr {s' : SignalState} (h : SigOk s) (hm : s'.mask = s.mask)
    (hsaved : s'.saved_mask = s.saved_mask) (hd : s'.disposition = s.disposition) : SigOk s' :=
  ⟨hm ▸ h.mask, hsaved ▸ h.saved, hd ▸ h.kill, hd ▸ h.stop, hd ▸ h.user⟩

theorem PassSame.saved_mask (h : PassSame p p') : p'.sig.saved_mask = p.sig.saved_mask := by rw [h.rest]

theorem SigOk.pass_all {pending : BitVec 32} {pre : List Nat} (h : SigOk p.sig) :
    SigOk (pass_all pending pre p).sig := by
  have hsame := pass_all_same pending pre p
  exact h.congr hsame.mask hsame.saved_mask hsame.disposition

/-- 控えるときのマスク。届ける信号は、扱いが既定でないので `SIGKILL` でも `SIGSTOP` でもない。 -/
theorem SigOk.saved_pcb (h : SigOk p.sig) (hd : p.sig.disposition sig ≠ SIG_DFL) :
    SigOk (saved_pcb sig r p).sig := by
  have hk : sig ≠ SIGKILL := by
    rintro rfl
    exact hd h.kill
  have hs : sig ≠ SIGSTOP := by
    rintro rfl
    exact hd h.stop
  exact ⟨h.mask.or (.sig_bit hk hs), h.mask, h.kill, h.stop, h.user⟩

theorem SigOk.signalled (h : SigOk p.sig) (hs : Signalled p r fate p') : SigOk p'.sig := by
  have hcaught : ∀ {pre sig}, Caught p.sig sig →
      SigOk (Proc.saved_pcb sig r (Proc.pass_all p.sig.pending pre p)).sig := by
    intro pre sig hc
    refine h.pass_all.saved_pcb ?_
    rw [(pass_all_same p.sig.pending pre p).disposition]
    exact hc.2.2.2
  cases hs with
  | killed => exact h.congr rfl rfl rfl
  | passed => exact h.pass_all
  | stops => exact h.pass_all.congr rfl rfl rfl
  | kills => exact h.pass_all.congr rfl rfl rfl
  | overflow _ hc => exact ⟨(hcaught hc).saved, (hcaught hc).saved, (hcaught hc).kill, (hcaught hc).stop,
      (hcaught hc).user⟩
  | caught _ hc => exact (hcaught hc).congr rfl rfl rfl

theorem SigOk.exec (h : SigOk s) : SigOk (exec_signals s) := by
  have hd : ∀ n, (exec_signals s).disposition n = SIG_DFL ∨
      (exec_signals s).disposition n = s.disposition n := by
    intro n
    simp only [exec_signals]
    split
    · exact .inl rfl
    · exact .inr rfl
  refine ⟨.zero, h.saved, ?_, ?_, fun n => ?_⟩
  · rcases hd SIGKILL with h' | h'
    · exact h'
    · exact h'.trans h.kill
  · rcases hd SIGSTOP with h' | h'
    · exact h'
    · exact h'.trans h.stop
  · rcases hd n with h' | h'
    · exact .inl h'
    · rw [h']
      exact h.user n

theorem SigOk.step (h : SigOk p.sig) (hall : ∀ j, SigOk (K₀.table j).sig)
    (hs : SigStep K₀ ev K j p p') : SigOk p'.sig := by
  cases hs with
  | same he => exact he ▸ h
  | cleaned he => rw [he]; exact h.congr rfl rfl rfl
  | send _ _ _ _ _ _ he => rw [he]; exact h.congr rfl rfl rfl
  | cont _ _ _ _ _ _ he => rw [he]; exact h.congr rfl rfl rfl
  | key _ _ _ _ _ he => rw [he]; exact h.congr rfl rfl rfl
  | action _ _ hk hst hh he =>
    rw [he]
    refine ⟨h.mask, h.saved, ?_, ?_, fun n => ?_⟩
    · exact (if_neg (Ne.symm hk)).trans h.kill
    · exact (if_neg (Ne.symm hst)).trans h.stop
    · dsimp only
      split
      · exact hh
      · exact h.user n
  | mask _ _ he =>
    rw [he]
    exact ⟨h.mask.new_mask, h.saved, h.kill, h.stop, h.user⟩
  | sigreturn _ _ _ he =>
    rw [he]
    exact ⟨h.saved, h.saved, h.kill, h.stop, h.user⟩
  | exec _ _ he => exact he ▸ h.exec
  | signalled _ _ _ hs => exact h.signalled hs
  | fresh _ he =>
    rw [he]
    refine ⟨.zero, .zero, rfl, rfl, fun n => ?_⟩
    simp only [init_signals_default]
    split
    · exact .inr (.inl rfl)
    · exact .inl rfl
  | @forked i _ _ _ _ _ he =>
    have hi := hall i
    rw [he]
    exact ⟨hi.mask, .zero, hi.kill, hi.stop, hi.user⟩

/-! ハンドラの中にいる間、控えた文脈は変わらない。 -/

/-- `s₀` で控えた文脈とマスクを持ったまま、ハンドラの中にいる。 -/
structure InHandler (s₀ s : SignalState) : Prop where
  handler : s.in_handler = true
  frame : s.frame = s₀.frame
  saved : s.saved_mask = s₀.saved_mask

theorem Calls.stays {env : Env} (h : Calls K₀ ev i env r) (hok : StaysInHandler i K₀ ev) :
    r.eax ≠ 10 ∧ r.eax ≠ 28 := by
  obtain ⟨r₀, rfl, rfl⟩ := h.event
  exact hok.1 h.current

theorem InHandler.step {s₀ : SignalState} (h : InHandler s₀ p.sig) (hok : StaysInHandler i K₀ ev)
    (hlt : i < K.num_processes) (hs : SigStep K₀ ev K i p p') : InHandler s₀ p'.sig := by
  cases hs with
  | same he => exact he ▸ h
  | cleaned he => rw [he]; exact ⟨h.handler, h.frame, h.saved⟩
  | send _ _ _ _ _ _ he => rw [he]; exact ⟨h.handler, h.frame, h.saved⟩
  | cont _ _ _ _ _ _ he => rw [he]; exact ⟨h.handler, h.frame, h.saved⟩
  | key _ _ _ _ _ he => rw [he]; exact ⟨h.handler, h.frame, h.saved⟩
  | action _ _ _ _ _ he => rw [he]; exact ⟨h.handler, h.frame, h.saved⟩
  | mask _ _ he => rw [he]; exact ⟨h.handler, h.frame, h.saved⟩
  | sigreturn hc heax => exact absurd heax (hc.stays hok).2
  | exec hc heax => exact absurd heax (hc.stays hok).1
  | signalled _ _ hsig =>
    -- ハンドラの中では信号を処理しない
    have := h.handler.symm.trans hsig.2.2
    cases this
  | fresh hnum => omega
  | forked hc heax hslot =>
    obtain ⟨r₀, rfl, rfl⟩ := hc.event
    exact absurd hslot (hok.2 heax)

theorem InHandler.run {s₀ : SignalState} (h : Steps Proc.step (StaysInHandler i) K K') (hs : Synced K)
    (hlt : i < K.num_processes) (hI : InHandler s₀ (K.table i).sig) :
    InHandler s₀ (K'.table i).sig := by
  refine (run_inv (I := fun K => i < K.num_processes ∧ InHandler s₀ (K.table i).sig)
    (M := fun _ _ K => i < K.num_processes ∧ InHandler s₀ (K.table i).sig)
    (fun _ _ _ hI _ => hI) ?_ ?_ h hs ⟨hlt, hI⟩).2
  · intro K₀ ev K K' _ _ hok hM hact
    exact ⟨Nat.lt_of_lt_of_le hM.1 hact.frame.num, hM.2.step hok hM.1 (hact.sig_step i)⟩
  · intro K₀ ev K K' _ _ _ hM hfin
    exact ⟨Nat.lt_of_lt_of_le hM.1 hfin.num, (hfin.sig i).1 ▸ hM.2⟩

/-- 枠が向け変えられたなら、ハンドラのある信号が届いている。 -/
theorem delivered_caught (hcur : K.cur_proccess_id = some i)
    (h : (deliver_signals K r).1.redirects ≠ K.redirects) :
    ∃ pre sig, deliver_signals K r =
      settle K i r (handler_pcb sig (saved_pcb sig r (pass_all (K.table i).sig.pending pre (K.table i))))
        (.caught sig) := by
  by_cases hsig : Signals (K.table i)
  · obtain ⟨fate, p', hp, hd⟩ := deliver_signals_running (r := r) hcur hsig
    have hun : ∀ b, (unblock_parent (K.modify i fun _ => p') p'.pid b).redirects = K.redirects := by
      intro b
      rw [(CleanFrame.unblock_parent (K.modify i fun _ => p') p'.pid b).rest]
      rfl
    rw [hd] at h
    cases hp with
    | killed => exact absurd (hun true) h
    | passed => exact absurd rfl h
    | stops => exact absurd (hun false) h
    | kills => exact absurd (hun true) h
    | overflow => exact absurd (hun true) h
    | caught hfirst hc hstack => exact ⟨_, _, hd⟩
  · rw [deliver_signals_skip hcur hsig] at h
    exact absurd rfl h

/-- 届けた直後の項目は、枠とマスクを控えている。 -/
theorem delivered_context {K₁ : Kernel} (hcur : K.cur_proccess_id = some i)
    (hnum : 0 < K.num_processes) (h : (deliver_signals K r).1.redirects ≠ K.redirects)
    (hs : schedule K r = some K₁) :
    (∃ next, Picked (deliver_signals K r).1 (deliver_signals K r).2 next K₁) ∧
      SameRegs r (K₁.table i).sig.frame ∧ (K₁.table i).sig.saved_mask = (K.table i).sig.mask ∧
      (K₁.table i).sig.in_handler = true ∧
      (deliver_signals K r).1.num_processes = K.num_processes := by
  obtain ⟨pre, sig, hd⟩ := delivered_caught hcur h
  have hmask := (pass_all_same (K.table i).sig.pending pre (K.table i)).mask
  rw [schedule_eq hnum] at hs
  have hnum' : (deliver_signals K r).1.num_processes = K.num_processes := by
    rw [hd]
    rfl
  obtain ⟨next, hpick⟩ := pick_spec (hnum'.symm ▸ hnum) hs
  have hsig : (K₁.table i).sig = ((deliver_signals K r).1.table i).sig := by rw [hpick.table i]
  have hself : (deliver_signals K r).1.table i =
      handler_pcb sig (saved_pcb sig r (pass_all (K.table i).sig.pending pre (K.table i))) := by
    rw [hd]
    exact K.modify_self i fun _ => _
  rw [hsig, hself]
  exact ⟨⟨next, hpick⟩, ⟨rfl, rfl, rfl, rfl, rfl, rfl, rfl, rfl, rfl, rfl⟩, hmask, rfl, hnum'⟩

/-! 停止と再開。 -/

/-- 止まっておらず、止める信号も溜まっていない。 -/
structure NotStopping (p : Pcb) : Prop where
  pending : ∀ s ∈ stop_signals, p.sig.pending.getLsbD s = false
  state : p.state ≠ .stopped

theorem mem_stop_signals (h : sig ∈ stop_signals) : sig < 32 := by
  simp only [stop_signals, List.mem_cons, List.not_mem_nil, or_false] at h
  rcases h with rfl | rfl | rfl | rfl <;> decide

/-- 溜まっていない信号は、処理の後も溜まっていない。 -/
theorem pass_one_pending {pending : BitVec 32} (h : p.sig.pending.getLsbD n = false) :
    (pass_one pending p sig).sig.pending.getLsbD n = false := by
  unfold pass_one
  split
  · exact h
  · simp [clear_pending, BitVec.getLsbD_and, h]

theorem pass_all_pending {pending : BitVec 32} {pre : List Nat} (h : p.sig.pending.getLsbD n = false) :
    (pass_all pending pre p).sig.pending.getLsbD n = false := by
  induction pre generalizing p with
  | nil => exact h
  | cons sig pre ih => exact ih (pass_one_pending h)

theorem clear_pending_getLsbD (h : s.pending.getLsbD n = false) :
    (clear_pending sig s).pending.getLsbD n = false := by
  simp [clear_pending, BitVec.getLsbD_and, h]

theorem NotStopping.signalled (h : NotStopping p) (hs : Signalled p r fate p') : NotStopping p' := by
  have hpass : ∀ pre, ∀ s ∈ stop_signals,
      (Proc.pass_all p.sig.pending pre p).sig.pending.getLsbD s = false :=
    fun pre s hs => pass_all_pending (h.pending s hs)
  have hstate : ∀ pre, (Proc.pass_all p.sig.pending pre p).state ≠ .stopped := by
    intro pre
    rcases (pass_all_same p.sig.pending pre p).state with hst | hst
    · rw [hst]
      exact h.state
    · rw [hst]
      simp
  cases hs with
  | killed => exact ⟨fun s _ => by simp [ended_pcb], by simp [ended_pcb]⟩
  | passed => exact ⟨hpass _, hstate _⟩
  | @stops pre sig hfirst hstop =>
    -- 溜まっている止める信号がないので、ここには来ない
    have hmem : sig ∈ stop_signals := by
      rcases hstop with rfl | ⟨rfl | rfl | rfl, -⟩ <;> decide
    have := hfirst.due.1.symm.trans (h.pending _ hmem)
    cases this
  | kills => exact ⟨fun s hs => clear_pending_getLsbD (hpass _ s hs), by simp [ended_pcb]⟩
  | overflow => exact ⟨hpass _, by simp [ended_pcb]⟩
  | caught => exact ⟨fun s hs => clear_pending_getLsbD (hpass _ s hs), hstate _⟩

/-- 止める信号でない信号を足す。 -/
theorem or_sig_bit_pending {m : BitVec 32} (hsig : sig ∉ stop_signals)
    (h : ∀ s ∈ stop_signals, m.getLsbD s = false) :
    ∀ s ∈ stop_signals, (m ||| SIG_BIT sig).getLsbD s = false := by
  intro s hs
  rw [BitVec.getLsbD_or, h s hs, getLsbD_sig_bit (mem_stop_signals hs)]
  have : s ≠ sig := by
    rintro rfl
    exact hsig hs
  simp [this]

theorem NotStopping.step (h : NotStopping p) (hsent : sent_to K₀ j ev = none)
    (hreuse : reuses K₀ j ev = false) (hlt : j < K.num_processes) (hs : SigStep K₀ ev K j p p') :
    NotStopping p' := by
  cases hs with
  | same he hst => exact ⟨he ▸ h.pending, fun hp => h.state (hst hp)⟩
  | cleaned he hst =>
    refine ⟨fun s _ => ?_, fun hp => h.state (hst hp)⟩
    rw [he]
    simp
  | send hc heax _ hpid hj hlive he hst =>
    refine ⟨?_, hst ▸ h.state⟩
    rw [he]
    refine or_sig_bit_pending (fun hmem => ?_) h.pending
    obtain ⟨r₀, rfl, rfl⟩ := hc.event
    simp only [sent_to] at hsent
    rw [if_pos ⟨heax, hpid, hj, hlive, .inr hmem⟩] at hsent
    cases hsent
  | cont hc heax hsig hpid hj hst =>
    obtain ⟨r₀, rfl, rfl⟩ := hc.event
    simp only [sent_to] at hsent
    rw [if_pos ⟨heax, hpid, hj, by rw [hst]; simp, .inl hsig⟩] at hsent
    cases hsent
  | @key z r hev hmax hpg hfg hlive he hst =>
    refine ⟨?_, hst ▸ h.state⟩
    rw [he]
    cases z with
    | true =>
      subst hev
      simp only [sent_to] at hsent
      rw [if_pos ⟨hfg, hmax, hpg, hlive⟩] at hsent
      cases hsent
    | false => exact or_sig_bit_pending (by decide) h.pending
  | action _ _ _ _ _ he hst => exact ⟨by rw [he]; exact h.pending, hst ▸ h.state⟩
  | mask _ _ he hst => exact ⟨by rw [he]; exact h.pending, hst ▸ h.state⟩
  | sigreturn _ _ _ he hst => exact ⟨by rw [he]; exact h.pending, hst ▸ h.state⟩
  | exec _ _ he hst =>
    refine ⟨fun s _ => ?_, hst ▸ h.state⟩
    rw [he]
    simp [exec_signals]
  | signalled _ _ _ hs => exact h.signalled hs
  | fresh hnum => omega
  | forked hc heax hslot =>
    obtain ⟨r₀, rfl, rfl⟩ := hc.event
    simp [reuses, show r₀.eax = 24 from heax, hslot] at hreuse

/-- `SIGCONT` を送ると、止まっていた項目は `READY` になる。 -/
theorem NotStopping.cont (hsent : sent_to K₀ j ev = some SIGCONT)
    (hok : ∀ s ∈ stop_signals, (K₀.table j).sig.pending.getLsbD s = false)
    (h : Proc.step K₀ ev = some K') : NotStopping (K'.table j) ∧ j < K'.num_processes := by
  cases ev with
  | boot load => cases hsent
  | timer r => cases hsent
  | fault r => cases hsent
  | pipe => cases hsent
  | keyboard z r =>
    cases z with
    | false => cases hsent
    | true =>
      simp only [sent_to] at hsent
      split at hsent
      · cases hsent
      · cases hsent
  | syscall env r =>
    simp only [sent_to] at hsent
    split at hsent
    next hc =>
      obtain ⟨heax, hpid, hj, hlive, -⟩ := hc
      have hcont : r.ecx = SIGCONT := Option.some.inj hsent
      simp only [Proc.step] at h
      split at h
      · cases h
      split at h
      · cases h
      simp only [handle_syscalls, syscall, heax] at h
      cases h
      have hnum := (get_process_by_pid_spec hj).1
      have hbits := or_sig_bit_pending (show SIGCONT ∉ stop_signals by decide) hok
      simp only [return_to, syscall_kill, hcont, hj, if_neg hlive]
      rw [if_neg (by simp [hpid, NSIG, SIGCONT]), if_neg (by decide)]
      simp only [Kernel.modifySig, Kernel.modify_self]
      split
      next hst =>
        refine ⟨?_, hnum⟩
        rw [Kernel.modify_modify, Kernel.modify_self]
        exact ⟨hbits, by simp⟩
      next hst =>
        refine ⟨?_, hnum⟩
        rw [Kernel.modify_self]
        exact ⟨hbits, fun h => hst ⟨by trivial, h⟩⟩
    · cases hsent

end MyOS.Proc
