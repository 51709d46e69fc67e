import MyOS.Proc.Signal
import MyOS.Proc.Lemmas.Frame

/-! 信号の処理が `Signalled` のどれかで終わること。 -/

namespace MyOS.Proc
open MyOS.Lib

variable {K : Kernel} {i : Nat} {pending : BitVec 32} {r : Regs} {p p' : Pcb} {sig : Nat}

/-- 通り過ぎても変わらないもの。 -/
structure PassSame (p p' : Pcb) : Prop where
  mask : p'.sig.mask = p.sig.mask
  disposition : p'.sig.disposition = p.sig.disposition
  rest : p' = { p with
    sig := { p.sig with pending := p'.sig.pending, stopped_by := p'.sig.stopped_by }
    state := p'.state }
  state : p'.state = p.state ∨ p'.state = .ready

theorem pass_one_same (pending : BitVec 32) (p : Pcb) (sig : Nat) :
    PassSame p (pass_one pending p sig) := by
  unfold pass_one
  split
  · exact ⟨rfl, rfl, rfl, .inl rfl⟩
  · refine ⟨rfl, rfl, rfl, ?_⟩
    dsimp only
    split
    · exact .inr rfl
    · exact .inl rfl

theorem PassSame.trans {p'' : Pcb} (h : PassSame p p') (h' : PassSame p' p'') : PassSame p p'' := by
  refine ⟨h'.mask.trans h.mask, h'.disposition.trans h.disposition, ?_, ?_⟩
  · calc
      p'' = { p' with
          sig := { p'.sig with pending := p''.sig.pending, stopped_by := p''.sig.stopped_by }
          state := p''.state } := h'.rest
      _ = _ := by rw [h.rest]
  · rcases h'.state with hs | hs
    · rw [hs]
      exact h.state
    · exact .inr hs

theorem pass_all_same (pending : BitVec 32) (pre : List Nat) (p : Pcb) :
    PassSame p (pass_all pending pre p) := by
  induction pre generalizing p with
  | nil => exact ⟨rfl, rfl, rfl, .inl rfl⟩
  | cons sig pre ih => exact (pass_one_same pending p sig).trans (ih _)

theorem PassSame.pid (h : PassSame p p') : p'.pid = p.pid := by rw [h.rest]

theorem passed_congr {s s' : SignalState} (hm : s'.mask = s.mask)
    (hd : s'.disposition = s.disposition) : Passed pending s' sig ↔ Passed pending s sig := by
  simp only [Passed, hm, hd]

/-- 通り過ぎる信号では、次の信号へ進む。 -/
theorem signal_loop_passed {sigs : List Nat} (h : Passed pending (K.table i).sig sig) :
    signal_loop i pending K r (sig :: sigs) =
      signal_loop i pending (K.modify i fun p => pass_one pending p sig) r sigs := by
  have hone : ∀ p : Pcb, pending.getLsbD sig = false ∨ p.sig.mask.getLsbD sig = true →
      pass_one pending p sig = p := fun p hp => if_pos hp
  rw [signal_loop]
  split
  next hp => rw [Kernel.modify_of_eq (hone _ (.inl (by simpa using hp)))]
  next hp =>
  split
  next hm => rw [Kernel.modify_of_eq (hone _ (.inr hm))]
  next hm =>
  have hdue : ¬ (pending.getLsbD sig = false ∨ (K.table i).sig.mask.getLsbD sig = true) := by
    simp only [Bool.not_eq_true', Bool.not_eq_false] at hp
    simp [hp, hm]
  have hset : ∀ f : Pcb → Pcb, f (K.table i) = pass_one pending (K.table i) sig →
      K.modify i f = K.modify i fun p => pass_one pending p sig := by
    intro f hf
    unfold Kernel.modify
    rw [hf]
  split
  next hcont =>
    by_cases hstop : (K.table i).sig.stopped_by ≠ 0
    · simp only [if_pos hstop, Kernel.modifySig, Kernel.modify_modify]
      rw [hset]
      rw [pass_one, if_neg hdue, if_pos hcont, if_pos ⟨hcont, hstop⟩]
    · simp only [if_neg hstop, Kernel.modifySig]
      rw [hset]
      have h0 : (K.table i).sig.stopped_by = 0 := by simpa using hstop
      rw [pass_one, if_neg hdue, if_pos hcont, if_neg (fun h => hstop h.2), ← h0]
      rfl
  next hcont =>
  have hpass : K.modifySig i (clear_pending sig) = K.modify i fun p => pass_one pending p sig := by
    rw [Kernel.modifySig, hset]
    simp [pass_one, if_neg hdue, hcont, clear_pending]
  have hrest : sig ≠ SIGSTOP ∧ (K.table i).sig.disposition sig = SIG_IGN ∨
      sig = SIGCHLD ∧ (K.table i).sig.disposition sig = SIG_DFL := by
    rcases h with h | h | h | h
    · exact absurd (.inl h) hdue
    · exact absurd (.inr h) hdue
    · exact absurd h hcont
    · exact h
  rcases hrest with ⟨hstop, hign⟩ | ⟨hchld, hdfl⟩
  · rw [if_neg hstop, if_pos hign, hpass]
  · have hne : sig ≠ SIGSTOP ∧ ¬ (sig = SIGTSTP ∨ sig = SIGTTIN ∨ sig = SIGTTOU) := by
      subst hchld
      decide
    rw [if_neg hne.1, if_neg (by rw [hdfl]; decide), if_pos hdfl, if_neg hne.2, if_pos hchld, hpass]

/-- 通り過ぎない信号は、止める、終える、ハンドラへ向ける、のどれかである。 -/
theorem not_passed_cases {s : SignalState} (h : ¬ Passed pending s sig) :
    Due pending s sig ∧ (Stops s sig ∨ Kills s sig ∨ Caught s sig) := by
  simp only [Passed, not_or, not_and, Bool.not_eq_false, Bool.not_eq_true] at h
  obtain ⟨hp, hm, hcont, hign, hchld⟩ := h
  refine ⟨⟨hp, hm⟩, ?_⟩
  by_cases hstop : sig = SIGSTOP
  · exact .inl (.inl hstop)
  by_cases hdfl : s.disposition sig = SIG_DFL
  · by_cases htty : sig = SIGTSTP ∨ sig = SIGTTIN ∨ sig = SIGTTOU
    · exact .inl (.inr ⟨htty, hdfl⟩)
    · simp only [not_or] at htty
      exact .inr (.inl ⟨hdfl, hcont, fun h => hchld h hdfl, hstop, htty.1, htty.2.1, htty.2.2⟩)
  · exact .inr (.inr ⟨hcont, hstop, hign hstop, hdfl⟩)

/-- 列は、すべて通り過ぎるか、通り過ぎない最初の信号で分かれる。 -/
theorem signal_loop_split (sigs : List Nat) (K : Kernel) :
    (∀ s ∈ sigs, Passed pending (K.table i).sig s) ∧
        signal_loop i pending K r sigs = (K.modify i (pass_all pending sigs), r) ∨
      ∃ pre sig post, sigs = pre ++ sig :: post ∧ (∀ s ∈ pre, Passed pending (K.table i).sig s) ∧
        ¬ Passed pending (K.table i).sig sig ∧
        signal_loop i pending K r sigs =
          signal_loop i pending (K.modify i (pass_all pending pre)) r (sig :: post) := by
  induction sigs generalizing K with
  | nil =>
    refine .inl ⟨by simp, ?_⟩
    rw [Kernel.modify_of_eq rfl]
    rfl
  | cons sig sigs ih =>
    by_cases hp : Passed pending (K.table i).sig sig
    · have hone := pass_one_same pending (K.table i) sig
      have hpass : ∀ s, Passed pending ((K.modify i fun p => pass_one pending p sig).table i).sig s ↔
          Passed pending (K.table i).sig s := by
        intro s
        rw [Kernel.modify_self]
        exact passed_congr hone.mask hone.disposition
      rw [signal_loop_passed hp]
      rcases ih (K.modify i fun p => pass_one pending p sig) with ⟨hall, heq⟩ | ⟨pre, s, post, rfl, hpre, hs, heq⟩
      · refine .inl ⟨List.forall_mem_cons.mpr ⟨hp, fun s hs => (hpass s).mp (hall s hs)⟩, ?_⟩
        rw [heq, Kernel.modify_modify]
        rfl
      · refine .inr ⟨sig :: pre, s, post, rfl,
          List.forall_mem_cons.mpr ⟨hp, fun s hs => (hpass s).mp (hpre s hs)⟩, fun h => hs ((hpass s).mpr h), ?_⟩
        rw [heq, Kernel.modify_modify]
        rfl
    · refine .inr ⟨[], sig, sigs, rfl, by simp, hp, ?_⟩
      rw [Kernel.modify_of_eq rfl]

theorem Kernel.modify_const (K : Kernel) (i : Nat) (f : Pcb → Pcb) (q : Pcb) :
    (K.modify i f).modify i (fun _ => q) = K.modify i fun _ => q := K.modify_modify i f _

theorem Kernel.modify_eq_const (K : Kernel) (i : Nat) (f : Pcb → Pcb) :
    K.modify i f = K.modify i fun _ => f (K.table i) := rfl

theorem stop_by_eq (K : Kernel) (i sig : Nat) :
    stop_by K i sig =
      unblock_parent (K.modify i fun _ => stopped_pcb sig (K.table i)) (K.table i).pid false := by
  rw [stop_by, Kernel.modify_eq_const]
  rfl

theorem terminate_by_eq (K : Kernel) (i : Nat) (f : SignalState → SignalState) :
    terminate_by K i f =
      unblock_parent (K.modify i fun _ => ended_pcb f (K.table i)) (K.table i).pid true := by
  rw [terminate_by, Kernel.modify_eq_const]
  rfl

/-- 通り過ぎない信号での分かれ方。 -/
theorem signal_loop_last (post : List Nat) (h : ¬ Passed pending (K.table i).sig sig) :
    Due pending (K.table i).sig sig ∧
      (Stops (K.table i).sig sig ∧ signal_loop i pending K r (sig :: post) = (stop_by K i sig, r) ∨
      Kills (K.table i).sig sig ∧
        signal_loop i pending K r (sig :: post) = (terminate_by K i (clear_pending sig), r) ∨
      Caught (K.table i).sig sig ∧ signal_loop i pending K r (sig :: post) =
        enter_handler K i sig ((K.table i).sig.disposition sig) r) := by
  obtain ⟨hdue, h⟩ := not_passed_cases h
  refine ⟨hdue, ?_⟩
  rw [signal_loop, if_neg (by simp [hdue.1]), if_neg (by simp [hdue.2])]
  rcases h with hs | hk | hc
  · refine .inl ⟨hs, ?_⟩
    rcases hs with hstop | ⟨htty, hdfl⟩
    · rw [if_neg (by rw [hstop]; decide), if_pos hstop]
    · have hne : sig ≠ SIGCONT ∧ sig ≠ SIGSTOP := by
        rcases htty with rfl | rfl | rfl <;> decide
      rw [if_neg hne.1, if_neg hne.2, if_neg (by rw [hdfl]; decide), if_pos hdfl, if_pos htty]
  · obtain ⟨hdfl, hcont, hchld, hstop, h1, h2, h3⟩ := hk
    refine .inr (.inl ⟨⟨hdfl, hcont, hchld, hstop, h1, h2, h3⟩, ?_⟩)
    rw [if_neg hcont, if_neg hstop, if_neg (by rw [hdfl]; decide), if_pos hdfl,
      if_neg (by simp [h1, h2, h3]), if_neg hchld]
  · obtain ⟨hcont, hstop, hign, hdfl⟩ := hc
    refine .inr (.inr ⟨⟨hcont, hstop, hign, hdfl⟩, ?_⟩)
    rw [if_neg hcont, if_neg hstop, if_neg hign, if_neg hdfl]

theorem enter_handler_eq (K : Kernel) (i sig handler : Nat) (r : Regs) :
    enter_handler K i sig handler r =
      if stack_ok r then
        ({ K.modify i (fun _ => handler_pcb sig (saved_pcb sig r (K.table i))) with
            redirects := r.cs :: K.redirects },
          { r with useresp := sub32 (sub32 r.useresp 4) 4, eip := handler, ebx := sig })
      else
        (unblock_parent
          (K.modify i fun _ => ended_pcb (fun s => { s with mask := s.saved_mask })
            (saved_pcb sig r (K.table i))) (K.table i).pid true, r) := by
  rw [enter_handler]
  simp only [terminate_by_eq, Kernel.modify_self]
  split
  · rw [Kernel.modify_modify, Kernel.modify_eq_const]
    rfl
  · rw [Kernel.modify_const]
    rfl

/-- 走っているプロセスの信号の処理。 -/
theorem deliver_signals_running (hcur : K.cur_proccess_id = some i) (h : Signals (K.table i)) :
    ∃ fate p', Signalled (K.table i) r fate p' ∧ deliver_signals K r = settle K i r p' fate := by
  simp only [deliver_signals, hcur]
  have hcond : (K.table i).sig.pending ≠ 0#32 ∧ (K.table i).state = .running ∧
      (K.table i).sig.in_handler = false := h
  rw [if_pos hcond]
  split
  next hkill =>
    refine ⟨.ends, _, .killed hkill, ?_⟩
    rw [terminate_by_eq]
    rfl
  next hkill =>
  have hkill : (K.table i).sig.pending.getLsbD SIGKILL = false := by simpa using hkill
  rcases signal_loop_split (r := r) signals K with ⟨hall, heq⟩ | ⟨pre, sig, post, hsplit, hpre, hnot, heq⟩
  · refine ⟨.passes, _, .passed hkill hall, ?_⟩
    rw [heq, Kernel.modify_eq_const]
    rfl
  have hsame := pass_all_same (K.table i).sig.pending pre (K.table i)
  have hnot' : ¬ Passed (K.table i).sig.pending
      ((K.modify i (pass_all (K.table i).sig.pending pre)).table i).sig sig := by
    rw [Kernel.modify_self]
    exact fun h => hnot ((passed_congr hsame.mask hsame.disposition).mp h)
  obtain ⟨hdue, -⟩ := not_passed_cases hnot
  have hfirst : FirstDue (K.table i) pre sig := ⟨⟨post, hsplit⟩, hkill, hpre, hdue⟩
  rw [heq]
  obtain ⟨-, h⟩ := signal_loop_last (r := r) post hnot'
  rw [Kernel.modify_self] at h
  rcases h with ⟨hs, h⟩ | ⟨hk, h⟩ | ⟨hc, h⟩
  · refine ⟨.stops, _, .stops hfirst ?_, ?_⟩
    · simpa only [Stops, hsame.disposition] using hs
    · rw [h, stop_by_eq, Kernel.modify_const, Kernel.modify_self]
      rfl
  · refine ⟨.ends, _, .kills hfirst ?_, ?_⟩
    · simpa only [Kills, hsame.disposition] using hk
    · rw [h, terminate_by_eq, Kernel.modify_const, Kernel.modify_self]
      rfl
  · have hc : Caught (K.table i).sig sig := by simpa only [Caught, hsame.disposition] using hc
    rw [h, enter_handler_eq, Kernel.modify_const, Kernel.modify_const, Kernel.modify_self]
    split
    next hstack => exact ⟨.caught sig, _, .caught hfirst hc hstack, rfl⟩
    next hstack => exact ⟨.ends, _, .overflow hfirst hc (by simpa using hstack), rfl⟩

theorem deliver_signals_none (h : K.cur_proccess_id = none) : deliver_signals K r = (K, r) := by
  simp only [deliver_signals, h]

theorem deliver_signals_skip (hcur : K.cur_proccess_id = some i) (h : ¬ Signals (K.table i)) :
    deliver_signals K r = (K, r) := by
  simp only [deliver_signals, hcur]
  exact if_neg h

end MyOS.Proc
