import MyOS.Proc.Lemmas.Delivery

/-!
# 信号の定理

`SIGKILL`、ハンドラからの戻り、マスクと扱い、停止と再開。
-/

namespace MyOS.Proc
open MyOS.Lib

variable {K K₁ K₂ : Kernel} {i j : Nat} {r : Regs}

/-! ## `SIGKILL` -/

theorem requeued_self (h : K.cur_proccess_id = some i) : (requeued K).table i = requeue (K.table i) := by
  rw [requeued_table, if_pos h]

/-- `SIGKILL` が溜まった走っているプロセスは、ハンドラの中にいないとき、そのときに限り終わる。 -/
theorem sigkill_terminates_iff (hcur : K.cur_proccess_id = some i)
    (hrun : (K.table i).state = .running)
    (hkill : (K.table i).sig.pending.getLsbD SIGKILL = true) :
    ((picking K r).table i).state = .terminated ↔ (K.table i).sig.in_handler = false := by
  constructor
  · intro h
    cases hin : (K.table i).sig.in_handler with
    | false => rfl
    | true =>
      have hsig : ¬ Signals (K.table i) := fun hs => by
        have := hin.symm.trans hs.2.2
        cases this
      rw [picking, deliver_signals_skip hcur hsig, requeued_self hcur] at h
      simp [requeue, hrun] at h
  · intro hin
    have hpend : (K.table i).sig.pending ≠ 0#32 := by
      intro h0
      rw [h0] at hkill
      simp at hkill
    have hd : (deliver_signals K r).1 = unblock_parent
        (K.modify i fun _ => ended_pcb (fun s => { s with pending := 0#32 }) (K.table i))
        (K.table i).pid true := by
      simp only [deliver_signals, hcur]
      rw [if_pos ⟨hpend, hrun, hin⟩, if_pos hkill, terminate_by_eq]
    have hst : ((deliver_signals K r).1.table i).state = .terminated := by
      rw [hd, unblock_parent_state]
      · rw [Kernel.modify_self]
        rfl
      · rw [Kernel.modify_self]
        simp [ended_pcb]
    have hcur' : (deliver_signals K r).1.cur_proccess_id = some i := by
      rw [hd, (CleanFrame.unblock_parent _ _ _).cur]
      exact hcur
    rw [picking, requeued_self hcur', requeue]
    simp only [hst]
    rfl

/-- ハンドラの中のシェルに `SIGKILL` を送る。 -/
def kill_in_handler : Trace (exec step (boot 1 1 0)) (fun K => K.cur_proccess_id = some 1 ∧
    (K.table 1).state = .running ∧ (K.table 1).sig.pending.getLsbD SIGKILL = true ∧
    ((picking K user_regs).table 1).state ≠ .terminated) :=
  ⟨start_shell ++ [call 29 SIGINT 0x08048100, call 13 1 SIGINT, tick, tick, call 13 1 SIGKILL],
    by decide +kernel⟩

theorem sigkill_ignored_in_handler :
    ∃ K, Steps step (fun _ _ => True) (boot 1 1 0) K ∧ K.cur_proccess_id = some 1 ∧
      (K.table 1).state = .running ∧ (K.table 1).sig.pending.getLsbD SIGKILL = true ∧
      ((picking K user_regs).table 1).state ≠ .terminated :=
  kill_in_handler.steps

theorem sigkill_terminates_iff_shell :
    ((picking { boot 1 1 0 with
        table := fun _ => { state := .running, sig := { pending := SIG_BIT SIGKILL } }
        cur_proccess_id := some 1 } user_regs).table 1).state = .terminated :=
  (sigkill_terminates_iff (i := 1) rfl rfl (by decide)).mpr rfl

/-! ## ハンドラからの戻り -/

/-- ハンドラへ向け変えた後、`exec` も `sigreturn` も呼ばない実行では控えた文脈が変わらず、次の `sigreturn` が
    レジスタとマスクを元に戻す。 -/
theorem sigreturn_restores (hcur : K.cur_proccess_id = some i) (hlt : i < K.num_processes)
    (hmax : K.num_processes ≤ MAX_PROCESSES)
    (hdel : (deliver_signals K r).1.redirects ≠ K.redirects) (hs : schedule K r = some K₁)
    (hrun : Steps step (StaysInHandler i) K₁ K₂) :
    SameRegs r (K₂.table i).sig.frame ∧ (K₂.table i).sig.in_handler = true ∧
      ∀ env r' K₃, K₂.current_process = some i → r'.eax = 28 →
        step K₂ (.syscall env r') = some K₃ →
        SameRegs r K₃.ctx ∧ (K₃.table i).sig.mask = (K.table i).sig.mask ∧
          (K₃.table i).sig.in_handler = false := by
  have hnum : 0 < K.num_processes := Nat.lt_of_le_of_lt (Nat.zero_le _) hlt
  obtain ⟨⟨next, hpick⟩, hregs, hmask, hin, hnum'⟩ := delivered_context hcur hnum hdel hs
  have hnum₁ : K₁.num_processes = K.num_processes := by
    rw [hpick.rest]
    exact hnum'
  have hsync : Synced K₁ := hpick.on_cpu.synced (hnum₁.symm ▸ hmax)
  have hI := InHandler.run hrun hsync (hnum₁.symm ▸ hlt) ⟨hin, rfl, rfl⟩
  have hframe : SameRegs r (K₂.table i).sig.frame := hI.frame.symm ▸ hregs
  refine ⟨hframe, hI.handler, fun env r' K₃ hcurrent heax hstep => ?_⟩
  simp only [step, hcurrent] at hstep
  split at hstep
  · cases hstep
  simp only [handle_syscalls, syscall, heax, syscall_sigreturn, hI.handler, if_true,
    Option.map_some] at hstep
  cases hstep
  refine ⟨⟨hframe.eip, hframe.useresp, hframe.eax, hframe.ebx, hframe.ecx, hframe.edx, hframe.esi,
    hframe.edi, hframe.ebp, hframe.eflags⟩, ?_, ?_⟩
  · simp only [return_to, Kernel.modify_self]
    exact hI.saved.trans hmask
  · simp only [return_to, Kernel.modify_self]

instance (i : Nat) (K : Kernel) (ev : Event) : Decidable (StaysInHandler i K ev) :=
  match ev with
  | .syscall _ r => inferInstanceAs (Decidable ((K.current_process = some i → r.eax ≠ 10 ∧ r.eax ≠ 28) ∧
      (r.eax = 24 → fork_slot K ≠ some i)))
  | .boot _ => inferInstanceAs (Decidable True)
  | .timer _ => inferInstanceAs (Decidable True)
  | .keyboard _ _ => inferInstanceAs (Decidable True)
  | .fault _ => inferInstanceAs (Decidable True)
  | .pipe => inferInstanceAs (Decidable True)

/-- ハンドラが `getpid` と `fork` を呼び、ほかのプロセスが走った後、`sigreturn` で戻る。 -/
def handled (K₁ : Kernel) : Bool :=
  (checked step (fun K ev => decide (StaysInHandler 1 K ev)) K₁ [tick, call 14, call 24, tick, crash, tick]).any fun K₂ =>
    K₂.current_process == some 1 && (step K₂ (call 28)).isSome

/-- 割り込まれたユーザの枠。 -/
def user_trap : Regs := { user_regs with eip := 0x08048010, eax := 7, ebx := 3, cs := USER_CS }

/-- シェルが、自分に送った `SIGINT` を受ける前まで。 -/
def interrupted_shell : Trace (exec step (boot 1 1 0)) (fun K => K.cur_proccess_id = some 1 ∧ K.num_processes = 2 ∧
    (deliver_signals K user_trap).1.redirects ≠ K.redirects ∧ (schedule K user_trap).any handled = true) :=
  ⟨start_shell ++ [call 29 SIGINT 0x08048100, call 13 1 SIGINT], by decide +kernel⟩

theorem sigreturn_restores_sigint :
    ∃ K K₁ K₂ K₃, Steps step (fun _ _ => True) (boot 1 1 0) K ∧ schedule K user_trap = some K₁ ∧
      Steps step (StaysInHandler 1) K₁ K₂ ∧ step K₂ (call 28) = some K₃ ∧ SameRegs user_trap K₃.ctx ∧
      (K₃.table 1).sig.mask = (K.table 1).sig.mask ∧ (K₃.table 1).sig.in_handler = false := by
  obtain ⟨K, hK, hcur, hnum, hdel, hend⟩ := interrupted_shell.steps
  obtain ⟨K₁, hK₁, hend⟩ := (Option.any_eq_true _ _).mp hend
  obtain ⟨K₂, hK₂, hend⟩ := (Option.any_eq_true _ _).mp hend
  obtain ⟨hback, hsome⟩ := Bool.and_eq_true_iff.mp hend
  obtain ⟨K₃, hK₃⟩ := Option.isSome_iff_exists.mp hsome
  have hrun : Steps step (StaysInHandler 1) K₁ K₂ := .of_checked (fun _ _ h => of_decide_eq_true h) hK₂
  have h := sigreturn_restores (i := 1) hcur (by omega) (by rw [hnum]; decide) hdel hK₁ hrun
  exact ⟨K, K₁, K₂, K₃, hK, hK₁, hrun, hK₃, h.2.2 _ _ K₃ (beq_iff_eq.mp hback) rfl hK₃⟩

/-! ## マスクと扱い -/

/-- どの実行でも、マスクと控えたマスクは `SIGKILL` と `SIGSTOP` を含まず、扱いは整っている。 -/
theorem signals_ok (rc_in rc_out mounts : Nat)
    (h : Steps step (fun _ _ => True) (boot rc_in rc_out mounts) K) (j : Nat) :
    SigOk (K.table j).sig := by
  have hboot : ∀ j, SigOk ((boot rc_in rc_out mounts).table j).sig := by
    intro j
    simp only [boot]
    split
    · refine ⟨.zero, .zero, rfl, rfl, fun n => ?_⟩
      simp only [init_signals_default]
      split
      · exact .inr (.inl rfl)
      · exact .inl rfl
    · exact ⟨.zero, .zero, rfl, rfl, fun n => .inl rfl⟩
  refine run_inv (I := fun K => ∀ j, SigOk (K.table j).sig) (M := fun _ _ K => ∀ j, SigOk (K.table j).sig)
    (fun _ _ _ hI _ => hI) ?_ ?_ h (.boot rc_in rc_out mounts) hboot j
  · intro K₀ ev K K' _ hI _ hM hact j
    exact (hM j).step hI (hact.sig_step j)
  · intro K₀ ev K K' _ _ _ hM hfin j
    exact (hfin.sig j).1 ▸ hM j

/-- シェルがハンドラの中ですべての信号を塞ぎ、子を作り、`sigreturn` で戻って `exec` を呼ぶ。 -/
def masked_shell : Trace (exec step (boot 1 1 0)) (fun K => (K.table 2).sig.mask ≠ 0#32 ∧
    (K.table 2).sig.disposition SIGINT = 0x08048100 ∧ K.redirects = [USER_CS] ∧ (K.table 1).sig.in_handler = false ∧
    (K.table 1).sig.disposition SIGINT = SIG_DFL) :=
  ⟨start_shell ++ [call 29 SIGINT 0x08048100, call 13 1 SIGINT, tick, tick,
    .syscall { user_set := 0xFFFFFFFF#32 } { user_regs with eax := 32, ecx := 0x1000 }, call 24, call 28,
    .syscall { load := some shell_image } { user_regs with eax := 10 }], by decide +kernel⟩

theorem signals_ok_masked :
    ∃ K, Steps step (fun _ _ => True) (boot 1 1 0) K ∧ K.redirects = [USER_CS] ∧ (K.table 2).sig.mask ≠ 0#32 ∧
      (K.table 2).sig.disposition SIGINT = 0x08048100 ∧ (K.table 1).sig.disposition SIGINT = SIG_DFL ∧
      ∀ j, SigOk (K.table j).sig := by
  obtain ⟨K, hK, hmask, hhandler, hred, -, hdfl⟩ := masked_shell.steps
  exact ⟨K, hK, hred, hmask, hhandler, hdfl, fun j => signals_ok 1 1 0 hK j⟩

/-! ## 停止と再開 -/

/-- `SIGCONT` を送るときに止める信号が溜まっていなければ、最後に送られたのが `SIGCONT` であるプロセスは
    止まっていない。 -/
theorem continued_not_stopped (rc_in rc_out mounts : Nat) {w : Watched}
    (h : Steps (watch j) (NoStopPending j) ⟨boot rc_in rc_out mounts, none⟩ w)
    (hlast : w.last = some SIGCONT) : (w.kernel.table j).state ≠ .stopped := by
  have hinv := h.inv (P := fun w => Synced w.kernel ∧ (w.last = some SIGCONT →
      NotStopping (w.kernel.table j) ∧ j < w.kernel.num_processes)) ?_ ⟨.boot .., fun h => by cases h⟩
  · exact (hinv.2 hlast).1.state
  intro w ev w' hI hok hw
  obtain ⟨hs, hI⟩ := hI
  obtain ⟨K', hK', rfl⟩ := Option.map_eq_some_iff.mp hw
  refine ⟨hs.step hK', fun hlast => ?_⟩
  dsimp only at hlast ⊢
  split at hlast
  · cases hlast
  next hreuse =>
  cases hsent : sent_to w.kernel j ev with
  | some s =>
    rw [hsent] at hlast
    have hs18 : s = SIGCONT := Option.some.inj hlast
    subst hs18
    exact NotStopping.cont hsent (hok hsent) hK'
  | none =>
    rw [hsent] at hlast
    obtain ⟨hN, hlt⟩ := hI hlast
    obtain ⟨K, hacts, hfin⟩ := step_reaches hs hK'
    have hmid : NotStopping (K.table j) ∧ j < K.num_processes := by
      clear hfin
      induction hacts with
      | refl => exact ⟨hN, hlt⟩
      | tail _ ha ih =>
        exact ⟨ih.1.step hsent (by simpa using hreuse) ih.2 (ha.sig_step j),
          Nat.lt_of_lt_of_le ih.2 ha.frame.num⟩
    have hsig := hfin.sig j
    exact ⟨⟨hsig.1.symm ▸ hmid.1.pending, fun h => hmid.1.state (hsig.2 h)⟩,
      Nat.lt_of_lt_of_le hmid.2 hfin.num⟩

instance (j : Nat) (w : Watched) (ev : Event) : Decidable (NoStopPending j w ev) :=
  inferInstanceAs (Decidable (_ → _))

/-- 子が `SIGSTOP` で止まってから、`SIGCONT` を送る。 -/
def continue_trace : Trace
    (checked (watch 2) (fun w ev => decide (NoStopPending 2 w ev)) ⟨boot 1 1 0, none⟩)
    (fun w => w.last = some SIGCONT) :=
  ⟨start_shell ++ [call 24, call 13 2 SIGSTOP, tick, tick, tick, call 13 2 SIGCONT], by decide +kernel⟩

theorem continued_not_stopped_child :
    ∃ w, Steps (watch 2) (NoStopPending 2) ⟨boot 1 1 0, none⟩ w ∧ w.last = some SIGCONT ∧
      (w.kernel.table 2).state ≠ .stopped := by
  obtain ⟨w, hw, hlast⟩ := continue_trace.steps_checked fun _ _ h => of_decide_eq_true h
  exact ⟨w, hw, hlast, continued_not_stopped 1 1 0 hw hlast⟩

/-- 子に `SIGTSTP`、`SIGCONT` の順に送ってから、子を走らせる。 -/
def stop_then_continue : Trace (exec (watch 2) ⟨boot 1 1 0, none⟩) (fun w => w.last = some SIGCONT ∧
    (w.kernel.table 2).sig.pending = 0#32 ∧ (w.kernel.table 2).state = .stopped) :=
  ⟨start_shell ++ [call 24, call 13 2 SIGTSTP, call 13 2 SIGCONT, tick, tick], by decide +kernel⟩

theorem continue_overtaken :
    ∃ w, Steps (watch 2) (fun _ _ => True) ⟨boot 1 1 0, none⟩ w ∧ w.last = some SIGCONT ∧
      (w.kernel.table 2).sig.pending = 0#32 ∧ (w.kernel.table 2).state = .stopped :=
  stop_then_continue.steps

end MyOS.Proc
