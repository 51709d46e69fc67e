import MyOS.Proc.Lemmas.Delivery

/-!
# `fork` の続き

子は親のレジスタ、マスク、扱いを受け継ぐ。ハンドラの中で控えた文脈は受け継がないので、子の `sigreturn` は
親のものと違う。
-/

namespace MyOS.Proc
open MyOS.Lib

variable {K K' : Kernel} {i slot : Nat} {r : Regs}

/-- `sigreturn` の後の枠、返す値、マスク、ハンドラの中にいること。 -/
def Outcome.restored (i : Nat) : Outcome → Option (Regs × Nat × BitVec 32 × Bool)
  | .returns K r v => some (r, v, (K.table i).sig.mask, (K.table i).sig.in_handler)
  | .leaves _ => none

def sigreturn_effect (K : Kernel) (i : Nat) (r : Regs) : Option (Regs × Nat × BitVec 32 × Bool) :=
  (syscall_sigreturn K i r).bind (Outcome.restored i)

/-- 子 `slot` の続きは、`fork` が 0 を返した親 `i` の続きと同じである。 -/
structure SameContinuation (K : Kernel) (i slot : Nat) (r : Regs) : Prop where
  regs : (K.table slot).tf = { r with eax := 0 }
  state : (K.table slot).state = .ready
  mask : (K.table slot).sig.mask = (K.table i).sig.mask
  disposition : (K.table slot).sig.disposition = (K.table i).sig.disposition
  sigreturn : ∀ r', sigreturn_effect K slot r' = sigreturn_effect K i r'

theorem sigreturn_effect_outside (h : (K.table i).sig.in_handler = false) :
    sigreturn_effect K i r = some (r, NEG1, (K.table i).sig.mask, false) := by
  simp [sigreturn_effect, syscall_sigreturn, h, returns_of, Outcome.restored]

theorem fork_process_cases (h : fork_process K i r = some (K', some slot)) :
    fork_slot K = some slot ∧ fork_into K i slot r = some K' := by
  rw [fork_process] at h
  split at h
  · cases h
  next s hs =>
    obtain ⟨L, hL, heq⟩ := Option.map_eq_some_iff.mp h
    cases heq
    exact ⟨hs, hL⟩

/-- 子の続きが親と同じになるのは、親がハンドラの外で `fork` を呼んだとき、そのときに限る。 -/
theorem fork_continues_iff (hon : OnCpu i K) (h : fork_process K i r = some (K', some slot)) :
    SameContinuation K' i slot r ↔ (K.table i).sig.in_handler = false := by
  obtain ⟨hslot, hinto⟩ := fork_process_cases h
  have hne := hon.ne_slot hslot
  have hchild : K'.table slot = { fork_pcb K (K.table i) r (K.table slot) with
      state := .ready, files_open := (K'.table slot).files_open } := by
    rw [fork_into_table hne hinto slot, fork_entry, if_pos rfl]
  have hself : (K'.table i).sig = (K.table i).sig := by
    rw [fork_into_table hne hinto i, fork_entry, if_neg hne, if_pos rfl]
  have hin : (K'.table slot).sig.in_handler = false := by
    rw [hchild]
    rfl
  constructor
  · intro hc
    by_contra hout
    have hout : (K'.table i).sig.in_handler = true := by simpa [hself] using hout
    -- 親は控えた `eip` に戻り、子は今の `eip` のままである
    have heff := hc.sigreturn { r with eip := (K'.table i).sig.frame.eip + 1 }
    rw [sigreturn_effect_outside hin, sigreturn_effect, syscall_sigreturn, if_pos hout] at heff
    have heip := congrArg (Regs.eip ∘ Prod.fst) (Option.some.inj heff)
    exact Nat.succ_ne_self _ heip
  · intro hout
    have hmask : (K'.table slot).sig.mask = (K'.table i).sig.mask := by
      rw [hself, hchild]
      rfl
    refine ⟨by rw [hchild]; rfl, by rw [hchild], hmask, ?_, fun r' => ?_⟩
    · rw [hself, hchild]
      rfl
    · rw [sigreturn_effect_outside hin, sigreturn_effect_outside (hself.symm ▸ hout), hmask]

/-- ハンドラの中で子を作り、子が `sigreturn` を呼ぶまで。 -/
def fork_in_handler : Trace (exec step (boot 1 1 0)) (fun K => K.current_process = some 1 ∧
    (K.table 1).sig.in_handler = true ∧ (K.table 1).sig.frame.eip = 0x08048000 ∧
    (exec step K [call 24, tick]).any (fun L => decide (L.current_process = some 2) &&
      (step L (call 28)).any fun M => decide (M.current_process = some 2 ∧ M.ctx.eax = NEG1 ∧
        M.ctx.eip ≠ 0x08048000)) ∧
    (exec step K [call 24, call 28]).any fun L => decide (L.current_process = some 1 ∧
      L.ctx.eip = 0x08048000)) :=
  ⟨start_shell ++ [call 29 SIGINT 0x08048100, call 13 1 SIGINT,
    .timer { user_regs with eip := 0x08048000 }, tick], by decide +kernel⟩

/-- 親の `sigreturn` は元の番地に戻り、子の `sigreturn` は -1 を返す。 -/
theorem fork_loses_context :
    ∃ K L M P, Steps step (fun _ _ => True) (boot 1 1 0) K ∧ K.current_process = some 1 ∧
      (K.table 1).sig.in_handler = true ∧ exec step K [call 24, tick] = some L ∧
      L.current_process = some 2 ∧ step L (call 28) = some M ∧ M.ctx.eax = NEG1 ∧
      exec step K [call 24, call 28] = some P ∧ P.ctx.eip = 0x08048000 ∧ M.ctx.eip ≠ P.ctx.eip := by
  obtain ⟨K, hK, hcur, hin, -, hchild, hparent⟩ := fork_in_handler.steps
  obtain ⟨L, hL, h⟩ := (Option.any_eq_true _ _).mp hchild
  rw [Bool.and_eq_true] at h
  obtain ⟨M, hM, h'⟩ := (Option.any_eq_true _ _).mp h.2
  obtain ⟨P, hP, h''⟩ := (Option.any_eq_true _ _).mp hparent
  obtain ⟨-, heax, heip⟩ := of_decide_eq_true h'
  obtain ⟨-, hback⟩ := of_decide_eq_true h''
  exact ⟨K, L, M, P, hK, hcur, hin, hL, of_decide_eq_true h.1, hM, heax, hP, hback, hback.symm ▸ heip⟩

/-- ハンドラの外で子を作る。 -/
def fork_outside : Trace (exec step (boot 1 1 0)) (fun K => K.current_process = some 1 ∧
    (K.table 1).sig.in_handler = false ∧
    (fork_process K 1 user_regs).map (·.2) = some (some 2)) :=
  ⟨start_shell, by decide +kernel⟩

theorem fork_continues_shell :
    ∃ K K', Steps step (fun _ _ => True) (boot 1 1 0) K ∧
      fork_process K 1 user_regs = some (K', some 2) ∧ SameContinuation K' 1 2 user_regs := by
  obtain ⟨K, hK, hcur, hout, hf⟩ := fork_outside.steps
  obtain ⟨⟨K', o⟩, hK', ho⟩ := Option.map_eq_some_iff.mp hf
  cases ho
  have hs := (Synced.boot 1 1 0).run hK
  exact ⟨K, K', hK, hK', (fork_continues_iff (hs.on_cpu 1 (hs.current ▸ hcur)) hK').mpr hout⟩

end MyOS.Proc
