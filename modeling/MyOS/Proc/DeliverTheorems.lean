import MyOS.Proc.Lemmas.Delivery

/-!
# 信号の選び方と扱い

`schedule` は、溜まっていてマスクも無視もされない最小の信号を、その扱いに従って処理する。`SIGCONT` は扱いを見ずに
通り過ぎ、信号の枠を置けないスタックではプロセスを終える。
-/

namespace MyOS.Proc
open MyOS.Lib

variable {K : Kernel} {i n s sig : Nat} {r : Regs} {p p' : Pcb} {pending : BitVec 32} {pre : List Nat}

/-- 無視する信号。 -/
def Ignored (st : SignalState) (sig : Nat) : Prop :=
  st.disposition sig = SIG_IGN ∨ (sig = SIGCHLD ∨ sig = SIGCONT) ∧ st.disposition sig = SIG_DFL

/-- 溜まっていて、マスクも無視もされない最小の信号。 -/
structure Foremost (p : Pcb) (sig : Nat) : Prop where
  mem : sig ∈ signals
  due : Due p.sig.pending p.sig sig
  acts : ¬ Ignored p.sig sig
  least : ∀ n ∈ signals, n < sig → Due p.sig.pending p.sig n → Ignored p.sig n

instance (pending : BitVec 32) (st : SignalState) (sig : Nat) : Decidable (Due pending st sig) :=
  inferInstanceAs (Decidable (_ ∧ _))

instance (st : SignalState) (sig : Nat) : Decidable (Ignored st sig) :=
  inferInstanceAs (Decidable (_ ∨ _))

instance (p : Pcb) (sig : Nat) : Decidable (Foremost p sig) :=
  decidable_of_iff (sig ∈ signals ∧ Due p.sig.pending p.sig sig ∧ ¬ Ignored p.sig sig ∧
      ∀ n ∈ signals, n < sig → Due p.sig.pending p.sig n → Ignored p.sig n)
    ⟨fun h => ⟨h.1, h.2.1, h.2.2.1, h.2.2.2⟩, fun h => ⟨h.mem, h.due, h.acts, h.least⟩⟩

/-- 信号 `sig` を処理するときに、無視して消す信号。 -/
def Dropped (p : Pcb) (sig n : Nat) : Prop :=
  n ∈ signals ∧ n < sig ∧ Due p.sig.pending p.sig n ∧ Ignored p.sig n

/-- 信号の枠を置けずに終わる。 -/
def Overflows (p : Pcb) (r : Regs) (sig : Nat) : Prop := Caught p.sig sig ∧ stack_ok r = false

/-- 信号 `sig` の扱いに従った項目 `p'` と枠 `r'`。 -/
structure Obeyed (p : Pcb) (r : Regs) (sig : Nat) (p' : Pcb) (r' : Regs) : Prop where
  kind : Stops p.sig sig ∨ Kills p.sig sig ∨ Caught p.sig sig
  stops : Stops p.sig sig → p'.state = .stopped ∧ p'.sig.stopped_by = sig ∧ r' = r
  kills : Kills p.sig sig → p'.state = .terminated ∧ r' = r
  caught : Caught p.sig sig → stack_ok r = true →
    r' = { r with
      useresp := sub32 (sub32 r.useresp 4) 4, eip := p.sig.disposition sig, ebx := sig } ∧
    p'.sig.in_handler = true ∧ p'.sig.saved_mask = p.sig.mask ∧ SameRegs r p'.sig.frame
  overflow : Overflows p r sig → p'.state = .terminated ∧ r' = r
  pending : ∀ n, p'.sig.pending.getLsbD n = true ↔
    p.sig.pending.getLsbD n = true ∧ ¬ Dropped p sig n ∧ (n = sig → Overflows p r sig)

/-! ## 溜まった信号のビット -/

theorem clear_pending_bit (s : Nat) (st : SignalState) :
    (clear_pending s st).pending.getLsbD n = true ↔ st.pending.getLsbD n = true ∧ n ≠ s := by
  simp only [clear_pending, BitVec.getLsbD_and, BitVec.getLsbD_not, Bool.and_eq_true, decide_eq_true_eq,
    Bool.not_eq_true']
  constructor
  · rintro ⟨hp, hn, hb⟩
    rw [getLsbD_sig_bit hn] at hb
    exact ⟨hp, of_decide_eq_false hb⟩
  · rintro ⟨hp, hne⟩
    have hn := BitVec.lt_of_getLsbD hp
    exact ⟨hp, hn, by rw [getLsbD_sig_bit hn]; exact decide_eq_false hne⟩

theorem pass_one_bit : (pass_one pending p s).sig.pending.getLsbD n = true ↔
    p.sig.pending.getLsbD n = true ∧ ¬ (n = s ∧ Due pending p.sig s) := by
  unfold pass_one
  split
  next h =>
    have hdue : ¬ Due pending p.sig s := by
      rintro ⟨h₁, h₂⟩
      rcases h with h | h
      · simp [h₁] at h
      · simp [h₂] at h
    simp [hdue]
  next h =>
    have hdue : Due pending p.sig s := by
      simp only [not_or, Bool.not_eq_false, Bool.not_eq_true] at h
      exact h
    have := clear_pending_bit (n := n) s p.sig
    simpa [hdue] using this

theorem pass_all_bit : (pass_all pending pre p).sig.pending.getLsbD n = true ↔
    p.sig.pending.getLsbD n = true ∧ ¬ (n ∈ pre ∧ Due pending p.sig n) := by
  induction pre generalizing p with
  | nil => simp [pass_all]
  | cons s pre ih =>
    have hmask := (pass_one_same pending p s).mask
    have hdue : Due pending (pass_one pending p s).sig n ↔ Due pending p.sig n := by
      rw [Due, hmask, Due]
    rw [pass_all, List.foldl_cons, ← pass_all, ih, pass_one_bit, hdue, List.mem_cons]
    constructor
    · rintro ⟨⟨hp, h₁⟩, h₂⟩
      refine ⟨hp, ?_⟩
      rintro ⟨rfl | hn, hd⟩
      · exact h₁ ⟨rfl, hd⟩
      · exact h₂ ⟨hn, hd⟩
    · rintro ⟨hp, h⟩
      refine ⟨⟨hp, ?_⟩, fun h₂ => h ⟨.inr h₂.1, h₂.2⟩⟩
      rintro ⟨rfl, hd⟩
      exact h ⟨.inl rfl, hd⟩

/-! ## 最小の信号 -/

theorem signals_split_lt {post : List Nat} (h : signals = pre ++ sig :: post) :
    sig ∈ signals ∧ ∀ n, n ∈ pre ↔ n ∈ signals ∧ n < sig := by
  have hsorted : signals.Pairwise (· < ·) := List.pairwise_lt_range'
  rw [h, List.pairwise_append, List.pairwise_cons] at hsorted
  obtain ⟨-, ⟨hpost, -⟩, hpre⟩ := hsorted
  refine ⟨by simp [h], fun n => ⟨fun hn => ⟨by simp [h, hn], hpre n hn sig (by simp)⟩, ?_⟩⟩
  rintro ⟨hn, hlt⟩
  rw [h, List.mem_append, List.mem_cons] at hn
  rcases hn with hn | rfl | hn
  · exact hn
  · omega
  · have := hpost n hn
    omega

theorem Passed.ignored {st : SignalState} (h : Passed pending st sig) (hdue : Due pending st sig)
    (hcont : sig ≠ SIGCONT) : Ignored st sig := by
  rcases h with h | h | h | ⟨-, h⟩ | ⟨h, hd⟩
  · simp [hdue.1] at h
  · simp [hdue.2] at h
  · exact absurd h hcont
  · exact .inl h
  · exact .inr ⟨.inl h, hd⟩

/-- 扱いの決まった信号は無視されない。 -/
theorem not_ignored {st : SignalState} (hstop : st.disposition SIGSTOP = SIG_DFL)
    (h : Stops st sig ∨ Kills st sig ∨ Caught st sig) : ¬ Ignored st sig := by
  rintro (hign | ⟨hsig, hdfl⟩)
  · rcases h with (rfl | ⟨-, hd⟩) | hk | hc
    · cases hstop.symm.trans hign
    · cases hd.symm.trans hign
    · cases hk.1.symm.trans hign
    · exact hc.2.2.1 hign
  · rcases h with (rfl | ⟨htty, -⟩) | hk | hc
    · rcases hsig with h | h <;> exact absurd h (by decide)
    · rcases hsig with rfl | rfl <;> exact absurd htty (by decide)
    · rcases hsig with rfl | rfl
      · exact hk.2.2.1 rfl
      · exact hk.2.1 rfl
    · exact hc.2.2.2 hdfl

theorem Foremost.unique (h : Foremost p s) (h' : Foremost p sig) : s = sig := by
  rcases Nat.lt_trichotomy s sig with hlt | heq | hgt
  · exact absurd (h'.least s h.mem hlt h.due) h.acts
  · exact heq
  · exact absurd (h.least sig h'.mem hgt h'.due) h'.acts

/-- `SIGCONT` が最小でなければ、通り過ぎた信号は無視する信号である。 -/
theorem passed_all_ignored (hcont : ¬ Foremost p SIGCONT)
    (hpre : ∀ n, n ∈ signals → n < s → Passed p.sig.pending p.sig n) :
    ∀ n ∈ signals, n < s → Due p.sig.pending p.sig n → Ignored p.sig n := by
  intro n hn hlt hdue
  by_cases hn18 : n = SIGCONT
  · subst hn18
    by_contra hact
    refine hcont ⟨hn, hdue, hact, fun m hm hmlt hmdue => ?_⟩
    exact (hpre m hm (by omega)).ignored hmdue (by omega)
  · exact (hpre n hn hlt).ignored hdue hn18

theorem FirstDue.foremost (h : FirstDue p pre sig) (hstop : p.sig.disposition SIGSTOP = SIG_DFL)
    (hcont : ¬ Foremost p SIGCONT) (hkind : Stops p.sig sig ∨ Kills p.sig sig ∨ Caught p.sig sig) :
    Foremost p sig := by
  obtain ⟨post, hsplit⟩ := h.split
  obtain ⟨hmem, hpre⟩ := signals_split_lt hsplit
  exact ⟨hmem, h.due, not_ignored hstop hkind,
    passed_all_ignored hcont fun n hn hlt => h.passed n ((hpre n).mpr ⟨hn, hlt⟩)⟩

/-- 通り過ぎた後に残る信号。 -/
theorem FirstDue.pass_bit (h : FirstDue p pre sig) (hf : Foremost p sig) :
    (pass_all p.sig.pending pre p).sig.pending.getLsbD n = true ↔
      p.sig.pending.getLsbD n = true ∧ ¬ Dropped p sig n := by
  obtain ⟨post, hsplit⟩ := h.split
  obtain ⟨-, hpre⟩ := signals_split_lt hsplit
  rw [pass_all_bit, hpre]
  have : (n ∈ signals ∧ n < sig) ∧ Due p.sig.pending p.sig n ↔ Dropped p sig n :=
    ⟨fun h => ⟨h.1.1, h.1.2, h.2, hf.least n h.1.1 h.1.2 h.2⟩, fun h => ⟨⟨h.1, h.2.1⟩, h.2.2.1⟩⟩
  rw [this]

/-! ## 扱い -/

theorem Stops.not_kills {st : SignalState} (h : Stops st sig) : ¬ Kills st sig := by
  rintro ⟨-, -, -, hstop, h₁, h₂, h₃⟩
  rcases h with h | ⟨h | h | h, -⟩
  · exact hstop h
  · exact h₁ h
  · exact h₂ h
  · exact h₃ h

theorem Stops.not_caught {st : SignalState} (h : Stops st sig) : ¬ Caught st sig := by
  rintro ⟨-, hstop, -, hdfl⟩
  rcases h with h | ⟨-, h⟩
  · exact hstop h
  · exact hdfl h

theorem Kills.not_caught {st : SignalState} (h : Kills st sig) : ¬ Caught st sig :=
  fun hc => hc.2.2.2 h.1

theorem Obeyed.congr {p'' : Pcb} {r' : Regs} (h : Obeyed p r sig p' r') (hstate : p''.state = p'.state)
    (hsig : p''.sig = p'.sig) : Obeyed p r sig p'' r' where
  kind := h.kind
  stops := by
    rw [hstate, hsig]
    exact h.stops
  kills := by
    rw [hstate]
    exact h.kills
  caught := by
    rw [hsig]
    exact h.caught
  overflow := by
    rw [hstate]
    exact h.overflow
  pending := by
    rw [hsig]
    exact h.pending

/-- 自分のビットも消した項目に残る信号。 -/
theorem FirstDue.clear_bit (h : FirstDue p pre sig) (hf : Foremost p sig) (hno : ¬ Overflows p r sig) :
    (clear_pending sig (pass_all p.sig.pending pre p).sig).pending.getLsbD n = true ↔
      p.sig.pending.getLsbD n = true ∧ ¬ Dropped p sig n ∧ (n = sig → Overflows p r sig) := by
  rw [clear_pending_bit, h.pass_bit hf]
  constructor
  · rintro ⟨⟨hp, hd⟩, hne⟩
    exact ⟨hp, hd, fun h => absurd h hne⟩
  · rintro ⟨hp, hd, hself⟩
    exact ⟨⟨hp, hd⟩, fun h => hno (hself h)⟩

theorem FirstDue.obey_stop (h : FirstDue p pre sig) (hf : Foremost p sig) (hs : Stops p.sig sig) :
    Obeyed p r sig (stopped_pcb sig (pass_all p.sig.pending pre p)) r where
  kind := .inl hs
  stops _ := ⟨rfl, rfl, rfl⟩
  kills hk := absurd hk hs.not_kills
  caught hc := absurd hc hs.not_caught
  overflow ho := absurd ho.1 hs.not_caught
  pending _ := h.clear_bit hf fun ho => hs.not_caught ho.1

theorem FirstDue.obey_kill (h : FirstDue p pre sig) (hf : Foremost p sig) (hk : Kills p.sig sig) :
    Obeyed p r sig (ended_pcb (clear_pending sig) (pass_all p.sig.pending pre p)) r where
  kind := .inr (.inl hk)
  stops hs := absurd hk hs.not_kills
  kills _ := ⟨rfl, rfl⟩
  caught hc := absurd hc hk.not_caught
  overflow ho := absurd ho.1 hk.not_caught
  pending _ := h.clear_bit hf fun ho => hk.not_caught ho.1

theorem FirstDue.obey_overflow (h : FirstDue p pre sig) (hf : Foremost p sig) (ho : Overflows p r sig) :
    Obeyed p r sig (ended_pcb (fun st => { st with mask := st.saved_mask })
      (saved_pcb sig r (pass_all p.sig.pending pre p))) r where
  kind := .inr (.inr ho.1)
  stops hs := absurd ho.1 hs.not_caught
  kills hk := absurd ho.1 hk.not_caught
  caught _ hok := by cases ho.2.symm.trans hok
  overflow _ := ⟨rfl, rfl⟩
  pending n := by
    have := h.pass_bit (n := n) hf
    constructor
    · intro hn
      exact ⟨(this.mp hn).1, (this.mp hn).2, fun _ => ho⟩
    · rintro ⟨hp, hd, -⟩
      exact this.mpr ⟨hp, hd⟩

theorem FirstDue.obey_caught (h : FirstDue p pre sig) (hf : Foremost p sig) (hc : Caught p.sig sig)
    (hok : stack_ok r = true) :
    Obeyed p r sig (handler_pcb sig (saved_pcb sig r (pass_all p.sig.pending pre p)))
      { r with
        useresp := sub32 (sub32 r.useresp 4) 4
        eip := (pass_all p.sig.pending pre p).sig.disposition sig
        ebx := sig } where
  kind := .inr (.inr hc)
  stops hs := absurd hc hs.not_caught
  kills hk := absurd hc hk.not_caught
  caught _ _ := by
    have hsame := pass_all_same p.sig.pending pre p
    rw [hsame.disposition]
    exact ⟨rfl, rfl, hsame.mask, ⟨rfl, rfl, rfl, rfl, rfl, rfl, rfl, rfl, rfl, rfl⟩⟩
  overflow ho := by cases ho.2.symm.trans hok
  pending _ := h.clear_bit hf fun ho => by cases ho.2.symm.trans hok

/-- CPU にある、待っていない項目の信号の状態は、親を起こしても変わらない。 -/
theorem unblock_parent_sig {pid : Nat} {b : Bool} (hst : (K.table i).state ≠ .blocked)
    (hcur : K.current_process = some i) :
    ((unblock_parent K pid b).table i).sig = (K.table i).sig := by
  have hwake : ∀ k, (K.table k).state = .blocked →
      ((wake_parent K k pid b).table i) = K.table i := by
    intro k hk
    rw [wake_parent_ne]
    rintro rfl
    exact hst hk
  rcases unblock_parent_cases K pid b with heq | ⟨c, k, -, -, hk, -, ⟨heq, -⟩ | ⟨-, hc, heq⟩⟩
  · rw [heq]
  · rw [heq, hwake k hk]
  · have hci : i ≠ c := by
      rintro rfl
      exact hc hcur
    rw [heq, cleanup_table, if_neg hci, hwake k hk]

theorem settle_end (b : Bool) (q : Pcb) (hcur : K.current_process = some i) (hst : q.state ≠ .blocked) :
    ((unblock_parent (K.modify i fun _ => q) q.pid b).table i).state = q.state ∧
      ((unblock_parent (K.modify i fun _ => q) q.pid b).table i).sig = q.sig := by
  have hself : (K.modify i fun _ => q).table i = q := K.modify_self i _
  refine ⟨?_, ?_⟩
  · rw [unblock_parent_state (by rw [hself]; exact hst), hself]
  · have hcur' : (K.modify i fun _ => q).current_process = some i := hcur
    rw [unblock_parent_sig (by rw [hself]; exact hst) hcur', hself]

/-- 処理した信号が最小であり、ほかに最小の信号はない。 -/
theorem FirstDue.obeyed {r' : Regs} {P : Prop} (h : FirstDue p pre sig)
    (hstop : p.sig.disposition SIGSTOP = SIG_DFL) (hcont : ¬ Foremost p SIGCONT)
    (hkind : Stops p.sig sig ∨ Kills p.sig sig ∨ Caught p.sig sig)
    (hob : Foremost p sig → Obeyed p r sig p' r') :
    (∀ s, Foremost p s → Obeyed p r s p' r') ∧ ((∀ s, ¬ Foremost p s) → P) := by
  have hf := h.foremost hstop hcont hkind
  refine ⟨fun s hs => ?_, fun hnone => absurd hf (hnone sig)⟩
  rw [hs.unique hf]
  exact hob hf

/-- `SIGKILL` が溜まっておらず、`SIGCONT` のハンドラの番でもなければ、最小の信号をその扱いに従って処理し、
    それより小さい無視する信号を消す。 -/
theorem signal_phase_obeys (hon : OnCpu i K) (hin : (K.table i).sig.in_handler = false)
    (hkill : (K.table i).sig.pending.getLsbD SIGKILL = false)
    (hstop : (K.table i).sig.disposition SIGSTOP = SIG_DFL) (hcont : ¬ Foremost (K.table i) SIGCONT) :
    (∀ sig, Foremost (K.table i) sig →
      Obeyed (K.table i) r sig ((deliver_signals K r).1.table i) (deliver_signals K r).2) ∧
    ((∀ sig, ¬ Foremost (K.table i) sig) → (deliver_signals K r).2 = r ∧
      ∀ n, ((deliver_signals K r).1.table i).sig.pending.getLsbD n = true ↔
        (K.table i).sig.pending.getLsbD n = true ∧
          ¬ (n ∈ signals ∧ Due (K.table i).sig.pending (K.table i).sig n)) := by
  by_cases hsig : Signals (K.table i)
  · obtain ⟨fate, p', hp, hd⟩ := deliver_signals_running (r := r) hon.cur hsig
    rw [hd]
    cases hp with
    | killed h => cases hkill.symm.trans h
    | passed _ hall =>
      have hign := passed_all_ignored (s := NSIG) hcont fun n hn _ => hall n hn
      refine ⟨fun sig h => absurd (hign sig h.mem ?_ h.due) h.acts, fun _ => ⟨rfl, fun n => ?_⟩⟩
      · have := List.mem_range'_1.mp h.mem
        simp only [NSIG] at this ⊢
        omega
      · rw [settle, Kernel.modify_self, pass_all_bit]
    | stops hfirst hs =>
      refine hfirst.obeyed hstop hcont (.inl hs) fun hf => ?_
      obtain ⟨hst, hsg⟩ := settle_end false (stopped_pcb _ _) hon.current (by simp [stopped_pcb])
      exact (hfirst.obey_stop hf hs).congr hst hsg
    | kills hfirst hk =>
      refine hfirst.obeyed hstop hcont (.inr (.inl hk)) fun hf => ?_
      obtain ⟨hst, hsg⟩ := settle_end true (ended_pcb _ _) hon.current (by simp [ended_pcb])
      exact (hfirst.obey_kill hf hk).congr hst hsg
    | overflow hfirst hc hbad =>
      refine hfirst.obeyed hstop hcont (.inr (.inr hc)) fun hf => ?_
      obtain ⟨hst, hsg⟩ := settle_end true (ended_pcb _ _) hon.current (by simp [ended_pcb])
      exact (hfirst.obey_overflow hf ⟨hc, hbad⟩).congr hst hsg
    | caught hfirst hc hok =>
      refine hfirst.obeyed hstop hcont (.inr (.inr hc)) fun hf => ?_
      rw [settle]
      exact (hfirst.obey_caught hf hc hok).congr (by rw [Kernel.modify_self]) (by rw [Kernel.modify_self])
  · -- 溜まった信号がない
    have h0 : (K.table i).sig.pending = 0#32 := by
      by_contra hne
      exact hsig ⟨hne, hon.running, hin⟩
    rw [deliver_signals_skip hon.cur hsig]
    refine ⟨fun sig h => ?_, fun _ => ⟨rfl, fun n => ?_⟩⟩
    · have := h.due.1
      simp [h0] at this
    · simp [h0]

/-- `SIGCONT` のハンドラを登録し、自分に送る。 -/
def continue_caught : Trace (exec step (boot 1 1 0)) (fun K => K.current_process = some 1 ∧
    (K.table 1).sig.in_handler = false ∧ (K.table 1).sig.pending = SIG_BIT SIGCONT ∧
    Foremost (K.table 1) SIGCONT ∧ (K.table 1).sig.disposition SIGCONT = 0x08048100 ∧
    ((deliver_signals K user_regs).1.table 1).sig.in_handler = false ∧
    (deliver_signals K user_regs).2 = user_regs) :=
  ⟨start_shell ++ [call 29 SIGCONT 0x08048100, call 13 1 SIGCONT], by decide +kernel⟩

/-- `SIGINT` のハンドラを登録し、自分に送る。 -/
def interrupt_caught : Trace (exec step (boot 1 1 0)) (fun K => K.current_process = some 1 ∧
    (K.table 1).sig.in_handler = false ∧ (K.table 1).sig.pending = SIG_BIT SIGINT ∧
    (K.table 1).sig.disposition SIGSTOP = SIG_DFL ∧ ¬ Foremost (K.table 1) SIGCONT ∧
    Foremost (K.table 1) SIGINT ∧ (K.table 1).sig.disposition SIGINT = 0x08048100 ∧
    ((deliver_signals K { useresp := 0x1000 }).1.table 1).state = .terminated) :=
  ⟨start_shell ++ [call 29 SIGINT 0x08048100, call 13 1 SIGINT], by decide +kernel⟩

/-- `SIGCONT` のハンドラには入らず、スタックが範囲の外なら `SIGINT` のハンドラにも入らない。 -/
theorem handler_not_entered :
    (∃ K, Steps step (fun _ _ => True) (boot 1 1 0) K ∧ OnCpu 1 K ∧ (K.table 1).sig.in_handler = false ∧
      (K.table 1).sig.pending = SIG_BIT SIGCONT ∧ Foremost (K.table 1) SIGCONT ∧
      (K.table 1).sig.disposition SIGCONT = 0x08048100 ∧
      ((deliver_signals K user_regs).1.table 1).sig.in_handler = false ∧
      (deliver_signals K user_regs).2 = user_regs) ∧
    ∃ K, Steps step (fun _ _ => True) (boot 1 1 0) K ∧ OnCpu 1 K ∧ (K.table 1).sig.in_handler = false ∧
      (K.table 1).sig.pending = SIG_BIT SIGINT ∧ Foremost (K.table 1) SIGINT ∧
      (K.table 1).sig.disposition SIGINT = 0x08048100 ∧
      ((deliver_signals K { useresp := 0x1000 }).1.table 1).state = .terminated := by
  obtain ⟨K, hK, hcur, hrest⟩ := continue_caught.steps
  obtain ⟨L, hL, hcur', hin, hp, -, -, hf, hd, hst⟩ := interrupt_caught.steps
  have hs := (Synced.boot 1 1 0).run hK
  have hs' := (Synced.boot 1 1 0).run hL
  exact ⟨⟨K, hK, hs.on_cpu 1 (hs.current ▸ hcur), hrest⟩,
    L, hL, hs'.on_cpu 1 (hs'.current ▸ hcur'), hin, hp, hf, hd, hst⟩

theorem signal_phase_obeys_interrupt :
    ∃ K, Steps step (fun _ _ => True) (boot 1 1 0) K ∧
      Obeyed (K.table 1) user_regs SIGINT ((deliver_signals K user_regs).1.table 1)
        (deliver_signals K user_regs).2 := by
  obtain ⟨K, hK, hcur, hin, hp, hstop, hcont, hf, -⟩ := interrupt_caught.steps
  have hs := (Synced.boot 1 1 0).run hK
  have hkill : (K.table 1).sig.pending.getLsbD SIGKILL = false := by
    rw [hp]
    decide
  exact ⟨K, hK, (signal_phase_obeys (hs.on_cpu 1 (hs.current ▸ hcur)) hin hkill hstop hcont).1 SIGINT hf⟩

end MyOS.Proc
