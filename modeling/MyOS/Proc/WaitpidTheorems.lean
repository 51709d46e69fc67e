import MyOS.Proc.Lemmas.Nap
import MyOS.Proc.Lemmas.Wait

/-!
# `waitpid` の二つの順序

子が `waitpid` の前に終わる順序では `syscall_waitpid` が答え、待っている間に終わる順序では
`unblock_parent` が控えた枠に書く。止まった子については、二つの答えの符号が異なる。
-/

namespace MyOS.Proc
open MyOS.Lib

variable {K₀ K K' K₁ L X : Kernel} {ev : Event} {i j c c' req : Nat} {b : Bool} {r : Regs}

/-- 番号 `req` の子 `c` と、その親 `i`。 -/
structure ChildOf (K : Kernel) (i c req : Nat) : Prop where
  self : get_process_by_pid K (K.table i).pid = some i
  child : get_process_by_pid K req = some c
  listed : req ∈ (K.table i).children
  parent : (K.table c).parent_id = (K.table i).pid

/-- 子の終わり方。終了か停止である。 -/
def ended (b : Bool) : ProcState := if b then .terminated else .stopped

/-- 番号 `x` の項目の状態が `s` である。 -/
def has_state (K : Kernel) (s : ProcState) (x : Nat) : Bool :=
  (get_process_by_pid K x).any fun j => (K.table j).state == s

/-- `req` より前に、終了した子が並んでいない。 -/
def FirstDead (K : Kernel) (i req : Nat) : Prop :=
  ∃ l₁ l₂, (K.table i).children = l₁ ++ req :: l₂ ∧ ∀ x ∈ l₁, has_state K .terminated x = false

def Outcome.value : Outcome → Option Nat
  | .returns _ _ v => some v
  | .leaves _ => none

/-- `waitpid` がその場で返す値。待ちに入れば `none` である。 -/
def waitpid_value (K : Kernel) (i : Nat) (r : Regs) : Option Nat :=
  (syscall_waitpid K i r).bind Outcome.value

/-! ## 先に終わる -/

theorem find_child_eq (hself : get_process_by_pid K (K.table i).pid = some j) (s : ProcState) :
    find_child K (K.table i).pid (· == s) = (K.table j).children.find? (has_state K s) := by
  rw [find_child, hself]
  rfl

theorem has_state_eq (hchild : get_process_by_pid K req = some c) (s : ProcState) :
    has_state K s req = ((K.table c).state == s) := by
  rw [has_state, hchild]
  rfl

/-- 終了した子が先頭にあるのは、`find_terminated_child` が返すときである。 -/
theorem first_dead_iff (hself : get_process_by_pid K (K.table i).pid = some j)
    (hdead : has_state K .terminated req = true) :
    FirstDead K j req ↔ find_child K (K.table i).pid (· == .terminated) = some req := by
  rw [find_child_eq hself, List.find?_eq_some_iff_append]
  constructor
  · rintro ⟨l₁, l₂, hl, hbefore⟩
    exact ⟨hdead, l₁, l₂, hl, fun x hx => by rw [hbefore x hx]; rfl⟩
  · rintro ⟨-, l₁, l₂, hl, hbefore⟩
    exact ⟨l₁, l₂, hl, fun x hx => by simpa using hbefore x hx⟩

theorem ChildOf.first_dead (h : ChildOf K i c req) (hdead : (K.table c).state = .terminated) :
    FirstDead K i req ↔ find_child K (K.table i).pid (· == .terminated) = some req :=
  first_dead_iff h.self (by rw [has_state_eq h.child, hdead]; rfl)

/-- 状態の違う子は見つからない。 -/
theorem ChildOf.not_found (h : ChildOf K i c req) {s : ProcState} (hs : (K.table c).state ≠ s) :
    find_child K (K.table i).pid (· == s) ≠ some req := by
  intro hf
  rw [find_child_eq h.self] at hf
  have := List.find?_some hf
  rw [has_state_eq h.child] at this
  exact hs (by simpa using this)

theorem getD_ne {o : Option Nat} (h0 : req ≠ 0) (h : o ≠ some req) : o.getD 0 ≠ req := by
  cases o with
  | none => exact h0.symm
  | some x => exact fun hx => h (congrArg some hx)

/-- 最初に見つかる終了した子が `req` なら、後始末して返す。 -/
theorem waitpid_reap (h0 : r.ebx ≠ 0)
    (hf : find_child K (K.table i).pid (· == .terminated) = some r.ebx) :
    syscall_waitpid K i r = reap K i r.ebx r := by
  have hdead : find_terminated_child K (K.table i).pid = r.ebx := by
    rw [find_terminated_child, hf]
    rfl
  rw [syscall_waitpid]
  dsimp only
  rw [hdead, if_pos ⟨h0, .inr rfl⟩]

/-- 終了した子が先頭にあれば、その番号を返す。 -/
theorem waitpid_value_dead (h : ChildOf K i c req) (hdead : (K.table c).state = .terminated)
    (hfirst : FirstDead K i req) (h0 : req ≠ 0) (hebx : r.ebx = req) : waitpid_value K i r = some req := by
  subst hebx
  rw [waitpid_value, waitpid_reap h0 ((h.first_dead hdead).mp hfirst)]
  rfl

/-- 最初に見つかる終了した子が `req` でなければ、報告は増えない。 -/
theorem waitpid_no_report (h0 : r.ebx ≠ 0)
    (hf : find_child K (K.table i).pid (· == .terminated) ≠ some r.ebx) :
    ∀ K' r' v, syscall_waitpid K i r = some (.returns K' r' v) → K'.reports = K.reports := by
  intro K' r' v h
  have hdead : ¬ (find_terminated_child K (K.table i).pid ≠ 0 ∧
      (r.ebx = 0 ∨ r.ebx = find_terminated_child K (K.table i).pid)) := by
    rintro ⟨-, hz | he⟩
    · exact h0 hz
    · exact getD_ne h0 hf he.symm
  rw [syscall_waitpid] at h
  dsimp only at h
  rw [if_neg hdead] at h
  split at h
  · split at h
    · cases h
      rfl
    · cases h
      rfl
  · split at h
    · split at h
      · cases h
        rfl
      · rw [to_schedule] at h
        obtain ⟨L, -, hL⟩ := Option.map_eq_some_iff.mp h
        cases hL
    · cases h
      rfl

/-- 終了した子 `req` を待つ `waitpid` が後始末してその番号を返すのは、親の列で `req` より前に終了した子が
    ないとき、そのときに限る。`j` は親の番号で見つかる項目である。 -/
theorem waitpid_reaps_iff (h0 : r.ebx ≠ 0) (hdead : has_state K .terminated r.ebx = true) :
    syscall_waitpid K i r = reap K i r.ebx r ↔
      ∃ j, get_process_by_pid K (K.table i).pid = some j ∧ FirstDead K j r.ebx := by
  have hfind : (∃ j, get_process_by_pid K (K.table i).pid = some j ∧ FirstDead K j r.ebx) ↔
      find_child K (K.table i).pid (· == .terminated) = some r.ebx := by
    constructor
    · rintro ⟨j, hj, hfirst⟩
      exact (first_dead_iff hj hdead).mp hfirst
    · intro hf
      cases hj : get_process_by_pid K (K.table i).pid with
      | none => simp [find_child, hj] at hf
      | some j => exact ⟨j, rfl, (first_dead_iff hj hdead).mpr hf⟩
  rw [hfind]
  refine ⟨fun h => ?_, waitpid_reap h0⟩
  by_contra hf
  have hsame := waitpid_no_report h0 hf _ _ _ h
  have hgrow := reaped_reports K i r.ebx
  rw [reaped, hsame] at hgrow
  exact (List.cons_ne_self _ _) hgrow.symm

/-- 終了した子が二人ある。 -/
def two_dead : Trace (exec step (boot 1 1 0)) (fun K => K.current_process = some 1 ∧
    (K.table 1).children = [2, 3] ∧ has_state K .terminated 2 = true ∧ has_state K .terminated 3 = true ∧
    get_process_by_pid K (K.table 1).pid = some 1 ∧
    waitpid_value K 1 { user_regs with eax := 31, ebx := 3 } = some NEG1) :=
  ⟨start_shell ++ [call 24, call 24, tick, call 5, call 5, tick], by decide +kernel⟩

/-- 二人目を待つと、-1 が返る。 -/
theorem waitpid_second_lost :
    ∃ K, Steps step (fun _ _ => True) (boot 1 1 0) K ∧ K.current_process = some 1 ∧
      3 ∈ (K.table 1).children ∧ has_state K .terminated 3 = true ∧
      waitpid_value K 1 { user_regs with eax := 31, ebx := 3 } = some NEG1 := by
  obtain ⟨K, hK, hcur, hkids, -, hdead, -, hval⟩ := two_dead.steps
  exact ⟨K, hK, hcur, by simp [hkids], hdead, hval⟩

theorem waitpid_reaps_first :
    ∃ K, Steps step (fun _ _ => True) (boot 1 1 0) K ∧
      syscall_waitpid K 1 { user_regs with eax := 31, ebx := 2 } =
        reap K 1 2 { user_regs with eax := 31, ebx := 2 } := by
  obtain ⟨K, hK, -, hkids, hdead, -, hself, -⟩ := two_dead.steps
  exact ⟨K, hK, (waitpid_reaps_iff (r := { user_regs with eax := 31, ebx := 2 }) (by decide) hdead).mpr
    ⟨1, hself, [], [3], hkids, fun x hx => by cases hx⟩⟩

/-- 先頭でない終了した子や、止まった子の番号は返さない。 -/
theorem waitpid_value_other (h : ChildOf K i c req) (hst : (K.table c).state = ended b)
    (hnot : ¬ (b = true ∧ FirstDead K i req)) (h0 : req ≠ 0) (hebx : r.ebx = req) (hopt : r.ecx % 2 = 0) :
    waitpid_value K i r = none ∨ waitpid_value K i r = some NEG1 ∨ waitpid_value K i r = some (neg32 req) := by
  have hdead : find_terminated_child K (K.table i).pid ≠ req := by
    refine getD_ne h0 ?_
    cases b with
    | true => exact fun hf => hnot ⟨rfl, (h.first_dead hst).mpr hf⟩
    | false =>
      have hne : (K.table c).state ≠ .terminated := by
        rw [hst]
        simp [ended]
      exact h.not_found hne
  have hleaves : ∀ L r', (to_schedule L r').bind Outcome.value = none := by
    intro L r'
    rw [to_schedule]
    cases schedule L r' <;> rfl
  rw [waitpid_value, syscall_waitpid]
  dsimp only
  rw [hebx, if_neg (by tauto), if_neg (by omega)]
  by_cases hlive : has_live_children K (K.table i).pid = true
  · rw [if_pos hlive]
    by_cases hs : find_stopped_child K (K.table i).pid ≠ 0 ∧
        (req = 0 ∨ req = find_stopped_child K (K.table i).pid)
    · rw [if_pos hs, ← hs.2.resolve_left h0]
      exact .inr (.inr rfl)
    · rw [if_neg hs, hleaves]
      exact .inl rfl
  · rw [if_neg hlive]
    exact .inr (.inl rfl)

/-! ## 待っている間に終わる -/

theorem Ends.cur (h : Ends K₀ ev i b L) : L.cur_proccess_id = some i := by
  cases h with
  | exit hq => exact (exit_tree_clean ..).cur.trans hq.onCpu.cur
  | fail hc => exact (exec_reset_clean K₀ i).cur.trans hc.cur
  | signal _ hcur => exact hcur
  | stop _ hcur => exact hcur

theorem Ends.rooted (hs : Synced K₀) (h : Ends K₀ ev i b L) (hr : Rooted K₀) : Rooted L := by
  obtain ⟨hrest, -, -, htree⟩ := h.frame hs
  exact ⟨hrest.num ▸ hr.num, (htree 0).pid.trans hr.pid, (htree 0).parent.trans hr.parent⟩

/-- 待っている親の控えた `eax` に、子の番号が入る。 -/
theorem ChildOf.woken (h : ChildOf L i c req) (hb : (L.table i).state = .blocked)
    (hw : (L.table i).waiting_on_pid = req) :
    ((unblock_parent L req b).table i).state = .ready ∧ ((unblock_parent L req b).table i).tf.eax = req := by
  have hwoken : ((wake_parent L i req b).table i).state = .ready ∧
      ((wake_parent L i req b).table i).tf.eax = req := by
    rw [wake_parent_self]
    exact ⟨rfl, rfl⟩
  simp only [unblock_parent, h.child, h.parent, h.self]
  rw [if_pos ⟨hb, .inr hw⟩]
  split
  · rw [cleanup_state, cleanup_tf]
    exact hwoken
  · exact hwoken

/-- 待っている間に子が終われば、親は CPU に戻るときに子の番号を受け取る。 -/
theorem ChildOf.delivered {w : Nap} (hs : Synced K₀) (hr : Rooted K₀) (he : Ends K₀ ev c b L)
    (h : ChildOf L i c req) (hi : i ≠ 0) (hb : (L.table i).state = .blocked)
    (hw : (L.table i).waiting_on_pid = req)
    (hX : X = unblock_parent L req b ∨ X = { unblock_parent L req b with current_process := none })
    (hfin : Fin K₀ ev X K₁) (hs₁ : Synced K₁) (hrun : Steps (nap i) (fun _ _ => True) ⟨K₁, 0⟩ w)
    (hback : w.kernel.current_process = some i) : w.kernel.ctx.eax = req := by
  have hpid : (L.table c).pid = req := (get_process_by_pid_spec h.child).2
  have hact : Act K₀ ev L (unblock_parent L req b) := hpid ▸ .unblock he
  have hframe := hact.frame
  have hroot := (he.rooted hs hr).kin hact.tree_step.kin
  have hcur : (unblock_parent L req b).cur_proccess_id = some c := hframe.cur.trans he.cur
  have hci : c ≠ i := by
    rintro rfl
    cases he with
    | exit => cases (exit_tree_state K₀ c _).symm.trans hb
    | fail =>
      rw [exec_fail_self] at hb
      cases hb
    | signal _ _ hsig hp =>
      rw [show (written _ c _ _ _).table c = _ from if_pos rfl] at hb
      exact hp.not_blocked hsig.2.1 hb
    | stop _ _ hsig hp =>
      rw [show (written _ c _ _ _).table c = _ from if_pos rfl] at hb
      exact hp.not_blocked hsig.2.1 hb
  have hcur₀ : K₀.cur_proccess_id = some c := (he.frame hs).1.cur ▸ he.cur
  obtain ⟨hst, heax⟩ := h.woken (b := b) hb hw
  have hmid : NapMid (· = req) i K₀ X := by
    have hlt : i < L.num_processes := (get_process_by_pid_spec h.self).1
    have hne : (unblock_parent L req b).cur_proccess_id ≠ some i := by
      rw [hcur]
      exact fun h => hci (Option.some.inj h)
    have hm : NapMid (· = req) i K₀ (unblock_parent L req b) :=
      ⟨hroot, Nat.lt_of_lt_of_le hlt hframe.num, hcur.trans hcur₀.symm, hne, .ready hst heax⟩
    rcases hX with rfl | rfl
    · exact hm
    · exact ⟨⟨hm.rooted.num, hm.rooted.pid, hm.rooted.parent⟩, hm.lt, hm.cur, hm.off, hm.answer⟩
  obtain ⟨hsw, hI⟩ := NapInv.run hrun hs₁ (hmid.fin hfin) hi
  exact hI.back (hsw.current ▸ hback)

/-! ## 二つの順序の比較 -/

/-- 先に終わった子について `waitpid` が返す値と、待っている間に終わった子について親が受け取る値は、子が終了し、
    その前に終了した子が並んでいないときに等しい。番号が負の値にならない限り、ほかのときは異なる。 -/
theorem waitpid_same_value (rc_in rc_out mounts : Nat) {w : Nap} (hA : ChildOf K i c req)
    (hst : (K.table c).state = ended b) (h0 : req ≠ 0) (hebx : r.ebx = req) (hopt : r.ecx % 2 = 0)
    (hrun : Steps step (fun _ _ => True) (boot rc_in rc_out mounts) K₀) (hstep : step K₀ ev = some K₁)
    (he : Ends K₀ ev c' b L) (hB : ChildOf L j c' req) (hj : j ≠ 0) (hb : (L.table j).state = .blocked)
    (hw : (L.table j).waiting_on_pid = req)
    (hX : X = unblock_parent L req b ∨ X = { unblock_parent L req b with current_process := none })
    (hfin : Fin K₀ ev X K₁) (hnap : Steps (nap j) (fun _ _ => True) ⟨K₁, 0⟩ w)
    (hback : w.kernel.current_process = some j) :
    (b = true ∧ FirstDead K i req → waitpid_value K i r = some w.kernel.ctx.eax) ∧
      (req < 2 ^ 31 → waitpid_value K i r = some w.kernel.ctx.eax → b = true ∧ FirstDead K i req) := by
  have hs := (Synced.boot rc_in rc_out mounts).run hrun
  have hr := Rooted.run hrun (.boot ..) (.boot ..)
  rw [hB.delivered hs hr he hj hb hw hX hfin (hs.step hstep) hnap hback]
  refine ⟨fun ⟨hbt, hfirst⟩ => ?_, fun hlt hv => ?_⟩
  · subst hbt
    exact waitpid_value_dead hA hst hfirst h0 hebx
  · by_contra hnot
    rcases waitpid_value_other hA hst hnot h0 hebx hopt with h | h | h
    · cases h.symm.trans hv
    · have := Option.some.inj (h.symm.trans hv)
      rw [NEG1] at this
      omega
    · have := Option.some.inj (h.symm.trans hv)
      rw [neg32, sub32] at this
      omega

/-- `exit` の一歩。 -/
theorem step_exit {env : Env} (hc : Calls K ev c env r) (heax : r.eax = 5) (h : step K ev = some K') :
    Fin K ev (departed K c (List.range MAX_FILES)) K' := by
  obtain ⟨r₀, rfl, rfl⟩ := hc.event
  have heax₀ : r₀.eax = 5 := heax
  have hsys : syscall K c env { r₀ with cs := K.ctx.cs } = syscall_exit K c { r₀ with cs := K.ctx.cs } := by
    simp only [syscall, heax₀]
  simp only [step, hc.current] at h
  rw [if_neg (by simp [hc.pos, hc.call]), handle_syscalls, hsys, syscall_exit] at h
  obtain ⟨o, ho, hK'⟩ := Option.map_eq_some_iff.mp h
  obtain ⟨K₁, hK₁, rfl⟩ := Option.map_eq_some_iff.mp ho
  cases hK'
  exact ((Quits.exit hc heax).departs hc.cs (.inl ⟨env, hc, heax⟩) hK₁).2

/-- 子が先に終了した状態。 -/
def dead_first : Trace (exec step (boot 1 1 0)) (fun K => (K.table 2).state = .terminated ∧
    (K.table 1).pid = 1 ∧ (K.table 2).pid = 2 ∧ (K.table 2).parent_id = 1 ∧ (K.table 1).children = [2] ∧
    get_process_by_pid K 1 = some 1 ∧ get_process_by_pid K 2 = some 2) :=
  ⟨start_shell ++ [call 24, tick, call 5, tick], by decide +kernel⟩

/-- `exit` で終わった状態。 -/
def exited (K : Kernel) (i : Nat) : Kernel := exit_tree K i (List.range MAX_FILES)

/-- シェルが子を待ち、子が走っている状態と、子が終わってシェルが戻るまで。 -/
def dead_later : Trace (exec step (boot 1 1 0)) (fun K =>
    K.current_process = some 2 ∧ (K.table 2).pipe_call.isNone ∧
    ((exited K 2).table 1).state = .blocked ∧ ((exited K 2).table 1).waiting_on_pid = 2 ∧
    ((exited K 2).table 1).pid = 1 ∧ (K.table 2).pid = 2 ∧ ((exited K 2).table 2).parent_id = 1 ∧
    ((exited K 2).table 1).children = [2] ∧ get_process_by_pid (exited K 2) 1 = some 1 ∧
    get_process_by_pid (exited K 2) 2 = some 2 ∧
    (step K (call 5)).any (fun K₁ => (exec (nap 1) ⟨K₁, 0⟩ [tick]).any fun w =>
      decide (w.kernel.current_process = some 1)) = true) :=
  ⟨start_shell ++ [call 24, call 31 2], by decide +kernel⟩

theorem waitpid_same_value_exit :
    ∃ (K : Kernel) (w : Nap), Steps step (fun _ _ => True) (boot 1 1 0) K ∧ (K.table 2).state = .terminated ∧
      w.kernel.current_process = some 1 ∧
      waitpid_value K 1 { user_regs with eax := 31, ebx := 2 } = some w.kernel.ctx.eax := by
  obtain ⟨K, hK, hdead, hp1, -, hpar, hkids, hg1, hg2⟩ := dead_first.steps
  obtain ⟨K₀, hK₀, hcur, hcall, hb, hw, hq1, hq2, hqpar, hqkids, hqg1, hqg2, hend⟩ := dead_later.steps
  obtain ⟨K₁, hK₁, hend⟩ := (Option.any_eq_true _ _).mp hend
  obtain ⟨w, hnap, hback⟩ := (Option.any_eq_true _ _).mp hend
  have hs := (Synced.boot 1 1 0).run hK₀
  have hon := hs.on_cpu 2 (hs.current ▸ hcur)
  have hc : Calls K₀ (call 5) 2 {} { user_regs with eax := 5, cs := K₀.ctx.cs } :=
    ⟨hon, ⟨_, rfl, rfl⟩, by decide, Option.isNone_iff_eq_none.mp hcall⟩
  have hA : ChildOf K 1 2 2 := ⟨hp1.symm ▸ hg1, hg2, by simp [hkids], hpar.trans hp1.symm⟩
  have hB : ChildOf (exited K₀ 2) 1 2 2 := ⟨hq1.symm ▸ hqg1, hqg2, by simp [hqkids], hqpar.trans hq1.symm⟩
  have hfirst : FirstDead K 1 2 := ⟨[], [], hkids, fun x hx => by cases hx⟩
  have hfin := step_exit hc rfl hK₁
  rw [departed, hq2] at hfin
  exact ⟨K, w, hK, hdead, of_decide_eq_true hback,
    (waitpid_same_value (b := true) 1 1 0 hA hdead (by decide) rfl rfl hK₀ hK₁ (.exit (.exit hc rfl)) hB (by decide)
      hb hw (.inr rfl) hfin (.of_exec hnap) (of_decide_eq_true hback)).1 ⟨rfl, hfirst⟩⟩

/-- 二人の子のうち、一人が先に止まる。 -/
def stopped_first : Trace (exec step (boot 1 1 0)) (fun K => K.current_process = some 1 ∧
    (K.table 2).pid = 2 ∧ (K.table 2).state = .stopped ∧ 2 ∈ (K.table 1).children ∧
    waitpid_value K 1 { user_regs with eax := 31, ebx := 2 } = some (neg32 2)) :=
  ⟨start_shell ++ [call 24, call 24, call 13 2 SIGSTOP, tick, tick, tick, tick], by decide +kernel⟩

/-- 二人の子のうち、待っている一人が止まる。 -/
def stopped_later : Trace (exec step (boot 1 1 0)) (fun K => (K.table 2).pid = 2 ∧
    (K.table 2).state = .running ∧ (K.table 1).state = .blocked ∧ (K.table 1).waiting_on_pid = 2 ∧
    (exec (nap 1) ⟨K, 0⟩ [tick, tick, tick]).any (fun w => decide (w.kernel.current_process = some 1 ∧
      (w.kernel.table 2).pid = 2 ∧ (w.kernel.table 2).state = .stopped ∧ w.kernel.ctx.eax = 2)) = true) :=
  ⟨start_shell ++ [call 24, call 24, call 13 2 SIGSTOP, call 31 2], by decide +kernel⟩

/-- 止まった子について、先に止まれば番号の符号を変えた値、待っている間に止まれば番号そのものを受け取る。 -/
theorem waitpid_stop_differs :
    ∃ K K' w, Steps step (fun _ _ => True) (boot 1 1 0) K ∧ K.current_process = some 1 ∧
      (K.table 2).pid = 2 ∧ (K.table 2).state = .stopped ∧ 2 ∈ (K.table 1).children ∧
      Steps step (fun _ _ => True) (boot 1 1 0) K' ∧ (K'.table 1).state = .blocked ∧
      (K'.table 1).waiting_on_pid = 2 ∧ (K'.table 2).state = .running ∧
      Steps (nap 1) (fun _ _ => True) ⟨K', 0⟩ w ∧ w.kernel.current_process = some 1 ∧
      (w.kernel.table 2).pid = 2 ∧ (w.kernel.table 2).state = .stopped ∧
      waitpid_value K 1 { user_regs with eax := 31, ebx := 2 } ≠ some w.kernel.ctx.eax := by
  obtain ⟨K, hK, hcur, hpid, hst, hmem, hval⟩ := stopped_first.steps
  obtain ⟨K', hK', -, hrun, hb, hw, hend⟩ := stopped_later.steps
  obtain ⟨w, hnap, hend⟩ := (Option.any_eq_true _ _).mp hend
  obtain ⟨hback, hpid', hst', heax⟩ := of_decide_eq_true hend
  refine ⟨K, K', w, hK, hcur, hpid, hst, hmem, hK', hb, hw, hrun, .of_exec hnap, hback, hpid', hst', ?_⟩
  rw [hval, heax]
  decide

end MyOS.Proc
