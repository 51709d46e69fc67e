import MyOS.Proc.Lemmas.Shell

/-!
# 前景の仕事の行方

シェルは、どの子でもよい `wait` の後に `kill(pid, 0)` で仕事の行方を決める。ほかの子が先に終わると、まだ
走っている仕事を止まったものとして入力へ戻る。
-/

namespace MyOS.Proc
open MyOS.Lib

variable {K K' : Kernel} {ev : Event} {i f : Nat} {env : Env} {r : Regs} {o : Outcome}

/-! ## シェルの呼び出し -/

/-- 呼び出しの後のカーネル。 -/
def Outcome.kernel : Outcome → Kernel
  | .returns K r v => return_to K r v
  | .leaves K => K

theorem Calls.step (hc : Calls K ev i env r) (h : Proc.step K ev = some K') :
    ∃ o, Proc.syscall K i env r = some o ∧ K' = o.kernel := by
  obtain ⟨r₀, rfl, rfl⟩ := hc.event
  simp only [Proc.step, hc.current] at h
  rw [if_neg (by simp [hc.pos, hc.call]), handle_syscalls] at h
  obtain ⟨o, ho, rfl⟩ := Option.map_eq_some_iff.mp h
  exact ⟨o, ho, by cases o <;> rfl⟩

/-- シェルの呼び出しは、シェルの項目の呼び出しである。 -/
theorem shell_call_calls (hs : Synced K) (h : step K ev = some K') (hr : shell_call K ev = some r) :
    ∃ i env, Calls K ev i env { r with cs := K.ctx.cs } ∧ (K.table i).pid = SHELL_PID := by
  cases ev with
  | syscall env r₀ =>
    obtain ⟨i, hi, hr⟩ := Option.bind_eq_some_iff.mp hr
    split at hr
    next hpid =>
      cases hr
      simp only [step, hi] at h
      split at h
      · cases h
      next hcond =>
        simp only [not_or, Option.not_isSome_iff_eq_none] at hcond
        exact ⟨i, env, ⟨hs.on_cpu i (hs.current.symm.trans hi), ⟨_, rfl, rfl⟩, hcond.1, hcond.2⟩, hpid⟩
    · cases hr
  | boot => cases hr
  | timer => cases hr
  | keyboard => cases hr
  | fault => cases hr
  | pipe => cases hr

theorem Calls.shell_call (hc : Calls K ev i env r) (hpid : (K.table i).pid = SHELL_PID) :
    ∃ r₀, Proc.shell_call K ev = some r₀ ∧ r₀.eax = r.eax := by
  obtain ⟨r₀, rfl, rfl⟩ := hc.event
  exact ⟨r₀, by simp [Proc.shell_call, hc.current, hpid], rfl⟩

/-- シェルは `exit` も `sleep` も呼ばない。 -/
theorem Shell.next_eax {s s' : Shell} {v : Nat} (h : s.next r v = some s') :
    r.eax ≠ 5 ∧ r.eax ≠ SYS_SLEEP := by
  constructor
  all_goals
    intro heax
    rw [Shell.next] at h
    dsimp only at h
    rw [if_neg (by rw [heax]; decide)] at h
    cases hp : s.point <;> simp [hp, calls, heax, SYS_SLEEP, SYS_WAIT, SYS_WAITPID] at h

/-! ## 待つこと -/

theorem find_child_eq_some {c : Nat} {q : ProcState → Bool} (hp : PidInv K) (hi : i < K.num_processes)
    (h : find_child K (K.table i).pid q = some c) :
    ∀ k, k < K.num_processes → (K.table k).pid = c → q (K.table k).state = true := by
  rw [find_child, hp.find hi] at h
  intro k hk hkc
  have := List.find?_some h
  rw [← hkc, hp.find hk] at this
  exact this

theorem find_child_eq_none {q : ProcState → Bool} (hp : PidInv K) (hi : i < K.num_processes)
    (h : find_child K (K.table i).pid q = none) :
    ∀ k, k < K.num_processes → (K.table k).pid ∈ (K.table i).children → q (K.table k).state = false := by
  rw [find_child, hp.find hi] at h
  intro k hk hmem
  have := List.find?_eq_none.mp h _ hmem
  rw [hp.find hk] at this
  simpa using this

/-- 走る子がなければ、`f` は走らない。 -/
theorem ShellMid.no_live (h : ShellMid K K) (hf : Kid K f) (hi : i < K.num_processes)
    (hpid : (K.table i).pid = SHELL_PID) (hlive : has_live_children K (K.table i).pid = false) : Halted K f := by
  rw [has_live_children, Option.isSome_eq_false_iff, Option.isNone_iff_eq_none] at hlive
  intro k hk hkf
  by_cases hdead : (K.table k).state = .terminated
  · exact .inr hdead
  · have hmem := h.shell.listed i k hi hk hpid (hf.parent k hk hkf) hdead
    have hq := find_child_eq_none h.pids hi hlive k hk hmem
    left
    by_contra hst
    simp [hdead, hst] at hq

theorem Halted.of_dead (hdead : ∀ k, k < K.num_processes → (K.table k).pid = f → (K.table k).state = .terminated) :
    Halted K f := fun k hk hpid => .inr (hdead k hk hpid)

/-- 後始末した子は終わっている。 -/
theorem ShellMid.reaped_dead (h : ShellMid K K) (hi : i < K.num_processes)
    (h0 : find_terminated_child K (K.table i).pid ≠ 0) (hf : find_terminated_child K (K.table i).pid = f) :
    Agrees (Proc.reaped K i f) f .done := by
  have hdead := (find_terminated_child_spec h.pids hi h0).2
  rw [hf] at hdead
  intro k hk hpid
  have hold := (reaped_ids K i f).old_entry hk
  exact hold.dead (hdead k hold.lt (hold.pid.symm.trans hpid))

theorem ShellMid.reaped (h : ShellMid K K) (hi : i < K.num_processes)
    (h0 : find_terminated_child K (K.table i).pid ≠ 0) (hf : find_terminated_child K (K.table i).pid = f) :
    Halted (Proc.reaped K i f) f :=
  .of_dead (h.reaped_dead hi h0 hf)

/-- 待ちに入ったシェル。 -/
theorem ShellMid.blocks {w : Nat} (hs : Synced K) (h : ShellMid K K) (hok : NoWrap K ev)
    (hcalls : ShellCalls K ev) (hc : Calls K ev i env r) (hpid : (K.table i).pid = SHELL_PID)
    (heax : r.eax = SYS_WAIT ∨ r.eax = SYS_WAITPID)
    (ho : to_schedule (K.modify i fun p => { p with waiting_on_pid := w, state := .blocked }) r = some o) :
    Awaits o.kernel w := by
  obtain ⟨K', hK', rfl⟩ := Option.map_eq_some_iff.mp ho
  have hmid := ShellMid.act hs h hok hcalls h (.block w hc (heax.imp id .inl))
  have hst : ((K.modify i fun p => { p with waiting_on_pid := w, state := .blocked }).table i).state = .blocked := by
    rw [Kernel.modify_self]
  have hfin : Fin K ev (K.modify i fun p => { p with waiting_on_pid := w, state := .blocked }) K' := by
    refine .of_schedule hc.cs (hmid.cur.trans hc.cur) ?_ (by rw [hst]; simp) (.inl (hc.current.trans hc.cur.symm))
      (.inl ⟨i, env, hc, fun hz => ?_⟩) hK'
    · exact Nat.lt_of_le_of_lt (Nat.zero_le _) hc.lt
    · rcases heax with h | h <;> cases h.symm.trans hz
  refine Awaits.fin (fun j hj hjp => ?_) hfin.ids (hfin.rest hmid.sched (hmid.cur_lt hs))
  obtain rfl := hmid.pids.inj j i hj hc.lt (hjp.trans (by rw [Kernel.modify_self, hpid]))
  rw [Kernel.modify_self]
  exact .inr ⟨rfl, rfl⟩

/-- `wait` の後、`f` は走らないか、シェルが待っている。 -/
theorem syscall_wait_halts (hs : Synced K) (h : ShellMid K K) (hok : NoWrap K ev) (hcalls : ShellCalls K ev)
    (hf : Kid K f) (hc : Calls K ev i env r) (hpid : (K.table i).pid = SHELL_PID) (heax : r.eax = SYS_WAIT)
    (hdead : find_terminated_child K SHELL_PID = 0 ∨ find_terminated_child K SHELL_PID = f)
    (ho : syscall_wait K i r = some o) : Halted o.kernel f ∨ Awaits o.kernel 0 := by
  rw [← hpid] at hdead
  rw [syscall_wait] at ho
  split at ho
  next h0 =>
    have hf := hdead.resolve_left h0
    cases ho
    rw [hf]
    exact .inl (h.reaped hc.lt h0 hf)
  · split at ho
    · exact .inr (h.blocks hs hok hcalls hc hpid (.inl heax) ho)
    next hlive =>
      cases ho
      exact .inl (h.no_live hf hc.lt hpid (by simpa using hlive))

/-- `fg` の `waitpid` の後、`f` は走らないか、シェルが `f` を待っている。 -/
theorem syscall_waitpid_halts (hs : Synced K) (h : ShellMid K K) (hok : NoWrap K ev) (hcalls : ShellCalls K ev)
    (hf : Kid K f) (hc : Calls K ev i env r) (hpid : (K.table i).pid = SHELL_PID) (heax : r.eax = SYS_WAITPID)
    (hebx : r.ebx = f) (hecx : r.ecx = 0) (ho : syscall_waitpid K i r = some o) :
    Halted o.kernel f ∨ Awaits o.kernel f := by
  have hset : ∀ {w : Nat}, Halted K f → Halted (K.modify i fun p => { p with waiting_on_pid := w }) f := by
    intro w hh k hk hkf
    rw [Kernel.modify_table] at hkf ⊢
    split
    next hki =>
      subst hki
      rw [if_pos rfl] at hkf
      exact hh k hk hkf
    next hki =>
      rw [if_neg hki] at hkf
      exact hh k hk hkf
  rw [syscall_waitpid] at ho
  dsimp only at ho
  rw [hebx, hecx] at ho
  split at ho
  next h0 =>
    have hdead := (h0.2.resolve_left hf.pos).symm
    cases ho
    rw [hdead]
    exact .inl (h.reaped hc.lt h0.1 hdead)
  · rw [if_neg (by omega)] at ho
    split at ho
    · split at ho
      next hst =>
        cases ho
        have hst := (hst.2.resolve_left hf.pos).symm
        refine .inl (hset fun k hk hkf => .inl ?_)
        rw [find_stopped_child] at hst
        cases hfind : find_child K (K.table i).pid (· == .stopped) with
        | none =>
          rw [hfind] at hst
          exact absurd hst.symm hf.pos
        | some c =>
          rw [hfind] at hst
          simpa using find_child_eq_some h.pids hc.lt hfind k hk (hkf.trans hst.symm)
      · rw [Kernel.modify_modify] at ho
        exact .inr (h.blocks hs hok hcalls hc hpid (.inr heax) ho)
    next hlive =>
      cases ho
      exact .inl (hset (h.no_live hf hc.lt hpid (by simpa using hlive)))

/-- 走らない `f` について、`kill(f, 0)` の答えは行方を決める。 -/
theorem syscall_kill_probe (hp : PidInv K) (hf : Kid K f) (hh : Halted K f) (hebx : r.ebx = f) (hecx : r.ecx = 0) :
    ∃ v, syscall_kill K r = (K, v) ∧ Agrees K f (if v = 0 then .stopped else .done) := by
  rw [syscall_kill, hebx, hecx, if_neg (by simp [hf.pos, NSIG])]
  cases hget : get_process_by_pid K f with
  | none => exact ⟨NEG1, rfl, fun j hj hpid => absurd hpid (get_process_by_pid_none hget hj)⟩
  | some j =>
    obtain ⟨hj, hpid⟩ := get_process_by_pid_spec hget
    dsimp only
    by_cases hst : (K.table j).state = .terminated
    · refine ⟨NEG1, if_pos hst, fun k hk hkf => ?_⟩
      obtain rfl := hp.inj k j hk hj (Eq.trans hkf hpid.symm)
      exact hst
    · refine ⟨0, by rw [if_neg hst, if_pos rfl], ?_⟩
      exact ⟨j, hj, hpid, (hh j hj hpid).resolve_right hst⟩

/-- `fork` が返した番号は、シェルの子のものである。 -/
theorem syscall_fork_kid (hp : PidInv K) (hok : NoWrap K ev) (hc : Calls K ev i env r)
    (hpid : (K.table i).pid = SHELL_PID) (heax : r.eax = 24) (hv : positive o.kernel.ctx.eax = true)
    (ho : syscall_fork K i r = some o) : Kid o.kernel o.kernel.ctx.eax := by
  have hv : o.kernel.ctx.eax ≠ 0 ∧ o.kernel.ctx.eax < 2 ^ 31 := of_decide_eq_true hv
  obtain ⟨⟨L, oslot⟩, hfork, rfl⟩ := Option.map_eq_some_iff.mp ho
  rw [fork_process] at hfork
  split at hfork
  · cases hfork
    have hv : NEG1 < 2 ^ 31 := hv.2
    exact absurd hv (by decide)
  next slot hslot =>
    obtain ⟨L, hL, heq⟩ := Option.map_eq_some_iff.mp hfork
    cases heq
    obtain ⟨hev, hb⟩ := fork_birth hc heax hslot hL
    have hnext : L.next_pid = K.next_pid + 1 := hb.next.trans (add32_succ (hok hev))
    refine ⟨hv.1, ?_, fun k hk hkv => ?_⟩
    · show (L.table slot).pid < L.next_pid
      rw [hb.pid, hnext]
      omega
    · have hkv : (L.table k).pid = (L.table slot).pid := hkv
      show (L.table k).parent_id = SHELL_PID
      rcases hb.cases_lt hk with rfl | ⟨hk, hks⟩
      · rw [hb.parent_id, hpid]
      · rw [(hb.old k hk hks).1, hb.pid] at hkv
        have := hp.lt k hk
        omega

/-! ## シェルの進み方 -/

theorem set_status_pids (jobs : List Job) (i : Nat) (s : JobStatus) :
    (set_status jobs i s).map Job.pid = jobs.map Job.pid := by
  refine List.ext_getElem? fun n => ?_
  rw [List.getElem?_map, List.getElem?_map, set_status, List.getElem?_modify]
  cases jobs[n]? with
  | none => rfl
  | some j =>
    by_cases hi : i = n
    · simp [hi]
    · simp [hi]

theorem mark_job_pids (jobs : List Job) (pid : Nat) (s : JobStatus) :
    (mark_job jobs pid s).map Job.pid = jobs.map Job.pid := by
  rw [mark_job]
  split
  · rfl
  · exact set_status_pids ..

theorem mem_add_job {jobs : List Job} {pid pgid x : Nat} (h : x ∈ (add_job jobs pid pgid).map Job.pid) :
    x ∈ jobs.map Job.pid ∨ x = pid := by
  rw [add_job] at h
  split at h
  · exact .inl h
  · simpa using h

theorem mem_finish {jobs : List Job} {pids : List Nat} {b : Bool} {x : Nat} (h : x ∈ (finish jobs pids b).known) :
    x ∈ jobs.map Job.pid ∨ x ∈ pids := by
  rw [finish] at h
  split at h
  · refine .inl ?_
    simpa [Shell.known, Point.pids] using h
  next last hlast =>
    have hlast := List.mem_of_getLast? hlast
    rcases List.mem_append.mp h with h | h
    · rcases mem_add_job h with h | rfl
      · exact .inl h
      · exact .inr hlast
    · dsimp only at h
      split at h
      · simp [Point.pids] at h
      · simp only [Point.pids, List.mem_singleton] at h
        exact .inr (h ▸ hlast)

theorem mem_next_stage {jobs : List Job} {n : Nat} {pids : List Nat} {b : Bool} {x : Nat}
    (h : x ∈ (next_stage jobs n pids b).known) : x ∈ jobs.map Job.pid ∨ x ∈ pids := by
  rw [next_stage] at h
  split at h
  · exact mem_finish h
  · split at h
    · exact List.mem_append.mp h
    · exact List.mem_append.mp h

theorem mem_kill_stages {jobs : List Job} {rest pids : List Nat} {b : Bool} {x : Nat}
    (h : x ∈ (kill_stages jobs rest pids b).known) : x ∈ jobs.map Job.pid ∨ x ∈ pids := by
  rw [kill_stages] at h
  split at h
  · exact mem_finish h
  · split at h
    · exact List.mem_append.mp h
    · exact List.mem_append.mp h

/-- 覚える番号は、前から覚えているか、`fork` が返した。 -/
theorem Shell.mem_next {s s' : Shell} {v x : Nat} (h : s.next r v = some s') (hx : x ∈ s'.known) :
    x ∈ s.known ∨ r.eax = 24 ∧ positive v = true ∧ x = v := by
  obtain ⟨point, jobs⟩ := s
  have hold : x ∈ jobs.map Job.pid ∨ x ∈ point.pids → x ∈ Shell.known ⟨point, jobs⟩ ∨
      r.eax = 24 ∧ positive v = true ∧ x = v := fun h => .inl (List.mem_append.mpr h)
  have hgoto : ∀ {b : Bool} {p : Point}, (∀ y ∈ p.pids, y ∈ point.pids) →
      (if b then some (Shell.mk p jobs) else none) = some s' → x ∈ jobs.map Job.pid ∨ x ∈ point.pids := by
    intro b p hp h
    split at h
    · cases h
      exact (List.mem_append.mp hx).imp id (hp x)
    · cases h
  rw [Shell.next] at h
  dsimp only at h
  split at h
  · cases h
    exact .inl hx
  cases point with
  | prompt =>
    dsimp only at h
    split at h
    · cases h
      split at hx
      · rw [Shell.known, mark_job_pids] at hx
        exact hold (List.mem_append.mp hx)
      · exact .inl hx
    · cases h
  | spawning b =>
    dsimp only at h
    split at h
    next heax =>
      cases h
      split at hx
      next hv =>
        rcases List.mem_append.mp hx with hx | hx
        · rcases mem_add_job hx with hx | hx
          · exact hold (.inl hx)
          · exact .inr ⟨heax, hv, hx⟩
        · exact .inr ⟨heax, hv, List.mem_singleton.mp hx⟩
      · exact hold (List.mem_append.mp hx)
    · cases h
  | launched pid b =>
    refine hold (hgoto (fun y hy => ?_) h)
    split at hy
    · cases hy
    · exact hy
  | detached => exact hold (hgoto (p := .prompt) (fun y hy => hy) h)
  | piping n pids b =>
    dsimp only at h
    split at h
    · cases h
      split at hx
      · exact .inl hx
      · exact hold (mem_kill_stages hx)
    · cases h
  | forking n pids b =>
    dsimp only at h
    split at h
    next heax =>
      cases h
      split at hx
      next hv =>
        rcases List.mem_append.mp hx with hx | hx
        · exact hold (.inl hx)
        · rcases List.mem_append.mp hx with hx | hx
          · exact hold (.inr hx)
          · exact .inr ⟨heax, hv, List.mem_singleton.mp hx⟩
      · exact hold (mem_next_stage hx)
    · cases h
  | grouping n pids b =>
    dsimp only at h
    split at h
    · cases h
      exact hold (mem_next_stage hx)
    · cases h
  | killing rest pids b =>
    dsimp only at h
    split at h
    · cases h
      exact hold (mem_kill_stages hx)
    · cases h
  | draining n pids b =>
    dsimp only at h
    split at h
    · cases h
      split at hx
      · exact hold (mem_finish hx)
      · exact .inl hx
    · cases h
  | waits n pid =>
    refine hold (hgoto (fun y hy => ?_) h)
    split at hy <;> exact hy
  | raised pid t b => exact hold (hgoto (fun y hy => by cases b <;> exact hy) h)
  | resumed pid t => exact hold (hgoto (p := .awaiting pid t) (fun y hy => hy) h)
  | awaiting pid t => exact hold (hgoto (p := .probe pid (some t)) (fun y hy => hy) h)
  | lowered pid => exact hold (hgoto (fun y hy => by cases hy) h)
  | probe pid t =>
    dsimp only at h
    split at h
    · cases h
      have hjobs : x ∈ jobs.map Job.pid ∨ x ∈ [pid] := by
        split at hx
        · cases t with
          | none => rwa [Shell.known, mark_job_pids, List.mem_append] at hx
          | some t => rwa [Shell.known, set_status_pids, List.mem_append] at hx
        · cases t with
          | none => rwa [Shell.known, mark_job_pids, List.mem_append] at hx
          | some t =>
            refine (List.mem_append.mp hx).imp (fun hx => ?_) id
            exact ((List.eraseIdx_sublist jobs t).map Job.pid).mem hx
      exact hold hjobs
    · cases h
  | marked pid st => exact hold (hgoto (fun y hy => by cases hy) h)

theorem finish_point (jobs : List Job) (pids : List Nat) (b : Bool) (K : Kernel) :
    PointInv K (finish jobs pids b).point := by
  rw [finish]
  split
  · trivial
  · dsimp only
    split <;> trivial

theorem next_stage_point (jobs : List Job) (n : Nat) (pids : List Nat) (b : Bool) (K : Kernel) :
    PointInv K (next_stage jobs n pids b).point := by
  rw [next_stage]
  split
  · exact finish_point ..
  · split <;> trivial

theorem kill_stages_point (jobs : List Job) (rest pids : List Nat) (b : Bool) (K : Kernel) :
    PointInv K (kill_stages jobs rest pids b).point := by
  rw [kill_stages]
  split
  · exact finish_point ..
  · split <;> trivial

/-- 行方を決める位置への進み方。ほかの位置には条件がない。 -/
inductive NextPoint (s : Shell) (r : Regs) (v : Nat) (s' : Shell) : Prop
  | stays : s' = s → NextPoint s r v s'
  | wait {n f} : s.point = .waits n f → n ≤ 1 → r.eax = SYS_WAIT → s'.point = .probe f none → NextPoint s r v s'
  | waitpid {f t} : s.point = .awaiting f t → r.eax = SYS_WAITPID → r.ebx = f → r.ecx = 0 →
      s'.point = .probe f (some t) → NextPoint s r v s'
  | probe {f t} : s.point = .probe f t → r.eax = 13 → r.ebx = f → r.ecx = 0 →
      s'.point = .marked f (if v = 0 then .stopped else .done) → NextPoint s r v s'
  | returns {f st} : s.point = .marked f st → r.eax = 30 → r.ebx = 0 → s'.point = .prompt → NextPoint s r v s'
  | free : (∀ K, PointInv K s'.point) → NextPoint s r v s'

theorem calls_spec {n a b : Nat} (h : calls r n a b = true) : r.eax = n ∧ r.ebx = a ∧ r.ecx = b := by
  simpa [calls, and_assoc] using h

theorem Shell.next_point {s s' : Shell} {v : Nat} (h : s.next r v = some s') : NextPoint s r v s' := by
  obtain ⟨point, jobs⟩ := s
  have hgoto : ∀ {b : Bool} {p : Point}, (∀ K, PointInv K p) →
      (if b then some (Shell.mk p jobs) else none) = some s' → NextPoint ⟨point, jobs⟩ r v s' := by
    intro b p hp h
    split at h
    · cases h
      exact .free hp
    · cases h
  rw [Shell.next] at h
  dsimp only at h
  split at h
  · cases h
    exact .stays rfl
  cases point with
  | prompt =>
    dsimp only at h
    split at h
    · cases h
      refine .free fun K => ?_
      split <;> trivial
    · cases h
  | spawning b =>
    dsimp only at h
    split at h
    · cases h
      refine .free fun K => ?_
      split <;> trivial
    · cases h
  | launched pid b => exact hgoto (fun K => by cases b <;> trivial) h
  | detached => exact hgoto (p := .prompt) (fun K => trivial) h
  | piping n pids b =>
    dsimp only at h
    split at h
    · cases h
      refine .free fun K => ?_
      split
      · trivial
      · exact kill_stages_point ..
    · cases h
  | forking n pids b =>
    dsimp only at h
    split at h
    · cases h
      refine .free fun K => ?_
      split
      · trivial
      · exact next_stage_point ..
    · cases h
  | grouping n pids b =>
    dsimp only at h
    split at h
    · cases h
      exact .free fun K => next_stage_point ..
    · cases h
  | killing rest pids b =>
    dsimp only at h
    split at h
    · cases h
      exact .free fun K => kill_stages_point ..
    · cases h
  | draining n pids b =>
    dsimp only at h
    split at h
    · cases h
      refine .free fun K => ?_
      split
      · exact finish_point ..
      · trivial
    · cases h
  | waits n pid =>
    dsimp only at h
    by_cases hn : n ≤ 1
    · rw [if_pos hn] at h
      split at h
      next heax =>
        cases h
        exact .wait rfl hn (by simpa using heax) rfl
      · cases h
    · rw [if_neg hn] at h
      exact hgoto (p := .waits (n - 1) pid) (fun K => trivial) h
  | raised pid t b => exact hgoto (fun K => by cases b <;> trivial) h
  | resumed pid t => exact hgoto (p := .awaiting pid t) (fun K => trivial) h
  | awaiting pid t =>
    dsimp only at h
    split at h
    next hcall =>
      obtain ⟨heax, hebx, hecx⟩ := calls_spec hcall
      cases h
      exact .waitpid rfl heax hebx hecx rfl
    · cases h
  | lowered pid => exact hgoto (p := .prompt) (fun K => trivial) h
  | probe pid t =>
    dsimp only at h
    split at h
    next hcall =>
      obtain ⟨heax, hebx, hecx⟩ := calls_spec hcall
      cases h
      refine .probe rfl heax hebx hecx ?_
      split <;> rfl
    · cases h
  | marked pid st =>
    dsimp only at h
    split at h
    next hcall =>
      obtain ⟨heax, hebx, -⟩ := calls_spec hcall
      cases h
      exact .returns rfl heax hebx rfl
    · cases h

theorem mem_compact_jobs {jobs : List Job} {x : Nat} (h : x ∈ (compact_jobs jobs).map Job.pid) :
    x ∈ jobs.map Job.pid :=
  ((List.filter_sublist).map Job.pid).mem h

/-- 行を読んでも、覚えている番号は増えない。 -/
theorem Shell.line_spec {s s' : Shell} {cmd : Command} (h : s.line cmd = some s') :
    (∀ x ∈ s'.known, x ∈ s.known) ∧ ∀ K, PointInv K s'.point := by
  obtain ⟨point, jobs⟩ := s
  have hold : ∀ {x}, x ∈ jobs.map Job.pid → x ∈ Shell.known ⟨point, jobs⟩ := List.mem_append_left _
  have hjob : ∀ {t : Nat} {j : Job}, (compact_jobs jobs)[t]? = some j → j.pid ∈ jobs.map Job.pid :=
    fun hj => mem_compact_jobs (List.mem_map_of_mem (List.mem_of_getElem? hj))
  have hnone : ∀ x ∈ Shell.known ⟨.prompt, compact_jobs jobs⟩, x ∈ Shell.known ⟨point, jobs⟩ := by
    intro x hx
    rcases List.mem_append.mp hx with hx | hx
    · exact hold (mem_compact_jobs hx)
    · cases hx
  unfold Shell.line at h
  split at h
  · cases h
  next hprompt =>
    have hprompt : point = .prompt := not_not.mp hprompt
    subst hprompt
    cases cmd with
    | single b =>
      cases h
      exact ⟨fun x hx => hx, fun K => trivial⟩
    | pipeline n b =>
      dsimp only at h
      split at h
      · cases h
        refine ⟨fun x hx => ?_, fun K => next_stage_point ..⟩
        rcases mem_next_stage hx with hx | hx
        · exact hold hx
        · cases hx
      · cases h
    | jobs =>
      cases h
      exact ⟨hnone, fun K => trivial⟩
    | fg t =>
      dsimp only at h
      split at h
      · cases h
        exact ⟨hnone, fun K => trivial⟩
      next j hj =>
        cases h
        refine ⟨fun x hx => ?_, fun K => trivial⟩
        rcases List.mem_append.mp hx with hx | hx
        · exact hold (mem_compact_jobs hx)
        · rw [List.mem_singleton.mp hx]
          exact hold (hjob hj)
    | bg t =>
      dsimp only at h
      split at h
      · cases h
        exact ⟨hnone, fun K => trivial⟩
      next j hj =>
        cases h
        refine ⟨fun x hx => ?_, fun K => trivial⟩
        rw [Shell.known, set_status_pids] at hx
        rcases List.mem_append.mp hx with hx | hx
        · exact hold (mem_compact_jobs hx)
        · rw [List.mem_singleton.mp hx]
          exact hold (hjob hj)

/-! ## 一歩と実行 -/

variable {D D' : Desk}

theorem DeskInv.mid (h : DeskInv D) : ShellMid D.kernel D.kernel :=
  ⟨rfl, Nat.le_refl _, h.sched, h.pids, h.shell⟩

theorem ForegroundOk.no_cont (hok : ForegroundOk D ev)
    (hf : (∃ t, D.shell.point = .probe f t) ∨ ∃ s, D.shell.point = .marked f s) :
    ∀ j, ContTo D.kernel ev j → (D.kernel.table j).pid ≠ f := by
  rintro j ⟨i, env, r, hc, heax, hsig, hget⟩ hpid
  exact hok.cont f hf i env r hc heax ((get_process_by_pid_spec hget).2.symm.trans hpid) hsig

/-- シェルの位置が変わらない歩。 -/
theorem DeskInv.point_kept (hs : Synced D.kernel) (h : DeskInv D) (hok : ForegroundOk D ev)
    (hcalls : ShellCalls D.kernel ev) (he : step D.kernel ev = some K') : PointInv K' D.shell.point := by
  have hkid : ∀ f ∈ D.shell.point.pids, Kid D.kernel f := fun f hf => h.kids f (List.mem_append_right _ hf)
  have hpoint := h.point
  cases hpt : D.shell.point with
  | probe f t =>
    rw [hpt] at hkid hpoint
    have hf := hkid f (List.mem_singleton.mpr rfl)
    have hcont := hok.no_cont (.inl ⟨t, hpt⟩)
    rcases hpoint with hp | hp
    · exact .inl (hp.step hs h.mid hok.wrap hcalls he hf hcont)
    · refine Awaits.step hs h.mid hok.wrap hcalls he hf hcont ?_ (fun hw => ?_) hp
      · cases t <;> simp
      · cases t with
        | none => exact hok.alone f hpt
        | some t => exact absurd hw hf.pos
  | marked f st =>
    rw [hpt] at hkid hpoint
    exact Agrees.step hs h.mid hok.wrap hcalls he (hok.fault f st hpt) (hkid f (List.mem_singleton.mpr rfl))
      (hok.no_cont (.inr ⟨st, hpt⟩)) hpoint
  | _ => trivial

theorem Desk.shell_calls (he : D.step (.kernel ev) = some D') : ShellCalls D.kernel ev := by
  obtain ⟨K', -, he⟩ := Option.bind_eq_some_iff.mp he
  intro i env r hc hpid
  obtain ⟨r₀, hr, heq⟩ := hc.shell_call hpid
  simp only [hr] at he
  obtain ⟨s, hn, -⟩ := Option.map_eq_some_iff.mp he
  rw [← heq]
  exact Shell.next_eax hn

/-- 覚えている番号は、歩の後もシェルの子のものである。 -/
theorem known_kids (hs : Synced D.kernel) (hmid : ShellMid D.kernel D.kernel) (hwrap : NoWrap D.kernel ev)
    (hkids : ∀ f ∈ D.shell.known, Kid D.kernel f) (he : D.step (.kernel ev) = some D') :
    ShellMid D'.kernel D'.kernel ∧ ∀ f ∈ D'.shell.known, Kid D'.kernel f := by
  have hcalls := Desk.shell_calls he
  obtain ⟨K', hK', he⟩ := Option.bind_eq_some_iff.mp he
  have hnext := hmid.next hs hwrap hcalls hK'
  have hold : ∀ f ∈ D.shell.known, Kid K' f := fun f hf => Kid.step hs hmid hwrap hcalls hK' (hkids f hf)
  cases hr : shell_call D.kernel ev with
  | none =>
    rw [hr] at he
    cases he
    exact ⟨hnext, hold⟩
  | some r =>
    simp only [hr] at he
    obtain ⟨s', hn, rfl⟩ := Option.map_eq_some_iff.mp he
    obtain ⟨i, env, hc, hpid⟩ := shell_call_calls hs hK' hr
    obtain ⟨o, ho, rfl⟩ := hc.step hK'
    refine ⟨hnext, fun f hf => ?_⟩
    rcases Shell.mem_next hn hf with hf | ⟨heax, hv, rfl⟩
    · exact hold f hf
    · have ho : syscall_fork D.kernel i { r with cs := D.kernel.ctx.cs } = some o := by
        rw [← ho, syscall]
        simp only [heax]
      exact syscall_fork_kid hmid.pids hwrap hc hpid heax hv ho

theorem DeskInv.kernel_step (hs : Synced D.kernel) (h : DeskInv D) (hok : ForegroundOk D ev)
    (he : D.step (.kernel ev) = some D') : DeskInv D' := by
  have hcalls := Desk.shell_calls he
  obtain ⟨hmid, hkids⟩ := known_kids hs h.mid hok.wrap (fun f hf => h.kids f hf) he
  obtain ⟨K', hK', he⟩ := Option.bind_eq_some_iff.mp he
  have hkept := h.point_kept hs hok hcalls hK'
  cases hr : shell_call D.kernel ev with
  | none =>
    rw [hr] at he
    cases he
    exact ⟨hmid.sched, hmid.pids, hmid.shell, hkids, hkept⟩
  | some r =>
    simp only [hr] at he
    obtain ⟨s', hn, rfl⟩ := Option.map_eq_some_iff.mp he
    obtain ⟨i, env, hc, hpid⟩ := shell_call_calls hs hK' hr
    obtain ⟨o, ho, rfl⟩ := hc.step hK'
    have hkid : ∀ f ∈ D.shell.point.pids, Kid D.kernel f := fun f hf => h.kids f (List.mem_append_right _ hf)
    refine ⟨hmid.sched, hmid.pids, hmid.shell, hkids, ?_⟩
    cases Shell.next_point hn with
    | stays hs' =>
      rw [hs']
      exact hkept
    | @wait n f hpt hle heax hpt' =>
      rw [hpt']
      rw [hpt] at hkid
      have ho : syscall_wait D.kernel i { r with cs := D.kernel.ctx.cs } = some o := by
        have heax : r.eax = 9 := heax
        rw [← ho, syscall]
        simp only [heax]
      exact syscall_wait_halts hs h.mid hok.wrap hcalls (hkid f (List.mem_singleton.mpr rfl)) hc hpid heax
        (hok.reap n f r hpt hle hr heax) ho
    | @waitpid f t hpt heax hebx hecx hpt' =>
      rw [hpt']
      rw [hpt] at hkid
      have ho : syscall_waitpid D.kernel i { r with cs := D.kernel.ctx.cs } = some o := by
        have heax : r.eax = 31 := heax
        rw [← ho, syscall]
        simp only [heax]
      exact syscall_waitpid_halts hs h.mid hok.wrap hcalls (hkid f (List.mem_singleton.mpr rfl)) hc hpid heax
        hebx hecx ho
    | @probe f t hpt heax hebx hecx hpt' =>
      rw [hpt']
      have hpoint := h.point
      rw [hpt] at hkid hpoint
      have hf := hkid f (List.mem_singleton.mpr rfl)
      -- シェルは走っているので、待っていない
      have hh : Halted D.kernel f := by
        refine hpoint.resolve_right fun hw => ?_
        rcases hw i hc.lt hpid with hst | ⟨hst, -⟩ <;> cases hc.running.symm.trans hst
      obtain ⟨v, hkill, hag⟩ := syscall_kill_probe (r := { r with cs := D.kernel.ctx.cs }) h.pids hf hh hebx hecx
      have ho : returns_of { r with cs := D.kernel.ctx.cs } (D.kernel, v) = some o := by
        rw [← ho, syscall, ← hkill]
        simp only [heax]
      cases ho
      exact hag
    | returns _ _ _ hpt' =>
      rw [hpt']
      trivial
    | free hfree => exact hfree _

theorem DeskInv.step {ev : DeskEvent} (hs : Synced D.kernel) (h : DeskInv D) (hok : DeskOk D ev)
    (he : D.step ev = some D') : DeskInv D' := by
  cases ev with
  | line cmd =>
    obtain ⟨s, hs, rfl⟩ := Option.map_eq_some_iff.mp he
    obtain ⟨hknown, hpoint⟩ := Shell.line_spec hs
    exact ⟨h.sched, h.pids, h.shell, fun f hf => h.kids f (hknown f hf), hpoint _⟩
  | kernel ev => exact h.kernel_step hs hok he

/-- `kmain` がシェルを作った後。 -/
theorem DeskInv.start (rc_in rc_out mounts : Nat) {img : Image}
    (h : Proc.step (boot rc_in rc_out mounts) (.boot (some img)) = some K) : Synced K ∧ DeskInv (.start K) := by
  have hs := Synced.boot rc_in rc_out mounts
  have hc : create_process (boot rc_in rc_out mounts) 0 (some img) = some K := h
  have hact : Act (boot rc_in rc_out mounts) (.boot (some img)) (boot rc_in rc_out mounts) K :=
    .create (.boot rfl rfl) hc
  have hK : install (reserve (boot rc_in rc_out mounts) 0) img = K := Option.some.inj hc
  -- 新しい項目のほかは、起動した時のままである
  have hentry : ∀ k, (K.table k).parent_id = 0 ∧ (K.table k).sleep_next = none := by
    intro k
    rw [← hK]
    by_cases h1 : k = 1
    · rw [h1]
      exact ⟨rfl, rfl⟩
    · rw [install_ne (K := reserve (boot rc_in rc_out mounts) 0) h1,
        reserve_ne (K := boot rc_in rc_out mounts) h1, boot]
      dsimp only
      split
      · exact ⟨rfl, rfl⟩
      · exact ⟨rfl, rfl⟩
  have hwrap : NoWrap (boot rc_in rc_out mounts) (.boot (some img)) := fun _ => show 1 + 1 < 2 ^ 32 by decide
  have hshell : ShellInv K := by
    refine ⟨?_, fun j k _ hk _ hpar => ?_, fun j _ _ => ⟨?_, fun k => ?_⟩⟩
    · rw [← hK]
      show 1 < add32 1 1
      decide
    · rw [(hentry k).1] at hpar
      cases hpar
    · rw [← hK]
      rintro ⟨⟩
    · rw [(hentry k).2]
      simp
  exact ⟨hs.step h, (SchedInv.boot ..).create hs.num hc, (PidInv.boot ..).kin hs.num hwrap hact.tree_step.kin,
    hshell, fun f hf => (by cases hf), trivial⟩

theorem Desk.synced {e : DeskEvent} (hs : Synced D.kernel) (he : D.step e = some D') : Synced D'.kernel := by
  cases e with
  | line cmd =>
    obtain ⟨s, -, rfl⟩ := Option.map_eq_some_iff.mp he
    exact hs
  | kernel ev =>
    obtain ⟨K', hK', he⟩ := Option.bind_eq_some_iff.mp he
    split at he
    · cases he
      exact hs.step hK'
    · obtain ⟨s, -, rfl⟩ := Option.map_eq_some_iff.mp he
      exact hs.step hK'

/-- 条件を満たす歩だけの実行。 -/
theorem DeskInv.run (hrun : Steps Desk.step DeskOk D D') (hs : Synced D.kernel) (h : DeskInv D) :
    Synced D'.kernel ∧ DeskInv D' :=
  hrun.inv (P := fun D => Synced D.kernel ∧ DeskInv D)
    (fun _ _ _ hD hok he => ⟨Desk.synced hD.1 he, hD.2.step hD.1 hok he⟩) ⟨hs, h⟩

/-- 印の付いた仕事は、次の歩でも印の通りである。 -/
theorem DeskInv.marked_step {ev : DeskEvent} {st : JobStatus} (hs : Synced D.kernel) (h : DeskInv D)
    (hok : DeskOk D ev) (hpt : D.shell.point = .marked f st) (he : D.step ev = some D') : Agrees D'.kernel f st := by
  cases ev with
  | line cmd =>
    obtain ⟨s, -, rfl⟩ := Option.map_eq_some_iff.mp he
    have := h.point
    rwa [hpt] at this
  | kernel ev =>
    have hcalls := Desk.shell_calls he
    obtain ⟨K', hK', he⟩ := Option.bind_eq_some_iff.mp he
    have hkept := h.point_kept hs hok hcalls hK'
    rw [hpt] at hkept
    split at he
    · cases he
      exact hkept
    · obtain ⟨s, -, rfl⟩ := Option.map_eq_some_iff.mp he
      exact hkept

/-- シェルが前景の仕事 `f` に付けた印は、入力へ戻るまで、カーネルの状態と合う。止まったとすれば
    `PROCESS_STATE_STOPPED` にあり、終わったとすれば終わっている。どの歩でも、シェルのほかの子が先に終わって
    `wait` を終わらせず、`f` が `SIGCONT` を受けないときである。 -/
theorem foreground_marks_agree (rc_in rc_out mounts : Nat) {img : Image} {st : JobStatus}
    (hboot : Proc.step (boot rc_in rc_out mounts) (.boot (some img)) = some K)
    (hrun : Steps Desk.step DeskOk (.start K) D) (hpt : D.shell.point = .marked f st) :
    Agrees D.kernel f st ∧ ∀ ev D', DeskOk D ev → D.step ev = some D' → Agrees D'.kernel f st := by
  obtain ⟨hs, hinv⟩ := DeskInv.start rc_in rc_out mounts hboot
  obtain ⟨hsD, hD⟩ := hinv.run hrun hs
  refine ⟨?_, fun ev D' hok he => hD.marked_step hsD hok hpt he⟩
  have := hD.point
  rwa [hpt] at this

/-- 終わるか止まるのは、走っているプロセスである。 -/
theorem Ends.cur_before {b : Bool} {L : Kernel} (h : Ends K ev i b L) : K.cur_proccess_id = some i := by
  cases h with
  | exit hq => exact hq.onCpu.cur
  | fail hc => exact hc.cur
  | signal hat hcur => exact (at_schedule_tree hat).1.cur.symm.trans hcur
  | stop hat hcur => exact (at_schedule_tree hat).1.cur.symm.trans hcur

/-- `SIGCONT` を送る呼び出しである。 -/
def sends_cont : Event → Bool
  | .syscall _ r => r.eax == 13 && r.ecx == SIGCONT
  | _ => false

/-- `DeskOk` の十分な条件。 -/
def desk_check (D : Desk) : DeskEvent → Bool
  | .line _ => true
  | .kernel ev => decide (NoWrap D.kernel ev) && !sends_cont ev &&
      (match D.shell.point with
      | .waits _ f => find_terminated_child D.kernel SHELL_PID == 0 || find_terminated_child D.kernel SHELL_PID == f
      | .probe f _ => D.kernel.cur_proccess_id.all fun i =>
          (D.kernel.table i).parent_id != SHELL_PID || (D.kernel.table i).pid == f
      | .marked _ _ => (quits D.kernel ev).isNone
      | _ => true)

theorem desk_check_ok (D : Desk) (ev : DeskEvent) (h : desk_check D ev = true) : DeskOk D ev := by
  cases ev with
  | line cmd => trivial
  | kernel ev =>
    simp only [desk_check, Bool.and_eq_true, Bool.not_eq_true', decide_eq_true_eq] at h
    obtain ⟨⟨hwrap, hcont⟩, hpt⟩ := h
    refine ⟨hwrap, fun n f r hp _ _ _ => ?_, fun f hp i b L he hpar => ?_, fun f _ i env r hc heax _ hsig => ?_,
      fun f s hp i r hf _ => ?_⟩
    · simpa [hp] using hpt
    · simp only [hp, he.cur_before, Option.all_some, Bool.or_eq_true, bne_iff_ne, beq_iff_eq] at hpt
      exact hpt.resolve_left fun h => h hpar
    · obtain ⟨r₀, rfl, rfl⟩ := hc.event
      have heax : r₀.eax = 13 := heax
      have hsig : r₀.ecx = SIGCONT := hsig
      simp [sends_cont, heax, hsig] at hcont
    · simp [hp, (Quits.fault hf).quits] at hpt

/-- シェルを作った後の状態。 -/
def shell_desk : Desk := .start ((step (boot 1 1 0) (.boot (some shell_image))).getD (boot 1 1 0))

/-- 前景の仕事が `Ctrl+Z` で止まる。 -/
def stopped_job : Trace (checked Desk.step desk_check shell_desk) (fun D =>
    D.shell.point = .marked 2 .stopped ∧ (D.kernel.table 2).state = .stopped) :=
  ⟨[.kernel tick, .kernel tick, .line (.single false), .kernel (call 24), .kernel (call 30 2 2),
    .kernel (call 9), .kernel (.keyboard true user_regs), .kernel tick, .kernel (call 13 2)], by decide +kernel⟩

theorem foreground_marks_agree_stopped :
    ∃ D, Steps Desk.step DeskOk shell_desk D ∧ D.shell.point = .marked 2 .stopped ∧ Agrees D.kernel 2 .stopped := by
  obtain ⟨D, hD, hpt, -⟩ := stopped_job.steps_checked desk_check_ok
  have hboot : step (boot 1 1 0) (.boot (some shell_image)) = some shell_desk.kernel := rfl
  exact ⟨D, hD, hpt, (foreground_marks_agree 1 1 0 hboot hD hpt).1⟩

/-- 背景の子が先に終わり、シェルが `wait` から戻る。前景の子は走れる。 -/
def other_child : Trace (exec Desk.step shell_desk) (fun D =>
    D.shell.point = .marked 3 .stopped ∧ (∀ j, j < D.kernel.num_processes → (D.kernel.table j).pid = 3 →
      (D.kernel.table j).state = .ready) ∧
    (D.step (.kernel (call 30))).any (fun D' => decide (D'.shell.point = .prompt ∧
      3 < D'.kernel.num_processes ∧ (D'.kernel.table 3).pid = 3 ∧
      ∀ j, j < D'.kernel.num_processes → (D'.kernel.table j).pid = 3 → (D'.kernel.table j).state = .ready))) :=
  ⟨[.kernel tick, .kernel tick, .line (.single true), .kernel (call 24), .kernel (call 30 2 2), .kernel (call 30),
    .line (.single false), .kernel (call 24), .kernel (call 30 3 3), .kernel (call 9), .kernel (call 5),
    .kernel tick, .kernel tick, .kernel (call 13 3)], by decide +kernel⟩

/-- シェルは、走れる前景の仕事 3 を止まったとして入力へ戻る。 -/
theorem foreground_mark_wrong :
    ∃ D D', Steps Desk.step (fun _ _ => True) shell_desk D ∧ D.shell.point = .marked 3 .stopped ∧
      ¬ Agrees D.kernel 3 .stopped ∧ D.step (.kernel (call 30)) = some D' ∧ D'.shell.point = .prompt ∧
      ¬ Agrees D'.kernel 3 .stopped ∧
      ∃ j, j < D'.kernel.num_processes ∧ (D'.kernel.table j).pid = 3 ∧ (D'.kernel.table j).state = .ready := by
  obtain ⟨D, hD, hpt, hready, hend⟩ := other_child.steps
  obtain ⟨D', hD', hend⟩ := (Option.any_eq_true _ _).mp hend
  obtain ⟨hpt', hlt, hpid, hready'⟩ := of_decide_eq_true hend
  have hnot : ∀ {K : Kernel}, (∀ j, j < K.num_processes → (K.table j).pid = 3 → (K.table j).state = .ready) →
      ¬ Agrees K 3 .stopped := by
    rintro K hK ⟨j, hj, hpid, hst⟩
    cases (hK j hj hpid).symm.trans hst
  exact ⟨D, D', hD, hpt, hnot hready, hD', hpt', hnot hready', 3, hlt, hpid, hready' 3 hlt hpid⟩

end MyOS.Proc
