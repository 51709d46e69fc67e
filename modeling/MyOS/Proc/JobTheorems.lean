import MyOS.Proc.Shell
import MyOS.Proc.ShellTheorems

/-!
# 走る仕事が表にあること

表から仕事が消えるのは、終わった印が付くか、`fg` の後に除かれるときだけで、どちらもプロセスが終わった後で
ある。表が満ちていると、`add_job` は何もしない。
-/

namespace MyOS.Proc
open MyOS.Lib

variable {K K' : Kernel} {ev : Event} {i f pid : Nat} {env : Env} {r : Regs} {o : Outcome} {jobs : List Job} {s s' : Shell} {v : Nat}

/-! ## 呼び出しの答え -/

/-- 終わったプロセスは、番号が使い回されないので、終わったままである。 -/
theorem Agrees.done_step (hs : Synced K) (h : ShellMid K K) (hok : NoWrap K ev) (hcalls : ShellCalls K ev)
    (he : Proc.step K ev = some K') (hf : Kid K f) (ha : Agrees K f .done) : Agrees K' f .done := by
  refine ShellMid.step (M := fun K => Kid K f ∧ Agrees K f .done) (I := fun K => Agrees K f .done) hs h hok hcalls
    ⟨hf, ha⟩ (fun K K' _ hM hact => ⟨hM.1.act hok hact, fun j hj hpid => ?_⟩) (fun _ _ _ hM _ hi hr => hM.2.fin hi hr) he
  have hold := hact.tree_step.kin.old_entry hj (hpid.symm ▸ hM.1.known)
  exact hold.dead (hM.2 j hold.lt (hold.pid.symm.trans hpid))

theorem live_iff : live K pid = true ↔ ¬Agrees K pid .done := by
  simp [live, Agrees]

/-- `kill(f, 0)` が 0 でなければ、`f` は終わっている。 -/
theorem syscall_kill_dead (hp : PidInv K) (hf : f ≠ 0) (hebx : r.ebx = f) (hecx : r.ecx = 0)
    (hv : (syscall_kill K r).2 ≠ 0) : (syscall_kill K r).1 = K ∧ Agrees K f .done := by
  rw [syscall_kill, hebx, hecx, if_neg (by simp [hf, NSIG])] at hv ⊢
  cases hget : get_process_by_pid K f with
  | none => exact ⟨rfl, fun j hj hpid => absurd hpid (get_process_by_pid_none hget hj)⟩
  | some j =>
    obtain ⟨hj, hpid⟩ := get_process_by_pid_spec hget
    rw [hget] at hv
    dsimp only at hv ⊢
    by_cases hst : (K.table j).state = .terminated
    · rw [if_pos hst]
      refine ⟨rfl, fun k hk hkf => ?_⟩
      obtain rfl := hp.inj k j hk hj (hkf.trans hpid.symm)
      exact hst
    · rw [if_neg hst] at hv
      exact absurd rfl hv

/-- 止まった子の番号は、表の項目の番号である。 -/
theorem find_stopped_child_lt (hp : PidInv K) (i : Nat) (h : find_stopped_child K (K.table i).pid ≠ 0) :
    find_stopped_child K (K.table i).pid < K.next_pid := by
  rw [find_stopped_child] at h ⊢
  cases hfind : find_child K (K.table i).pid (· == .stopped) with
  | none =>
    rw [hfind] at h
    exact absurd rfl h
  | some c =>
    rw [find_child] at hfind
    split at hfind
    · cases hfind
    · have hc := List.find?_some hfind
      obtain ⟨j, hj, -⟩ := (Option.any_eq_true _ _).mp hc
      obtain ⟨hj, hpid⟩ := get_process_by_pid_spec hj
      exact hpid ▸ hp.lt j hj

/-- `waitpid(0, WNOHANG)` が正の番号を返せば、そのプロセスは終わっている。 -/
theorem waitpid_reaps (h : ShellMid K K) (hi : i < K.num_processes) (hebx : r.ebx = 0) (hecx : r.ecx = WNOHANG)
    (hlow : K.next_pid < 2 ^ 31) (ho : syscall_waitpid K i r = some o) (hv : positive o.kernel.ctx.eax = true) :
    Agrees o.kernel o.kernel.ctx.eax .done := by
  have hv : o.kernel.ctx.eax ≠ 0 ∧ o.kernel.ctx.eax < 2 ^ 31 := of_decide_eq_true hv
  rw [syscall_waitpid] at ho
  dsimp only at ho
  rw [hebx, hecx] at ho
  split at ho
  next h0 =>
    cases ho
    exact h.reaped_dead hi h0.1 rfl
  · rw [if_pos (show WNOHANG % 2 = 1 by decide)] at ho
    split at ho
    next hst =>
      -- 止まった子の番号は、符号を変えて返すので正ではない
      have hlt := find_stopped_child_lt h.pids i hst.1
      have hneg : find_stopped_child K (K.table i).pid ≠ 0 := hst.1
      cases ho
      have hret : neg32 (find_stopped_child K (K.table i).pid) < 2 ^ 31 := hv.2
      unfold neg32 sub32 at hret
      omega
    · cases ho
      exact absurd rfl hv.1

/-! ## 表の書き換え -/

theorem Listed.mono {jobs' : List Job} (h : Listed jobs pid) (hsub : ∀ j ∈ jobs, j.pid = pid → j.status ≠ .done →
    ∃ j' ∈ jobs', j'.pid = pid ∧ j'.status ≠ .done) : Listed jobs' pid := by
  obtain ⟨j, hj, hpid, hst⟩ := h
  exact hsub j hj hpid hst

theorem Listed.compact (h : Listed jobs pid) : Listed (compact_jobs jobs) pid :=
  h.mono fun j hj hpid hst => ⟨j, List.mem_filter.mpr ⟨hj, by simpa using hst⟩, hpid, hst⟩

theorem Listed.add {p g : Nat} (h : Listed jobs pid) : Listed (add_job jobs p g) pid := by
  rw [add_job]
  split
  · exact h
  · exact h.mono fun j hj hpid hst => ⟨j, List.mem_append_left _ hj, hpid, hst⟩

theorem Listed.added (pid g : Nat) (hroom : jobs.length < MAX_JOBS) : Listed (add_job jobs pid g) pid := by
  rw [add_job, if_neg (Nat.not_le_of_lt hroom)]
  exact ⟨⟨pid, g, .running⟩, List.mem_append_right _ (List.mem_singleton.mpr rfl), rfl, by simp⟩

/-- 終わったのでない印は、どの項目に付けてもよい。ほかの項目には、どの印を付けてもよい。 -/
theorem Listed.set_status {t : Nat} {st : JobStatus} (h : Listed jobs pid)
    (hst : st ≠ .done ∨ ∀ j, jobs[t]? = some j → j.pid ≠ pid) : Listed (set_status jobs t st) pid := by
  obtain ⟨j, hj, hpid, hdone⟩ := h
  obtain ⟨n, hn⟩ := List.mem_iff_getElem?.mp hj
  have hset : (Proc.set_status jobs t st)[n]? = some (if t = n then { j with status := st } else j) := by
    rw [Proc.set_status, List.getElem?_modify, hn]
    split <;> rfl
  refine ⟨_, List.mem_of_getElem? hset, ?_, ?_⟩
  · split <;> exact hpid
  · split
    next ht =>
      subst ht
      exact hst.resolve_right fun h => h j hn hpid
    · exact hdone

theorem find_job_by_pid_some {n : Nat} (h : find_job_by_pid jobs pid = some n) : ∃ j, jobs[n]? = some j ∧ j.pid = pid := by
  obtain ⟨hlt, hpid, -⟩ := List.findIdx?_eq_some_iff_getElem.mp h
  exact ⟨jobs[n], List.getElem?_eq_getElem hlt, by simpa using hpid⟩

theorem Listed.mark {p : Nat} {st : JobStatus} (h : Listed jobs pid) (hst : st ≠ .done ∨ p ≠ pid) :
    Listed (mark_job jobs p st) pid := by
  rw [mark_job]
  split
  · exact h
  next n hn =>
    obtain ⟨j, hj, hpid⟩ := find_job_by_pid_some hn
    refine h.set_status (hst.imp id fun hne j' hj' => ?_)
    cases hj.symm.trans hj'
    rwa [hpid]

theorem Listed.erase {t : Nat} {j : Job} (h : Listed jobs pid) (hj : jobs[t]? = some j) (hne : j.pid ≠ pid) :
    Listed (jobs.eraseIdx t) pid :=
  h.mono fun j' hj' hpid hst => by
    obtain ⟨n, hn⟩ := List.mem_iff_getElem?.mp hj'
    refine ⟨j', List.mem_eraseIdx_iff_getElem?.mpr ⟨n, fun hnt => ?_, hn⟩, hpid, hst⟩
    subst hnt
    cases hj.symm.trans hn
    exact hne hpid

/-! ## 番号 -/

/-- 終わった印のない項目の `job_id_of` は、どれも異なる。 -/
theorem job_id_of_lt {n m : Nat} {j : Job} (hj : jobs[n]? = some j) (hst : j.status ≠ .done) (hlt : n < m) :
    job_id_of jobs n < job_id_of jobs m := by
  have hsub : (jobs.take (n + 1)).Sublist (jobs.take m) := by
    have h := List.take_sublist (n + 1) (jobs.take m)
    rwa [List.take_take, Nat.min_eq_left hlt] at h
  have hcount := hsub.countP_le (p := fun j => j.status != .done)
  rw [List.take_add_one, hj, List.countP_append] at hcount
  have hone : List.countP (fun j : Job => j.status != .done) (some j).toList = 1 := by simp [hst]
  unfold job_id_of
  omega

theorem Listed.unique_id (h : Listed jobs pid) : ∃ (n : Nat) (j : Job), jobs[n]? = some j ∧ j.pid = pid ∧ j.status ≠ .done ∧
    ∀ (m : Nat) (j' : Job), jobs[m]? = some j' → j'.status ≠ .done → job_id_of jobs m = job_id_of jobs n → m = n := by
  obtain ⟨j, hj, hpid, hst⟩ := h
  obtain ⟨n, hn⟩ := List.mem_iff_getElem?.mp hj
  refine ⟨n, j, hn, hpid, hst, fun m j' hm hst' hid => ?_⟩
  rcases Nat.lt_trichotomy m n with hlt | heq | hlt
  · exact absurd hid (Nat.ne_of_lt (job_id_of_lt hm hst' hlt))
  · exact heq
  · exact absurd hid.symm (Nat.ne_of_lt (job_id_of_lt hn hst hlt))

/-! ## シェルの一歩 -/

/-- 呼び出しの後の表と、始めた仕事。 -/
inductive JobsStep (s : Shell) (r : Regs) (v : Nat) : Shell → Option Nat → Prop
  | keep {u : Shell} : u.jobs = s.jobs → (PointFits s.jobs s.point → PointFits u.jobs u.point) → JobsStep s r v u none
  | reaped : r.eax = SYS_WAITPID → r.ebx = 0 → r.ecx = WNOHANG → positive v = true → s.point = .prompt →
      JobsStep s r v { s with jobs := mark_job s.jobs v .done } none
  | added {u : Shell} {p g : Nat} : u.jobs = add_job s.jobs p g → PointFits u.jobs u.point → JobsStep s r v u (some p)
  | stopped {p : Nat} {target : Option Nat} : s.point = .probe p target → v = 0 → JobsStep s r v
      ⟨.marked p .stopped, match target with
        | none => mark_job s.jobs p .stopped
        | some t => set_status s.jobs t .stopped⟩ none
  | ended {p : Nat} {target : Option Nat} : s.point = .probe p target → r.eax = 13 → r.ebx = p → r.ecx = 0 → v ≠ 0 →
      JobsStep s r v
        ⟨.marked p .done, match target with
          | none => mark_job s.jobs p .done
          | some t => s.jobs.eraseIdx t⟩ none

theorem finish_jobs (s : Shell) (r : Regs) (v : Nat) (pids : List Nat) (b : Bool) :
    JobsStep s r v (finish s.jobs pids b) pids.getLast? := by
  rw [finish]
  cases pids.getLast? with
  | none => exact .keep rfl fun _ => trivial
  | some last => exact .added rfl (by dsimp only; split <;> trivial)

theorem next_stage_jobs (s : Shell) (r : Regs) (v n : Nat) (pids : List Nat) (b : Bool) :
    JobsStep s r v (next_stage s.jobs n pids b) (if n = 0 then pids.getLast? else none) := by
  rw [next_stage]
  split
  · exact finish_jobs s r v pids b
  · split <;> exact .keep rfl fun _ => trivial

theorem kill_stages_jobs (s : Shell) (r : Regs) (v : Nat) (rest pids : List Nat) (b : Bool) :
    JobsStep s r v (kill_stages s.jobs rest pids b) none := by
  rw [kill_stages]
  split
  next h =>
    subst h
    exact .keep rfl fun _ => trivial
  · split <;> exact .keep rfl fun _ => trivial

theorem Shell.next_jobs (h : s.next r v = some s') : JobsStep s r v s' (s.starts r v) := by
  obtain ⟨point, jobs⟩ := s
  have hgoto : ∀ {b : Bool} {p : Point}, (PointFits jobs point → PointFits jobs p) →
      (if b then some (Shell.mk p jobs) else none) = some s' → JobsStep ⟨point, jobs⟩ r v s' none := by
    intro b p hp h
    split at h
    · cases h
      exact .keep rfl hp
    · cases h
  rw [Shell.next] at h
  rw [Shell.starts]
  dsimp only at h ⊢
  split at h
  next hq =>
    cases h
    rw [if_pos hq]
    exact .keep rfl id
  next hq =>
    rw [if_neg hq]
    cases point with
    | prompt =>
      dsimp only at h ⊢
      split at h
      next hcall =>
        obtain ⟨heax, hebx, hecx⟩ := calls_spec hcall
        cases h
        split
        next hv => exact .reaped heax hebx hecx hv rfl
        · exact .keep rfl id
      · cases h
    | spawning b =>
      dsimp only at h ⊢
      split at h
      · cases h
        split
        · exact .added rfl trivial
        · exact .keep rfl fun _ => trivial
      · cases h
    | launched pid b => exact hgoto (fun _ => by cases b <;> trivial) h
    | detached => exact hgoto (p := .prompt) (fun _ => trivial) h
    | piping n pids b =>
      dsimp only at h ⊢
      split at h
      · cases h
        split
        · exact .keep rfl fun _ => trivial
        · exact kill_stages_jobs ..
      · cases h
    | forking n pids b =>
      dsimp only at h ⊢
      split at h
      · cases h
        split
        · exact .keep rfl fun _ => trivial
        · exact next_stage_jobs ..
      · cases h
    | grouping n pids b =>
      dsimp only at h ⊢
      split at h
      · cases h
        exact next_stage_jobs ..
      · cases h
    | killing rest pids b =>
      dsimp only at h ⊢
      split at h
      · cases h
        exact kill_stages_jobs ..
      · cases h
    | draining n pids b =>
      dsimp only at h ⊢
      split at h
      · cases h
        split
        · exact finish_jobs ..
        · exact .keep rfl fun _ => trivial
      · cases h
    | waits n pid => exact hgoto (fun _ => by split <;> trivial) h
    | raised pid t b => exact hgoto (fun hfit => by cases b <;> exact hfit) h
    | resumed pid t => exact hgoto (p := .awaiting pid t) id h
    | awaiting pid t => exact hgoto (p := .probe pid (some t)) id h
    | lowered pid => exact hgoto (p := .prompt) (fun _ => trivial) h
    | probe pid t =>
      dsimp only at h ⊢
      split at h
      next hcall =>
        obtain ⟨heax, hebx, hecx⟩ := calls_spec hcall
        cases h
        split
        next hv => exact .stopped rfl hv
        next hv => exact .ended rfl heax hebx hecx hv
      · cases h
    | marked pid st => exact hgoto (p := .prompt) (fun _ => trivial) h

/-- 行を読んでも、仕事は表に残る。 -/
theorem Shell.line_jobs {cmd : Command} (h : s.line cmd = some s') :
    PointFits s'.jobs s'.point ∧ ∀ pid, Listed s.jobs pid → Listed s'.jobs pid := by
  obtain ⟨point, jobs⟩ := s
  unfold Shell.line at h
  split at h
  · cases h
  cases cmd with
  | single b =>
    cases h
    exact ⟨trivial, fun _ => id⟩
  | pipeline n b =>
    dsimp only at h
    split at h
    next hn =>
      cases h
      rw [next_stage, if_neg (by omega), if_neg (by omega)]
      exact ⟨trivial, fun _ => id⟩
    · cases h
  | jobs =>
    cases h
    dsimp only
    refine ⟨?_, fun _ => Listed.compact⟩
    next hprompt =>
      cases not_not.mp hprompt
      trivial
  | fg t =>
    dsimp only at h
    split at h
    · cases h
      exact ⟨trivial, fun _ => Listed.compact⟩
    next j hj =>
      cases h
      exact ⟨⟨j, hj, rfl⟩, fun _ => Listed.compact⟩
  | bg t =>
    dsimp only at h
    split at h
    · cases h
      exact ⟨trivial, fun _ => Listed.compact⟩
    next j hj =>
      cases h
      exact ⟨trivial, fun _ hl => hl.compact.set_status (.inl (by simp))⟩

/-! ## 一歩と実行 -/

variable {R R' : JobRun} {e : DeskEvent} {D' : Desk}

theorem RoomForJob.wrap (h : RoomForJob R (.kernel ev)) : NoWrap R.desk.kernel ev := fun _ => by
  have := h.pids
  omega

theorem JobsInv.shell_mid (h : JobsInv R) : ShellMid R.desk.kernel R.desk.kernel :=
  ⟨rfl, Nat.le_refl _, h.mid.1, h.mid.2.1, h.mid.2.2⟩

/-- シェルの呼び出しの後の表。 -/
theorem JobsInv.call (hs : Synced R.desk.kernel) (h : JobsInv R) (hok : RoomForJob R (.kernel ev))
    (hr : shell_call R.desk.kernel ev = some r) (hK : Proc.step R.desk.kernel ev = some K')
    (hn : R.desk.shell.next r K'.ctx.eax = some s')
    (hdead : ∀ pid ∈ R.started, Agrees R.desk.kernel pid .done → Agrees K' pid .done)
    (hroom : (R.desk.shell.starts r K'.ctx.eax).isSome → R.desk.shell.jobs.length < MAX_JOBS) :
    PointFits s'.jobs s'.point ∧ (∀ pid ∈ R.desk.shell.starts r K'.ctx.eax, pid ∈ s'.known) ∧
      ∀ pid ∈ (R.desk.shell.starts r K'.ctx.eax).toList ++ R.started, Listed s'.jobs pid ∨ Agrees K' pid .done := by
  have hjobs := Shell.next_jobs hn
  obtain ⟨i, env, hc, hpid⟩ := shell_call_calls hs hK hr
  obtain ⟨o, ho, rfl⟩ := hc.step hK
  have hkept : ∀ {jobs' : List Job}, (∀ pid, Listed R.desk.shell.jobs pid → Listed jobs' pid ∨ Agrees o.kernel pid .done) →
      ∀ pid ∈ R.started, Listed jobs' pid ∨ Agrees o.kernel pid .done := fun hl pid hpid =>
    (h.listed pid hpid).elim (hl pid) fun hd => .inr (hdead pid hpid hd)
  generalize R.desk.shell.starts r o.kernel.ctx.eax = started at hjobs hroom ⊢
  cases hjobs with
  | keep hsame hfits =>
    rw [hsame] at hfits ⊢
    exact ⟨hfits h.fits, fun _ hx => (by cases hx), hkept fun _ hl => .inl hl⟩
  | reaped heax hebx hecx hv hpt =>
    refine ⟨by rw [hpt]; trivial, fun _ hx => (by cases hx), hkept fun pid hl => ?_⟩
    by_cases hp : o.kernel.ctx.eax = pid
    · right
      have ho : syscall_waitpid R.desk.kernel i { r with cs := R.desk.kernel.ctx.cs } = some o := by
        have heax : r.eax = 31 := heax
        rw [← ho, syscall]
        simp only [heax]
      exact hp ▸ waitpid_reaps (r := { r with cs := R.desk.kernel.ctx.cs }) h.shell_mid hc.lt hebx hecx hok.pids ho hv
    · exact .inl (hl.mark (.inr hp))
  | @added _ p g hadd hfits =>
    have hnew : Listed s'.jobs p := hadd ▸ Listed.added p g (hroom rfl)
    refine ⟨hfits, fun x hx => ?_, fun x hx => ?_⟩
    · cases Option.mem_some.mp hx
      obtain ⟨j, hj, hjp, -⟩ := hnew
      exact List.mem_append_left _ (hjp ▸ List.mem_map_of_mem hj)
    rcases List.mem_append.mp hx with hx | hx
    · obtain rfl : x = p := by simpa using hx
      exact .inl hnew
    · rw [hadd]
      exact hkept (fun _ hl => .inl hl.add) x hx
  | @stopped f target hpt hv =>
    refine ⟨trivial, fun _ hx => (by cases hx), hkept fun pid hl => .inl ?_⟩
    cases target with
    | none => exact hl.mark (.inl (by simp))
    | some t => exact hl.set_status (.inl (by simp))
  | @ended f target hpt heax hebx hecx hv =>
    refine ⟨trivial, fun _ hx => (by cases hx), hkept fun pid hl => ?_⟩
    have hf : f ≠ 0 := (h.kids f (.inl (List.mem_append_right _ (by rw [hpt]; exact List.mem_singleton.mpr rfl)))).pos
    have hkill : some o = some (.returns (syscall_kill R.desk.kernel { r with cs := R.desk.kernel.ctx.cs }).1
        { r with cs := R.desk.kernel.ctx.cs } (syscall_kill R.desk.kernel { r with cs := R.desk.kernel.ctx.cs }).2) := by
      rw [← ho, syscall]
      simp only [heax]
      rfl
    cases Option.some.inj hkill
    obtain ⟨hsame, hag⟩ := syscall_kill_dead (r := { r with cs := R.desk.kernel.ctx.cs }) h.mid.2.1 hf hebx hecx hv
    have hag : Agrees (return_to (syscall_kill R.desk.kernel { r with cs := R.desk.kernel.ctx.cs }).1
        { r with cs := R.desk.kernel.ctx.cs } (syscall_kill R.desk.kernel { r with cs := R.desk.kernel.ctx.cs }).2) f .done := by
      rw [hsame]
      exact hag
    by_cases hp : f = pid
    · exact .inr (hp ▸ hag)
    · left
      cases target with
      | none => exact hl.mark (.inr hp)
      | some t =>
        have hfits := h.fits
        rw [hpt] at hfits
        obtain ⟨j, hj, hjf⟩ := hfits
        exact hl.erase hj (hjf ▸ hp)

theorem JobsInv.step (hs : Synced R.desk.kernel) (h : JobsInv R) (hok : RoomForJob R e) (he : R.step e = some R') :
    JobsInv R' := by
  obtain ⟨D', hD, rfl⟩ := Option.map_eq_some_iff.mp he
  have hroom := hok.room D' hD
  cases e with
  | line cmd =>
    obtain ⟨s', hline, rfl⟩ := Option.map_eq_some_iff.mp hD
    obtain ⟨hfits, hlisted⟩ := Shell.line_jobs hline
    exact ⟨h.mid, fun f hf => h.kids f (hf.imp ((Shell.line_spec hline).1 f) id), hfits,
      fun pid hpid => (h.listed pid hpid).imp (hlisted pid) id⟩
  | kernel ev =>
    have hcalls := Desk.shell_calls hD
    obtain ⟨hmid, hknown⟩ := known_kids hs h.shell_mid hok.wrap (fun f hf => h.kids f (.inl hf)) hD
    obtain ⟨K', hK, hD'⟩ := Option.bind_eq_some_iff.mp hD
    have hkid : ∀ f ∈ R.started, Kid K' f := fun f hf => Kid.step hs h.shell_mid hok.wrap hcalls hK (h.kids f (.inr hf))
    have hdead : ∀ pid ∈ R.started, Agrees R.desk.kernel pid .done → Agrees K' pid .done := fun pid hpid =>
      Agrees.done_step hs h.shell_mid hok.wrap hcalls hK (h.kids pid (.inr hpid))
    cases hr : shell_call R.desk.kernel ev with
    | none =>
      rw [hr] at hD'
      cases hD'
      have hnone : R.desk.starts (.kernel ev) ⟨K', R.desk.shell⟩ = none := by simp [Desk.starts, hr]
      rw [hnone]
      exact ⟨⟨hmid.sched, hmid.pids, hmid.shell⟩, fun f hf => hf.elim (hknown f) (hkid f), h.fits,
        fun pid hpid => (h.listed pid hpid).imp id (hdead pid hpid)⟩
    | some r =>
      simp only [hr] at hD'
      obtain ⟨s', hn, rfl⟩ := Option.map_eq_some_iff.mp hD'
      have hstarts : R.desk.starts (.kernel ev) ⟨K', s'⟩ = R.desk.shell.starts r K'.ctx.eax := by simp [Desk.starts, hr]
      rw [hstarts] at hroom ⊢
      obtain ⟨hfits, hnew, hlisted⟩ := h.call hs hok hr hK hn hdead hroom
      refine ⟨⟨hmid.sched, hmid.pids, hmid.shell⟩, fun f hf => ?_, hfits, hlisted⟩
      rcases hf with hf | hf
      · exact hknown f hf
      rcases List.mem_append.mp hf with hf | hf
      · exact hknown f (hnew f (by simpa using hf))
      · exact hkid f hf

theorem JobsInv.table_lists (h : JobsInv R) : JobsListed R := fun pid hpid => by
  obtain ⟨hstarted, hlive⟩ := List.mem_filter.mp hpid
  exact ((h.listed pid hstarted).resolve_right (live_iff.mp hlive)).unique_id

/-- 表に空きのあるときにだけ仕事を始めるなら、走っているか止まった仕事は、いつも表にある。 -/
theorem jobs_listed (rc_in rc_out mounts : Nat) {img : Image}
    (hboot : Proc.step (boot rc_in rc_out mounts) (.boot (some img)) = some K)
    (hrun : Steps JobRun.step RoomForJob (.start K) R) : JobsListed R := by
  obtain ⟨hs, hinv⟩ := DeskInv.start rc_in rc_out mounts hboot
  have hstart : JobsInv (.start K) :=
    ⟨⟨hinv.sched, hinv.pids, hinv.shell⟩, fun f hf => hf.elim (hinv.kids f) fun h => (by cases h), trivial, fun pid hpid => (by cases hpid)⟩
  refine (hrun.inv (P := fun R => Synced R.desk.kernel ∧ JobsInv R) (fun R e R' hR hok he => ?_) ⟨hs, hstart⟩).2.table_lists
  refine ⟨?_, hR.2.step hR.1 hok he⟩
  obtain ⟨D', hD, rfl⟩ := Option.map_eq_some_iff.mp he
  exact Desk.synced hR.1 hD

/-- 条件の十分な検査。 -/
def room_check (R : JobRun) (_ : DeskEvent) : Bool :=
  decide (R.desk.kernel.next_pid < 2 ^ 31) && decide (R.desk.shell.jobs.length < MAX_JOBS)

theorem room_check_ok (R : JobRun) (e : DeskEvent) (h : room_check R e = true) : RoomForJob R e := by
  simp only [room_check, Bool.and_eq_true, decide_eq_true_eq] at h
  exact ⟨h.1, fun _ _ _ => h.2⟩

/-- シェルを作った後の状態。 -/
def shell_jobs : JobRun := .start shell_desk.kernel

/-- 背景の仕事を始める。 -/
def start_background (pid : Nat) : List DeskEvent :=
  [.line (.single true), .kernel (call 24), .kernel (call 30 pid pid), .kernel (call 30)]

/-- 前景の仕事が終わり、シェルは入力の前に `waitpid(0, WNOHANG)` を呼ぶ。 -/
def foreground_round (pid : Nat) : List DeskEvent :=
  [.line (.single false), .kernel (call 24), .kernel (call 30 pid pid), .kernel (call 9), .kernel (call 5), .kernel tick,
    .kernel (call 13 pid), .kernel (call 30), .kernel (call 31 0 1)]

def one_background : Trace (checked JobRun.step room_check shell_jobs) (fun R => R.unfinished = [2]) :=
  ⟨[.kernel tick, .kernel tick] ++ start_background 2, by decide +kernel⟩

theorem jobs_listed_background : ∃ R, Steps JobRun.step RoomForJob shell_jobs R ∧ R.unfinished = [2] ∧ JobsListed R := by
  obtain ⟨R, hR, hone⟩ := one_background.steps_checked room_check_ok
  have hboot : Proc.step (boot 1 1 0) (.boot (some shell_image)) = some shell_desk.kernel := rfl
  exact ⟨R, hR, hone, jobs_listed 1 1 0 hboot hR⟩

/-- 前景の仕事が 16 個終わった後の背景の仕事 18。 -/
def full_table : Trace (checked JobRun.step (fun R _ => decide (R.unfinished.length ≤ MAX_JOBS)) shell_jobs) (fun R =>
    R.desk.shell.point = .prompt ∧ R.unfinished = [18] ∧ 18 ∉ R.desk.shell.jobs.map (·.pid)) :=
  ⟨[.kernel tick, .kernel tick] ++ (List.range 16).flatMap (fun i => foreground_round (i + 2)) ++ start_background 18,
    by decide +kernel⟩

/-- 走っている背景の仕事が、表にない。 -/
theorem background_job_lost : ∃ R, Steps JobRun.step (fun R _ => FewJobs R) shell_jobs R ∧ FewJobs R ∧
    R.desk.shell.point = .prompt ∧ R.unfinished = [18] ∧ ¬JobsListed R := by
  obtain ⟨R, hR, hpt, hlive, hnot⟩ := full_table.steps_checked fun R e h => of_decide_eq_true h
  have hfew : FewJobs R := by
    rw [FewJobs, hlive]
    decide
  refine ⟨R, hR, hfew, hpt, hlive, fun hl => ?_⟩
  obtain ⟨n, j, hj, hpid, -⟩ := hl 18 (by rw [hlive]; exact List.mem_singleton.mpr rfl)
  exact hnot (hpid ▸ List.mem_map_of_mem (List.mem_of_getElem? hj))

end MyOS.Proc
