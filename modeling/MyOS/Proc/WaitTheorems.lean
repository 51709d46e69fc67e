import MyOS.Proc.Lemmas.Wait
import MyOS.Proc.Lemmas.Trap

/-!
# 終了した子の報告の定理

終わった子は、親が生きていて報告を受けていない間は見つかり、報告は一度だけである。
-/

namespace MyOS.Proc
open MyOS.Lib

variable {K₀ K K' K₁ K₂ : Kernel} {ev : Event} {i p c : Nat}

theorem WaitInv.boot (rc_in rc_out mounts : Nat) : WaitInv (boot rc_in rc_out mounts) := by
  have hone : (Proc.boot rc_in rc_out mounts).num_processes = 1 := rfl
  refine ⟨.boot .., fun j hj _ => ?_, fun k hk => ?_, fun j k hj _ h0 => ?_, fun x hx => ?_, fun x hx => ?_,
    fun x hx => ?_, .nil⟩
  · have hempty : ((Proc.boot rc_in rc_out mounts).table j).children = [] := by
      simp only [Proc.boot]
      split <;> rfl
    exact ⟨by rw [hempty]; exact .nil, fun c hc => by rw [hempty] at hc; cases hc⟩
  · rw [hone] at hk
    obtain rfl : k = 0 := by omega
    exact Nat.one_pos
  · omega
  all_goals cases hx

theorem WaitInv.fin (h : WaitInv K) (hi : FinIds K K')
    (hdead : ∀ j, (K'.table j).state = .terminated ↔ (K.table j).state = .terminated)
    (hnum : 0 < K.num_processes) : WaitInv K' := by
  have hsame : SameIds K K' K.next_pid := ⟨hi.num, hi.next, fun j _ => hi.pid j, fun j _ => hi.parent j,
    fun j _ => .inl (hi.children j), fun j _ => (hdead j).mpr⟩
  exact h.quiet hsame (Nat.le_refl _) hnum (fun j _ => hi.children j) hi.reports

theorem WaitInv.run {ok : Kernel → Event → Prop} (hok : ∀ K ev, ok K ev → WaitOk K ev)
    (h : Steps Proc.step ok K K') (hs : Synced K) (hI : WaitInv K ∧ SchedInv K) :
    WaitInv K' ∧ SchedInv K' := by
  refine run_inv (I := fun K => WaitInv K ∧ SchedInv K)
    (M := fun K₀ ev K => (WaitInv K ∧ SchedInv K) ∧ 0 < K.num_processes ∧ Acts K₀ ev K₀ K)
    (fun K₀ ev hs hI _ => ⟨hI, hs.num, .refl⟩) ?_ ?_ h hs hI
  · rintro K₀ ev K K' hs ⟨h₀, hz₀⟩ hev ⟨⟨h, hz⟩, hnum, hacts⟩ ha
    exact ⟨⟨.step hs h₀ hz (hok _ _ hev) hnum h ha.tree_step,
      .act hs hz₀ (h₀.pids.exit_ne_zero hs.num) hz ha⟩, Nat.lt_of_lt_of_le hnum ha.frame.num, hacts.tail ha⟩
  · rintro K₀ ev K K' hs - - ⟨⟨h, hz⟩, hnum, hacts⟩ hf
    exact ⟨h.fin hf.ids (hf.dead hz (Acts.cur_lt hs hacts)) hnum, hz.fin (Acts.cur_lt hs hacts) hf⟩

/-! 終わった子が残ること。 -/

theorem TreeStep.reports_mono (hs : Synced K₀) (hp : PidInv K) (h : TreeStep K₀ ev K K') {x : Nat × Nat}
    (hx : x ∈ K.reports) : x ∈ K'.reports := by
  cases h with
  | quiet hrest => exact hrest.reports.symm ▸ hx
  | await _ hrest => exact hrest.reports.symm ▸ hx
  | move _ hrest => exact hrest.reports.symm ▸ hx
  | dies _ hrest => exact hrest.reports.symm ▸ hx
  | exit _ hK hK' =>
    subst hK hK'
    rw [exit_tree_reports]
    exact hx
  | @unblock i b he hK' =>
    subst hK'
    obtain ⟨hrest, hilt, -, -⟩ := he.frame hs
    rcases unblock_parent_tree hp (hrest.num.symm ▸ hilt) b with ⟨-, hr⟩ | ⟨j, -, -, -, -, -, hr⟩
    · rw [hr]
      exact hx
    · rw [hr]
      split
      · exact List.mem_cons_of_mem _ hx
      · exact hx
  | reap _ hK _ hK' =>
    subst hK hK'
    rw [reaped_reports]
    exact List.mem_cons_of_mem _ hx
  | create hK _ hcr =>
    subst hK
    rw [(CreateFrame.create hcr).rest]
    exact hx
  | fork hK _ _ _ hf =>
    subst hK
    rw [fork_into_rest hf]
    exact hx

theorem Findable.step (hs : Synced K₀) (h : WaitInv K) (hok : WaitOk K₀ ev) (h0 : p ≠ 0)
    (hp : p < K.next_pid) (hf : Findable p c K) (ht : TreeStep K₀ ev K K') : Findable p c K' := by
  have hsame : ∀ {next : Nat}, SameIds K K' next → Findable p c K' := by
    intro next hs'
    rcases hf with hx | hgone | ⟨k, hk, hkc, hkp, hkd⟩
    · exact .inl (ht.reports_mono hs h.pids hx)
    · refine .inr (.inl fun j hj hpid => ?_)
      rw [hs'.num] at hj
      exact hs'.dead j hj (hgone j hj ((hs'.pid j hj).symm.trans hpid))
    · exact .inr (.inr ⟨k, hs'.num.symm ▸ hk, (hs'.pid k hk).trans hkc, (hs'.parent k hk).trans hkp,
        hs'.dead k hk hkd⟩)
  cases ht.kin with
  | same hs' => exact hsame hs'
  | skips _ _ hs' => exact hsame hs'
  | @born slot parent adder hK _ hb hborn =>
    subst hK
    have hgone : (∀ j, j < K.num_processes → (K.table j).pid = p → (K.table j).state = .terminated) →
        Findable p c K' := by
      refine fun hgone => .inr (.inl fun j hj hpid => ?_)
      rcases hborn.cases_lt hj with rfl | ⟨hj, hjs⟩
      · rw [hborn.pid] at hpid
        omega
      · obtain ⟨hpid', -, hst, -⟩ := hborn.old j hj hjs
        rw [hst]
        exact hgone j hj (hpid'.symm.trans hpid)
    have hrep : (p, c) ∈ K.reports → Findable p c K' := fun hx => .inl (hborn.reports.symm ▸ hx)
    rcases hf with hx | hg | ⟨k, hk, hkc, hkp, hkd⟩
    · exact hrep hx
    · exact hgone hg
    by_cases hx : (p, c) ∈ K.reports
    · exact hrep hx
    by_cases hg : ∀ j, j < K.num_processes → (K.table j).pid = p → (K.table j).state = .terminated
    · exact hgone hg
    -- 親は生きているので、この項目は使い回されない
    simp only [not_forall] at hg
    obtain ⟨j, hj, hjp, hlive⟩ := hg
    have hj0 : j ≠ 0 := by
      rintro rfl
      exact h0 (hjp.symm.trans h.pids.idle)
    have hmem : (K.table k).pid ∈ (K.table j).children := by
      refine h.listed j k hj hk hj0 hlive (hkp.trans hjp.symm) ?_
      rw [hjp, hkc]
      exact hx
    have hks : k ≠ slot := by
      rintro rfl
      cases hb with
      | boot _ hsl => omega
      | spawn _ _ hsl => omega
      | fork hc heax hslot =>
        obtain ⟨r₀, rfl, rfl⟩ := hc.event
        exact hok.reuse heax k hslot hk j hj hlive hmem
    obtain ⟨hpid', hpar', hst', -⟩ := hborn.old k hk hks
    refine .inr (.inr ⟨k, ?_, hpid'.trans hkc, hpar'.trans hkp, hst'.trans hkd⟩)
    rw [hborn.num]
    split <;> omega

theorem Findable.fin (hi : FinIds K K')
    (hdead : ∀ j, (K'.table j).state = .terminated ↔ (K.table j).state = .terminated)
    (hf : Findable p c K) : Findable p c K' := by
  rcases hf with hx | hgone | ⟨k, hk, hkc, hkp, hkd⟩
  · exact .inl (hi.reports.symm ▸ hx)
  · exact .inr (.inl fun j hj hpid => (hdead j).mpr (hgone j (hi.num ▸ hj) ((hi.pid j).symm.trans hpid)))
  · exact .inr (.inr ⟨k, hi.num.symm ▸ hk, (hi.pid k).trans hkc, (hi.parent k).trans hkp, (hdead k).mpr hkd⟩)

theorem Findable.run (h : Steps Proc.step WaitOk K K') (hs : Synced K) (hI : WaitInv K ∧ SchedInv K)
    (h0 : p ≠ 0) (hp : p < K.next_pid) (hf : Findable p c K) : Findable p c K' := by
  suffices hrun : (WaitInv K' ∧ SchedInv K') ∧ p < K'.next_pid ∧ Findable p c K' from hrun.2.2
  refine run_inv (I := fun K => (WaitInv K ∧ SchedInv K) ∧ p < K.next_pid ∧ Findable p c K)
    (M := fun K₀ ev K => ((WaitInv K ∧ SchedInv K) ∧ p < K.next_pid ∧ Findable p c K) ∧
      0 < K.num_processes ∧ Acts K₀ ev K₀ K)
    (fun K₀ ev hs hI _ => ⟨hI, hs.num, .refl⟩) ?_ ?_ h hs ⟨hI, hp, hf⟩
  · rintro K₀ ev K K' hs ⟨⟨h₀, hz₀⟩, -⟩ hok ⟨⟨⟨h, hz⟩, hp, hf⟩, hnum, hacts⟩ ha
    have ht := ha.tree_step
    exact ⟨⟨⟨.step hs h₀ hz hok hnum h ht, .act hs hz₀ (h₀.pids.exit_ne_zero hs.num) hz ha⟩,
      Nat.lt_of_lt_of_le hp (ht.kin.next_le hok.wrap), Findable.step hs h hok h0 hp hf ht⟩,
      Nat.lt_of_lt_of_le hnum ha.frame.num, hacts.tail ha⟩
  · rintro K₀ ev K K' hs - - ⟨⟨⟨h, hz⟩, hp, hf⟩, hnum, hacts⟩ hfin
    have hdead := hfin.dead hz (Acts.cur_lt hs hacts)
    exact ⟨⟨h.fin hfin.ids hdead hnum, hz.fin (Acts.cur_lt hs hacts) hfin⟩, hfin.ids.next.symm ▸ hp,
      Findable.fin hfin.ids hdead hf⟩

/-! `wait` を繰り返すこと。 -/

/-- 終わった子があれば、見つかる番号は 0 でない。 -/
theorem find_terminated_child_ne_zero (h : WaitInv K) (hnum : 0 < K.num_processes) (hi : i < K.num_processes)
    (h0 : i ≠ 0) (hlive : Live (K.table i).state) (hidle : (K.table 0).parent_id = 0) {m : Nat}
    (hm : m < K.num_processes) (hmem : (K.table m).pid ∈ (K.table i).children) (hdead : (K.table m).state = .terminated) :
    find_terminated_child K (K.table i).pid ≠ 0 := by
  rw [find_terminated_child, find_child, h.pids.find hi]
  dsimp only
  cases hf : (K.table i).children.find? fun c =>
      (get_process_by_pid K c).any fun j => (K.table j).state == .terminated with
  | none =>
    have := List.find?_eq_none.mp hf _ hmem
    rw [h.pids.find hm] at this
    simp [hdead] at this
  | some x =>
    -- 列の番号は、自分を親とする項目の番号なので、休止のプロセスではない
    obtain ⟨k, hk, hkx, hkp⟩ := (h.kids i hi hlive).entry x (List.mem_of_find?_eq_some hf)
    intro hx
    have hx : x = 0 := hx
    have hk0 : k = 0 := h.pids.inj k 0 hk hnum (hkx.trans (hx.trans h.pids.idle.symm))
    subst hk0
    exact h.pids.pid_ne_zero hnum hi h0 (hkp.symm.trans hidle)

/-- 終わった子のある `wait` は、すぐに子を除いて戻る。 -/
theorem step_wait (env : Env) {r : Regs} (heax : r.eax = SYS_WAIT) (hcur : K.current_process = some i)
    (h0 : i ≠ 0) (hcall : (K.table i).pipe_call = none)
    (hdead : find_terminated_child K (K.table i).pid ≠ 0) :
    ∃ r' v, Proc.step K (.syscall env r) =
      some (return_to (reaped K i (find_terminated_child K (K.table i).pid)) r' v) := by
  simp only [Proc.step, hcur]
  rw [if_neg (by simp [h0, hcall])]
  simp only [handle_syscalls, syscall, heax, SYS_WAIT]
  rw [syscall_wait, if_pos hdead]
  exact ⟨_, _, rfl⟩

/-- `wait` を繰り返せば、終わった子 `c` の番号が返る。 -/
theorem waits_report (env : Env) {r : Regs} (heax : r.eax = SYS_WAIT) (n : Nat) (h : WaitInv K)
    (hnum : 0 < K.num_processes) (hi : i < K.num_processes) (h0 : i ≠ 0) (hlive : Live (K.table i).state)
    (hidle : (K.table 0).parent_id = 0) (hcur : K.current_process = some i)
    (hcall : (K.table i).pipe_call = none) (hlen : (K.table i).children.length ≤ n) {m : Nat}
    (hm : m < K.num_processes) (hmem : (K.table m).pid ∈ (K.table i).children)
    (hdead : (K.table m).state = .terminated) :
    ∃ t K', exec Proc.step K (List.replicate t (.syscall env r)) = some K' ∧
      ((K.table i).pid, (K.table m).pid) ∈ K'.reports := by
  induction n generalizing K with
  | zero =>
    rw [List.length_eq_zero_iff.mp (Nat.le_zero.mp hlen)] at hmem
    cases hmem
  | succ n ih =>
    have hne := find_terminated_child_ne_zero h hnum hi h0 hlive hidle hm hmem hdead
    obtain ⟨r', v, hstep⟩ := step_wait env heax hcur h0 hcall hne
    obtain ⟨hfmem, hfdead⟩ := find_terminated_child_spec h.pids hi hne
    generalize find_terminated_child K (K.table i).pid = d at *
    have hids := reaped_ids K i d
    by_cases hd : d = (K.table m).pid
    · refine ⟨1, return_to (reaped K i d) r' v, ?_, ?_⟩
      · rw [List.replicate_one, exec, hstep]
        rfl
      · show _ ∈ (reaped K i d).reports
        rw [reaped_reports, hd]
        exact List.mem_cons_self ..
    · -- ほかの子が返るなら、列は一つ短くなり、`c` は残る
      have hrep : WaitInv (reaped K i d) := h.report hids hnum hi hlive hfmem (fun k _ => reaped_tree ..)
        (reaped_reports ..) fun k hk hpid => hids.dead k hk (hfdead k hk hpid)
      have hchildren : ((reaped K i d).table i).children = remove_id d (K.table i).children := by
        rw [reaped_tree, if_pos rfl]
      have hnodup := (h.kids i hi hlive).nodup
      have hst : ((reaped K i d).table i).state = (K.table i).state := reap_child_state K i d i
      have hclean := reaped_clean K i d
      have hnext : ∃ t K', exec Proc.step (return_to (reaped K i d) r' v)
          (List.replicate t (.syscall env r)) = some K' ∧
          (((reaped K i d).table i).pid, ((reaped K i d).table m).pid) ∈ K'.reports := by
        refine ih (K := return_to (reaped K i d) r' v)
          (hrep.fin ⟨rfl, rfl, rfl, fun _ => rfl, fun _ => rfl, fun _ => rfl⟩ (fun _ => .rfl)
            (hids.num.symm ▸ hnum)) ?_ ?_ ?_ ?_ ?_ ?_ ?_ ?_ ?_ ?_
        · exact hids.num.symm ▸ hnum
        · exact hids.num.symm ▸ hi
        · exact hst.symm ▸ hlive
        · exact (hids.parent 0 hnum).trans hidle
        · exact hclean.current.trans hcur
        · exact (SameFrame.reaped K i d i).call.trans hcall
        · show ((reaped K i d).table i).children.length ≤ n
          rw [hchildren, (remove_id_perm d _).length_eq, List.length_erase_of_mem hfmem]
          omega
        · exact hids.num.symm ▸ hm
        · show ((reaped K i d).table m).pid ∈ ((reaped K i d).table i).children
          rw [hchildren, hids.pid m hm]
          exact (mem_remove_id hnodup).mpr ⟨fun he => hd he.symm, hmem⟩
        · exact hids.dead m hm hdead
      obtain ⟨t, K', hexec, hx⟩ := hnext
      refine ⟨t + 1, K', ?_, ?_⟩
      · rw [List.replicate_succ, exec, hstep]
        exact hexec
      · rwa [hids.pid i hi, hids.pid m hm] at hx

/-- 報告は一度だけである。親 `j` が生きている間に終わった子 `k` は、報告されない限り親の列と表に残り、親が
    `wait` を繰り返せばその番号が返る。 -/
theorem terminated_child_reported (rc_in rc_out mounts : Nat)
    (h₁ : Steps step WaitOk (boot rc_in rc_out mounts) K₁) (h₂ : Steps step WaitOk K₁ K₂) :
    K₂.reports.Nodup ∧ ∀ j k, j < K₁.num_processes → k < K₁.num_processes → j ≠ 0 →
      (K₁.table j).state ≠ .terminated → (K₁.table k).parent_id = (K₁.table j).pid →
      (K₁.table k).state = .terminated →
      ∀ i, i < K₂.num_processes → (K₂.table i).pid = (K₁.table j).pid →
        (K₂.table i).state ≠ .terminated → ((K₁.table j).pid, (K₁.table k).pid) ∉ K₂.reports →
        (K₁.table k).pid ∈ (K₂.table i).children ∧
          (∃ m, m < K₂.num_processes ∧ (K₂.table m).pid = (K₁.table k).pid ∧
            (K₂.table m).state = .terminated) ∧
          ∀ env r, r.eax = SYS_WAIT → K₂.current_process = some i → (K₂.table i).pipe_call = none →
            ∃ t K₃, exec step K₂ (List.replicate t (.syscall env r)) = some K₃ ∧
              ((K₁.table j).pid, (K₁.table k).pid) ∈ K₃.reports := by
  have hs₁ := Synced.run h₁ (.boot rc_in rc_out mounts)
  have hs₂ := Synced.run h₂ hs₁
  have hI₁ := WaitInv.run (fun _ _ h => h) h₁ (.boot rc_in rc_out mounts) ⟨.boot .., .boot ..⟩
  obtain ⟨hw, hz⟩ := WaitInv.run (fun _ _ h => h) h₂ hs₁ hI₁
  refine ⟨hw.once, fun j k hj hk hj0 hlive hparent hdead i hi hpid hlive' hx => ?_⟩
  have hp0 : (K₁.table j).pid ≠ 0 := hI₁.1.pids.pid_ne_zero hs₁.num hj hj0
  have hi0 : i ≠ 0 := by
    rintro rfl
    exact hp0 (hpid.symm.trans hw.pids.idle)
  have hf : Findable (K₁.table j).pid (K₁.table k).pid K₂ :=
    Findable.run h₂ hs₁ hI₁ hp0 (hI₁.1.pids.lt j hj) (.inr (.inr ⟨k, hk, rfl, hparent, hdead⟩))
  obtain ⟨m, hm, hmpid, hmparent, hmdead⟩ : ∃ m, m < K₂.num_processes ∧
      (K₂.table m).pid = (K₁.table k).pid ∧ (K₂.table m).parent_id = (K₁.table j).pid ∧
      (K₂.table m).state = .terminated := by
    rcases hf with hf | hf | hf
    · exact absurd hf hx
    · exact absurd (hf i hi hpid) hlive'
    · exact hf
  have hmem : (K₂.table m).pid ∈ (K₂.table i).children := by
    refine hw.listed i m hi hm hi0 hlive' (hmparent.trans hpid.symm) ?_
    rw [hpid, hmpid]
    exact hx
  refine ⟨hmpid ▸ hmem, ⟨m, hm, hmpid, hmdead⟩, fun env r heax hcur hcall => ?_⟩
  have := waits_report env heax _ hw hs₂.num hi hi0 hlive' hz.idle.parent hcur hcall (Nat.le_refl _) hm
    hmem hmdead
  rwa [hpid, hmpid] at this

/-- `fork` は使い回さず、`exit` か例外の親は待たず、信号も `exec` もない。 -/
def wait_ok (K : Kernel) (ev : Event) : Bool :=
  decide (NoWrap K ev) && decide (ReuseOk Live K ev) &&
    ((at_schedule K ev).all fun x => x.1.cur_proccess_id.all fun i => (x.1.table i).sig.pending == 0#32) &&
    ((quits K ev).all fun _ => (List.range K.num_processes).all fun j => (K.table j).state != .blocked) &&
    match ev with
    | .syscall _ r => r.eax != 10
    | _ => true

theorem wait_ok_spec (K : Kernel) (ev : Event) (h : wait_ok K ev = true) : WaitOk K ev := by
  simp only [wait_ok, Bool.and_eq_true] at h
  obtain ⟨⟨⟨⟨hwrap, hreuse⟩, hsig⟩, hquit⟩, hcall⟩ := h
  refine ⟨of_decide_eq_true hwrap, of_decide_eq_true hreuse, ?_, fun i env r hc heax => ?_,
    fun K₁ r i hat hcur hdies => ?_⟩
  · rintro i fds hq ⟨j, hj, -, hb, -⟩
    simp only [hq.quits, Option.all_some, List.all_eq_true, List.mem_range, bne_iff_ne] at hquit
    exact hquit j hj hb
  · obtain ⟨r₀, rfl, rfl⟩ := hc.event
    simp only at heax
    simp [heax] at hcall
  · simp only [hat, Option.all_some, hcur, beq_iff_eq] at hsig
    exact absurd hsig hdies.1.1

/-- 子を作り、子が終わり、シェルへ戻る。 -/
def exit_unwaited : List Event := start_shell ++ [call 24, tick, call 5, tick]

def unwaited_trace : Trace (checked step wait_ok (boot 1 1 0)) (fun K =>
    K.num_processes = 3 ∧ K.current_process = some 1 ∧ (K.table 1).state = .running ∧
      (K.table 1).pipe_call.isNone ∧ (K.table 1).pid = 1 ∧ (K.table 2).pid = 2 ∧
      (K.table 2).parent_id = 1 ∧ (K.table 2).state = .terminated ∧ K.reports = []) :=
  ⟨exit_unwaited, by decide +kernel⟩

theorem terminated_child_reported_fork :
    ∃ K, Steps step WaitOk (boot 1 1 0) K ∧ (K.table 2).state = .terminated ∧
      (K.table 2).pid ∈ (K.table 1).children ∧
      ∃ t K₃, exec step K (List.replicate t (call 9)) = some K₃ ∧ (1, 2) ∈ K₃.reports := by
  obtain ⟨K, hK, hn, hcur, hst, hcall, hp1, hp2, hpar, hdead, hrep⟩ :=
    unwaited_trace.steps_checked wait_ok_spec
  have h := (terminated_child_reported 1 1 0 hK (.refl K)).2 1 2 (by omega) (by omega) (by decide)
    (by simp [hst]) (hpar.trans hp1.symm) hdead 1 (by omega) rfl (by simp [hst]) (by simp [hrep])
  refine ⟨K, hK, hdead, h.1, ?_⟩
  have := h.2.2 {} { user_regs with eax := 9 } rfl hcur (Option.isNone_iff_eq_none.mp hcall)
  rwa [hp1, hp2] at this

/-- 報告していない終わった子の項目を、次の `fork` が使い回す。 -/
def unreported_trace : Trace (exec step (boot 1 1 0)) (fun K₁ =>
    (exec step K₁ [call 24]).any (fun K₂ => decide (
      (K₁.table 1).state ≠ .terminated ∧ (K₁.table 2).parent_id = (K₁.table 1).pid ∧
      (K₁.table 2).state = .terminated ∧ (K₂.table 1).pid = (K₁.table 1).pid ∧
      (K₂.table 1).state ≠ .terminated ∧ ((K₁.table 1).pid, (K₁.table 2).pid) ∉ K₂.reports ∧
      ∀ m, m < K₂.num_processes → (K₂.table m).pid ≠ (K₁.table 2).pid)) = true) :=
  ⟨exit_unwaited, by decide +kernel⟩

theorem terminated_child_lost :
    ∃ K₁ K₂, Steps step (fun _ _ => True) (boot 1 1 0) K₁ ∧ Steps step (fun _ _ => True) K₁ K₂ ∧
      (K₁.table 1).state ≠ .terminated ∧ (K₁.table 2).parent_id = (K₁.table 1).pid ∧
      (K₁.table 2).state = .terminated ∧ (K₂.table 1).pid = (K₁.table 1).pid ∧
      (K₂.table 1).state ≠ .terminated ∧ ((K₁.table 1).pid, (K₁.table 2).pid) ∉ K₂.reports ∧
      ∀ m, m < K₂.num_processes → (K₂.table m).pid ≠ (K₁.table 2).pid := by
  obtain ⟨K₁, hK₁, h⟩ := unreported_trace.steps
  obtain ⟨K₂, hK₂, hP⟩ := (Option.any_eq_true _ _).mp h
  exact ⟨K₁, K₂, hK₁, .of_exec hK₂, of_decide_eq_true hP⟩

end MyOS.Proc
