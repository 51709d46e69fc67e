import MyOS.Proc.Lemmas.Sleep
import MyOS.Proc.Lemmas.Family

/-! 待っているプロセスが CPU に戻るまでの、控えた枠。 -/

namespace MyOS.Proc
open MyOS.Lib

variable {K₀ K K' : Kernel} {ev : Event} {j : Nat} {r : Regs} {V : Nat → Prop}

/-- 次のプロセスへ移るとき、止まった今のプロセスは、呼び出しの枠を控える。 -/
theorem Picked.saves {next : Nat} (h : Picked K r next K') (hl : Leaving K) (hcur : K.cur_proccess_id = some j)
    (hb : (K.table j).state = .blocked) : (K'.table j).tf = r := by
  have hcurrent : K.current_process = some j := by
    rcases hl with hl | ⟨-, hl⟩
    · exact hl.trans hcur
    · cases (hl j hcur).symm.trans hb
  have hreq : ((requeued K).table j).state = .blocked := by
    rw [requeued_table, if_pos hcur, requeue, hb]
    rfl
  have hnext : ((requeued K).table next).state ≠ .terminated := by
    rcases h.chosen with hc | hc | hc
    · rw [hc]
      simp
    · rw [hc]
      simp
    · cases hcur.symm.trans hc
      rw [hreq]
      simp
  rw [h.tf j, if_neg hnext, if_pos ⟨hcurrent, by rw [hreq]; simp⟩]

/-- ほかの項目の枠は変わらない。 -/
theorem Picked.keeps {next : Nat} (h : Picked K r next K') (hl : Leaving K) (hcur : K.cur_proccess_id ≠ some j) :
    (K'.table j).tf = (K.table j).tf ∧ ((requeued K).table j).state = (K.table j).state := by
  refine ⟨?_, by rw [requeued_table, if_neg hcur]⟩
  have hcurrent : K.current_process ≠ some j := by
    rcases hl with hl | ⟨hl, -⟩
    · rw [hl]
      exact hcur
    · rw [hl]
      simp
  rw [h.tf j, if_neg]
  rintro ⟨hc, -⟩
  split at hc
  · cases hc
  · exact hcurrent hc

theorem Picked.same_sleep {next : Nat} (h : Picked K r next K') (j : Nat) : SameSleep (K.table j) (K'.table j) := by
  rw [h.table j]
  exact ⟨rfl, rfl⟩

theorem Rooted.kin (h : Rooted K) (hk : Kin K₀ ev K K') : Rooted K' := by
  have hsame : ∀ {next : Nat}, SameIds K K' next → Rooted K' := fun hs =>
    ⟨hs.num ▸ h.num, (hs.pid 0 h.num).trans h.pid, (hs.parent 0 h.num).trans h.parent⟩
  cases hk with
  | same hs => exact hsame hs
  | skips _ _ hs => exact hsame hs
  | @born slot parent adder _ _ hb hborn =>
    have h0 : 0 ≠ slot := by
      cases hb with
      | boot _ hs =>
        have := h.num
        omega
      | spawn _ _ hs =>
        have := h.num
        omega
      | fork _ _ hslot =>
        rcases fork_slot_spec hslot with ⟨-, -, hpid⟩ | ⟨hs, -⟩
        · rintro rfl
          exact hpid h.pid
        · have := h.num
          omega
    have hold := hborn.old 0 h.num h0
    refine ⟨?_, hold.1.trans h.pid, hold.2.1.trans h.parent⟩
    rw [hborn.num]
    split
    · exact Nat.succ_pos _
    · exact h.num

theorem Rooted.lookup (h : Rooted K) : get_process_by_pid K 0 = some 0 := by
  have hnum := h.num
  rw [get_process_by_pid]
  obtain ⟨n, hn⟩ : ∃ n, K.num_processes = n + 1 := ⟨K.num_processes - 1, by omega⟩
  rw [hn, List.range_succ_eq_map, List.find?_cons, h.pid]
  rfl

/-- 親を起こす子の番号は 0 でない。 -/
theorem Rooted.pid_ne_zero {pid c : Nat} (h : Rooted K) (hj : j ≠ 0) (hc : get_process_by_pid K pid = some c)
    (hp : get_process_by_pid K (K.table c).parent_id = some j) : pid ≠ 0 := by
  rintro rfl
  cases h.lookup.symm.trans hc
  rw [h.parent, h.lookup] at hp
  exact hj (Option.some.inj hp).symm

theorem Answer.same {p p' : Pcb} (h : Answer V p) (hst : p'.state = p.state) (htf : p'.tf = p.tf) :
    Answer V p' := by
  cases h with
  | dead hd => exact .dead (hst.trans hd)
  | ready hr hv => exact .ready (hst.trans hr) (htf ▸ hv)
  | blocked hb hv hall => exact .blocked (hst.trans hb) (htf ▸ hv) hall

/-- 歩の途中で、CPU にない項目に成り立つこと。 -/
structure NapMid (V : Nat → Prop) (j : Nat) (K₀ K : Kernel) : Prop where
  rooted : Rooted K
  lt : j < K.num_processes
  cur : K.cur_proccess_id = K₀.cur_proccess_id
  off : K.cur_proccess_id ≠ some j
  answer : Answer V (K.table j)

theorem NapMid.act (h : NapMid V j K₀ K) (hj : j ≠ 0) (h₀ : j < K₀.num_processes)
    (hlive : (K₀.table j).state ≠ .terminated) (ha : Act K₀ ev K K') : NapMid V j K₀ K' := by
  have hf := ha.frame
  have hlt := Nat.lt_of_lt_of_le h.lt hf.num
  refine ⟨h.rooted.kin ha.tree_step.kin, hlt, hf.cur.trans h.cur, hf.cur.symm ▸ h.off, ?_⟩
  cases ha.off_cpu h.cur h.off hlt with
  | kept _ hst htf => exact h.answer.same hst htf
  | dies hst => exact .dead hst
  | wake _ _ hb hst htf =>
    cases h.answer with
    | dead hd => cases hd.symm.trans hb
    | ready hr => cases hr.symm.trans hb
    | blocked _ hv => exact .ready hst (htf ▸ hv)
  | unblock _ hc hp hb _ hst htf =>
    cases h.answer with
    | dead hd => cases hd.symm.trans hb
    | ready hr => cases hr.symm.trans hb
    | blocked _ _ hall =>
      refine .ready hst ?_
      rw [htf]
      exact hall _ (h.rooted.pid_ne_zero hj hc hp)
  | cont hs =>
    cases h.answer with
    | dead hd => cases hd.symm.trans hs
    | ready hr => cases hr.symm.trans hs
    | blocked hb => cases hb.symm.trans hs
  | born hK hnew =>
    subst hK
    rcases hnew with hnew | hnew
    · omega
    · exact absurd hnew hlive

theorem NapMid.fin (h : NapMid V j K₀ K) (hf : Fin K₀ ev K K') : NapInv V j K' := by
  have hids := hf.ids
  have hroot : Rooted K' :=
    ⟨hids.num ▸ h.rooted.num, (hids.pid 0).trans h.rooted.pid, (hids.parent 0).trans h.rooted.parent⟩
  have hstay : K'.cur_proccess_id = K.cur_proccess_id → (K'.table j).state = (K.table j).state →
      (K'.table j).tf = (K.table j).tf → NapInv V j K' := by
    intro hcur hst htf
    exact ⟨hroot, hids.num ▸ h.lt, fun _ => h.answer.same hst htf,
      fun hback => absurd (hcur.symm.trans hback) h.off⟩
  cases hf with
  | stays => exact hstay rfl rfl rfl
  | returns => exact hstay rfl rfl rfl
  | @pipe_start i _ _ _ c =>
    have hp := (PipeFrame.pipe_start K₀ i c).pcb j
    exact hstay rfl (by rw [hp]) (by rw [hp])
  | @pipe_iter i c =>
    have hp := PipeFrame.pipe_iter K₀ i c
    exact hstay (by rw [hp.rest]) (by rw [hp.pcb j]) (by rw [hp.pcb j])
  | switch _ hnum hl _ hp =>
    obtain ⟨next, hpick⟩ := pick_spec hnum hp
    obtain ⟨htf, hreq⟩ := hpick.keeps hl h.off
    by_cases hjn : j = next
    · subst hjn
      refine ⟨hroot, hids.num ▸ h.lt, fun hne => ?_, fun _ => ?_⟩
      · rw [hpick.rest] at hne
        exact absurd rfl hne
      · have hchosen := hpick.chosen
        have hctx := hpick.ctx
        rw [hreq] at hchosen hctx
        cases h.answer with
        | dead hd =>
          rw [hd] at hchosen
          rcases hchosen with hc | hc | hc
          · cases hc
          · cases hc
          · exact absurd hc h.off
        | ready hr hv =>
          rw [hctx, if_neg (by rw [hr]; simp), htf]
          exact hv
        | blocked hb hv =>
          rw [hctx, if_neg (by rw [hb]; simp), htf]
          exact hv
    · have hst : (K'.table j).state = (K.table j).state := by
        rw [hpick.table j, ← hreq]
        exact if_neg hjn
      refine ⟨hroot, hids.num ▸ h.lt, fun _ => h.answer.same hst htf, fun hback => ?_⟩
      rw [hpick.rest] at hback
      exact absurd (Option.some.inj hback).symm hjn

theorem NapInv.step (hs : Synced K) (h : NapInv V j K) (hj : j ≠ 0) (hoff : K.cur_proccess_id ≠ some j)
    (hlive : (K.table j).state ≠ .terminated) (hstep : step K ev = some K') : NapInv V j K' := by
  obtain ⟨L, hacts, hfin⟩ := step_reaches hs hstep
  have hmid : NapMid V j K L := by
    clear hfin
    induction hacts with
    | refl => exact ⟨h.rooted, h.lt, rfl, hoff, h.off hoff⟩
    | tail _ ha ih => exact ih.act hj h.lt hlive ha
  exact hmid.fin hfin

theorem nap_some {w w' : Nap} (h : nap j w ev = some w') :
    w.kernel.current_process ≠ some j ∧ (w.kernel.table j).state ≠ .terminated ∧
      step w.kernel ev = some w'.kernel ∧ w'.elapsed = w.elapsed + naps w.kernel j ev := by
  rw [nap] at h
  split at h
  · cases h
  next hno =>
    obtain ⟨K', hstep, rfl⟩ := Option.map_eq_some_iff.mp h
    exact ⟨fun hc => hno (.inl hc), fun hd => hno (.inr hd), hstep, rfl⟩

theorem NapInv.run {ok : Nap → Event → Prop} {w w' : Nap} (h : Steps (nap j) ok w w')
    (hs : Synced w.kernel) (hI : NapInv V j w.kernel) (hj : j ≠ 0) :
    Synced w'.kernel ∧ NapInv V j w'.kernel := by
  refine h.inv (P := fun w => Synced w.kernel ∧ NapInv V j w.kernel) (fun w ev w' hI _ he => ?_) ⟨hs, hI⟩
  obtain ⟨hs, hI⟩ := hI
  obtain ⟨hcur, hlive, hstep, -⟩ := nap_some he
  exact ⟨hs.step hstep, hI.step hs hj (hs.current ▸ hcur) hlive hstep⟩

theorem Rooted.run {ok : Kernel → Event → Prop} (h : Steps Proc.step ok K K') (hs : Synced K) (hr : Rooted K) :
    Rooted K' := by
  refine run_inv (I := Rooted) (M := fun _ _ K => Rooted K) (fun _ _ _ hI _ => hI)
    (fun K₀ ev K K' _ _ _ hM ha => hM.kin ha.tree_step.kin) (fun K₀ ev K K' _ _ _ hM hf => ?_) h hs hr
  have hids := hf.ids
  exact ⟨hids.num ▸ hM.num, (hids.pid 0).trans hM.pid, (hids.parent 0).trans hM.parent⟩

theorem Rooted.boot (rc_in rc_out mounts : Nat) : Rooted (boot rc_in rc_out mounts) :=
  ⟨Nat.one_pos, rfl, rfl⟩

end MyOS.Proc
