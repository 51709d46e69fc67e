import MyOS.Proc.Tree
import MyOS.Proc.Lemmas.SigStep

/-! 書き込みの一つずつを木の上で見ること。 -/

namespace MyOS.Proc
open MyOS.Lib

variable {K₀ K K' : Kernel} {ev : Event} {i j : Nat} {r : Regs} {p p' : Pcb} {fate : Fate}

theorem SameTree.refl (p : Pcb) : SameTree p p := ⟨rfl, rfl, rfl, rfl, rfl⟩

theorem CleanFrame.tree (h : CleanFrame K K') (hr : K'.reports = K.reports) : TreeRest K K' :=
  ⟨h.num, by rw [h.rest], hr, h.cur⟩

theorem TreeRest.same (hn : K'.num_processes = K.num_processes) (hp : K'.next_pid = K.next_pid)
    (hr : K'.reports = K.reports) (hc : K'.cur_proccess_id = K.cur_proccess_id) : TreeRest K K' :=
  ⟨hn, hp, hr, hc⟩

/-- 一つの項目を、木に関わらない値に書き換える。 -/
theorem TreeStep.modify {q : Pcb} (hrest : TreeRest K K')
    (ht : ∀ k, K'.table k = if k = i then q else K.table k) (hq : SameTree (K.table i) q)
    (hst : q.state = (K.table i).state) : TreeStep K₀ ev K K' := by
  refine .quiet hrest (fun j => ?_) fun j => ?_
  · rw [ht]
    split
    next hj =>
      subst hj
      exact hq
    · exact .refl _
  · rw [ht]
    split
    next hj =>
      subst hj
      exact hst
    · rfl

/-- 一つの項目の状態を変える。 -/
theorem TreeStep.of_move {q : Pcb} (hrest : TreeRest K K')
    (ht : ∀ k, K'.table k = if k = i then q else K.table k) (hm : Move K₀ ev K i q)
    (hpid : q.pid = (K.table i).pid) (hparent : q.parent_id = (K.table i).parent_id)
    (hchildren : q.children = (K.table i).children) : TreeStep K₀ ev K K' := by
  have hi : K'.table i = q := (ht i).trans (if_pos rfl)
  refine .move (i := i) (hi ▸ hm) hrest (fun j hj => ?_) ?_ ?_ ?_
  · rw [ht, if_neg hj]
    exact ⟨.refl _, rfl⟩
  · rw [hi, hpid]
  · rw [hi, hparent]
  · rw [hi, hchildren]

theorem PassSame.tree (h : PassSame p p') : SameTree p p' := by
  rw [h.rest]
  exact ⟨rfl, rfl, rfl, rfl, rfl⟩

/-- 信号の処理は、状態のほかの木を変えない。 -/
theorem Signalled.tree (h : Signalled p r fate p') : SameTree p p' := by
  have hpass := fun pre => (pass_all_same p.sig.pending pre p).tree
  cases h with
  | killed => exact ⟨rfl, rfl, rfl, rfl, rfl⟩
  | passed => exact hpass _
  | stops => exact ⟨(hpass _).pid, (hpass _).parent, (hpass _).children, (hpass _).waiting, (hpass _).tf⟩
  | kills => exact ⟨(hpass _).pid, (hpass _).parent, (hpass _).children, (hpass _).waiting, (hpass _).tf⟩
  | overflow => exact ⟨(hpass _).pid, (hpass _).parent, (hpass _).children, (hpass _).waiting, (hpass _).tf⟩
  | caught => exact ⟨(hpass _).pid, (hpass _).parent, (hpass _).children, (hpass _).waiting, (hpass _).tf⟩

/-- 行方と状態の対応。 -/
theorem Signalled.state (h : Signalled p r fate p') (hp : p.state = .running) :
    fate = .ends ∧ p'.state = .terminated ∨
      fate ≠ .ends ∧ p'.state ≠ .terminated ∧ p'.state ≠ .new := by
  have hpass : ∀ pre, (pass_all p.sig.pending pre p).state ≠ .terminated ∧
      (pass_all p.sig.pending pre p).state ≠ .new := by
    intro pre
    rcases (pass_all_same p.sig.pending pre p).state with hs | hs
    · rw [hs, hp]
      simp
    · rw [hs]
      simp
  cases h with
  | killed => exact .inl ⟨rfl, rfl⟩
  | passed => exact .inr ⟨by simp, hpass _⟩
  | stops => exact .inr ⟨by simp, by simp [stopped_pcb], by simp [stopped_pcb]⟩
  | kills => exact .inl ⟨rfl, rfl⟩
  | overflow => exact .inl ⟨rfl, rfl⟩
  | caught => exact .inr ⟨by simp, hpass _⟩

theorem TreeStep.signal (hat : at_schedule K₀ ev = some (K, r)) (hci : K.cur_proccess_id = some i)
    (hsig : Signals (K.table i)) (hp : Signalled (K.table i) r fate p') :
    TreeStep K₀ ev K (written K i r p' fate) := by
  have htree := hp.tree
  have hi : (written K i r p' fate).table i = p' := K.modify_self i fun _ => p'
  have hne : ∀ j, j ≠ i → (written K i r p' fate).table j = K.table j :=
    fun j hj => K.modify_ne (fun _ => p') hj
  rcases hp.state hsig.2.1 with ⟨rfl, hst⟩ | ⟨-, hst, hnew⟩
  · refine .dies (.signal hat hci hsig hp rfl) ⟨rfl, rfl, rfl, rfl⟩ hci hsig.2.1 (fun j => ?_)
      (fun j hj => ?_) (hi.symm ▸ hst)
    · by_cases hj : j = i
      · subst hj
        rw [hi]
        exact htree
      · rw [hne j hj]
        exact .refl _
    · rw [hne j hj]
  · exact .of_move (i := i) ⟨rfl, rfl, rfl, rfl⟩ (fun _ => rfl) (.signal hat hci hsig hp hst hnew)
      htree.pid htree.parent htree.children

theorem TreeRest.exec_fail (K : Kernel) (i : Nat) : TreeRest K (exec_fail K i) := ⟨rfl, rfl, rfl, rfl⟩

theorem exec_fail_ne (h : j ≠ i) : (exec_fail K i).table j = K.table j := if_neg h

theorem TreeStep.exec_load {env : Env} (img : Image) (hc : Calls K₀ ev i env r) (hon : OnCpu i K) :
    TreeStep K₀ ev K (exec_load K i img) := by
  refine .of_move ⟨rfl, rfl, rfl, rfl⟩ (fun _ => rfl) ?_ rfl rfl rfl
  exact .load hc hon.running rfl

theorem Act.tree_step (ha : Act K₀ ev K K') : TreeStep K₀ ev K K' := by
  cases ha with
  | file hc hf =>
    have hframe := hf.frame
    refine .quiet (hframe.clean.tree (by rw [hframe.rest])) (fun j => ?_) fun j => ?_
    · rw [hframe.pcb j]
      exact ⟨rfl, rfl, rfl, rfl, rfl⟩
    · rw [hframe.pcb j]
  | create hc hcr => exact .create rfl hc hcr
  | fork hc heax hslot hf => exact .fork rfl hc heax hslot hf
  | reap hc _ h0 => exact .reap hc rfl h0 rfl
  | @await i env r w hc =>
    refine .await hc ⟨rfl, rfl, rfl, rfl⟩ hc.running (fun j hj => ?_) ?_ ?_ ?_ fun j => ?_
    · rw [Kernel.modify_ne _ _ hj]
      exact .refl _
    · rw [Kernel.modify_self]
    · rw [Kernel.modify_self]
    · rw [Kernel.modify_self]
    · rw [Kernel.modify_table]
      split
      next hj =>
        subst hj
        rfl
      · rfl
  | block w hc heax =>
    exact .of_move ⟨rfl, rfl, rfl, rfl⟩ (fun _ => rfl) (.block hc heax hc.running rfl) rfl rfl rfl
  | @enqueue i _ _ K' _ _ _ he =>
    have hframe := sleep_enqueue_frame he
    have hrest : TreeRest (K₀.modify i fun p => { p with state := .blocked }) K' := by
      refine ⟨?_, ?_, ?_, ?_⟩
      all_goals rw [hframe.rest]
    refine .quiet hrest (fun j => ?_) fun j => ?_
    · rw [hframe.pcb j]
      exact ⟨rfl, rfl, rfl, rfl, rfl⟩
    · rw [hframe.pcb j]
  | tick => exact .quiet ⟨rfl, rfl, rfl, rfl⟩ (fun _ => .refl _) fun _ => rfl
  | @wake r hd K hev hq ht =>
    by_cases hb : (K.table hd).state = .blocked
    · refine .of_move ⟨rfl, rfl, rfl, rfl⟩ (fun _ => rfl) ?_ rfl rfl rfl
      exact .wake hev hq ht hb (if_pos hb) rfl
    · refine .modify ⟨rfl, rfl, rfl, rfl⟩ (fun _ => rfl) ⟨rfl, rfl, rfl, rfl, rfl⟩ ?_
      exact if_neg hb
  | group g => exact .quiet ⟨rfl, rfl, rfl, rfl⟩ (fun _ => .refl _) fun _ => rfl
  | setpgid g => exact .modify ⟨rfl, rfl, rfl, rfl⟩ (fun _ => rfl) ⟨rfl, rfl, rfl, rfl, rfl⟩ rfl
  | send => exact .modify ⟨rfl, rfl, rfl, rfl⟩ (fun _ => rfl) ⟨rfl, rfl, rfl, rfl, rfl⟩ rfl
  | cont hc _ _ _ _ hst =>
    refine .of_move ⟨rfl, rfl, rfl, rfl⟩ (fun _ => rfl) ?_ rfl rfl rfl
    exact .cont hc hst rfl
  | keys =>
    rw [send_signal_to_foreground]
    split
    · refine .quiet ⟨rfl, rfl, rfl, rfl⟩ (fun j => ?_) fun j => ?_
      · dsimp only
        split
        · exact ⟨rfl, rfl, rfl, rfl, rfl⟩
        · exact .refl _
      · dsimp only
        split <;> rfl
    · exact .quiet ⟨rfl, rfl, rfl, rfl⟩ (fun _ => .refl _) fun _ => rfl
  | action => exact .modify ⟨rfl, rfl, rfl, rfl⟩ (fun _ => rfl) ⟨rfl, rfl, rfl, rfl, rfl⟩ rfl
  | mask => exact .modify ⟨rfl, rfl, rfl, rfl⟩ (fun _ => rfl) ⟨rfl, rfl, rfl, rfl, rfl⟩ rfl
  | sigreturn => exact .modify ⟨rfl, rfl, rfl, rfl⟩ (fun _ => rfl) ⟨rfl, rfl, rfl, rfl, rfl⟩ rfl
  | exit hq => exact .exit hq rfl rfl
  | @reset i env r hc heax =>
    refine .quiet ((exec_reset_clean K₀ i).tree (exec_reset_reports K₀ i)) (fun j => ?_) fun j => ?_
    · rw [exec_reset_table]
      by_cases hj : j = i
      · subst hj
        simp only [if_pos]
        exact ⟨rfl, rfl, rfl, rfl, rfl⟩
      · simp only [if_neg hj]
        exact ⟨rfl, rfl, rfl, rfl, rfl⟩
    · rw [exec_reset_table]
      by_cases hj : j = i
      · subst hj
        simp only [if_pos]
      · simp only [if_neg hj]
  | load hc => exact .exec_load _ hc hc.toOnCpu.exec_reset
  | @fail i env r hc heax hload =>
    have hi := exec_fail_self (exec_reset K₀ i) i
    refine .dies (.fail hc heax hload rfl rfl) (.exec_fail _ i) hc.toOnCpu.exec_reset.cur
      hc.toOnCpu.exec_reset.running (fun j => ?_) (fun j hj => ?_) (by rw [hi])
    · by_cases hj : j = i
      · subst hj
        rw [hi]
        exact ⟨rfl, rfl, rfl, rfl, rfl⟩
      · rw [exec_fail_ne hj]
        exact .refl _
    · rw [exec_fail_ne hj]
  | mmap => exact .modify ⟨rfl, rfl, rfl, rfl⟩ (fun _ => rfl) ⟨rfl, rfl, rfl, rfl, rfl⟩ rfl
  | munmap => exact .modify ⟨rfl, rfl, rfl, rfl⟩ (fun _ => rfl) ⟨rfl, rfl, rfl, rfl, rfl⟩ rfl
  | signal hat hci hsig hp => exact .signal hat hci hsig hp
  | unblock he => exact .unblock he rfl
  | leave => exact .quiet ⟨rfl, rfl, rfl, rfl⟩ (fun _ => .refl _) fun _ => rfl

end MyOS.Proc
