import MyOS.Proc.Lemmas.Family
import MyOS.Proc.Lemmas.Sched

/-! 終わることについて、書き込みの一つずつにできること。 -/

namespace MyOS.Proc
open MyOS.Lib

variable {K₀ K K' : Kernel} {ev : Event} {i j : Nat} {r : Regs} {p p' : Pcb}

theorem PidInv.pid_ne_zero (h : PidInv K) (hnum : 0 < K.num_processes) (hi : i < K.num_processes)
    (h0 : i ≠ 0) : (K.table i).pid ≠ 0 :=
  fun hpid => h0 (h.inj i 0 hi hnum (hpid.trans h.idle.symm))

theorem PidInv.exit_ne_zero (h : PidInv K₀) (hnum : 0 < K₀.num_processes) :
    ∀ i fds, Quits K₀ ev i fds → (K₀.table i).pid ≠ 0 :=
  fun _ _ hq => h.pid_ne_zero hnum hq.onCpu.lt hq.pos

/-- 信号で終わるのは、`DiesNext` のときである。 -/
theorem Signalled.dies (h : Signalled p r .ends p') (hs : Signals p) : DiesNext p r := by
  cases h with
  | killed hk => exact ⟨hs, .inl hk⟩
  | kills hf hk => exact ⟨hs, .inr ⟨_, _, hf, .inl hk⟩⟩
  | overflow hf hc hst => exact ⟨hs, .inr ⟨_, _, hf, .inr ⟨hc, hst⟩⟩⟩

theorem exec_reset_tree (K : Kernel) (i j : Nat) :
    SameTree (K.table j) ((exec_reset K i).table j) ∧
      ((exec_reset K i).table j).state = (K.table j).state := by
  rw [exec_reset_table]
  by_cases hj : j = i
  · rw [if_pos hj, hj]
    exact ⟨⟨rfl, rfl, rfl, rfl, rfl⟩, rfl⟩
  · rw [if_neg hj]
    exact ⟨⟨rfl, rfl, rfl, rfl, rfl⟩, rfl⟩

theorem NoLiveChild.reset (h : NoLiveChild K i) : NoLiveChild (exec_reset K i) i := by
  have hsame := exec_reset_tree K i
  intro j hj hparent
  rw [(exec_reset_clean K i).num] at hj
  rw [(hsame j).1.parent, (hsame i).1.pid] at hparent
  exact (hsame j).2.trans (h j hj hparent)

theorem Falls.no_live_child (h : Falls K₀ ev i K K') (hok : OrphanSafe K₀ ev) : NoLiveChild K i := by
  cases h with
  | fail hc heax hload hK =>
    subst hK
    exact (hok.fail i _ _ hc heax hload).reset
  | signal hat hcur hsig hp => exact hok.signal K _ i hat hcur (hp.dies hsig)

theorem unblock_parent_alive {pid : Nat} {b : Bool} (h : (K.table j).state ≠ .terminated) :
    ((unblock_parent K pid b).table j).state ≠ .terminated := by
  by_cases hb : (K.table j).state = .blocked
  · have hwake : ∀ k, ((wake_parent K k pid b).table j).state ≠ .terminated := by
      intro k
      by_cases hj : j = k
      · subst hj
        rw [wake_parent_self]
        simp [woken_pcb]
      · rw [wake_parent_ne hj]
        exact h
    rcases unblock_parent_cases K pid b with heq | ⟨c, k, -, -, -, -, ⟨heq, -⟩ | ⟨-, -, heq⟩⟩
    · rw [heq]
      exact h
    · rw [heq]
      exact hwake k
    · rw [heq, cleanup_state]
      exact hwake k
  · rw [unblock_parent_state hb]
    exact h

/-- 書き込みで終わるのは、`exit` か例外の項目とその子、または `Falls` の項目だけである。 -/
theorem TreeStep.deaths (h : TreeStep K₀ ev K K') (hj : (K.table j).state ≠ .terminated)
    (hdead : (K'.table j).state = .terminated) :
    Falls K₀ ev j K K' ∨ ∃ i fds, Quits K₀ ev i fds ∧ K = K₀ ∧ K' = exit_tree K₀ i fds ∧
      (j = i ∨ (K₀.table j).parent_id = (K₀.table i).pid) := by
  cases h with
  | quiet _ _ hst => exact absurd (hst j ▸ hdead) hj
  | await _ _ _ _ _ _ _ hst => exact absurd (hst j ▸ hdead) hj
  | @move i hm _ hother =>
    by_cases hji : j = i
    · subst hji
      exfalso
      cases hm with
      | block _ _ _ h => cases h.symm.trans hdead
      | wake _ _ _ _ h _ => cases h.symm.trans hdead
      | cont _ _ h => cases h.symm.trans hdead
      | load _ _ h => cases h.symm.trans hdead
      | signal _ _ _ _ h => exact h hdead
    · exact absurd ((hother j hji).2 ▸ hdead) hj
  | @dies i hf _ _ _ _ hother =>
    by_cases hji : j = i
    · exact .inl (hji ▸ hf)
    · exact absurd (hother j hji ▸ hdead) hj
  | @exit i fds hq hK hK' =>
    refine .inr ⟨i, fds, hq, hK, hK', ?_⟩
    subst hK hK'
    rw [exit_tree_table] at hdead
    dsimp only at hdead
    split at hdead
    next hcase => exact hcase.imp id And.right
    · exact absurd hdead hj
  | unblock _ hK' =>
    subst hK'
    exact absurd hdead (unblock_parent_alive hj)
  | reap _ hK _ hK' =>
    subst hK hK'
    refine absurd ?_ hj
    rw [← reap_child_state K]
    exact hdead
  | create hK _ hcr =>
    subst hK
    by_cases hlt : j < K.num_processes
    · rw [(CreateFrame.create hcr).old j hlt] at hdead
      exact absurd hdead hj
    · rcases create_process_new hcr hlt with ⟨-, heq⟩ | ⟨rfl, ⟨-, heq⟩ | ⟨img, -, -, heq⟩⟩
      · exact absurd (heq ▸ hdead) hj
      · rw [heq] at hdead
        cases hdead
      · rw [heq] at hdead
        cases hdead
  | @fork i env r slot hK hc _ hslot hf =>
    subst hK
    rw [fork_into_table (hc.toOnCpu.ne_slot hslot) hf j, fork_entry] at hdead
    split at hdead
    · cases hdead
    · split at hdead
      next hji =>
        subst hji
        exact absurd hdead hj
      · exact absurd hdead hj

/-- 番号と親が同じなら、生きている子を持つ項目が終わらない限り保たれる。 -/
theorem LiveInv.same {next : Nat} (h : LiveInv K) (hs : SameIds K K' next)
    (hlive : ∀ k j, k < K.num_processes → j < K.num_processes → (K.table k).state ≠ .terminated →
      (K'.table j).state ≠ .terminated → (K.table j).parent_id = (K.table k).pid →
      (K'.table k).state ≠ .terminated) : LiveInv K' := by
  intro j hj hl
  rw [hs.num] at hj
  have hl₀ : (K.table j).state ≠ .terminated := fun hd => hl (hs.dead j hj hd)
  rw [hs.parent j hj]
  refine (h j hj hl₀).imp id ?_
  rintro ⟨k, ⟨h0, hk, hpid⟩, hlk⟩
  refine ⟨k, ⟨?_, hs.num.symm ▸ hk, ?_⟩, hlive k j hk hj hlk hl hpid.symm⟩
  · rw [hs.parent j hj]
    exact h0
  · rw [hs.parent j hj, hs.pid k hk]
    exact hpid

theorem LiveInv.born {slot parent : Nat} {adder : Option Nat} (h : LiveInv K)
    (hslot : slot < K.num_processes → (K.table slot).state = .terminated)
    (hparent : parent = 0 ∨ ∃ i, i < K.num_processes ∧ i ≠ slot ∧ (K.table i).pid = parent ∧
      (K.table i).state ≠ .terminated) (hb : Born K slot parent adder K') : LiveInv K' := by
  have hnum : K.num_processes ≤ K'.num_processes := by
    rw [hb.num]
    split <;> omega
  intro j hj hl
  rcases hb.cases_lt hj with rfl | ⟨hj, hjs⟩
  · rw [hb.parent_id]
    by_cases h0 : parent = 0
    · exact .inl h0
    · obtain ⟨i, hi, his, hpid, hli⟩ := hparent.resolve_left h0
      obtain ⟨hpid', -, hst, -⟩ := hb.old i hi his
      refine .inr ⟨i, ⟨?_, Nat.lt_of_lt_of_le hi hnum, ?_⟩, hst.symm ▸ hli⟩
      · rw [hb.parent_id]
        exact h0
      · rw [hb.parent_id, hpid']
        exact hpid
  · obtain ⟨-, hpar, hst, -⟩ := hb.old j hj hjs
    rw [hpar]
    refine (h j hj (hst ▸ hl)).imp id ?_
    rintro ⟨k, ⟨h0, hk, hpid⟩, hlk⟩
    have hks : k ≠ slot := by
      rintro rfl
      exact hlk (hslot hk)
    obtain ⟨hpid', -, hst', -⟩ := hb.old k hk hks
    refine ⟨k, ⟨?_, Nat.lt_of_lt_of_le hk hnum, ?_⟩, hst'.symm ▸ hlk⟩
    · rw [hpar]
      exact h0
    · rw [hpar, hpid']
      exact hpid

theorem LiveInv.step (hmax : K₀.num_processes ≤ MAX_PROCESSES) (h : LiveInv K)
    (hok : OrphanSafe K₀ ev) (ht : TreeStep K₀ ev K K') : LiveInv K' := by
  have hsame : ∀ {next : Nat}, SameIds K K' next → LiveInv K' := by
    intro next hs
    refine h.same hs fun k j hk hj hlk hlj hpid hdead => ?_
    rcases ht.deaths hlk hdead with hf | ⟨i, fds, hq, rfl, rfl, hcase⟩
    · have := hf.no_live_child hok j hj hpid
      exact hlj (hs.dead j hj this)
    · rw [exit_tree_table] at hlj
      dsimp only at hlj
      split at hlj
      · exact hlj rfl
      next hnot =>
        rcases hcase with rfl | hparent
        · exact hnot (.inr ⟨Nat.lt_of_lt_of_le hj hmax, hpid⟩)
        · exact hlj (hok.exit i fds hq k hk hparent hlk j hj hpid)
  cases ht.kin with
  | same hs => exact hsame hs
  | skips _ _ hs => exact hsame hs
  | @born slot parent adder hK _ hb hborn =>
    subst hK
    cases hb with
    | boot _ hs h0 => exact h.born (fun hlt => absurd hlt (by omega)) (.inl h0) hborn
    | spawn hc _ hs hpar =>
      refine h.born (fun hlt => absurd hlt (by omega)) (.inr ⟨_, hc.lt, ?_, hpar.symm, ?_⟩) hborn
      · rw [hs]
        exact Nat.ne_of_lt hc.lt
      · rw [hc.running]
        simp
    | fork hc _ hslot hpar =>
      refine h.born (fun hlt => ?_) (.inr ⟨_, hc.lt, hc.toOnCpu.ne_slot hslot, hpar.symm, ?_⟩) hborn
      · rcases fork_slot_spec hslot with ⟨-, h, -⟩ | ⟨h, -⟩
        · exact h
        · omega
      · rw [hc.running]
        simp

/-- 文脈を決める書き込みは、終わった項目を変えない。 -/
theorem Fin.dead (hz : SchedInv K) (hlt : ∀ i, K.cur_proccess_id = some i → i < K.num_processes)
    (hf : Fin K₀ ev K K') (j : Nat) :
    (K'.table j).state = .terminated ↔ (K.table j).state = .terminated := by
  have hpipe : ∀ {L L' : Kernel}, PipeFrame L L' →
      ((L'.table j).state = .terminated ↔ (L.table j).state = .terminated) := by
    intro L L' h
    rw [h.pcb j]
  cases hf with
  | stays => exact .rfl
  | returns => exact .rfl
  | pipe_start => exact hpipe (.pipe_start ..)
  | pipe_iter => exact hpipe (.pipe_iter ..)
  | switch _ hnum _ _ hp =>
    obtain ⟨next, hpick⟩ := pick_spec hnum hp
    obtain ⟨-, hsel⟩ := hz.picked hlt hpick
    have hreq : ((requeued K).table j).state = .terminated ↔ (K.table j).state = .terminated := by
      rw [requeued_table]
      split
      · rw [requeue]
        dsimp only
        split
        next hr => simp [hr]
        · exact .rfl
      · exact .rfl
    rw [hpick.table j]
    dsimp only
    split
    next hj =>
      subst hj
      refine ⟨fun h => (by cases h), fun h => ?_⟩
      have := hreq.mpr h
      rcases hsel with hs | hs
      · cases hs.symm.trans this
      · cases hs.symm.trans this
    · exact hreq

theorem LiveInv.fin (h : LiveInv K) (hi : FinIds K K')
    (hdead : ∀ j, (K'.table j).state = .terminated ↔ (K.table j).state = .terminated) : LiveInv K' := by
  intro j hj hl
  rw [hi.parent]
  refine (h j (hi.num ▸ hj) fun hd => hl ((hdead j).mpr hd)).imp id ?_
  rintro ⟨k, ⟨h0, hk, hpid⟩, hlk⟩
  refine ⟨k, ⟨?_, hi.num.symm ▸ hk, ?_⟩, fun hd => hlk ((hdead k).mp hd)⟩
  · rw [hi.parent]
    exact h0
  · rw [hi.parent, hi.pid]
    exact hpid

end MyOS.Proc
