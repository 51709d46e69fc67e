import MyOS.Proc.Lemmas.Lineage

/-!
# プロセスの木の定理

子の列と、終わった祖先。
-/

namespace MyOS.Proc
open MyOS.Lib

variable {K : Kernel} {j : Nat}

/-! ## 子の列 -/

/-- 列の項目が `l` の中にあれば、列の長さは `l` を越えない。 -/
theorem KidsOf.length_le (h : KidsOf K j) (l : List Nat)
    (hl : ∀ k, k < K.num_processes → (K.table k).pid ∈ (K.table j).children → k ∈ l) :
    (K.table j).children.length ≤ l.length := by
  have hsub : (K.table j).children ⊆ l.map fun k => (K.table k).pid := by
    intro c hc
    obtain ⟨k, hk, rfl, -⟩ := h.entry c hc
    exact List.mem_map.mpr ⟨k, hl k hk hc, rfl⟩
  have := (h.nodup.subperm hsub).length_le
  rwa [List.length_map] at this

theorem KidsOf.length_le_num (h : KidsOf K j) : (K.table j).children.length ≤ K.num_processes := by
  have := h.length_le (List.range K.num_processes) fun k hk _ => List.mem_range.mpr hk
  rwa [List.length_range] at this

/-- 列にない項目が表にあれば、列は表より短い。 -/
theorem KidsOf.length_lt {slot : Nat} (h : KidsOf K j) (hslot : slot < K.num_processes)
    (hnot : (K.table slot).pid ∉ (K.table j).children) :
    (K.table j).children.length < K.num_processes := by
  have hle := h.length_le ((List.range K.num_processes).erase slot) fun k hk hc => by
    refine (List.mem_erase_of_ne ?_).mpr (List.mem_range.mpr hk)
    rintro rfl
    exact hnot hc
  rw [List.length_erase_of_mem (List.mem_range.mpr hslot), List.length_range] at hle
  omega

theorem KidsInv.boot (Q : ProcState → Prop) (rc_in rc_out mounts : Nat) :
    KidsInv Q (boot rc_in rc_out mounts) := by
  intro j hj _
  have hempty : ((Proc.boot rc_in rc_out mounts).table j).children = [] := by
    simp only [Proc.boot]
    split <;> rfl
  exact ⟨by rw [hempty]; exact .nil, fun c hc => by rw [hempty] at hc; cases hc⟩

theorem KidsInv.run (rc_in rc_out mounts : Nat)
    (h : Steps step (fun K ev => NoWrap K ev ∧ ReuseOk (fun _ => True) K ev) (Proc.boot rc_in rc_out mounts) K) :
    PidInv K ∧ KidsInv (fun _ => True) K := by
  refine run_inv (I := fun K => PidInv K ∧ KidsInv (fun _ => True) K)
    (M := fun _ _ K => PidInv K ∧ KidsInv (fun _ => True) K ∧ 0 < K.num_processes) ?_ ?_ ?_ h
    (.boot rc_in rc_out mounts) ⟨.boot .., KidsInv.boot _ rc_in rc_out mounts⟩
  · intro K₀ ev hs hI _
    exact ⟨hI.1, hI.2, hs.num⟩
  · intro K₀ ev K K' hs _ hok hM ha
    have hk := ha.tree_step.kin
    exact ⟨hM.1.kin hM.2.2 hok.1 hk, .kin (fun _ _ _ _ => trivial) hM.1 hM.2.1 hok.2 hk,
      Nat.lt_of_lt_of_le hM.2.2 ha.frame.num⟩
  · intro K₀ ev K K' _ _ _ hM hf
    exact ⟨hM.1.fin hf, fun j hj _ => (hM.2.1 j (hf.ids.num ▸ hj) trivial).fin hf.ids⟩

/-- 番号が一巡せず、列に残る番号の項目を `fork` が使い回さない実行では、子の列は十個以内で、重ならず、どれも
    自分を親とする項目の番号である。次に加える列にも空きがある。 -/
theorem children_ok (rc_in rc_out mounts : Nat)
    (h : Steps step (fun K ev => NoWrap K ev ∧ ReuseOk (fun _ => True) K ev) (boot rc_in rc_out mounts) K) :
    (∀ j, j < K.num_processes → (K.table j).children.length ≤ MAX_PROCESSES ∧
      (K.table j).children.Nodup ∧ ∀ c ∈ (K.table j).children, ∃ k, k < K.num_processes ∧
        (K.table k).pid = c ∧ (K.table k).parent_id = (K.table j).pid) ∧
    ∀ ev j, NoWrap K ev → ReuseOk (fun _ => True) K ev → adds K ev = some j →
      (K.table j).children.length < MAX_PROCESSES := by
  have hs := Synced.run h (.boot rc_in rc_out mounts)
  have hkid : ∀ j, j < K.num_processes → KidsOf K j :=
    fun j hj => (KidsInv.run rc_in rc_out mounts h).2 j hj trivial
  refine ⟨fun j hj => ⟨?_, (hkid j hj).nodup, (hkid j hj).entry⟩, fun ev j _ hreuse hadd => ?_⟩
  · exact Nat.le_trans (hkid j hj).length_le_num hs.max
  · cases ev with
    | boot load => cases hadd
    | timer r => cases hadd
    | keyboard z r => cases hadd
    | fault r => cases hadd
    | pipe => cases hadd
    | syscall env r =>
      obtain ⟨i, hi, hadd⟩ := Option.bind_eq_some_iff.mp hadd
      have hlt := (hs.on_cpu i (hs.current ▸ hi)).lt
      split at hadd
      next heax =>
        obtain ⟨slot, hslot, rfl⟩ := Option.map_eq_some_iff.mp hadd
        rcases fork_slot_spec hslot with ⟨hsl, -⟩ | ⟨-, hmax⟩
        · exact Nat.lt_of_lt_of_le
            ((hkid i hlt).length_lt hsl (hreuse heax slot hslot hsl i hlt trivial)) hs.max
        · exact Nat.lt_of_le_of_lt (hkid i hlt).length_le_num hmax
      · split at hadd
        next hroom =>
          have hj : j < K.num_processes := (get_process_by_pid_spec hadd).1
          exact Nat.lt_of_le_of_lt (hkid j hj).length_le_num hroom.2.2
        · cases hadd

/-- 終わった子を待ってから、その項目を `fork` が使い回す。 -/
def reuse_trace : Trace
    (checked step (fun K ev => decide (NoWrap K ev ∧ ReuseOk (fun _ => True) K ev)) (boot 1 1 0))
    (fun K => K.num_processes = 3 ∧ K.next_pid = 4 ∧ (K.table 1).children = [3]) :=
  ⟨start_shell ++ [call 24, tick, call 5, tick, call 9, call 24], by decide +kernel⟩

theorem children_ok_reuse :
    ∃ K, Steps step (fun K ev => NoWrap K ev ∧ ReuseOk (fun _ => True) K ev) (boot 1 1 0) K ∧
      K.next_pid = 4 ∧ (K.table 1).children = [3] ∧ (K.table 1).children.Nodup := by
  obtain ⟨K, hK, hnum, hnext, hkids⟩ := reuse_trace.steps_checked fun _ _ h => of_decide_eq_true h
  exact ⟨K, hK, hnext, hkids, ((children_ok 1 1 0 hK).1 1 (by omega)).2.1⟩

/-- 待たれていない終わった子の項目を、次の `fork` が使い回す。 -/
def lost_trace : Trace (exec step (boot 1 1 0)) (fun K => ∃ j, j < K.num_processes ∧
    ∃ c ∈ (K.table j).children, ∀ k, k < K.num_processes → (K.table k).pid ≠ c) :=
  ⟨start_shell ++ [call 24, tick, call 5, tick, call 24], by decide +kernel⟩

theorem children_lost :
    ∃ K, Steps step (fun _ _ => True) (boot 1 1 0) K ∧ ∃ j, j < K.num_processes ∧
      ∃ c ∈ (K.table j).children, ∀ k, k < K.num_processes → (K.table k).pid ≠ c :=
  lost_trace.steps

/-! ## 終わった祖先 -/

theorem LiveInv.boot (rc_in rc_out mounts : Nat) : LiveInv (boot rc_in rc_out mounts) := by
  intro j _ _
  left
  simp only [Proc.boot]
  split <;> rfl

theorem LiveInv.run (rc_in rc_out mounts : Nat)
    (h : Steps Proc.step OrphanSafe (Proc.boot rc_in rc_out mounts) K) : PidInv K ∧ LiveInv K := by
  suffices hrun : PidInv K ∧ SchedInv K ∧ LiveInv K from ⟨hrun.1, hrun.2.2⟩
  refine run_inv (I := fun K => PidInv K ∧ SchedInv K ∧ LiveInv K)
    (M := fun K₀ ev K => (PidInv K ∧ SchedInv K ∧ LiveInv K) ∧ 0 < K.num_processes ∧ Acts K₀ ev K₀ K)
    (fun K₀ ev hs hI _ => ⟨hI, hs.num, .refl⟩) ?_ ?_ h (.boot rc_in rc_out mounts)
    ⟨.boot .., .boot .., LiveInv.boot rc_in rc_out mounts⟩
  · rintro K₀ ev K K' hs ⟨hp₀, hz₀, -⟩ hok ⟨⟨hp, hz, hl⟩, hnum, hacts⟩ ha
    exact ⟨⟨hp.kin hnum hok.wrap ha.tree_step.kin, .act hs hz₀ (hp₀.exit_ne_zero hs.num) hz ha,
      LiveInv.step hs.max hl hok ha.tree_step⟩, Nat.lt_of_lt_of_le hnum ha.frame.num, hacts.tail ha⟩
  · rintro K₀ ev K K' hs - - ⟨⟨hp, hz, hl⟩, -, hacts⟩ hf
    exact ⟨hp.fin hf, hz.fin (Acts.cur_lt hs hacts) hf,
      LiveInv.fin hl hf.ids (hf.dead hz (Acts.cur_lt hs hacts))⟩

/-- 生きている子や孫を残して終わらない実行では、生きているプロセスの祖先はすべて表にあり、生きている。 -/
theorem ancestors_live (rc_in rc_out mounts : Nat)
    (h : Steps step OrphanSafe (boot rc_in rc_out mounts) K) (hj : j < K.num_processes)
    (hlive : (K.table j).state ≠ .terminated) :
    ((K.table j).parent_id = 0 ∨ ∃ k, ParentOf K j k) ∧
      ∀ k, Relation.TransGen (ParentOf K) j k → (K.table k).state ≠ .terminated ∧
        ((K.table k).parent_id = 0 ∨ ∃ k', ParentOf K k k') := by
  obtain ⟨hp, hl⟩ := LiveInv.run rc_in rc_out mounts h
  have hup : ∀ j, j < K.num_processes → (K.table j).state ≠ .terminated →
      (K.table j).parent_id = 0 ∨ ∃ k, ParentOf K j k :=
    fun j hj hlive => (hl j hj hlive).imp id fun ⟨k, hk, _⟩ => ⟨k, hk⟩
  -- 親の番号の項目は一つしかない
  have hparent : ∀ j k, j < K.num_processes → (K.table j).state ≠ .terminated → ParentOf K j k →
      (K.table k).state ≠ .terminated := by
    rintro j k hj hlive ⟨h0, hk, hpid⟩
    obtain ⟨k', ⟨-, hk', hpid'⟩, hlk'⟩ := (hl j hj hlive).resolve_left h0
    rw [hp.inj k k' hk hk' (hpid.trans hpid'.symm)]
    exact hlk'
  have hall : ∀ k, Relation.TransGen (ParentOf K) j k →
      k < K.num_processes ∧ (K.table k).state ≠ .terminated := by
    intro k hk
    induction hk with
    | single hk => exact ⟨hk.2.1, hparent _ _ hj hlive hk⟩
    | tail _ hk ih => exact ⟨hk.2.1, hparent _ _ ih.1 ih.2 hk⟩
  exact ⟨hup j hj hlive, fun k hk => ⟨(hall k hk).2, hup k (hall k hk).1 (hall k hk).2⟩⟩

/-- `exec` も溜まった信号もなく、`exit` か例外で終わるプロセスに子がない。 -/
def orphan_safe (K : Kernel) (ev : Event) : Bool :=
  decide (NoWrap K ev) &&
    ((at_schedule K ev).all fun x => x.1.cur_proccess_id.all fun i => (x.1.table i).sig.pending == 0#32) &&
    ((quits K ev).all fun i => (List.range K.num_processes).all fun k => (K.table k).parent_id != (K.table i).pid) &&
    match ev with
    | .syscall _ r => r.eax != 10
    | _ => true

theorem orphan_safe_spec (K : Kernel) (ev : Event) (h : orphan_safe K ev = true) : OrphanSafe K ev := by
  simp only [orphan_safe, Bool.and_eq_true] at h
  obtain ⟨⟨⟨hwrap, hsig⟩, hquit⟩, hcall⟩ := h
  refine ⟨of_decide_eq_true hwrap, fun i fds hq k hk hparent => ?_, fun i env r hc heax => ?_,
    fun K₁ r i hat hcur hdies => ?_⟩
  · simp only [hq.quits, Option.all_some, List.all_eq_true, List.mem_range, bne_iff_ne] at hquit
    exact absurd hparent (hquit k hk)
  · obtain ⟨r₀, rfl, rfl⟩ := hc.event
    simp only at heax
    simp [heax] at hcall
  · simp only [hat, Option.all_some, hcur, beq_iff_eq] at hsig
    exact absurd hsig hdies.1.1

/-- シェルの子が子を二つ作り、一つが例外で終わる。 -/
def grandchild_trace : Trace (checked step orphan_safe (boot 1 1 0)) (fun K =>
    3 < K.num_processes ∧ (K.table 3).state ≠ .terminated ∧ (K.table 3).parent_id = 2 ∧ (K.table 4).state = .terminated) :=
  ⟨start_shell ++ [call 24, tick, call 24, call 24, tick, tick, crash], by decide +kernel⟩

theorem ancestors_live_grandchild :
    ∃ K, Steps step OrphanSafe (boot 1 1 0) K ∧ (K.table 3).parent_id = 2 ∧ (K.table 4).state = .terminated ∧
      ∀ k, Relation.TransGen (ParentOf K) 3 k → (K.table k).state ≠ .terminated := by
  obtain ⟨K, hK, hlt, hlive, hparent, hdead⟩ := grandchild_trace.steps_checked orphan_safe_spec
  exact ⟨K, hK, hparent, hdead, fun k hk => ((ancestors_live 1 1 0 hK hlt hlive).2 k hk).1⟩

/-- 子のある子を `SIGKILL` で終わらせる。 -/
def orphan_trace : Trace (exec step (boot 1 1 0)) (fun K => 3 < K.num_processes ∧
    (K.table 3).state ≠ .terminated ∧ ParentOf K 3 2 ∧ (K.table 2).state = .terminated) :=
  ⟨start_shell ++ [call 24, tick, call 24, call 13 2 SIGKILL, tick], by decide +kernel⟩

theorem orphan_left :
    ∃ K, Steps step (fun _ _ => True) (boot 1 1 0) K ∧ 3 < K.num_processes ∧
      (K.table 3).state ≠ .terminated ∧ ParentOf K 3 2 ∧ (K.table 2).state = .terminated :=
  orphan_trace.steps

end MyOS.Proc
