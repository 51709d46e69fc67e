import MyOS.Proc.Lemmas.Tree
import Mathlib.Data.List.Perm.Subperm

/-! 番号、親、子の列について、書き込みの一つずつにできること。 -/

namespace MyOS.Proc
open MyOS.Lib

variable {K₀ K K' : Kernel} {ev : Event} {i j : Nat} {r : Regs}

/-- 除いた列は、順のほかは一つ消した列である。 -/
theorem remove_id_perm (x : Nat) (l : List Nat) : (remove_id x l).Perm (l.erase x) := by
  induction l with
  | nil => exact .refl _
  | cons y ys ih =>
    rw [remove_id]
    by_cases hy : y = x
    · rw [if_pos hy, List.erase_cons, if_pos (by simp [hy])]
      split
      next hlast =>
        rw [List.getLast?_eq_none_iff.mp hlast]
      next z hlast =>
        have hys : ys = ys.dropLast ++ [z] := (List.dropLast_append_getLast? z hlast).symm
        conv => rhs; rw [hys]
        exact (List.perm_append_singleton z ys.dropLast).symm
    · rw [if_neg hy, List.erase_cons, if_neg (by simp [hy])]
      exact ih.cons y

theorem remove_id_nodup {l : List Nat} (x : Nat) (h : l.Nodup) : (remove_id x l).Nodup :=
  (remove_id_perm x l).nodup_iff.mpr (h.erase x)

theorem mem_remove_id {l : List Nat} {x y : Nat} (h : l.Nodup) : y ∈ remove_id x l ↔ y ≠ x ∧ y ∈ l := by
  rw [(remove_id_perm x l).mem_iff, h.mem_erase_iff]

theorem mem_of_mem_remove_id {l : List Nat} {x y : Nat} (h : y ∈ remove_id x l) : y ∈ l :=
  List.mem_of_mem_erase ((remove_id_perm x l).mem_iff.mp h)

theorem get_process_by_pid_none {pid : Nat} (h : get_process_by_pid K pid = none)
    (hj : j < K.num_processes) : (K.table j).pid ≠ pid := by
  have := List.find?_eq_none.mp h j (List.mem_range.mpr hj)
  simpa using this

theorem SameIds.refl (K : Kernel) : SameIds K K K.next_pid :=
  ⟨rfl, rfl, fun _ _ => rfl, fun _ _ => rfl, fun _ _ => .inl rfl, fun _ _ => id⟩

theorem TreeRest.same_ids (h : TreeRest K K') (hpid : ∀ j, (K'.table j).pid = (K.table j).pid)
    (hparent : ∀ j, (K'.table j).parent_id = (K.table j).parent_id)
    (hchildren : ∀ j, (K'.table j).children = (K.table j).children)
    (hdead : ∀ j, (K.table j).state = .terminated → (K'.table j).state = .terminated) :
    SameIds K K' K.next_pid :=
  ⟨h.num, h.next_pid, fun j _ => hpid j, fun j _ => hparent j, fun j _ => .inl (hchildren j),
    fun j _ => hdead j⟩

theorem Move.alive {q : Pcb} (h : Move K₀ ev K i q) : (K.table i).state ≠ .terminated := by
  cases h with
  | block _ _ h => simp [h]
  | wake _ _ _ h => simp [h]
  | cont _ h => simp [h]
  | load _ h => simp [h]
  | signal _ _ h => simp [h.2.1]

theorem unblock_parent_ids (K : Kernel) (pid : Nat) (b : Bool) :
    SameIds K (unblock_parent K pid b) K.next_pid := by
  have hc := CleanFrame.unblock_parent K pid b
  have hwake : ∀ k j, ((wake_parent K k pid b).table j).pid = (K.table j).pid ∧
      ((wake_parent K k pid b).table j).parent_id = (K.table j).parent_id ∧
      (((wake_parent K k pid b).table j).children = (K.table j).children ∨
        ∃ x, ((wake_parent K k pid b).table j).children = remove_id x (K.table j).children) := by
    intro k j
    by_cases hj : j = k
    · subst hj
      rw [wake_parent_self]
      refine ⟨rfl, rfl, ?_⟩
      cases b with
      | true => exact .inr ⟨pid, rfl⟩
      | false => exact .inl rfl
    · rw [wake_parent_ne hj]
      exact ⟨rfl, rfl, .inl rfl⟩
  have hall : ∀ j, ((unblock_parent K pid b).table j).pid = (K.table j).pid ∧
      ((unblock_parent K pid b).table j).parent_id = (K.table j).parent_id ∧
      (((unblock_parent K pid b).table j).children = (K.table j).children ∨
        ∃ x, ((unblock_parent K pid b).table j).children = remove_id x (K.table j).children) := by
    intro j
    rcases unblock_parent_cases K pid b with h | ⟨c, k, -, -, -, -, ⟨h, -⟩ | ⟨-, -, h⟩⟩
    · rw [h]
      exact ⟨rfl, rfl, .inl rfl⟩
    · rw [h]
      exact hwake k j
    · rw [h, cleanup_table]
      by_cases hj : j = c
      · subst hj
        simp only [if_pos]
        exact hwake k j
      · simp only [if_neg hj]
        exact hwake k j
  refine ⟨hc.num, by rw [hc.rest], fun j _ => (hall j).1, fun j _ => (hall j).2.1, fun j _ => (hall j).2.2,
    fun j _ hj => ?_⟩
  rw [unblock_parent_state (by simp [hj])]
  exact hj

theorem reaped_ids (K : Kernel) (i dead : Nat) : SameIds K (reaped K i dead) K.next_pid := by
  have hc := reaped_clean K i dead
  have hrem : ∀ j, ((remove_child_from_parent K i dead).table j).pid = (K.table j).pid ∧
      ((remove_child_from_parent K i dead).table j).parent_id = (K.table j).parent_id ∧
      (((remove_child_from_parent K i dead).table j).children = (K.table j).children ∨
        ∃ x, ((remove_child_from_parent K i dead).table j).children = remove_id x (K.table j).children) := by
    intro j
    rw [remove_child_from_parent, Kernel.modify_table]
    split
    next hj =>
      subst hj
      exact ⟨rfl, rfl, .inr ⟨dead, rfl⟩⟩
    · exact ⟨rfl, rfl, .inl rfl⟩
  have hall : ∀ j, ((reap_child K i dead).table j).pid = (K.table j).pid ∧
      ((reap_child K i dead).table j).parent_id = (K.table j).parent_id ∧
      (((reap_child K i dead).table j).children = (K.table j).children ∨
        ∃ x, ((reap_child K i dead).table j).children = remove_id x (K.table j).children) := by
    intro j
    rw [reap_child]
    split
    · exact hrem j
    next c _ =>
      rw [cleanup_table]
      by_cases hj : j = c
      · subst hj
        simp only [if_pos]
        exact hrem j
      · simp only [if_neg hj]
        exact hrem j
  refine ⟨hc.num, by rw [hc.rest], fun j _ => (hall j).1, fun j _ => (hall j).2.1, fun j _ => (hall j).2.2,
    fun j _ hj => ?_⟩
  show ((reap_child K i dead).table j).state = .terminated
  rw [reap_child_state]
  exact hj

theorem exit_tree_ids (K : Kernel) (i : Nat) (fds : List Nat) : SameIds K (exit_tree K i fds) K.next_pid := by
  have hc := exit_tree_clean K i fds
  refine ⟨hc.num, by rw [hc.rest], fun j _ => ?_, fun j _ => ?_, fun j _ => .inl ?_, fun j _ hj => ?_⟩
  · rw [exit_tree_table]
  · rw [exit_tree_table]
  · rw [exit_tree_table]
  · rw [exit_tree_table]
    dsimp only
    split
    · rfl
    · exact hj

/-- 読み込みに失敗した `create_process` は、番号だけを進める。 -/
theorem unload_ids (K : Kernel) (pid : Nat) :
    SameIds K (unload (reserve K pid) K.next_block) (add32 K.next_pid 1) := by
  have hold : ∀ j, j < K.num_processes → (unload (reserve K pid) K.next_block).table j = K.table j :=
    fun j hj => reserve_ne (Nat.ne_of_lt hj)
  refine ⟨rfl, rfl, fun j hj => ?_, fun j hj => ?_, fun j hj => .inl ?_, fun j hj => ?_⟩
  all_goals rw [hold j hj]
  exact id

/-- 表に加えた項目。 -/
theorem Born.install {pid : Nat} {adder : Option Nat} {L : Kernel} (img : Image)
    (hL : L = { reserve K pid with table := L.table })
    (hnew : L.table K.num_processes = new_pcb K pid (K.table K.num_processes))
    (hold : ∀ j, j < K.num_processes → (L.table j).pid = (K.table j).pid ∧
      (L.table j).parent_id = (K.table j).parent_id ∧ (L.table j).state = (K.table j).state ∧
      (L.table j).children =
        if adder = some j then (K.table j).children ++ [K.next_pid] else (K.table j).children)
    (hadder : ∀ j, adder = some j → j < K.num_processes ∧ (K.table j).pid = pid)
    (halone : adder = none → pid = 0 ∨ ∀ j, j < K.num_processes → (K.table j).pid ≠ pid) :
    Born K K.num_processes pid adder (install L img) := by
  have hn : L.num_processes = K.num_processes := by rw [hL]; rfl
  have hself := install_self L img
  rw [hn, hnew] at hself
  refine ⟨Nat.le_refl _, ?_, ?_, ?_, ?_, ?_, ?_, ?_, fun j hj hne => ?_, fun j hj => ?_, halone⟩
  · rw [if_pos rfl, ← hn]
    rfl
  · show L.next_pid = _
    rw [hL]
    rfl
  · show L.reports = _
    rw [hL]
    rfl
  · rw [hself]
    rfl
  · rw [hself]
    rfl
  · rw [hself]
    rfl
  · rw [hself]
    simp
  · rw [install_ne (hn.symm ▸ hne)]
    exact hold j hj
  · exact ⟨(hadder j hj).1, Nat.ne_of_lt (hadder j hj).1, (hadder j hj).2⟩

theorem create_process_kin {pid : Nat} {load : Option Image} (h : create_process K pid load = some K') :
    K' = K ∨ K' = unload (reserve K pid) K.next_block ∨ ∃ adder, Born K K.num_processes pid adder K' := by
  rcases create_process_cases h with ⟨rfl, -⟩ | ⟨-, ⟨-, rfl⟩ | ⟨img, -, ⟨hnone, rfl⟩ | ⟨k, hk, h0, -, rfl⟩⟩⟩
  · exact .inl rfl
  · exact .inr (.inl rfl)
  · refine .inr (.inr ⟨none, .install img rfl (reserve_self K pid) (fun j hj => ?_) (fun j hj => by cases hj) fun _ => ?_⟩)
    · rw [reserve_ne (Nat.ne_of_lt hj)]
      exact ⟨rfl, rfl, rfl, rfl⟩
    · refine hnone.imp id fun hnone j hj => ?_
      have := get_process_by_pid_none hnone (j := j) hj
      rwa [reserve_ne (Nat.ne_of_lt hj)] at this
  · have hspec := get_process_by_pid_spec hk
    have hkn : k ≠ K.num_processes := Nat.ne_of_lt hspec.1
    refine .inr (.inr ⟨some k, .install img rfl ?_ (fun j hj => ?_) (fun j hj => ?_) fun hn => by cases hn⟩)
    · rw [Kernel.modify_ne _ _ hkn.symm]
      exact reserve_self K pid
    · rw [Kernel.modify_table]
      have hj' : (reserve K pid).table j = K.table j := reserve_ne (Nat.ne_of_lt hj)
      by_cases hjk : j = k
      · subst hjk
        rw [if_pos rfl, if_pos rfl, hj']
        exact ⟨rfl, rfl, rfl, rfl⟩
      · rw [if_neg hjk, if_neg (fun h => hjk (Option.some.inj h).symm), hj']
        exact ⟨rfl, rfl, rfl, rfl⟩
    · cases hj
      refine ⟨hspec.1, ?_⟩
      have := hspec.2
      rwa [reserve_ne hkn] at this

theorem fork_into_born {slot : Nat} (hi : i < K.num_processes) (hne : i ≠ slot)
    (hle : slot ≤ K.num_processes) (h : fork_into K i slot r = some K') :
    Born K slot (K.table i).pid (some i) K' := by
  have htable := fork_into_table hne h
  have hrest := fork_into_rest h
  have hself : K'.table slot = { fork_pcb K (K.table i) r (K.table slot) with
      state := .ready, files_open := (K'.table slot).files_open } := by
    have := htable slot
    rw [fork_entry, if_pos rfl] at this
    exact this
  refine ⟨hle, congrArg Kernel.num_processes hrest, by rw [hrest], by rw [hrest], by rw [hself]; rfl,
    by rw [hself]; rfl, by rw [hself]; rfl, by rw [hself]; simp, fun j hj hjs => ?_, fun j hj => ?_,
    fun hn => by cases hn⟩
  · rw [htable j, fork_entry, if_neg hjs]
    by_cases hji : j = i
    · subst hji
      rw [if_pos rfl, if_pos rfl]
      exact ⟨rfl, rfl, rfl, rfl⟩
    · rw [if_neg hji, if_neg (fun h => hji (Option.some.inj h).symm)]
      exact ⟨rfl, rfl, rfl, rfl⟩
  · cases hj
    exact ⟨hi, hne, rfl⟩

theorem Creates.creates {pid : Nat} {load : Option Image} (h : Creates K₀ ev pid load) :
    creates ev = true ∧ Births K₀ ev K₀.num_processes pid := by
  cases h with
  | boot => exact ⟨rfl, .boot rfl rfl rfl⟩
  | spawn hc heax =>
    refine ⟨?_, .spawn hc heax rfl rfl⟩
    obtain ⟨r₀, rfl, rfl⟩ := hc.event
    simp only [Proc.creates]
    simp only at heax
    simp [heax]

theorem fork_birth {env : Env} {slot : Nat} (hc : Calls K ev i env r) (heax : r.eax = 24)
    (hslot : fork_slot K = some slot) (hf : fork_into K i slot r = some K') :
    creates ev = true ∧ Born K slot (K.table i).pid (some i) K' := by
  have hle : slot ≤ K.num_processes := by
    rcases fork_slot_spec hslot with ⟨h, -⟩ | ⟨h, -⟩ <;> omega
  refine ⟨?_, fork_into_born hc.lt (hc.toOnCpu.ne_slot hslot) hle hf⟩
  obtain ⟨r₀, rfl, rfl⟩ := hc.event
  simp only at heax
  simp [Proc.creates, heax]

theorem TreeStep.kin (h : TreeStep K₀ ev K K') : Kin K₀ ev K K' := by
  cases h with
  | quiet hrest htree hst =>
    exact .same (hrest.same_ids (fun j => (htree j).pid) (fun j => (htree j).parent)
      (fun j => (htree j).children) fun j hj => (hst j).trans hj)
  | @await i env r hc hrest hrun hother hpid hparent hchildren hst =>
    refine .same (hrest.same_ids (fun j => ?_) (fun j => ?_) (fun j => ?_) fun j hj => (hst j).trans hj)
    all_goals by_cases hj : j = i
    · exact hj ▸ hpid
    · exact (hother j hj).pid
    · exact hj ▸ hparent
    · exact (hother j hj).parent
    · exact hj ▸ hchildren
    · exact (hother j hj).children
  | @move i hm hrest hother hpid hparent hchildren =>
    refine .same (hrest.same_ids (fun j => ?_) (fun j => ?_) (fun j => ?_) fun j hdead => ?_)
    all_goals by_cases hj : j = i
    · exact hj ▸ hpid
    · exact (hother j hj).1.pid
    · exact hj ▸ hparent
    · exact (hother j hj).1.parent
    · exact hj ▸ hchildren
    · exact (hother j hj).1.children
    · subst hj
      exact absurd hdead hm.alive
    · exact (hother j hj).2.trans hdead
  | @dies i _ hrest _ _ htree hother hi =>
    refine .same (hrest.same_ids (fun j => (htree j).pid) (fun j => (htree j).parent)
      (fun j => (htree j).children) fun j hdead => ?_)
    by_cases hj : j = i
    · exact hj ▸ hi
    · exact (hother j hj).trans hdead
  | exit _ hK hK' =>
    subst hK hK'
    exact .same (exit_tree_ids ..)
  | unblock _ hK' =>
    subst hK'
    exact .same (unblock_parent_ids ..)
  | reap _ hK _ hK' =>
    subst hK hK'
    exact .same (reaped_ids ..)
  | create hK hc hcr =>
    subst hK
    obtain ⟨hev, hb⟩ := hc.creates
    rcases create_process_kin hcr with rfl | rfl | ⟨adder, h⟩
    · exact .same (.refl K')
    · exact .skips rfl hev (unload_ids ..)
    · exact .born rfl hev hb h
  | @fork i env r slot hK hc heax hslot hf =>
    subst hK
    obtain ⟨hev, hborn⟩ := fork_birth hc heax hslot hf
    exact .born rfl hev (.fork hc heax hslot rfl) hborn

/-! 番号の不変条件。 -/

theorem PidInv.find (h : PidInv K) {k : Nat} (hk : k < K.num_processes) :
    get_process_by_pid K (K.table k).pid = some k := by
  cases hg : get_process_by_pid K (K.table k).pid with
  | none => exact absurd rfl (get_process_by_pid_none hg hk)
  | some k' =>
    obtain ⟨hlt, hpid⟩ := get_process_by_pid_spec hg
    rw [h.inj k' k hlt hk hpid]

theorem PidInv.same (h : PidInv K) {next : Nat} (hs : SameIds K K' next) (hnext : K.next_pid ≤ next)
    (hnum : 0 < K.num_processes) : PidInv K' := by
  refine ⟨(hs.pid 0 hnum).trans h.idle, fun j hj => ?_, fun j k hj hk => ?_⟩
  · rw [hs.num] at hj
    rw [hs.pid j hj, hs.next]
    exact Nat.lt_of_lt_of_le (h.lt j hj) hnext
  · rw [hs.num] at hj hk
    rw [hs.pid j hj, hs.pid k hk]
    exact h.inj j k hj hk

theorem add32_succ {n : Nat} (h : n + 1 < 2 ^ 32) : add32 n 1 = n + 1 := add32_eq h

theorem Kin.next_le (h : Kin K₀ ev K K') (hok : NoWrap K₀ ev) : K.next_pid ≤ K'.next_pid := by
  cases h with
  | same hs => exact Nat.le_of_eq hs.next.symm
  | skips hK hev hs =>
    subst hK
    rw [hs.next, add32_succ (hok hev)]
    omega
  | born hK hev _ hb =>
    subst hK
    rw [hb.next, add32_succ (hok hev)]
    omega

theorem Born.cases_lt {slot parent : Nat} {adder : Option Nat} (h : Born K slot parent adder K')
    (hj : j < K'.num_processes) : j = slot ∨ j < K.num_processes ∧ j ≠ slot := by
  by_cases hs : j = slot
  · exact .inl hs
  · refine .inr ⟨?_, hs⟩
    rw [h.num] at hj
    split at hj <;> omega

theorem PidInv.born {slot parent : Nat} {adder : Option Nat} (h : PidInv K)
    (hb : Born K slot parent adder K') (h0 : slot ≠ 0) (hnum : 0 < K.num_processes)
    (hwrap : K.next_pid + 1 < 2 ^ 32) : PidInv K' := by
  have hnext : K'.next_pid = K.next_pid + 1 := hb.next.trans (add32_succ hwrap)
  refine ⟨(hb.old 0 hnum h0.symm).1.trans h.idle, fun j hj => ?_, fun j k hj hk hjk => ?_⟩
  · rw [hnext]
    rcases hb.cases_lt hj with rfl | ⟨hj, hne⟩
    · rw [hb.pid]
      omega
    · rw [(hb.old j hj hne).1]
      have := h.lt j hj
      omega
  · rcases hb.cases_lt hj with rfl | ⟨hj, hjs⟩ <;> rcases hb.cases_lt hk with hks | ⟨hk, hks⟩
    · exact hks.symm
    · rw [hb.pid, (hb.old k hk hks).1] at hjk
      have := h.lt k hk
      omega
    · subst hks
      rw [hb.pid, (hb.old j hj hjs).1] at hjk
      have := h.lt j hj
      omega
    · rw [(hb.old j hj hjs).1, (hb.old k hk hks).1] at hjk
      exact h.inj j k hj hk hjk

theorem PidInv.slot_ne_zero {slot parent : Nat} (h : PidInv K) (hnum : 0 < K.num_processes)
    (hb : Births K ev slot parent) : slot ≠ 0 := by
  cases hb with
  | boot _ hs => omega
  | spawn _ _ hs => omega
  | fork _ _ hslot =>
    rcases fork_slot_spec hslot with ⟨-, -, hpid⟩ | ⟨hs, -⟩
    · rintro rfl
      exact hpid h.idle
    · omega

theorem PidInv.kin (h : PidInv K) (hnum : 0 < K.num_processes) (hok : NoWrap K₀ ev)
    (hk : Kin K₀ ev K K') : PidInv K' := by
  cases hk with
  | same hs => exact h.same hs (Nat.le_refl _) hnum
  | skips hK hev hs =>
    subst hK
    have := hok hev
    exact h.same hs (by rw [add32_succ this]; omega) hnum
  | born hK hev hb hborn =>
    subst hK
    exact h.born hborn (h.slot_ne_zero hnum hb) hnum (hok hev)

/-- 文脈を決める書き込みは、番号も親も子の列も変えない。 -/
structure FinIds (K K' : Kernel) : Prop where
  num : K'.num_processes = K.num_processes
  next : K'.next_pid = K.next_pid
  reports : K'.reports = K.reports
  pid : ∀ j, (K'.table j).pid = (K.table j).pid
  parent : ∀ j, (K'.table j).parent_id = (K.table j).parent_id
  children : ∀ j, (K'.table j).children = (K.table j).children

theorem FinIds.pipe (h : PipeFrame K K') : FinIds K K' := by
  refine ⟨by rw [h.rest], by rw [h.rest], by rw [h.rest], fun j => ?_, fun j => ?_, fun j => ?_⟩
  all_goals rw [h.pcb j]

theorem Fin.ids (h : Fin K₀ ev K K') : FinIds K K' := by
  cases h with
  | stays => exact ⟨rfl, rfl, rfl, fun _ => rfl, fun _ => rfl, fun _ => rfl⟩
  | returns => exact ⟨rfl, rfl, rfl, fun _ => rfl, fun _ => rfl, fun _ => rfl⟩
  | pipe_start => exact .pipe (.pipe_start ..)
  | pipe_iter => exact .pipe (.pipe_iter ..)
  | switch _ hnum _ _ hp =>
    obtain ⟨next, hpick⟩ := pick_spec hnum hp
    refine ⟨by rw [hpick.rest], by rw [hpick.rest], by rw [hpick.rest], fun j => ?_, fun j => ?_, fun j => ?_⟩
    all_goals rw [hpick.table j]

theorem PidInv.fin (h : PidInv K) (hf : Fin K₀ ev K K') : PidInv K' := by
  have hi := hf.ids
  refine ⟨(hi.pid 0).trans h.idle, fun j hj => ?_, fun j k hj hk => ?_⟩
  · rw [hi.pid, hi.next]
    exact h.lt j (hi.num ▸ hj)
  · rw [hi.pid, hi.pid]
    exact h.inj j k (hi.num ▸ hj) (hi.num ▸ hk)

theorem PidInv.boot (rc_in rc_out mounts : Nat) : PidInv (boot rc_in rc_out mounts) := by
  refine ⟨rfl, fun j hj => ?_, fun j k hj hk _ => ?_⟩
  · simp only [Proc.boot] at hj
    obtain rfl : j = 0 := by omega
    exact Nat.one_pos
  · simp only [Proc.boot] at hj hk
    omega

/-! 子の列の不変条件。`Q` は、終わった項目が生き返らないことだけを使う。 -/

theorem KidsOf.same {next : Nat} (hs : SameIds K K' next) (hj : j < K.num_processes) (h : KidsOf K j) :
    KidsOf K' j := by
  have hsub : ∀ c ∈ (K'.table j).children, c ∈ (K.table j).children := by
    intro c hc
    rcases hs.children j hj with heq | ⟨x, heq⟩
    · exact heq ▸ hc
    · rw [heq] at hc
      exact mem_of_mem_remove_id hc
  refine ⟨?_, fun c hc => ?_⟩
  · rcases hs.children j hj with heq | ⟨x, heq⟩
    · rw [heq]
      exact h.nodup
    · rw [heq]
      exact remove_id_nodup x h.nodup
  · obtain ⟨k, hk, hpid, hparent⟩ := h.entry c (hsub c hc)
    exact ⟨k, hs.num.symm ▸ hk, (hs.pid k hk).trans hpid,
      (hs.parent k hk).trans (hparent.trans (hs.pid j hj).symm)⟩

/-- 使い回す項目の番号が列になければ、列の項目はすべて残る。 -/
theorem KidsOf.born {slot parent : Nat} {adder : Option Nat} (hp : PidInv K)
    (hb : Born K slot parent adder K') (hj : j < K.num_processes) (hjs : j ≠ slot)
    (hreuse : slot < K.num_processes → (K.table slot).pid ∉ (K.table j).children) (h : KidsOf K j) :
    KidsOf K' j := by
  obtain ⟨hpid, -, -, hchildren⟩ := hb.old j hj hjs
  have hslot : slot < K'.num_processes := by
    have := hb.le
    rw [hb.num]
    split <;> omega
  have hold : ∀ c ∈ (K.table j).children, ∃ k, k < K'.num_processes ∧ (K'.table k).pid = c ∧
      (K'.table k).parent_id = (K'.table j).pid := by
    intro c hc
    obtain ⟨k, hk, hkc, hparent⟩ := h.entry c hc
    have hks : k ≠ slot := by
      rintro rfl
      exact hreuse hk (hkc ▸ hc)
    obtain ⟨hkpid, hkparent, -, -⟩ := hb.old k hk hks
    refine ⟨k, ?_, hkpid.trans hkc, hkparent.trans (hparent.trans hpid.symm)⟩
    rw [hb.num]
    split <;> omega
  by_cases hadd : adder = some j
  · rw [if_pos hadd] at hchildren
    refine ⟨?_, fun c hc => ?_⟩
    · rw [hchildren]
      refine List.nodup_append.mpr ⟨h.nodup, by simp, fun c hc c' hc' => ?_⟩
      obtain rfl := List.mem_singleton.mp hc'
      obtain ⟨k, hk, hkc, -⟩ := h.entry c hc
      have := hp.lt k hk
      omega
    · rw [hchildren, List.mem_append] at hc
      rcases hc with hc | hc
      · exact hold c hc
      · obtain rfl := List.mem_singleton.mp hc
        refine ⟨slot, hslot, hb.pid, hb.parent_id.trans ?_⟩
        rw [hpid]
        exact ((hb.adder_spec j hadd).2.2).symm
  · rw [if_neg hadd] at hchildren
    exact ⟨hchildren.symm ▸ h.nodup, fun c hc => hold c (hchildren ▸ hc)⟩

theorem KidsInv.kin {Q : ProcState → Prop} (hQ : ∀ s s', (s = .terminated → s' = .terminated) → Q s' → Q s)
    (hp : PidInv K) (h : KidsInv Q K) (hok : ReuseOk Q K₀ ev) (hk : Kin K₀ ev K K') : KidsInv Q K' := by
  have hsame : ∀ {next : Nat}, SameIds K K' next → KidsInv Q K' := by
    intro next hs j hj hq
    rw [hs.num] at hj
    exact (h j hj (hQ _ _ (hs.dead j hj) hq)).same hs hj
  cases hk with
  | same hs => exact hsame hs
  | skips _ _ hs => exact hsame hs
  | @born slot parent adder hK hev hb hborn =>
    subst hK
    intro j hj hq
    rcases hborn.cases_lt hj with rfl | ⟨hj, hjs⟩
    · exact ⟨by rw [hborn.children]; exact .nil, fun c hc => by rw [hborn.children] at hc; cases hc⟩
    · rw [(hborn.old j hj hjs).2.2.1] at hq
      refine (h j hj hq).born hp hborn hj hjs fun hlt => ?_
      cases hb with
      | boot _ hs => omega
      | spawn _ _ hs => omega
      | fork hc heax hslot =>
        obtain ⟨r₀, rfl, rfl⟩ := hc.event
        exact hok heax slot hslot hlt j hj hq

theorem KidsOf.fin (hi : FinIds K K') (h : KidsOf K j) : KidsOf K' j := by
  refine ⟨hi.children j ▸ h.nodup, fun c hc => ?_⟩
  obtain ⟨k, hk, hpid, hparent⟩ := h.entry c (hi.children j ▸ hc)
  exact ⟨k, hi.num.symm ▸ hk, (hi.pid k).trans hpid, (hi.parent k).trans (hparent.trans (hi.pid j).symm)⟩

end MyOS.Proc
