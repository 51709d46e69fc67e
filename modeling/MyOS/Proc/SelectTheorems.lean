import MyOS.Proc.Delivery
import MyOS.Proc.Lemmas.Sched

/-!
# 休止のプロセスの選び方

休止のプロセスは、ほかに選べる項目がないときだけ選ぶものである。`schedule` の一巡はこれを区別せず、折り返すと
最初に休止のプロセスに当たる。
-/

namespace MyOS.Proc
open MyOS.Lib

variable {K K' : Kernel} {i j next : Nat} {r : Regs}

/-- 選べる、休止でない項目。 -/
def Available (K : Kernel) (j : Nat) : Prop := j ≠ 0 ∧ Selectable (K.table j).state

instance (K : Kernel) : DecidablePred (Available K) := fun _ => inferInstanceAs (Decidable (_ ∧ _))

/-- 今の項目の次から一巡して、最初に選べる休止でない項目。 -/
def first_available (K : Kernel) : Option Nat := (round K).find? fun j => decide (Available K j)

/-- 休止のプロセスを選ぶのは、ほかに選べる項目がないときだけで、あれば一巡して最初のものを選ぶ。 -/
def PicksFirst (K : Kernel) (next : Nat) : Prop :=
  (next = 0 → ∀ j, j < K.num_processes → ¬ Available K j) ∧ ∀ j, first_available K = some j → next = j

/-- 休止のプロセスが選べず、またはほかに選べる項目がなく、または今の項目より後ろに選べる項目がある。 -/
def IdleLast (K : Kernel) : Prop :=
  ¬ Selectable (K.table 0).state ∨ (∀ j, j < K.num_processes → ¬ Available K j) ∨
    ∃ c j, K.cur_proccess_id = some c ∧ c < j ∧ j < K.num_processes ∧ Selectable (K.table j).state

theorem first_available_none (hlt : ∀ i, K.cur_proccess_id = some i → i < K.num_processes) :
    first_available K = none ↔ ∀ j, j < K.num_processes → ¬ Available K j := by
  simp [first_available, List.find?_eq_none, mem_round hlt]

theorem PicksFirst.iff (hlt : ∀ i, K.cur_proccess_id = some i → i < K.num_processes) :
    PicksFirst K next ↔ ∀ j, first_available K = some j → next = j := by
  refine ⟨fun h => h.2, fun h => ⟨fun h0 => ?_, h⟩⟩
  rw [← first_available_none hlt]
  cases hf : first_available K with
  | none => rfl
  | some j =>
    have hj : Available K j := by simpa using List.find?_some hf
    exact absurd ((h j hf).symm.trans h0) hj.1

/-- 休止のプロセスに当たる前の部分と、当たった後の部分。 -/
theorem round_split (hcur : K.cur_proccess_id = some i) :
    round K = List.range' (i + 1) (K.num_processes - (i + 1)) ++ 0 :: List.range' 1 i := by
  simp [round, hcur, List.range_eq_range', List.range'_succ]

theorem round_start (hcur : K.cur_proccess_id = none) (hnum : 0 < K.num_processes) :
    round K = 0 :: List.range' 1 (K.num_processes - 1) := by
  obtain ⟨n, hn⟩ : ∃ n, K.num_processes = n + 1 := ⟨K.num_processes - 1, by omega⟩
  simp [round, hcur, hn, List.range'_succ]

/-- 今の項目より後ろに選べる項目がなければ、休止のプロセスが選ばれる。 -/
theorem select_next_idle (hnum : 0 < K.num_processes)
    (hlt : ∀ i, K.cur_proccess_id = some i → i < K.num_processes) (h0 : Selectable (K.table 0).state)
    (hnone : ∀ c j, K.cur_proccess_id = some c → c < j → j < K.num_processes →
      ¬ Selectable (K.table j).state) : select_next K = some 0 := by
  rw [select_next_eq hlt]
  cases hcur : K.cur_proccess_id with
  | none => simp [round_start hcur hnum, h0]
  | some c =>
    have hfst : (List.range' (c + 1) (K.num_processes - (c + 1))).find?
        (fun j => decide (Selectable (K.table j).state)) = none := by
      rw [List.find?_eq_none]
      intro j hj
      rw [List.mem_range'_1] at hj
      simpa using hnone c j hcur (by omega) (by omega)
    rw [round_split hcur, List.find?_append, hfst]
    simp [h0]

/-- 選ばれた項目が約束を守るのは、`IdleLast` のとき、そのときに限る。 -/
theorem picks_first_iff (hnum : 0 < K.num_processes)
    (hlt : ∀ i, K.cur_proccess_id = some i → i < K.num_processes) (hsel : select_next K = some next) :
    PicksFirst K next ↔ IdleLast K := by
  rw [PicksFirst.iff hlt]
  constructor
  · intro h
    by_contra hcon
    obtain ⟨h0, hex, hnone⟩ : Selectable (K.table 0).state ∧
        (¬ ∀ j, j < K.num_processes → ¬ Available K j) ∧
        ∀ c j, K.cur_proccess_id = some c → c < j → j < K.num_processes →
          ¬ Selectable (K.table j).state := by
      simp only [IdleLast, not_or, not_not, not_exists, not_and] at hcon
      exact ⟨hcon.1, by simpa using hcon.2.1, hcon.2.2⟩
    have hidle := select_next_idle hnum hlt h0 hnone
    rw [hsel] at hidle
    cases hidle
    exact hex (((PicksFirst.iff hlt).mpr h).1 rfl)
  · intro h j hj
    rw [select_next_eq hlt] at hsel
    rcases h with h0 | hnone | ⟨c, k, hcur, hck, hk, hks⟩
    · -- 休止のプロセスは選べないので、二つの探索は同じである
      have hsame : first_available K = (round K).find? fun j => decide (Selectable (K.table j).state) := by
        unfold first_available
        congr 1
        funext m
        by_cases hm : m = 0
        · simp [Available, hm, h0]
        · simp [Available, hm]
      rw [← hsame, hj] at hsel
      exact (Option.some.inj hsel).symm
    · rw [(first_available_none hlt).mpr hnone] at hj
      cases hj
    · -- 休止のプロセスに当たる前に見つかる
      have hsome : ((List.range' (c + 1) (K.num_processes - (c + 1))).find?
          fun j => decide (Selectable (K.table j).state)).isSome := by
        rw [List.find?_isSome]
        exact ⟨k, List.mem_range'_1.mpr (by omega), decide_eq_true hks⟩
      obtain ⟨m, hm⟩ := Option.isSome_iff_exists.mp hsome
      have hfirst : (List.range' (c + 1) (K.num_processes - (c + 1))).find?
          (fun j => decide (Available K j)) = some m := by
        have hmem := List.mem_range'_1.mp (List.mem_of_find?_eq_some hm)
        rw [List.find?_eq_some_iff_append] at hm ⊢
        obtain ⟨hms, pre, post, hsplit, hpre⟩ := hm
        refine ⟨decide_eq_true ⟨by omega, of_decide_eq_true hms⟩, pre, post, hsplit, fun a ha => ?_⟩
        have := hpre a ha
        simp only [Bool.not_eq_true', decide_eq_false_iff_not] at this ⊢
        exact fun hav => this hav.2
      rw [first_available, round_split hcur, List.find?_append, hfirst] at hj
      rw [round_split hcur, List.find?_append, hm] at hsel
      exact Option.some.inj (hsel.symm.trans hj)

/-- `schedule` が選ぶ項目は、信号を処理した後の表で、`IdleLast` のとき、そのときに限り約束を守る。 -/
theorem schedule_picks_first_iff (hnum : 0 < K.num_processes)
    (hlt : ∀ i, K.cur_proccess_id = some i → i < K.num_processes) (h : schedule K r = some K') :
    ∃ next, K'.cur_proccess_id = some next ∧
      (PicksFirst (picking K r) next ↔ IdleLast (picking K r)) := by
  obtain ⟨hn, hc⟩ := deliver_signals_num K r
  have hrest := requeued_rest (deliver_signals K r).1
  have hn' : (picking K r).num_processes = K.num_processes := by rw [picking, hrest, hn]
  have hc' : (picking K r).cur_proccess_id = K.cur_proccess_id := by rw [picking, hrest, hc]
  rw [schedule_eq hnum] at h
  obtain ⟨next, hp⟩ := pick_spec (hn.symm ▸ hnum) h
  refine ⟨next, by rw [hp.rest], picks_first_iff (hn'.symm ▸ hnum) (fun i hi => ?_) hp.selected⟩
  rw [hn']
  exact hlt i (hc' ▸ hi)

/-- シェルだけが走っている。 -/
def shell_alone : Trace (exec step (boot 1 1 0)) (fun K =>
    K.cur_proccess_id = some 1 ∧ 1 < K.num_processes ∧ Available (picking K user_regs) 1 ∧
      (schedule K user_regs).map (·.cur_proccess_id) = some (some 0)) :=
  ⟨start_shell, by decide +kernel⟩

theorem idle_preferred :
    ∃ K K', Steps step (fun _ _ => True) (boot 1 1 0) K ∧ schedule K user_regs = some K' ∧
      K'.cur_proccess_id = some 0 ∧ 1 < K.num_processes ∧ Available (picking K user_regs) 1 := by
  obtain ⟨K, hK, -, hnum, hav, hs⟩ := shell_alone.steps
  obtain ⟨K', hK', hidle⟩ := Option.map_eq_some_iff.mp hs
  exact ⟨K, K', hK, hK', hidle, hnum, hav⟩

/-- 子を作ってから切り替える。 -/
def shell_and_child : Trace (exec step (boot 1 1 0)) (fun K =>
    K.cur_proccess_id = some 1 ∧ 2 < K.num_processes ∧ Selectable ((picking K user_regs).table 2).state ∧
      (picking K user_regs).cur_proccess_id = some 1 ∧ 2 < (picking K user_regs).num_processes ∧
      (schedule K user_regs).isSome) :=
  ⟨start_shell ++ [call 24], by decide +kernel⟩

theorem schedule_picks_child :
    ∃ K K' next, Steps step (fun _ _ => True) (boot 1 1 0) K ∧ schedule K user_regs = some K' ∧
      K'.cur_proccess_id = some next ∧ PicksFirst (picking K user_regs) next := by
  obtain ⟨K, hK, hcur, hnum, hsel, hcur', hnum', hs⟩ := shell_and_child.steps
  obtain ⟨K', hK'⟩ := Option.isSome_iff_exists.mp hs
  obtain ⟨next, hnext, hiff⟩ := schedule_picks_first_iff (by omega) (fun i hi => by
    cases hcur.symm.trans hi
    omega) hK'
  exact ⟨K, K', next, hK, hK', hnext,
    hiff.mpr (.inr (.inr ⟨1, 2, hcur', by omega, hnum', hsel⟩))⟩

end MyOS.Proc
