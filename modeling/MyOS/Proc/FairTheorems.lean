import MyOS.Proc.SelectTheorems

/-!
# 順番が回ってくること

`schedule` は今の項目の次から一巡して選ぶので、選べる項目は、切り替えが `MAX_PROCESSES` 回起こる前に選ばれるか、選べ
なくなる。一巡の間に項目が増えても、信号や終了で項目が減っても変わらない。
-/

namespace MyOS.Proc
open MyOS.Lib

variable {K₀ K K' : Kernel} {ev : Event} {j next : Nat} {r : Regs}

/-- 項目 `j` は選べるが、選ばれていない。 -/
def Waiting (j : Nat) (K : Kernel) : Prop :=
  j < K.num_processes ∧ Selectable (K.table j).state ∧ K.cur_proccess_id ≠ some j

instance (j : Nat) (K : Kernel) : Decidable (Waiting j K) := inferInstanceAs (Decidable (_ ∧ _ ∧ _))

/-- 今の項目から一巡して `j` に着くまでに、途中で選ばれることのできる項目の数。表は `MAX_PROCESSES` まで伸びうる。 -/
def distance (j : Nat) (K : Kernel) : Nat :=
  match K.cur_proccess_id with
  | none => j
  | some c => if c < j then j - (c + 1) else MAX_PROCESSES - (c + 1) + j

theorem Waiting.distance_lt (h : Waiting j K) (hs : Synced K) : distance j K < MAX_PROCESSES := by
  have hj := h.1
  have hmax := hs.max
  unfold distance
  cases hcur : K.cur_proccess_id with
  | none => exact Nat.lt_of_lt_of_le hj hmax
  | some c =>
    have hc := (hs.on_cpu c hcur).lt
    have hne : c ≠ j := fun he => h.2.2 (he ▸ hcur)
    dsimp only
    split <;> omega

/-- 一巡して最初に選べる項目は、`j` より後ろにはない。 -/
theorem find_range'_le {s n : Nat} {p : Nat → Bool} (hlo : s ≤ j) (hhi : j < s + n) (hj : p j = true) :
    ∃ m, (List.range' s n).find? p = some m ∧ s ≤ m ∧ m ≤ j := by
  obtain ⟨m, hm⟩ := Option.isSome_iff_exists.mp (List.find?_isSome.mpr ⟨j, List.mem_range'_1.mpr ⟨hlo, hhi⟩, hj⟩)
  obtain ⟨-, hmem, hleast⟩ := List.find?_range'_eq_some.mp hm
  refine ⟨m, hm, (List.mem_range'_1.mp hmem).1, Nat.not_lt.mp fun hlt => ?_⟩
  have := hleast j hlo hlt
  simp [hj] at this

/-- 選べる項目 `j` を追い越して選ばれた項目は、今の項目と `j` の間にある。 -/
theorem distance_select (hlt : ∀ i, K.cur_proccess_id = some i → i < K.num_processes) (hmax : K.num_processes ≤ MAX_PROCESSES)
    (hw : Waiting j K) (hsel : select_next K = some next) (hnext : next ≠ j) (hcur' : K'.cur_proccess_id = some next) :
    distance j K' < distance j K := by
  obtain ⟨hj, hjs, hne⟩ := hw
  rw [select_next_eq hlt] at hsel
  unfold distance
  rw [hcur']
  cases hcur : K.cur_proccess_id with
  | none =>
    have hround : round K = List.range' 0 K.num_processes := by simp [round, hcur]
    obtain ⟨m, hm, -, hmj⟩ := find_range'_le (p := fun j => decide (Selectable (K.table j).state)) (Nat.zero_le j)
      (Nat.lt_of_lt_of_eq hj (Nat.zero_add _).symm) (decide_eq_true hjs)
    rw [hround, hm] at hsel
    obtain rfl := Option.some.inj hsel
    dsimp only
    rw [if_pos (by omega)]
    omega
  | some c =>
    have hc := hlt c hcur
    have hcj : c ≠ j := fun he => hne (he ▸ hcur)
    have hround : round K = List.range' (c + 1) (K.num_processes - (c + 1)) ++ List.range' 0 (c + 1) := by
      simp [round, hcur, List.range_eq_range']
    rw [hround, List.find?_append] at hsel
    dsimp only
    by_cases hlt' : c < j
    · obtain ⟨m, hm, hcm, hmj⟩ := find_range'_le (p := fun j => decide (Selectable (K.table j).state)) (Nat.succ_le_of_lt hlt')
        (show j < c + 1 + (K.num_processes - (c + 1)) by omega) (decide_eq_true hjs)
      rw [hm] at hsel
      obtain rfl := Option.some.inj hsel
      rw [if_pos hlt', if_pos (by omega)]
      omega
    · obtain ⟨m, hm, -, hmj⟩ := find_range'_le (p := fun j => decide (Selectable (K.table j).state)) (Nat.zero_le j)
        (show j < 0 + (c + 1) by omega) (decide_eq_true hjs)
      rw [if_neg hlt']
      cases hfst : (List.range' (c + 1) (K.num_processes - (c + 1))).find?
          (fun j => decide (Selectable (K.table j).state)) with
      | none =>
        -- 折り返した後で見つかる
        rw [hfst, hm] at hsel
        obtain rfl := Option.some.inj hsel
        rw [if_pos (by omega)]
        omega
      | some m' =>
        rw [hfst] at hsel
        obtain rfl := Option.some.inj hsel
        have hmem := List.mem_range'_1.mp (List.mem_of_find?_eq_some hfst)
        rw [if_neg (by omega)]
        omega

/-- 一歩の間に `j` が選ばれなければ、切り替えの数だけ距離が縮む。 -/
theorem Waiting.step (hs : Synced K₀) (hw : Waiting j K₀) (h : step K₀ ev = some K') (hw' : Waiting j K') :
    distance j K' + K'.switched.length ≤ distance j K₀ + K₀.switched.length := by
  obtain ⟨K, hacts, hfin⟩ := step_reaches hs h
  have hf := hacts.frame
  have hstay : ∀ {L}, L.cur_proccess_id = K₀.cur_proccess_id → L.switched = K₀.switched →
      distance j L + L.switched.length ≤ distance j K₀ + K₀.switched.length := by
    intro L hcur hsw
    refine Nat.le_of_eq ?_
    unfold distance
    rw [hcur, hsw]
  cases hfin with
  | stays => exact hstay hf.cur hf.switched
  | returns => exact hstay hf.cur hf.switched
  | pipe_start hc => exact hstay (by rw [(PipeFrame.pipe_start ..).rest]) (by rw [(PipeFrame.pipe_start ..).rest])
  | @pipe_iter i c => exact hstay (by rw [(PipeFrame.pipe_iter ..).rest]) (by rw [(PipeFrame.pipe_iter ..).rest])
  | switch _ hnum _ _ hp =>
    obtain ⟨next, hpick⟩ := pick_spec hnum hp
    have hcur' : K'.cur_proccess_id = some next := by rw [hpick.rest]
    have hnext : next ≠ j := fun he => hw'.2.2 (he ▸ hcur')
    have hrest := requeued_rest K
    have hcur : (requeued K).cur_proccess_id = K₀.cur_proccess_id := by rw [hrest, hf.cur]
    have hn : (requeued K).num_processes = K.num_processes := by rw [hrest]
    have hstate : (K'.table j).state = ((requeued K).table j).state := by
      rw [hpick.table j]
      exact if_neg (Ne.symm hnext)
    have hmid : Waiting j (requeued K) :=
      ⟨hn ▸ Nat.lt_of_lt_of_le hw.1 hf.num, hstate ▸ hw'.2.1, fun hc => hw.2.2 (hcur.symm.trans hc)⟩
    have hlt := distance_select (fun i hi => hn ▸ Nat.lt_of_lt_of_le (hs.on_cpu i (hcur ▸ hi)).lt hf.num)
      (hn ▸ hf.max hs.max) hmid hpick.selected hnext hcur'
    have hsame : distance j (requeued K) = distance j K₀ := by
      unfold distance
      rw [hcur]
    have hlen : K'.switched.length = K₀.switched.length + 1 := by
      rw [hpick.rest, ← hf.switched]
      rfl
    omega

/-- 選べるのに選ばれない間に、切り替えは `MAX_PROCESSES` 回も起こらない。 -/
theorem switches_while_waiting (rc_in rc_out mounts : Nat) (h₀ : Steps step (fun _ _ => True) (boot rc_in rc_out mounts) K)
    (hrun : Steps step (fun K _ => Waiting j K) K K') (hw : Waiting j K') :
    K'.switched.length < K.switched.length + MAX_PROCESSES := by
  have hs := (Synced.boot rc_in rc_out mounts).run h₀
  have hmain : Synced K' ∧ (Waiting j K' → Waiting j K ∧
      distance j K' + K'.switched.length ≤ distance j K + K.switched.length) := by
    clear hw
    induction hrun with
    | refl => exact ⟨hs, fun hw => ⟨hw, Nat.le_refl _⟩⟩
    | tail e _ hok he ih =>
      obtain ⟨hs', ih⟩ := ih
      refine ⟨hs'.step he, fun hw => ?_⟩
      obtain ⟨hw₀, hle⟩ := ih hok
      exact ⟨hw₀, Nat.le_trans (hok.step hs' he hw) hle⟩
  obtain ⟨hw₀, hle⟩ := hmain.2 hw
  have := hw₀.distance_lt hs
  omega

/-- 二つ目の子は、シェルから一つ目の子へ切り替わる間、待っている。 -/
def second_child : Trace (checked step (fun K _ => decide (Waiting 3 K))
      (((exec step (boot 1 1 0) (start_shell ++ [call 24, call 24])).getD (boot 1 1 0)))) (fun K' =>
    Waiting 3 K' ∧ K'.cur_proccess_id = some 2) :=
  ⟨[tick], by decide +kernel⟩

theorem switches_while_child_waits : ∃ K K' : Kernel, Waiting 3 K ∧ K'.cur_proccess_id = some 2 ∧
    K'.switched.length < K.switched.length + MAX_PROCESSES := by
  have hcheck : ∀ (K : Kernel) (ev : Event), decide (Waiting 3 K) = true → Waiting 3 K := fun _ _ h => of_decide_eq_true h
  obtain ⟨K', hrun, hw, hcur⟩ := second_child.steps_checked hcheck
  have hstart : exec step (boot 1 1 0) (start_shell ++ [call 24, call 24]) =
      some ((exec step (boot 1 1 0) (start_shell ++ [call 24, call 24])).getD (boot 1 1 0)) := by
    cases hk : exec step (boot 1 1 0) (start_shell ++ [call 24, call 24]) with
    | none =>
      have : (exec step (boot 1 1 0) (start_shell ++ [call 24, call 24])).isSome = true := by decide +kernel
      rw [hk] at this
      cases this
    | some K => rfl
  refine ⟨_, K', ?_, hcur, switches_while_waiting 1 1 0 (.of_exec hstart) hrun hw⟩
  decide +kernel

end MyOS.Proc
