import MyOS.Proc.Lemmas.Acts

/-! 次の選び方と、`Synced` がすべての実行で成り立つこと。 -/

namespace MyOS.Proc
open MyOS.Lib

variable {K₀ K K' : Kernel} {ev : Event} {i j : Nat} {r : Regs} {p : Pcb}

theorem select_loop_spec {original : Option Nat} {n c next : Nat} (hc : c < K.num_processes)
    (h : select_loop K original n c = some next) :
    next < K.num_processes ∧ ((K.table next).state = .ready ∨ (K.table next).state = .new ∨
      original = some next) := by
  induction n generalizing c with
  | zero => simp [select_loop] at h
  | succ n ih =>
    rw [select_loop] at h
    split at h
    next hs =>
      cases h
      exact ⟨hc, hs.imp id .inl⟩
    · split at h
      next ho =>
        cases h
        exact ⟨hc, .inr (.inr ho)⟩
      · exact ih (Nat.mod_lt _ (by omega)) h

theorem select_next_spec {next : Nat} (hnum : 0 < K.num_processes) (h : select_next K = some next) :
    next < K.num_processes ∧ ((K.table next).state = .ready ∨ (K.table next).state = .new ∨
      K.cur_proccess_id = some next) :=
  select_loop_spec (Nat.mod_lt _ hnum) h

/-! 次の選び方。 -/

def Selectable (s : ProcState) : Prop := s = .ready ∨ s = .new

instance (s : ProcState) : Decidable (Selectable s) := inferInstanceAs (Decidable (_ ∨ _))

/-- 今の項目の次から一巡する順。今の項目が最後に来る。 -/
def round (K : Kernel) : List Nat :=
  let start := (K.cur_proccess_id.map (· + 1)).getD 0
  List.range' start (K.num_processes - start) ++ List.range start

theorem select_loop_succ (original : Option Nat) (n c : Nat) :
    select_loop K original (n + 1) c =
      if Selectable (K.table c).state then some c
      else if original = some c then some c
      else select_loop K original n ((c + 1) % K.num_processes) := rfl

/-- 元の項目に当たらず、折り返さない間は、選べる最初の項目で終わる。 -/
theorem select_loop_range (original : Option Nat) (m f c : Nat) (hc : c + m ≤ K.num_processes)
    (horig : ∀ j, c ≤ j → j < c + m → original ≠ some j) :
    select_loop K original (m + f) (c % K.num_processes) =
      ((List.range' c m).find? fun j => decide (Selectable (K.table j).state)).or
        (select_loop K original f ((c + m) % K.num_processes)) := by
  induction m generalizing c with
  | zero => simp
  | succ m ih =>
    have hmod : c % K.num_processes = c := Nat.mod_eq_of_lt (by omega)
    rw [show m + 1 + f = m + f + 1 by omega, select_loop_succ, hmod, List.range'_succ, List.find?_cons]
    by_cases hs : Selectable (K.table c).state
    · rw [if_pos hs, decide_eq_true hs]
      rfl
    · rw [if_neg hs, if_neg (horig c (Nat.le_refl c) (by omega)), decide_eq_false hs,
        ih (c + 1) (by omega) fun j hj hlt => horig j (by omega) (by omega)]
      rw [show c + 1 + m = c + (m + 1) by omega]

/-- 一巡する順で最初の選べる項目を選び、なければ今の項目に戻る。 -/
theorem select_next_eq (hlt : ∀ i, K.cur_proccess_id = some i → i < K.num_processes) :
    select_next K =
      ((round K).find? fun j => decide (Selectable (K.table j).state)).or K.cur_proccess_id := by
  rw [select_next, round]
  cases hcur : K.cur_proccess_id with
  | none =>
    have h := select_loop_range (K := K) none K.num_processes 0 0 (by omega) (by simp)
    simpa [select_loop] using h
  | some c =>
    have hc := hlt c hcur
    have h₁ := select_loop_range (K := K) (some c) (K.num_processes - (c + 1)) (c + 1) (c + 1)
      (by omega) fun j hj _ h => by
        cases h
        omega
    have h₂ := select_loop_range (K := K) (some c) c 1 0 (by omega) fun j _ hj h => by
        cases h
        omega
    have hlast : select_loop K (some c) 1 (c % K.num_processes) = some c := by
      rw [select_loop_succ, Nat.mod_eq_of_lt hc, if_pos rfl, ite_self]
    rw [show K.num_processes - (c + 1) + (c + 1) = K.num_processes by omega,
      show c + 1 + (K.num_processes - (c + 1)) = K.num_processes by omega, Nat.mod_self] at h₁
    rw [Nat.zero_mod, Nat.zero_add, hlast] at h₂
    have hself : ([c].find? fun j => decide (Selectable (K.table j).state)).or (some c) = some c := by
      rw [List.find?_cons]
      split <;> rfl
    simp only [Option.map_some, Option.getD_some, List.range_succ, List.find?_append, Option.or_assoc,
      hself, List.range_eq_range', h₁, h₂]

theorem mem_round (hlt : ∀ i, K.cur_proccess_id = some i → i < K.num_processes) :
    j ∈ round K ↔ j < K.num_processes := by
  have hle : (K.cur_proccess_id.map (· + 1)).getD 0 ≤ K.num_processes := by
    cases hcur : K.cur_proccess_id with
    | none => exact Nat.zero_le _
    | some c => exact hlt c hcur
  simp only [round, List.mem_append, List.mem_range'_1, List.mem_range]
  omega

/-- 選べる項目があれば、選ばれる項目も選べる。 -/
theorem select_next_selectable (hlt : ∀ i, K.cur_proccess_id = some i → i < K.num_processes)
    (hj : j < K.num_processes) (hs : Selectable (K.table j).state) :
    ∃ next, select_next K = some next ∧ Selectable (K.table next).state := by
  have hsome : ((round K).find? fun j => decide (Selectable (K.table j).state)).isSome := by
    rw [List.find?_isSome]
    exact ⟨j, (mem_round hlt).mpr hj, decide_eq_true hs⟩
  obtain ⟨next, hnext⟩ := Option.isSome_iff_exists.mp hsome
  refine ⟨next, ?_, by simpa using List.find?_some hnext⟩
  rw [select_next_eq hlt, hnext]
  rfl

theorem requeued_table (K : Kernel) (j : Nat) :
    (requeued K).table j = if K.cur_proccess_id = some j then requeue (K.table j) else K.table j := by
  unfold requeued
  split
  next h => simp [h]
  next i h =>
    rw [Kernel.modify_table, h]
    by_cases hj : j = i
    · subst hj
      simp
    · rw [if_neg hj, if_neg (fun h => hj (Option.some.inj h).symm)]

theorem requeued_rest (K : Kernel) : requeued K = { K with table := (requeued K).table } := by
  unfold requeued
  split <;> rfl

/-- `next` を選んで移った状態。`tf` は、今の枠を控えた項目だけが変わる。 -/
structure Picked (K : Kernel) (r : Regs) (next : Nat) (K' : Kernel) : Prop where
  lt : next < K.num_processes
  selected : select_next (requeued K) = some next
  chosen : ((requeued K).table next).state = .ready ∨ ((requeued K).table next).state = .new ∨
    K.cur_proccess_id = some next
  table : ∀ j, K'.table j = { K.table j with
    state := if j = next then .running else ((requeued K).table j).state
    tf := (K'.table j).tf }
  tf : ∀ j, (K'.table j).tf =
    if (if ((requeued K).table next).state = .terminated then none else K.current_process) = some j ∧
        ((requeued K).table j).state ≠ .new then r else (K.table j).tf
  ctx : K'.ctx = if ((requeued K).table next).state = .new then (K.table next).iret
    else (K'.table next).tf
  rest : K' = { K with
    table := K'.table
    cur_proccess_id := some next
    current_process := some next
    switched := ((requeued K).table next).state :: K.switched
    ctx := K'.ctx }

theorem save_frame_table (K : Kernel) (r : Regs) (j : Nat) :
    (save_frame K r).table j =
      { K.table j with
        tf := if K.current_process = some j ∧ (K.table j).state ≠ .new then r else (K.table j).tf } := by
  rw [save_frame]
  split
  next h => simp [h]
  next c h =>
    split
    next hnew =>
      rw [if_neg]
      rintro ⟨hc, hst⟩
      obtain rfl := Option.some.inj (h.symm.trans hc)
      exact hst hnew
    next hnew =>
      rw [Kernel.modify_table]
      by_cases hj : j = c
      · subst hj
        rw [if_pos rfl, if_pos ⟨h, hnew⟩]
      · rw [if_neg hj, if_neg]
        rintro ⟨hc, -⟩
        exact hj (Option.some.inj (h.symm.trans hc)).symm

theorem save_frame_rest (K : Kernel) (r : Regs) :
    save_frame K r = { K with table := (save_frame K r).table } := by
  rw [save_frame]
  split
  · rfl
  · split <;> rfl

theorem requeued_pcb (K : Kernel) (j : Nat) :
    (requeued K).table j = { K.table j with state := ((requeued K).table j).state } := by
  rw [requeued_table]
  split <;> rfl

/-- `switch_to_process` は、今の枠を控え、`next` を走らせる。 -/
theorem switch_to_process_table (K : Kernel) (next : Nat) (r : Regs) (j : Nat) :
    (switch_to_process K next r).table j =
      { (save_frame K r).table j with
        state := if j = next then .running else (K.table j).state } := by
  rw [switch_to_process]
  dsimp only
  rw [Kernel.modify_table]
  by_cases hj : j = next
  · subst hj
    rw [if_pos rfl, if_pos rfl]
  · rw [if_neg hj, if_neg hj, save_frame_table]

theorem switch_to_process_rest (K : Kernel) (next : Nat) (r : Regs) :
    switch_to_process K next r = { K with
      table := (switch_to_process K next r).table
      current_process := some next
      ctx := if (K.table next).state = .new then (K.table next).iret
        else ((switch_to_process K next r).table next).tf } := by
  have hs := save_frame_rest K r
  have hst : ((save_frame K r).table next).state = (K.table next).state := by rw [save_frame_table]
  have hiret : ((save_frame K r).table next).iret = (K.table next).iret := by rw [save_frame_table]
  have htf : ((switch_to_process K next r).table next).tf = ((save_frame K r).table next).tf := by
    rw [switch_to_process_table]
  rw [htf, switch_to_process]
  dsimp only
  rw [hst, hiret]
  generalize save_frame K r = L at *
  rw [hs]
  rfl

theorem pick_spec (hnum : 0 < K.num_processes) (h : pick K r = some K') :
    ∃ next, Picked K r next K' := by
  have hL := requeued_rest K
  have hcur : (requeued K).cur_proccess_id = K.cur_proccess_id := by rw [hL]
  have hcurrent : (requeued K).current_process = K.current_process := by rw [hL]
  have hn : (requeued K).num_processes = K.num_processes := by rw [hL]
  rw [pick, dispatch] at h
  obtain ⟨next, hsel, hK'⟩ := Option.map_eq_some_iff.mp h
  obtain ⟨hlt, hst⟩ := select_next_spec (hn.symm ▸ hnum) hsel
  have htable := fun j => switch_to_process_table
    { requeued K with
      cur_proccess_id := some next
      current_process := if ((requeued K).table next).state = .terminated then none
        else (requeued K).current_process
      switched := ((requeued K).table next).state :: (requeued K).switched } next r j
  have hrest := switch_to_process_rest
    { requeued K with
      cur_proccess_id := some next
      current_process := if ((requeued K).table next).state = .terminated then none
        else (requeued K).current_process
      switched := ((requeued K).table next).state :: (requeued K).switched } next r
  dsimp only at hK' htable hrest
  rw [hK'] at hrest
  simp only [hK', save_frame_table] at htable
  have hreq := requeued_pcb K
  refine ⟨next, hn ▸ hlt, hsel, hcur ▸ hst, fun j => ?_, fun j => ?_, ?_, ?_⟩
  · rw [htable j, hreq j]
  · rw [htable j, hcurrent, hreq j]
  · rw [hrest, hreq next]
  · rw [hrest]
    generalize requeued K = L at *
    rw [hL]

/-! 表のほかで、書き込みが変えないもの。 -/

structure ActFrame (K K' : Kernel) : Prop where
  num : K.num_processes ≤ K'.num_processes
  max : K.num_processes ≤ MAX_PROCESSES → K'.num_processes ≤ MAX_PROCESSES
  cur : K'.cur_proccess_id = K.cur_proccess_id
  ctx : K'.ctx = K.ctx
  switched : K'.switched = K.switched

theorem CleanFrame.act (h : CleanFrame K K') : ActFrame K K' := by
  have hnum : K'.num_processes = K.num_processes := by rw [h.rest]
  refine ⟨Nat.le_of_eq hnum.symm, fun hmax => hnum.symm ▸ hmax, h.cur, ?_, ?_⟩
  all_goals rw [h.rest]

theorem Act.frame (h : Act K₀ ev K K') : ActFrame K K' := by
  cases h with
  | file hc hf =>
    refine CleanFrame.act (FileFrame.clean ?_)
    cases hf with
    | fopen => exact .fopen ..
    | close => exact .syscall_close ..
    | dup => exact .syscall_dup ..
    | dup2 => exact .syscall_dup2 ..
    | pipe => exact .syscall_pipe ..
  | create hc hcr =>
    have hf := CreateFrame.create hcr
    refine ⟨hf.num, fun hmax => ?_, ?_, ?_, ?_⟩
    · rcases create_process_cases hcr with ⟨rfl, -⟩ | ⟨hlt, h⟩
      · exact hmax
      · rcases h with ⟨-, rfl⟩ | ⟨img, -, ⟨-, rfl⟩ | ⟨k, -, -, -, rfl⟩⟩
        · exact hmax
        · exact hlt
        · exact hlt
    all_goals rw [hf.rest]
  | fork hc _ hslot hf =>
    have hrest := fork_into_rest hf
    have hs := fork_slot_spec hslot
    have hnum : K'.num_processes = _ := congrArg Kernel.num_processes hrest
    dsimp only at hnum
    refine ⟨?_, fun hmax => ?_, ?_, ?_, ?_⟩
    · rw [hnum]
      split <;> omega
    · rw [hnum]
      split
      · rcases hs with ⟨h, -⟩ | ⟨-, h⟩ <;> omega
      · exact hmax
    all_goals rw [hrest]
  | reap => exact (reaped_clean ..).act
  | await w => exact (CleanFrame.modify ..).act
  | block w => exact (CleanFrame.modify ..).act
  | @enqueue i _ _ K' _ _ _ he =>
    have hrest := (sleep_enqueue_frame he).rest
    have hnum : K'.num_processes = (K₀.modify i fun p => { p with state := .blocked }).num_processes := by
      rw [hrest]
    refine ⟨Nat.le_of_eq hnum.symm, fun hmax => hnum.symm ▸ hmax, ?_, ?_, ?_⟩
    all_goals rw [hrest]
  | tick => exact ⟨Nat.le_refl _, id, rfl, rfl, rfl⟩
  | wake => exact ⟨Nat.le_refl _, id, rfl, rfl, rfl⟩
  | group g => exact ⟨Nat.le_refl _, id, rfl, rfl, rfl⟩
  | setpgid g => exact ⟨Nat.le_refl _, id, rfl, rfl, rfl⟩
  | send => exact (CleanFrame.modify ..).act
  | cont => exact (CleanFrame.modify ..).act
  | keys =>
    rw [send_signal_to_foreground]
    split
    · exact ⟨Nat.le_refl _, id, rfl, rfl, rfl⟩
    · exact ⟨Nat.le_refl _, id, rfl, rfl, rfl⟩
  | action => exact (CleanFrame.modify ..).act
  | mask => exact (CleanFrame.modify ..).act
  | sigreturn => exact (CleanFrame.modify ..).act
  | exit => exact (exit_tree_clean ..).act
  | reset => exact (exec_reset_clean ..).act
  | load => exact (exec_load_clean ..).act
  | fail => exact (exec_fail_clean ..).act
  | mmap => exact ((FileFrame.alloc ..).clean.trans (.modify ..)).act
  | munmap => exact ((CleanFrame.modify ..).trans (FileFrame.release ..).clean).act
  | signal => exact ⟨Nat.le_refl _, id, rfl, rfl, rfl⟩
  | unblock => exact (CleanFrame.unblock_parent ..).act
  | leave => exact ⟨Nat.le_refl _, id, rfl, rfl, rfl⟩

theorem Acts.frame (h : Acts K₀ ev K K') : ActFrame K K' := by
  induction h with
  | refl => exact ⟨Nat.le_refl _, id, rfl, rfl, rfl⟩
  | tail _ ha ih =>
    have hf := ha.frame
    exact ⟨Nat.le_trans ih.num hf.num, fun h => hf.max (ih.max h), hf.cur.trans ih.cur, hf.ctx.trans ih.ctx,
      hf.switched.trans ih.switched⟩

/-- パイプの繰り返しは、呼び出しの続き、パイプ、文脈だけを書く。 -/
structure PipeFrame (K K' : Kernel) : Prop where
  pcb : ∀ j, K'.table j = { K.table j with pipe_call := (K'.table j).pipe_call }
  rest : K' = { K with
    table := K'.table
    pipes := K'.pipes
    ctx := K'.ctx }

theorem PipeFrame.modify (K : Kernel) (i : Nat) (pipes : Nat → PipeBuf) (ctx : Regs)
    (o : Option PipeCall) :
    PipeFrame K { K.modify i (fun p => { p with pipe_call := o }) with pipes := pipes, ctx := ctx } := by
  refine ⟨fun j => ?_, rfl⟩
  dsimp only
  rw [Kernel.modify_table]
  split
  next h => rw [h]
  · rfl

theorem PipeFrame.pipe_start (K : Kernel) (i : Nat) (c : PipeCall) : PipeFrame K (pipe_start K i c) :=
  .modify K i K.pipes _ _

theorem PipeFrame.pipe_iter (K : Kernel) (i : Nat) (c : PipeCall) : PipeFrame K (pipe_iter K i c) := by
  rw [Proc.pipe_iter]
  split
  next pb c' _ => exact .modify K i (K.setPipe c.pipe pb).pipes K.ctx _
  · exact .modify K i K.pipes K.ctx _
  · exact .modify K i K.pipes _ _

theorem OnCpu.pipe (h : OnCpu i K) (hf : PipeFrame K K') : OnCpu i K' := by
  refine ⟨?_, ?_, ?_, ?_⟩
  · rw [hf.rest]
    exact h.cur
  · rw [hf.rest]
    exact h.current
  · rw [hf.rest]
    exact h.lt
  · rw [hf.pcb i]
    exact h.running

theorem OnCpu.synced (h : OnCpu i K) (hmax : K.num_processes ≤ MAX_PROCESSES) : Synced K := by
  refine ⟨Nat.lt_of_le_of_lt (Nat.zero_le _) h.lt, hmax, h.current.trans h.cur.symm, fun j hj => ?_⟩
  obtain rfl := Option.some.inj (h.cur.symm.trans hj)
  exact h

theorem Picked.on_cpu {next : Nat} (h : Picked K r next K') : OnCpu next K' := by
  refine ⟨?_, ?_, ?_, ?_⟩
  · rw [h.rest]
  · rw [h.rest]
  · rw [h.rest]
    exact h.lt
  · rw [h.table next]
    exact if_pos rfl

theorem Synced.step (hs : Synced K₀) (h : step K₀ ev = some K') : Synced K' := by
  obtain ⟨K, hacts, hfin⟩ := step_reaches hs h
  have hf := hacts.frame
  have hmax := hf.max hs.max
  cases hfin with
  | stays hcur hcurrent =>
    refine ⟨Nat.lt_of_lt_of_le hs.num hf.num, hmax, hcurrent.trans hcur.symm, fun i hi => ?_⟩
    rw [hcur] at hi
    cases hi
  | returns v hc hon hcs => exact OnCpu.synced ⟨hon.cur, hon.current, hon.lt, hon.running⟩ hmax
  | pipe_start hc => exact (hc.toOnCpu.pipe (.pipe_start ..)).synced hmax
  | pipe_iter _ hon =>
    refine (hon.pipe (.pipe_iter ..)).synced ?_
    rw [(PipeFrame.pipe_iter ..).rest]
    exact hmax
  | switch hcs hnum _ _ hp =>
    obtain ⟨next, hpick⟩ := pick_spec hnum hp
    refine hpick.on_cpu.synced ?_
    rw [hpick.rest]
    exact hmax

theorem Synced.boot (rc_in rc_out mounts : Nat) : Synced (boot rc_in rc_out mounts) :=
  ⟨by simp [Proc.boot], by simp [Proc.boot, MAX_PROCESSES], rfl, fun i hi => by cases hi⟩

theorem Synced.run {ok : Kernel → Event → Prop} (h : Steps Proc.step ok K K') (hs : Synced K) :
    Synced K' :=
  h.inv (fun _ _ _ hs _ he => hs.step he) hs

/-- 書き込みと `Fin` の一つずつで保たれる性質は、実行の全体で保たれる。`M` は歩の途中で成り立つことである。 -/
theorem run_inv {ok : Kernel → Event → Prop} {I : Kernel → Prop} {M : Kernel → Event → Kernel → Prop}
    (start : ∀ K₀ ev, Synced K₀ → I K₀ → ok K₀ ev → M K₀ ev K₀)
    (act : ∀ K₀ ev K K', Synced K₀ → I K₀ → ok K₀ ev → M K₀ ev K → Act K₀ ev K K' → M K₀ ev K')
    (fin : ∀ K₀ ev K K', Synced K₀ → I K₀ → ok K₀ ev → M K₀ ev K → Fin K₀ ev K K' → I K')
    (h : Steps step ok K K') (hs : Synced K) (hI : I K) : I K' := by
  refine (h.inv (P := fun K => Synced K ∧ I K) (fun K₀ ev K₁ hI hok he => ?_) ⟨hs, hI⟩).2
  obtain ⟨hs, hI⟩ := hI
  obtain ⟨K, hacts, hfin⟩ := step_reaches hs he
  refine ⟨hs.step he, fin K₀ ev K K₁ hs hI hok ?_ hfin⟩
  clear hfin
  induction hacts with
  | refl => exact start K₀ ev hs hI hok
  | tail _ ha ih => exact act _ _ _ _ hs hI hok ih ha

end MyOS.Proc
