import Mathlib.Data.List.Find
import MyOS.Proc.Table
import MyOS.Proc.ShellTheorems
import MyOS.Proc.EndTheorems
import MyOS.Proc.Lemmas.Lineage

/-!
# 記述子の表は、自分の呼び出しだけで決まる

どの割り込みや呼び出しが間に入っても、生きているプロセスの表は、自分と、`fork` までの祖先の呼び出しを順に
行ったものである。
-/

namespace MyOS.Proc
open MyOS.Lib

variable {K₀ K K' L : Kernel} {ev : Event} {i j d : Nat} {env : Env} {r : Regs}

/-! ## 一つの呼び出し -/

theorem row_congr (h : ∀ d, d < MAX_FILES → (K'.table j).files_open d = (K.table i).files_open d) :
    row_of K' j = row_of K i := by
  funext d
  unfold row_of
  split
  next hd => rw [h d hd]
  · rfl

theorem row_of_files (h : (K'.table j).files_open = (K.table i).files_open) : row_of K' j = row_of K i :=
  row_congr fun _ _ => by rw [h]

theorem row_none (hd : d < MAX_FILES) : row_of K i d = none ↔ (K.table i).files_open d = none := by
  simp [row_of, hd]

theorem row_some {fp : File} (hd : d < MAX_FILES) (h : (K.table i).files_open d = some fp) :
    row_of K i d = some (fp.flags, fp.file) := by
  simp [row_of, hd, h]

/-- 表の検索は、記述子の表の上の検索である。 -/
theorem free_fd_row (K : Kernel) (i start : Nat) : free_fd K i start = (row_of K i).free start := by
  unfold free_fd Row.free
  refine List.find?_congr fun fd hfd => ?_
  have hd := List.mem_range.mp hfd
  simp [row_of, hd]

theorem row_setFile {fd : Nat} (o : Option File) (hfd : fd < MAX_FILES) :
    row_of (setFile K i fd o) i = (row_of K i).set fd (o.map fun fp => (fp.flags, fp.file)) := by
  funext d
  unfold row_of Row.set
  rw [setFile_files]
  by_cases hd : d = fd
  · subst hd
    simp [hfd]
  · simp [hd]

theorem row_share {fd : Nat} (flags n : Nat) (hfd : fd < MAX_FILES) :
    row_of (share_file K i fd flags n) i = (row_of K i).set fd (some (flags, n)) := by
  unfold share_file
  rw [row_setFile _ hfd]
  rfl

theorem row_drop {fd : Nat} (hfd : fd < MAX_FILES) : row_of (drop_file K i fd) i = (row_of K i).set fd none := by
  funext d
  unfold row_of Row.set
  rw [drop_file_files]
  by_cases hd : d = fd
  · subst hd
    simp [hfd]
  · simp [hd]

theorem Row.set_none {r : Row} {fd : Nat} (h : r fd = none) : r.set fd none = r := by
  funext d
  unfold Row.set
  split
  next hd => rw [hd, h]
  · rfl

theorem row_close (K : Kernel) (i fd : Nat) : row_of (syscall_close K i fd).1 i = (row_of K i).close fd := by
  unfold syscall_close Row.close
  split
  · rfl
  next hfd =>
  simp only [not_or, Nat.not_lt, Nat.not_le] at hfd
  split
  next hnone => exact (Row.set_none ((row_none hfd.2).mpr (Option.isNone_iff_eq_none.mp hnone))).symm
  · exact row_drop hfd.2

theorem row_free_lt {start fd : Nat} (h : (row_of K i).free start = some fd) : fd < MAX_FILES :=
  List.mem_range.mp (List.mem_of_find?_eq_some h)

theorem row_dup (K : Kernel) (i old_fd : Nat) : row_of (syscall_dup K i old_fd).1 i = (row_of K i).dup old_fd := by
  unfold syscall_dup Row.dup
  split
  · rfl
  next hold =>
  have hlt := Nat.lt_of_not_le hold
  rw [← free_fd_row]
  cases hfile : (K.table i).files_open old_fd with
  | none => rw [(row_none hlt).mpr hfile]
  | some fp =>
    rw [row_some hlt hfile]
    dsimp only
    cases hfree : free_fd K i 0 with
    | none => rfl
    | some fd => exact row_share _ _ (row_free_lt (free_fd_row K i 0 ▸ hfree))

theorem Row.set_set (r : Row) (fd : Nat) (o o' : Option (Nat × Nat)) : (r.set fd o).set fd o' = r.set fd o' := by
  funext d
  unfold Row.set
  split <;> rfl

theorem row_dup2 (K : Kernel) (i old_fd new_fd : Nat) :
    row_of (syscall_dup2 K i old_fd new_fd).1 i = (row_of K i).dup2 old_fd new_fd := by
  unfold syscall_dup2 Row.dup2
  split
  · rfl
  next hlt =>
  simp only [not_or, Nat.not_le] at hlt
  split
  · rfl
  cases hfile : (K.table i).files_open old_fd with
  | none => rw [(row_none hlt.1).mpr hfile]
  | some fp =>
    rw [row_some hlt.1 hfile]
    dsimp only
    split
    · rw [row_share _ _ hlt.2, row_close, Row.close]
      split
      · rfl
      · exact Row.set_set ..
    · exact row_share _ _ hlt.2

theorem row_fopen (K : Kernel) (i : Nat) (look : Lookup) (modes : Nat) :
    row_of (fopen K i look modes).1 i =
      ((get_node K look).2.map fun n => TableCall.fopen modes n).toList.foldl TableCall.run (row_of K i) := by
  unfold fopen
  have htable : (get_node K look).1.table = K.table := by cases look <;> rfl
  generalize get_node K look = x at htable ⊢
  obtain ⟨L, n⟩ := x
  have hrow : row_of L i = row_of K i := row_of_files (by rw [htable])
  cases n with
  | none => exact hrow
  | some n =>
    dsimp only
    show _ = (row_of K i).fopen modes n
    rw [free_fd_row, hrow, Row.fopen]
    cases hfree : (row_of K i).free 3 with
    | none => exact hrow
    | some fd =>
      dsimp only
      rw [row_share _ _ (row_free_lt hfree), hrow]

/-- 成功したときだけ、両端が二つの空いた記述子に残る。 -/
theorem row_pipe (K : Kernel) (i ptr : Nat) (copied : Bool) : row_of (syscall_pipe K i ptr copied).1 i =
    if is_user_ptr ptr && copied then (row_of K i).pipe K.next_node else row_of K i := by
  obtain ⟨L, rfp, wfp, hL⟩ : ∃ L rfp wfp, pipe_create K (K.table i).pid = (L, rfp, wfp) := ⟨_, _, _, rfl⟩
  have hnew := new_pipe_spec K (K.table i).pid
  simp only [hL] at hnew
  have hrow : row_of L i = row_of K i := row_of_files (by rw [hnew.files])
  have hflags : rfp.flags = FILE_READ ∧ wfp.flags = FILE_WRITE := by
    cases hL
    exact ⟨rfl, rfl⟩
  have hrfd : ∀ rfd, free_fd K i 3 = some rfd → (row_of K i).free 3 = some rfd := fun rfd h => free_fd_row K i 3 ▸ h
  rcases syscall_pipe_cases K i ptr copied L rfp wfp hL with ⟨hptr, heq⟩ | ⟨hptr, ⟨hnone, heq⟩ | ⟨rfd, wfd, hr, hw, heq⟩⟩
  · rw [heq, hptr]
    rfl
  · have hpipe : (row_of K i).pipe K.next_node = row_of K i := by
      unfold Row.pipe Row.pipe_fds
      rw [← free_fd_row]
      rcases hnone with h | ⟨rfd, h, h'⟩
      · rw [h]
        rfl
      · rw [h]
        dsimp only [Option.bind_some]
        rw [← free_fd_row, h']
        rfl
    rw [heq, hpipe, ite_self, ← hrow]
    exact row_of_files rfl
  · have hrlt := row_free_lt (free_fd_row K i 3 ▸ hr)
    have hwlt := row_free_lt (free_fd_row K i (rfd + 1) ▸ hw)
    rw [heq, hptr, Bool.true_and]
    cases copied with
    | true =>
      have hfds : (row_of K i).pipe_fds = some (rfd, wfd) := by
        unfold Row.pipe_fds
        rw [← free_fd_row, hr]
        dsimp only [Option.bind_some]
        rw [← free_fd_row, hw]
        rfl
      rw [if_pos rfl, if_pos rfl, row_setFile _ hwlt, row_setFile _ hrlt, hrow, Row.pipe, hfds]
      simp only [Option.map_some, hflags.1, hflags.2, hnew.read, hnew.write]
    | false =>
      have hquiet := Quiet.unplace L i rfp wfp (by rw [hnew.files]; exact (free_fd_some hr).2.2.1)
        (by rw [hnew.files]; exact (free_fd_some hw).2.2.1) [rfp.id, wfp.id]
      rw [if_neg Bool.false_ne_true, if_neg Bool.false_ne_true, ← hrow]
      refine row_of_files ?_
      rw [free_node_table, free_node_table]
      exact hquiet.files i

/-- ファイルの呼び出しは、自分の表を `table_call` の通りに変える。 -/
theorem FileCall.row (hf : FileCall K i env r K') :
    row_of K' i = (table_call K env r).toList.foldl TableCall.run (row_of K i) := by
  cases hf with
  | fopen heax =>
    rw [row_fopen]
    simp only [table_call, heax]
  | close heax =>
    rw [row_close]
    simp only [table_call, heax]
    rfl
  | dup heax =>
    rw [row_dup]
    simp only [table_call, heax]
    rfl
  | dup2 heax =>
    rw [row_dup2]
    simp only [table_call, heax]
    rfl
  | pipe heax =>
    rw [row_pipe]
    simp only [table_call, heax]
    split
    · rfl
    · rfl

/-! ## 表を変えない書き込み -/

/-- 生きている項目は前から生きていて、表は同じである。 -/
structure RowKept (K K' : Kernel) : Prop where
  alive : ∀ j, Alive K' j → Alive K j
  rows : ∀ j, Alive K' j → row_of K' j = row_of K j

theorem RowKept.refl (K : Kernel) : RowKept K K := ⟨fun _ => id, fun _ _ => rfl⟩

theorem RowKept.trans (h : RowKept K L) (h' : RowKept L K') : RowKept K K' :=
  ⟨fun j hj => h.alive j (h'.alive j hj), fun j hj => (h'.rows j hj).trans (h.rows j (h'.alive j hj))⟩

theorem SameIds.alive {next : Nat} (h : SameIds K K' next) (hj : Alive K' j) : Alive K j := by
  have hlt : j < K.num_processes := h.num ▸ hj.1
  exact ⟨hlt, fun hdead => hj.2 (h.dead j hlt hdead)⟩

theorem RowKept.quiet {next : Nat} (hids : SameIds K K' next) (hq : Quiet K K') : RowKept K K' :=
  ⟨fun _ => hids.alive, fun j _ => row_of_files (hq.files j)⟩

theorem Clears.files_ne {fds : List Nat} (h : Clears K i fds K') (hj : j ≠ i) :
    (K'.table j).files_open = (K.table j).files_open := by
  obtain ⟨M, hM, hK'⟩ := h
  rw [hK'.files, ← hM.files]
  funext d
  rw [drop_files_files, if_neg fun h => hj h.1]

/-- 閉じるのが、終わった項目の記述子だけのとき。 -/
theorem RowKept.clears {next : Nat} {fds : List Nat} (hids : SameIds K K' next) (h : Clears K i fds K')
    (hdead : ¬ Alive K i) : RowKept K K' := by
  refine ⟨fun _ => hids.alive, fun j hj => row_of_files (h.files_ne ?_)⟩
  rintro rfl
  exact hdead (hids.alive hj)

/-- 親を起こすときに後始末をするのは、終わったプロセス自身である。 -/
theorem RowKept.unblock {b : Bool} (hp : PidInv K) (hs : Synced K₀) (hlt : ∀ i, K.cur_proccess_id = some i → i < K.num_processes)
    (he : Ends K₀ ev i b K) : RowKept K (unblock_parent K (K.table i).pid b) := by
  have hids := unblock_parent_ids K (K.table i).pid b
  rcases unblock_parent_files K (K.table i).pid b with hq | ⟨c, k, rfl, -, haw, hcl⟩
  · exact .quiet hids hq
  · have hci : c = i := Option.some.inj (haw.child.symm.trans (hp.find (hlt i (he.current hs).2)))
    exact .clears hids hcl fun hc => hc.2 (hci ▸ he.terminated)

theorem RowKept.reap (hp : PidInv K) (hi : i < K.num_processes)
    (h0 : find_terminated_child K (K.table i).pid ≠ 0) : RowKept K (reaped K i (find_terminated_child K (K.table i).pid)) := by
  have hids := reaped_ids K i (find_terminated_child K (K.table i).pid)
  rcases reaped_files K i (find_terminated_child K (K.table i).pid) with hq | ⟨c, hc, hcl⟩
  · exact .quiet hids hq
  · obtain ⟨hlt, hpid⟩ := get_process_by_pid_spec hc
    exact .clears hids hcl fun halive => halive.2 ((find_terminated_child_spec hp hi h0).2 c hlt hpid)

/-- 表を変え得る事象。 -/
def touches : Event → Bool
  | .boot _ => true
  | .syscall _ r => r.eax ∈ [2, 8, 10, 11, 12, 20, 24, 27]
  | _ => false

theorem Calls.touches (hc : Calls K₀ ev i env r) (h : touches ev = false) : r.eax ∉ [2, 8, 10, 11, 12, 20, 24, 27] := by
  obtain ⟨r₀, rfl, rfl⟩ := hc.event
  simpa [Proc.touches] using h

theorem FileCall.eax (hf : FileCall K i env r K') : r.eax ∈ [2, 11, 12, 20, 27] := by
  cases hf <;> simp [*]

theorem Act.row_kept (hs : Synced K₀) (hp : PidInv K) (hlt : ∀ i, K.cur_proccess_id = some i → i < K.num_processes)
    (hev : touches ev = false) (ha : Act K₀ ev K K') : RowKept K K' := by
  have hkin : SameIds K K' K.next_pid := by
    rcases ha.tree_step.kin with hids | ⟨-, hcr, -⟩ | ⟨-, hcr, -, -⟩
    · exact hids
    all_goals
      cases ev with
      | boot => cases hev
      | syscall env r =>
        simp only [creates, Bool.or_eq_true, beq_iff_eq] at hcr
        simp only [Proc.touches, decide_eq_false_iff_not, List.mem_cons] at hev
        omega
      | timer => cases hcr
      | keyboard => cases hcr
      | fault => cases hcr
      | pipe => cases hcr
  cases ha.file_step with
  | quiet hq _ => exact .quiet hkin hq
  | dies _ hq _ => exact .quiet hkin hq
  | file _ hc hf =>
    have hno := hc.touches hev
    have heax := hf.eax
    simp only [List.mem_cons, List.not_mem_nil, or_false] at hno heax
    omega
  | create _ hc _ =>
    cases hc with
    | boot => cases hev
    | spawn hc heax => exact absurd heax fun h => hc.touches hev (by simp [h])
  | fork _ hc heax => exact absurd heax fun h => hc.touches hev (by simp [h])
  | reap hK hc _ h0 hK' =>
    subst hK hK'
    exact .reap hp hc.lt h0
  | @exit i fds hK _ hK' =>
    subst hK hK'
    refine ⟨fun _ => hkin.alive, fun j hj => row_of_files ((Clears.exit_tree K i fds).files_ne ?_)⟩
    rintro rfl
    exact hj.2 (exit_tree_state K j fds)
  | reset _ hc heax _ => exact absurd heax fun h => hc.touches hev (by simp [h])
  | unblock he hK' =>
    subst hK'
    exact .unblock hp hs hlt he

/-- CPU の文脈を決めても、表は変わらない。 -/
theorem RowKept.fin (hz : SchedInv K) (hlt : ∀ i, K.cur_proccess_id = some i → i < K.num_processes) (hf : Fin K₀ ev K K') :
    RowKept K K' := by
  have hq := hf.quiet.1
  refine ⟨fun j hj => ⟨hq.num ▸ hj.1, fun hdead => hj.2 ((Fin.dead hz hlt hf j).mpr hdead)⟩, fun j _ => row_of_files (hq.files j)⟩

/-- 歩の途中でも成り立つ。 -/
theorem Acts.pids (hs : Synced K₀) (hp : PidInv K₀) (hz : SchedInv K₀) (hok : NoWrap K₀ ev) (h : Acts K₀ ev K₀ K) :
    PidInv K ∧ SchedInv K := by
  induction h with
  | refl => exact ⟨hp, hz⟩
  | tail hacts ha ih =>
    have hnum := Nat.lt_of_lt_of_le hs.num (Acts.frame hacts).num
    exact ⟨ih.1.kin hnum hok ha.tree_step.kin, .act hs hz (hp.exit_ne_zero hs.num) ih.2 ha⟩

theorem step_row_kept (hs : Synced K₀) (hp : PidInv K₀) (hz : SchedInv K₀) (hok : NoWrap K₀ ev) (hev : touches ev = false)
    (h : step K₀ ev = some K') : RowKept K₀ K' := by
  obtain ⟨K, hacts, hfin⟩ := step_reaches hs h
  have hkept : RowKept K₀ K := by
    clear hfin
    induction hacts with
    | refl => exact .refl K₀
    | tail hacts ha ih => exact ih.trans (ha.row_kept hs (Acts.pids hs hp hz hok hacts).1 (Acts.cur_lt hs hacts) hev)
  exact hkept.trans (.fin (Acts.pids hs hp hz hok hacts).2 (Acts.cur_lt hs hacts) hfin)

/-! ## 表を変える事象 -/

/-- 今のプロセス `i` の呼び出しの後、生きている項目の表は `f` の通りである。 -/
structure RowSet (K K' : Kernel) (i : Nat) (row : Row) : Prop where
  alive : ∀ j, j ≠ i → Alive K' j → Alive K j
  self : row_of K' i = row
  rows : ∀ j, j ≠ i → Alive K' j → row_of K' j = row_of K j

theorem RowSet.kept {row : Row} (h : RowSet K L i row) (h' : RowKept L K') (hself : row_of K' i = row_of L i) : RowSet K K' i row :=
  ⟨fun j hj ha => h.alive j hj (h'.alive j ha), hself.trans h.self,
    fun j hj ha => (h'.rows j ha).trans (h.rows j hj (h'.alive j ha))⟩

theorem syscall_calls (hs : Synced K) (h : step K (.syscall env r) = some K') :
    ∃ i, K.current_process = some i ∧ Calls K (.syscall env r) i env { r with cs := K.ctx.cs } := by
  simp only [step] at h
  split at h
  · cases h
  next i hi =>
    split at h
    · cases h
    next hcond =>
      simp only [not_or, Option.not_isSome_iff_eq_none] at hcond
      exact ⟨i, hi, hs.on_cpu i (hs.current.symm.trans hi), ⟨r, rfl, rfl⟩, hcond.1, hcond.2⟩

theorem step_file_call (hc : Calls K ev i env r) (h : step K ev = some K') (heax : r.eax ∈ [2, 11, 12, 20, 27]) :
    ∃ L v, FileCall K i env r L ∧ K' = return_to L r v := by
  obtain ⟨o, ho, rfl⟩ := hc.step h
  simp only [List.mem_cons, List.not_mem_nil, or_false] at heax
  rcases heax with heax | heax | heax | heax | heax
  all_goals
    simp only [syscall, heax, returns_of] at ho
    cases ho
  · exact ⟨_, _, .fopen heax, rfl⟩
  · exact ⟨_, _, .dup heax, rfl⟩
  · exact ⟨_, _, .pipe heax, rfl⟩
  · exact ⟨_, _, .close heax, rfl⟩
  · exact ⟨_, _, .dup2 heax, rfl⟩

theorem FileCall.row_set (hf : FileCall K i env r K') :
    RowSet K K' i ((table_call K env r).toList.foldl TableCall.run (row_of K i)) := by
  have hframe := hf.frame
  refine ⟨fun j _ hj => ?_, hf.row, fun j hj _ => row_of_files (hf.own_row.files j hj)⟩
  obtain ⟨hlt, hlive⟩ := hj
  rw [hframe.pcb j] at hlive
  exact ⟨hframe.num ▸ hlt, hlive⟩

theorem row_exec_reset (K : Kernel) (i : Nat) : row_of (exec_reset K i) i = (row_of K i).exec := by
  obtain ⟨M, hM, hK'⟩ := Clears.exec_reset K i
  funext d
  unfold Row.exec row_of
  rw [hK'.files, drop_files_files, ← hM.files]
  by_cases hd : d < MAX_FILES
  · have hmem : d ∈ List.range' 2 (MAX_FILES - 2) ↔ ¬ d < 2 := by
      rw [mem_exec_fds]
      omega
    by_cases h2 : d < 2
    · rw [if_pos hd, if_pos h2, if_neg fun h => hmem.mp h.2 h2, if_pos hd]
    · rw [if_pos hd, if_neg h2, if_pos ⟨rfl, hmem.mpr h2⟩]
      rfl
  · simp [hd]

theorem SameIds.exec_reset (K : Kernel) (i : Nat) : SameIds K (exec_reset K i) K.next_pid := by
  have ht := fun j => (exec_reset_tree K i j).1
  exact ((exec_reset_clean K i).tree (exec_reset_reports K i)).same_ids (fun j => (ht j).pid) (fun j => (ht j).parent)
    (fun j => (ht j).children) fun j hj => (exec_reset_tree K i j).2.trans hj

theorem RowSet.exec_reset (K : Kernel) (i : Nat) : RowSet K (exec_reset K i) i (row_of K i).exec :=
  ⟨fun _ _ hj => (SameIds.exec_reset K i).alive hj, row_exec_reset K i,
    fun _ hj _ => row_of_files ((Clears.exec_reset K i).files_ne hj)⟩

theorem RowKept.exec_load (hon : OnCpu i K) (img : Image) : RowKept K (exec_load K i img) := by
  refine ⟨fun j hj => ⟨hj.1, fun hd => hj.2 ?_⟩, fun j _ => row_of_files ?_⟩
  · have hji : j ≠ i := by
      rintro rfl
      rw [hon.running] at hd
      cases hd
    rwa [show (Proc.exec_load K i img).table j = K.table j from if_neg hji]
  · unfold Proc.exec_load
    rw [Kernel.modify_table]
    split
    next hji => rw [hji]; rfl
    · rfl

theorem RowKept.exec_fail (K : Kernel) (i : Nat) : RowKept K (exec_fail K i) := by
  refine ⟨fun j hj => ⟨hj.1, fun hd => hj.2 ?_⟩, fun j _ => row_of_files ?_⟩
  · by_cases hji : j = i
    · rw [hji, exec_fail_self]
    · rwa [exec_fail_ne hji]
  · by_cases hji : j = i
    · rw [hji, exec_fail_self]
    · rw [exec_fail_ne hji]

/-- 読み込みに失敗したプロセスは、後始末を待って終わる。 -/
theorem exec_fail_keeps (hs : Synced K) (hp : PidInv K) (hz : SchedInv K) (hok : NoWrap K ev) (hc : Calls K ev i env r)
    (heax : r.eax = 10) (hload : env.load = none)
    (h : schedule (unblock_parent (exec_fail (exec_reset K i) i) ((exec_fail (exec_reset K i) i).table i).pid true) r = some K') :
    RowKept (exec_reset K i) K' ∧ row_of K' i = row_of (exec_reset K i) i := by
  have hon := hc.toOnCpu.exec_reset
  have hreset : Acts K ev K (exec_reset K i) := .single (.reset hc heax)
  have hfail := hreset.tail (.fail hc heax hload)
  have hends : Ends K ev i true (exec_fail (exec_reset K i) i) := .fail hc heax hload
  have hacts := hfail.tail (.unblock hends)
  have hkept := RowKept.exec_fail (exec_reset K i) i
  have hrow : row_of (exec_fail (exec_reset K i) i) i = row_of (exec_reset K i) i := row_of_files (by rw [exec_fail_self])
  have hclean := exec_fail_clean (exec_reset K i) i
  have hdead : ((exec_fail (exec_reset K i) i).table i).state = .terminated := by rw [exec_fail_self]
  generalize exec_fail (exec_reset K i) i = L at *
  have hpids := (Acts.pids hs hp hz hok hfail).1
  have hlt := Acts.cur_lt hs hfail
  have hsame : row_of (unblock_parent L (L.table i).pid true) i = row_of L i := by
    rcases unblock_parent_files L (L.table i).pid true with hq | ⟨c, k, -, hne, haw, -⟩
    · exact row_of_files (hq.files i)
    · have hci : c = i := Option.some.inj (haw.child.symm.trans (hpids.find (hlt i (hends.current hs).2)))
      exact absurd (hci ▸ (hends.current hs).1) hne
  -- 終わった呼び出し側から `schedule` に入る
  have hframe := hclean.trans (.unblock_parent L (L.table i).pid true)
  have hfin : Fin K ev (unblock_parent L (L.table i).pid true) K' := by
    refine .of_schedule hc.cs (hframe.cur.trans hon.cur) ?_ ?_ (hframe.leaving (hon.current.trans hon.cur.symm))
      (.inl ⟨i, env, hc, fun h => by simp [heax, SYS_SLEEP] at h⟩) h
    · exact hframe.num.symm ▸ Nat.lt_of_le_of_lt (Nat.zero_le _) hon.lt
    · rw [unblock_parent_state (by rw [hdead]; simp), hdead]
      simp
  have hlast : RowKept _ K' := .fin (Acts.pids hs hp hz hok hacts).2 (Acts.cur_lt hs hacts) hfin
  refine ⟨hkept.trans ((RowKept.unblock hpids hs hlt hends).trans hlast), ?_⟩
  rw [row_of_files (hfin.quiet.1.files i), hsame, hrow]

/-- 読み込みに失敗しても、呼んだプロセスの 2 以上の記述子は閉じている。 -/
theorem step_exec (hs : Synced K) (hp : PidInv K) (hz : SchedInv K) (hok : NoWrap K ev) (hc : Calls K ev i env r)
    (heax : r.eax = 10) (hargs : env.args = true) (h : step K ev = some K') : RowSet K K' i (row_of K i).exec := by
  obtain ⟨o, ho, rfl⟩ := hc.step h
  simp only [syscall, heax, syscall_exec, hargs, Bool.not_true, Bool.false_eq_true, if_false] at ho
  split at ho
  next hload =>
    obtain ⟨K', hsched, rfl⟩ := Option.map_eq_some_iff.mp ho
    obtain ⟨hkept, hself⟩ := exec_fail_keeps hs hp hz hok hc heax hload hsched
    exact (RowSet.exec_reset K i).kept hkept hself
  next img hload =>
    cases ho
    have hkept := RowKept.exec_load hc.toOnCpu.exec_reset img
    refine (RowSet.exec_reset K i).kept ⟨hkept.alive, hkept.rows⟩ (hkept.rows i ⟨hc.toOnCpu.exec_reset.lt, ?_⟩)
    rw [exec_load_self]
    simp

/-- `FILE` の許可とノード。 -/
def entry (o : Option File) : Option (Nat × Nat) := o.map fun fp => (fp.flags, fp.file)

theorem share_files_entry (hne : i ≠ j) (fds : List Nat) (K : Kernel) (k d : Nat) :
    entry (((share_files K i j fds).table k).files_open d) =
      if k = j ∧ d ∈ fds then entry ((K.table i).files_open d) else entry ((K.table k).files_open d) := by
  induction fds generalizing K with
  | nil => simp [share_files]
  | cons fd fds ih =>
    -- 親の行は変わらない
    have hstep : ∀ L : Kernel, (∀ k d, entry ((L.table k).files_open d) =
          if k = j ∧ d = fd then entry ((K.table i).files_open fd) else entry ((K.table k).files_open d)) →
        entry (((share_files L i j fds).table k).files_open d) =
          if k = j ∧ d ∈ fd :: fds then entry ((K.table i).files_open d) else entry ((K.table k).files_open d) := by
      intro L hL
      rw [ih, hL, hL]
      by_cases hk : k = j <;> by_cases hd : d = fd <;> by_cases hmem : d ∈ fds <;> simp [hk, hd, hmem, hne]
    unfold share_files
    split
    next fp hfp =>
      refine hstep _ fun k d => ?_
      rw [share_file_files, hfp]
      split <;> rfl
    next hnone =>
      refine hstep _ fun k d => ?_
      rw [setFile_files, hnone]
      split <;> rfl

/-- 子の表は親の表で、ほかの表は変わらない。 -/
theorem row_fork {slot : Nat} (hne : i ≠ slot) (h : fork_into K i slot r = some K') (j : Nat) :
    row_of K' j = row_of K (if j = slot then i else j) := by
  have hrow : ∀ L k, row_of L k = fun d => if d < MAX_FILES then entry ((L.table k).files_open d) else none := fun _ _ => rfl
  have hready : (K'.table j).files_open =
      ((share_files (fork_base K i slot r) i slot (List.range MAX_FILES)).table j).files_open := by
    rw [fork_into_eq h]
    dsimp only
    rw [Kernel.modify_table]
    split
    next hj => rw [hj]
    · rfl
  have hbase : ∀ k, k ≠ slot → ((fork_base K i slot r).table k).files_open = (K.table k).files_open := by
    intro k hk
    by_cases hki : k = i
    · rw [hki, fork_base_self hne]
    · rw [fork_base_ne hki hk]
  rw [hrow, hrow]
  funext d
  rw [hready]
  split
  next hd =>
    rw [share_files_entry hne, hbase i hne]
    by_cases hj : j = slot
    · rw [if_pos ⟨hj, List.mem_range.mpr hd⟩, if_pos hj]
    · rw [if_neg fun h => hj h.1, if_neg hj, hbase j hj]
  · rfl

/-- 新しい項目 `slot` のほかは、前から生きていて、表は同じである。 -/
theorem step_fork (hc : Calls K ev i env r) (heax : r.eax = 24) (h : step K ev = some K') :
    fork_slot K = none ∧ RowKept K K' ∨ ∃ slot, fork_slot K = some slot ∧ RowSet K K' slot (row_of K i) := by
  obtain ⟨o, ho, rfl⟩ := hc.step h
  simp only [syscall, heax, syscall_fork, fork_process] at ho
  cases hslot : fork_slot K with
  | none =>
    rw [hslot] at ho
    cases ho
    exact .inl ⟨rfl, ⟨fun _ => id, fun _ _ => rfl⟩⟩
  | some slot =>
    rw [hslot] at ho
    obtain ⟨x, hx, rfl⟩ := Option.map_eq_some_iff.mp ho
    obtain ⟨L, hL, rfl⟩ := Option.map_eq_some_iff.mp hx
    have hne := hc.toOnCpu.ne_slot hslot
    have hborn := fork_birth hc heax hslot hL
    refine .inr ⟨slot, rfl, fun j hj halive => ?_, ?_, fun j hj _ => ?_⟩
    · have hlt : j < K.num_processes := by
        have hnum := hborn.2.num
        have hjn : j < L.num_processes := halive.1
        rw [hnum] at hjn
        split at hjn
        · omega
        · exact hjn
      refine ⟨hlt, ?_⟩
      rw [← (hborn.2.old j hlt hj).2.2.1]
      exact halive.2
    · exact (row_fork hne hL slot).trans (by rw [if_pos rfl])
    · exact (row_fork hne hL j).trans (by rw [if_neg hj])

/-! ## 表の外の項目 -/

/-- 表の外の項目は、2 以上の記述子を開いていない。 -/
def Spare (K : Kernel) : Prop :=
  ∀ j d, K.num_processes ≤ j → 2 ≤ d → d < MAX_FILES → (K.table j).files_open d = none

theorem Spare.clears {fds : List Nat} (h : Spare K) (hc : Clears K i fds K') : Spare K' := by
  intro j d hj h2 hd
  rw [hc.num] at hj
  obtain ⟨M, hM, hK'⟩ := hc
  rw [hK'.files, drop_files_files]
  split
  · rfl
  · rw [hM.files]
    exact h j d hj h2 hd

theorem Spare.quiet (h : Spare K) (hq : Quiet K K') : Spare K' := by
  intro j d hj h2 hd
  rw [hq.files]
  exact h j d (hq.num ▸ hj) h2 hd

theorem new_pcb_files (K : Kernel) (pid : Nat) (p : Pcb) (d : Nat) : (new_pcb K pid p).files_open d =
    if d = 0 then some ⟨K.next_block, FILE_READ, K.stdin_node⟩
    else if d = 1 then some ⟨K.next_block + 1, FILE_WRITE, K.stdout_node⟩ else p.files_open d := rfl

theorem Spare.step (h : Spare K) (hstep : FileStep K₀ ev K K') : Spare K' := by
  cases hstep with
  | quiet hq _ => exact h.quiet hq
  | dies _ hq _ => exact h.quiet hq
  | @file i env r hK hc hf =>
    subst hK
    intro j d hj h2 hd
    have hlt := hc.lt
    rw [hf.frame.num] at hj
    rw [hf.own_row.files j (by omega)]
    exact h j d hj h2 hd
  | @create pid load hK hc hcr =>
    subst hK
    have hframe := CreateFrame.create hcr
    intro j d hj h2 hd
    have hnum := hframe.num
    rcases create_process_new hcr (Nat.not_lt.mpr (Nat.le_trans hnum hj)) with ⟨-, heq⟩ | ⟨hjn, ⟨hsame, heq⟩ | ⟨img, -, hmore, -⟩⟩
    · rw [heq]
      exact h j d (by omega) h2 hd
    · rw [heq, new_pcb_files, if_neg (by omega), if_neg (by omega)]
      exact h j d (by omega) h2 hd
    · omega
  | @fork i env r slot hK hc heax hslot hf =>
    subst hK
    have hne := hc.toOnCpu.ne_slot hslot
    have hnum : K'.num_processes = if slot = K.num_processes then K.num_processes + 1 else K.num_processes := by
      rw [fork_into_rest hf]
    intro j d hj h2 hd
    have hjs : j ≠ slot ∧ K.num_processes ≤ j := by
      rcases fork_slot_spec hslot with ⟨hlt, -, -⟩ | ⟨rfl, -⟩
      · rw [hnum, if_neg (by omega)] at hj
        omega
      · rw [hnum, if_pos rfl] at hj
        omega
    have hrow := congrFun (row_fork hne hf j) d
    rw [if_neg hjs.1, (row_none hd).mpr (h j d hjs.2 h2 hd)] at hrow
    exact (row_none hd).mp hrow
  | @reap i env r hK hc _ h0 hK' =>
    subst hK hK'
    rcases reaped_files K i (find_terminated_child K (K.table i).pid) with hq | ⟨c, -, hcl⟩
    · exact h.quiet hq
    · exact h.clears hcl
  | exit hK _ hK' =>
    subst hK hK'
    exact h.clears (.exit_tree K ..)
  | @reset i _ _ hK _ _ hK' =>
    subst hK hK'
    exact h.clears (.exec_reset K i)
  | @unblock i b he hK' =>
    subst hK'
    rcases unblock_parent_files K (K.table i).pid b with hq | ⟨c, k, -, -, -, hcl⟩
    · exact h.quiet hq
    · exact h.clears hcl

theorem Spare.boot (rc_in rc_out mounts : Nat) : Spare (boot rc_in rc_out mounts) := by
  intro j d _ _ _
  unfold Proc.boot
  dsimp only
  split <;> rfl

/-- 作られたプロセスの表は `start` の通りである。 -/
theorem create_rows {pid : Nat} {load : Option Image} (h : Spare K) (hcr : create_process K pid load = some K') :
    (∀ j, j ≠ K.num_processes → Alive K' j → Alive K j ∧ row_of K' j = row_of K j) ∧
      (Alive K' K.num_processes → K.num_processes < MAX_PROCESSES ∧
        row_of K' K.num_processes = TableCall.run .empty (.start K.stdin_node K.stdout_node)) := by
  have hframe := CreateFrame.create hcr
  constructor
  · intro j hj halive
    have hlt : j < K.num_processes := by
      by_contra hge
      rcases create_process_new hcr hge with ⟨hle, -⟩ | ⟨hjn, -⟩
      · exact absurd halive.1 (Nat.not_lt.mpr hle)
      · exact hj hjn
    have hold := hframe.old j hlt
    refine ⟨⟨hlt, fun hdead => halive.2 ?_⟩, row_of_files ?_⟩
    · rw [hold, hdead]
    · rw [hold]
  · intro halive
    rcases create_process_new hcr (Nat.lt_irrefl _) with ⟨hle, -⟩ | ⟨-, ⟨hsame, -⟩ | ⟨img, -, -, heq⟩⟩
    · exact absurd halive.1 (Nat.not_lt.mpr hle)
    · exact absurd halive.1 (by omega)
    · refine ⟨?_, ?_⟩
      · rcases create_process_cases hcr with ⟨rfl, -⟩ | ⟨hlt, -⟩
        · exact absurd halive.1 (Nat.lt_irrefl _)
        · exact hlt
      · funext d
        have hfiles : (K'.table K.num_processes).files_open d = (new_pcb K pid (K.table K.num_processes)).files_open d := by
          rw [heq]
        unfold row_of TableCall.run Row.set Row.empty
        rw [hfiles, new_pcb_files]
        by_cases h1 : d = 1
        · subst h1
          simp [MAX_FILES]
        · by_cases h0 : d = 0
          · subst h0
            simp [MAX_FILES]
          · by_cases hd : d < MAX_FILES
            · simp [h0, h1, hd, h _ d (Nat.le_refl _) (by omega) hd]
            · simp [h0, h1, hd]

/-! ## 実行の全体 -/

/-- 生きている項目の表は、記録の呼び出しを順に行ったものである。 -/
def Follows (K : Kernel) (log : CallLog) : Prop := ∀ j, Alive K j → row_of K j = replay (log j)

theorem Follows.kept {log : CallLog} (h : Follows K log) (hk : RowKept K K') : Follows K' log :=
  fun j hj => (hk.rows j hj).trans (h j (hk.alive j hj))

theorem Follows.set {log : CallLog} {row : Row} {l : List TableCall} (h : Follows K log) (hk : RowSet K K' i row)
    (hrow : row = replay l) : Follows K' (log.set i l) := by
  intro j hj
  unfold CallLog.set
  by_cases hji : j = i
  · rw [if_pos hji, hji, hk.self, hrow]
  · rw [if_neg hji, hk.rows j hji hj]
    exact h j (hk.alive j hji hj)

theorem Follows.create {log : CallLog} {pid : Nat} {load : Option Image} (h : Follows K log) (hspare : Spare K)
    (hcr : create_process K pid load = some K') :
    Follows K' (log.set K.num_processes [.start K.stdin_node K.stdout_node]) := by
  obtain ⟨hold, hnew⟩ := create_rows hspare hcr
  intro j hj
  unfold CallLog.set
  by_cases hjn : j = K.num_processes
  · rw [if_pos hjn, hjn, (hnew (hjn ▸ hj)).2]
    rfl
  · rw [if_neg hjn, (hold j hjn hj).2]
    exact h j (hold j hjn hj).1

/-- 一歩で、表は記録の通りに変わる。 -/
theorem Follows.step {log : CallLog} (hs : Synced K) (hp : PidInv K) (hz : SchedInv K) (hspare : Spare K) (hok : NoWrap K ev)
    (h : Follows K log) (he : step K ev = some K') : Follows K' (record K log ev) := by
  by_cases htouch : touches ev = true
  swap
  · have hev := Bool.eq_false_iff.mpr htouch
    have hrecord : record K log ev = log ∨ ∃ i, record K log ev = log.set i (log i ++ []) := by
      cases ev with
      | boot => cases hev
      | timer => exact .inl rfl
      | keyboard => exact .inl rfl
      | fault => exact .inl rfl
      | pipe => exact .inl rfl
      | syscall env r =>
        obtain ⟨i, hi, hc⟩ := syscall_calls hs he
        have hno := hc.touches hev
        simp only [List.mem_cons, List.not_mem_nil, or_false, not_or] at hno
        refine .inr ⟨i, ?_⟩
        have hnone : table_call K env r = none := by
          unfold table_call
          split <;> simp_all
        simp only [record, hi]
        rw [if_neg hno.2.2.2.2.2.2.1, if_neg hno.2.1, hnone]
        rfl
    have hkept := h.kept (step_row_kept hs hp hz hok hev he)
    rcases hrecord with heq | ⟨i, heq⟩
    · rwa [heq]
    · rw [heq, List.append_nil]
      intro j hj
      unfold CallLog.set
      split
      next hji => rw [← hji]; exact hkept j hj
      · exact hkept j hj
  cases ev with
  | timer => cases htouch
  | keyboard => cases htouch
  | fault => cases htouch
  | pipe => cases htouch
  | boot load =>
    simp only [Proc.step] at he
    split at he
    · simp only [record]
      split
      next hmax =>
        rcases create_process_cases he with ⟨rfl, -⟩ | ⟨hlt, -⟩
        · exact h
        · omega
      · exact h.create hspare he
    · cases he
  | syscall env r =>
    obtain ⟨i, hi, hc⟩ := syscall_calls hs he
    have halive : Alive K i := ⟨hc.lt, by rw [hc.running]; simp⟩
    simp only [record, hi]
    by_cases h24 : r.eax = 24
    · rw [if_pos h24]
      rcases step_fork hc h24 he with ⟨hnone, hkept⟩ | ⟨slot, hslot, hset⟩
      · rw [hnone]
        exact h.kept hkept
      · rw [hslot]
        exact h.set hset (h i halive)
    rw [if_neg h24]
    by_cases h8 : r.eax = 8
    · rw [if_pos h8]
      obtain ⟨o, ho, rfl⟩ := hc.step he
      simp only [syscall, h8, syscall_spawn] at ho
      split at ho
      next hargs =>
        cases ho
        rw [if_pos (.inl (by simpa using hargs))]
        exact h
      next hargs =>
        obtain ⟨L, hL, hret⟩ := Option.bind_eq_some_iff.mp ho
        cases hret
        split
        next hmax =>
          rcases hmax with hno | hmax
          · simp [hno] at hargs
          · rcases create_process_cases hL with ⟨rfl, -⟩ | ⟨hlt, -⟩
            · exact h
            · omega
        · have hcr : Follows L (log.set K.num_processes [.start K.stdin_node K.stdout_node]) := h.create hspare hL
          exact hcr
    rw [if_neg h8]
    have hreplay : ∀ c : Option TableCall, replay (log i ++ c.toList) = c.toList.foldl TableCall.run (replay (log i)) :=
      fun c => List.foldl_append ..
    by_cases h10 : r.eax = 10
    · cases hargs : env.args with
      | true =>
        have htable : table_call K env r = some .exec := by simp [table_call, h10, hargs]
        refine h.set (step_exec hs hp hz hok hc h10 hargs he) ?_
        rw [hreplay, htable, h i halive]
        rfl
      | false =>
        have htable : table_call K env r = none := by simp [table_call, h10, hargs]
        obtain ⟨o, ho, rfl⟩ := hc.step he
        simp only [syscall, h10, syscall_exec, hargs] at ho
        cases ho
        have hset : RowSet K (return_to K { r with cs := K.ctx.cs } NEG1) i (row_of K i) := ⟨fun _ _ => id, rfl, fun _ _ _ => rfl⟩
        refine h.set hset ?_
        rw [hreplay, htable]
        exact h i halive
    · have heax : r.eax ∈ [2, 11, 12, 20, 27] := by
        simp only [touches, decide_eq_true_eq, List.mem_cons, List.not_mem_nil, or_false] at htouch ⊢
        omega
      obtain ⟨L, v, hf, rfl⟩ := step_file_call hc he heax
      have hset := hf.row_set
      have hret : RowSet K (return_to L { r with cs := K.ctx.cs } v) i
          ((table_call K env { r with cs := K.ctx.cs }).toList.foldl TableCall.run (row_of K i)) :=
        ⟨hset.alive, hset.self, hset.rows⟩
      refine h.set hret ?_
      rw [hreplay, h i halive]
      rfl

theorem step_pids (hs : Synced K) (hp : PidInv K) (hz : SchedInv K) (hok : NoWrap K ev) (he : step K ev = some K') :
    PidInv K' ∧ SchedInv K' := by
  obtain ⟨L, hacts, hfin⟩ := step_reaches hs he
  obtain ⟨hpids, hsched⟩ := Acts.pids hs hp hz hok hacts
  exact ⟨hpids.fin hfin, hsched.fin (Acts.cur_lt hs hacts) hfin⟩

/-- 番号が一巡しないどの実行でも、生きているプロセスの表は、自分と、`fork` までの祖先の呼び出しを順に行ったもので
    ある。ほかのプロセス、割り込み、信号は表を変えない。 -/
theorem tables_follow_calls (rc_in rc_out mounts : Nat) {S : Logged}
    (h : Steps Logged.step (fun S ev => NoWrap S.kernel ev) (Logged.boot rc_in rc_out mounts) S) :
    ∀ j, Alive S.kernel j → row_of S.kernel j = replay (S.log j) := by
  refine (h.inv (P := fun S => (Synced S.kernel ∧ PidInv S.kernel ∧ SchedInv S.kernel ∧ Spare S.kernel) ∧ Follows S.kernel S.log)
    (fun S ev T hI hok he => ?_) ⟨⟨.boot .., .boot .., .boot .., Spare.boot rc_in rc_out mounts⟩, fun j _ => ?_⟩).2
  · obtain ⟨⟨hs, hp, hz, hspare⟩, hf⟩ := hI
    obtain ⟨K', hstep, rfl⟩ := Option.map_eq_some_iff.mp he
    have hrun : Steps step NoWrap S.kernel K' := .tail ev (.refl _) hok hstep
    obtain ⟨hp', hz'⟩ := step_pids hs hp hz hok hstep
    refine ⟨⟨hs.step hstep, hp', hz', ?_⟩, hf.step hs hp hz hspare hok hstep⟩
    exact (file_run (fun hq _ h => h.quiet hq) (fun _ _ _ _ _ h hstep => h.step hstep) hrun hs hspare).2
  · funext d
    show row_of (boot rc_in rc_out mounts) j d = none
    unfold row_of Proc.boot
    dsimp only
    split
    · split <;> rfl
    · rfl

/-- シェルがパイプを作って `fork` し、子が書きの端を 1 に移す。 -/
def piped_child : Trace (checked Logged.step (fun S ev => decide (NoWrap S.kernel ev)) (Logged.boot 1 1 0)) (fun S =>
    Alive S.kernel 2 ∧ S.log 2 = [.start 0 1, .pipe 2, .dup2 4 1, .close 4]) :=
  ⟨start_shell ++ [call 12 4, call 24, tick, call 27 4 1, call 20 4], by decide +kernel⟩

theorem tables_follow_calls_piped : ∃ S, Steps Logged.step (fun S ev => NoWrap S.kernel ev) (Logged.boot 1 1 0) S ∧
    row_of S.kernel 2 1 = some (FILE_WRITE, 3) ∧ row_of S.kernel 2 4 = none := by
  obtain ⟨S, hS, halive, hlog⟩ := piped_child.steps_checked fun _ _ => of_decide_eq_true
  refine ⟨S, hS, ?_⟩
  rw [tables_follow_calls 1 1 0 hS 2 halive, hlog]
  decide

end MyOS.Proc
