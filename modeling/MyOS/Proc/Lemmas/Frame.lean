import MyOS.Proc.Syscalls

/-!
# 書き換えない部分

`FileFrame` は開いたファイルのほかを変えないこと、`ProcFrame` は開いたファイルを変えないことである。
-/

namespace MyOS.Proc
open MyOS.Lib

variable {K K' K'' : Kernel} {i j fd n : Nat}

/-- `files_open`、ノード、パイプのほかは同じである。 -/
structure FileFrame (K K' : Kernel) : Prop where
  pcb : ∀ j, K'.table j = { K.table j with files_open := (K'.table j).files_open }
  rest : K' = { K with
    table := K'.table
    nodes := K'.nodes
    next_node := K'.next_node
    pipes := K'.pipes
    next_pipe := K'.next_pipe
    next_block := K'.next_block
    owner := K'.owner
    released := K'.released
    freed := K'.freed }

theorem FileFrame.refl (K : Kernel) : FileFrame K K := ⟨fun _ => rfl, rfl⟩

theorem FileFrame.trans (h : FileFrame K K') (h' : FileFrame K' K'') : FileFrame K K'' := by
  refine ⟨fun j => ?_, ?_⟩
  · rw [h'.pcb j, h.pcb j]
  · have := h'.rest
    rw [h.rest] at this
    exact this

theorem FileFrame.num (h : FileFrame K K') : K'.num_processes = K.num_processes := by rw [h.rest]

theorem FileFrame.setFile (K : Kernel) (i fd : Nat) (o : Option File) :
    FileFrame K (setFile K i fd o) := by
  refine ⟨fun j => ?_, rfl⟩
  by_cases hj : j = i
  · subst hj
    simp only [Proc.setFile, Kernel.modify_self]
  · simp only [Proc.setFile, Kernel.modify_ne K _ hj]

theorem FileFrame.setNode (K : Kernel) (n : Nat) (nd : FsNode) : FileFrame K (K.setNode n nd) :=
  ⟨fun _ => rfl, rfl⟩

theorem FileFrame.setPipe (K : Kernel) (q : Nat) (pb : PipeBuf) : FileFrame K (K.setPipe q pb) :=
  ⟨fun _ => rfl, rfl⟩

theorem FileFrame.alloc (K : Kernel) (pid n : Nat) : FileFrame K (K.alloc pid n) :=
  ⟨fun _ => rfl, rfl⟩

theorem FileFrame.release (K : Kernel) (bs : List Nat) : FileFrame K (K.release bs) :=
  ⟨fun _ => rfl, rfl⟩

theorem FileFrame.incRef (K : Kernel) (n : Nat) : FileFrame K (incRef K n) := .setNode K n _

theorem FileFrame.decRef (K : Kernel) (n : Nat) : FileFrame K (decRef K n) := by
  unfold Proc.decRef
  split
  · exact .setNode K n _
  · exact .refl K

theorem FileFrame.close_fs (K : Kernel) (n : Nat) : FileFrame K (close_fs K n) := by
  unfold Proc.close_fs pipe_close_fn
  split
  · exact .refl K
  · split
    · exact .refl K
    · exact (FileFrame.setPipe K _ _).trans (.setNode _ n _)

theorem FileFrame.free_node (K : Kernel) (n : Nat) : FileFrame K (free_node K n) :=
  (FileFrame.close_fs K n).trans ⟨fun _ => rfl, rfl⟩

theorem FileFrame.drop_file (K : Kernel) (i fd : Nat) : FileFrame K (drop_file K i fd) := by
  unfold Proc.drop_file
  split
  · exact .refl K
  next fp _ =>
    have h : FileFrame K (Proc.setFile ((Proc.decRef K fp.file).release [fp.id]) i fd none) :=
      ((FileFrame.decRef K fp.file).trans (.release _ _)).trans (.setFile _ i fd none)
    dsimp only
    split
    · exact h.trans (.free_node _ _)
    · exact h

theorem FileFrame.drop_files (i : Nat) (fds : List Nat) (K : Kernel) :
    FileFrame K (drop_files K i fds) := by
  induction fds generalizing K with
  | nil => exact .refl K
  | cons fd fds ih => exact (FileFrame.drop_file K i fd).trans (ih _)

theorem FileFrame.share_file (K : Kernel) (i fd flags n : Nat) :
    FileFrame K (share_file K i fd flags n) :=
  ((FileFrame.alloc K _ 1).trans (.incRef _ n)).trans (.setFile _ i fd _)

theorem FileFrame.share_files (i j : Nat) (fds : List Nat) (K : Kernel) :
    FileFrame K (share_files K i j fds) := by
  induction fds generalizing K with
  | nil => exact .refl K
  | cons fd fds ih =>
    unfold Proc.share_files
    split
    · exact (FileFrame.share_file K j fd _ _).trans (ih _)
    · exact (FileFrame.setFile K j fd none).trans (ih _)

theorem FileFrame.fopen (K : Kernel) (i : Nat) (look : Lookup) (m : Nat) :
    FileFrame K (fopen K i look m).1 := by
  have hget : FileFrame K (get_node K look).1 := by
    cases look with
    | missing => exact .refl K
    | fresh => exact ⟨fun _ => rfl, rfl⟩
    | global k => exact .refl K
  unfold Proc.fopen
  split
  next hK => exact (by rw [hK] at hget; exact hget)
  next hK =>
    rw [hK] at hget
    split
    · exact hget
    · exact hget.trans (.share_file _ i _ _ _)

theorem FileFrame.syscall_close (K : Kernel) (i fd : Nat) : FileFrame K (syscall_close K i fd).1 := by
  unfold Proc.syscall_close
  split
  · exact .refl K
  · split
    · exact .refl K
    · exact .drop_file K i fd

theorem FileFrame.syscall_dup (K : Kernel) (i fd : Nat) : FileFrame K (syscall_dup K i fd).1 := by
  unfold Proc.syscall_dup
  repeat' split
  all_goals first | exact .refl K | exact .share_file K i _ _ _

theorem FileFrame.syscall_dup2 (K : Kernel) (i fd fd' : Nat) :
    FileFrame K (syscall_dup2 K i fd fd').1 := by
  unfold Proc.syscall_dup2
  repeat' split
  all_goals try exact .refl K
  · exact (FileFrame.syscall_close K i fd').trans (.share_file _ i fd' _ _)
  · exact .share_file K i fd' _ _

theorem FileFrame.numbers (K : Kernel) (q n : Nat) :
    FileFrame K { K with next_pipe := q, next_node := n } :=
  ⟨fun _ => rfl, rfl⟩

theorem FileFrame.new_pipe (K : Kernel) (pid : Nat) : FileFrame K (pipe_create K pid).1 := by
  refine FileFrame.trans ?_ (.numbers _ _ _)
  refine FileFrame.trans ?_ (.setNode _ _ _)
  refine FileFrame.trans ?_ (.setNode _ _ _)
  exact (FileFrame.alloc K pid 2).trans (.setPipe _ _ _)

theorem FileFrame.syscall_pipe (K : Kernel) (i p : Nat) (copied : Bool) :
    FileFrame K (syscall_pipe K i p copied).1 := by
  have hpipe : FileFrame K (pipe_create K (K.table i).pid).1 := .new_pipe K _
  have hset : ∀ fd o fd' o', FileFrame K
      (Proc.setFile (Proc.setFile (pipe_create K (K.table i).pid).1 i fd o) i fd' o') :=
    fun fd o fd' o' => (hpipe.trans (.setFile _ i fd o)).trans (.setFile _ i fd' o')
  unfold Proc.syscall_pipe
  split
  · exact .refl K
  · dsimp only
    split
    · exact hpipe.trans (.release _ _)
    · split
      · exact hpipe.trans (.release _ _)
      · split
        · exact hset ..
        · refine FileFrame.trans ?_ (.free_node _ _)
          refine FileFrame.trans ?_ (.free_node _ _)
          refine FileFrame.trans ?_ (.release _ _)
          exact ((hset ..).trans (.setFile _ i _ none)).trans (.setFile _ i _ none)

/-! 表に項目を加える関数の場合分け。 -/

theorem add_child_eq {pid : Nat} (h : add_child K i pid = some K') :
    (K.table i).children.length < MAX_PROCESSES ∧
      K' = K.modify i fun p => { p with children := p.children ++ [pid] } := by
  unfold add_child at h
  split at h
  next hlt => exact ⟨hlt, (Option.some.inj h).symm⟩
  · cases h

@[simp] theorem reserve_self (K : Kernel) (pid : Nat) :
    (reserve K pid).table K.num_processes = new_pcb K pid (K.table K.num_processes) :=
  if_pos rfl

theorem reserve_ne {pid : Nat} (h : j ≠ K.num_processes) : (reserve K pid).table j = K.table j :=
  if_neg h

@[simp] theorem reserve_num (K : Kernel) (pid : Nat) :
    (reserve K pid).num_processes = K.num_processes := rfl

@[simp] theorem install_self (K : Kernel) (img : Image) :
    (install K img).table K.num_processes =
      { K.table K.num_processes with
        state := .new
        iret := user_frame img.eip img.esp
        memory_regions := List.range' K.next_block img.vmas } :=
  if_pos rfl

theorem install_ne {img : Image} (h : j ≠ K.num_processes) :
    (install K img).table j = K.table j :=
  if_neg h

/-- `create_process` は、何もしないか、末尾の項目だけを書くか、親の子に加えて表を延ばす。 -/
theorem create_process_cases {pid : Nat} {load : Option Image} (h : create_process K pid load = some K') :
    K' = K ∧ MAX_PROCESSES ≤ K.num_processes ∨
    K.num_processes < MAX_PROCESSES ∧
      (load = none ∧ K' = unload (reserve K pid) K.next_block ∨
      ∃ img, load = some img ∧
        ((pid = 0 ∨ get_process_by_pid (reserve K pid) pid = none) ∧
            K' = install (reserve K pid) img ∨
          ∃ j, get_process_by_pid (reserve K pid) pid = some j ∧ pid ≠ 0 ∧
            ((reserve K pid).table j).children.length < MAX_PROCESSES ∧
            K' = install ((reserve K pid).modify j fun p =>
              { p with children := p.children ++ [K.next_pid] }) img)) := by
  rw [create_process] at h
  split at h
  next hmax => exact .inl ⟨(Option.some.inj h).symm, hmax⟩
  next hmax =>
  refine .inr ⟨by omega, ?_⟩
  dsimp only at h
  split at h
  next hparent =>
    have hnone : pid = 0 ∨ get_process_by_pid (reserve K pid) pid = none := by
      by_cases h0 : pid = 0
      · exact .inl h0
      · rw [if_pos h0] at hparent
        exact .inr hparent
    cases load with
    | none => exact .inl ⟨rfl, (Option.some.inj h).symm⟩
    | some img => exact .inr ⟨img, rfl, .inl ⟨hnone, (Option.some.inj h).symm⟩⟩
  next j hparent =>
    have h0 : pid ≠ 0 := by
      intro h0
      rw [if_neg (not_not_intro h0)] at hparent
      cases hparent
    rw [if_pos h0] at hparent
    obtain ⟨K₁, hadd, rfl⟩ := Option.map_eq_some_iff.mp h
    obtain ⟨hroom, rfl⟩ := add_child_eq hadd
    cases load with
    | none => exact .inl ⟨rfl, rfl⟩
    | some img => exact .inr ⟨img, rfl, .inr ⟨j, hparent, h0, hroom, rfl⟩⟩

/-- `create_process` は、表の中の項目では子の列だけを書く。 -/
structure CreateFrame (K K' : Kernel) : Prop where
  old : ∀ j, j < K.num_processes →
    K'.table j = { K.table j with children := (K'.table j).children }
  num : K.num_processes ≤ K'.num_processes
  rest : K' = { K with
    table := K'.table
    next_pid := K'.next_pid
    num_processes := K'.num_processes
    next_block := K'.next_block
    owner := K'.owner
    released := K'.released }

theorem CreateFrame.create {pid : Nat} {load : Option Image} (h : create_process K pid load = some K') :
    CreateFrame K K' := by
  have hne : ∀ j, j < K.num_processes → (reserve K pid).table j = K.table j :=
    fun j hj => reserve_ne (Nat.ne_of_lt hj)
  rcases create_process_cases h with ⟨rfl, -⟩ | ⟨-, h⟩
  · exact ⟨fun _ _ => rfl, Nat.le_refl _, rfl⟩
  rcases h with ⟨-, rfl⟩ | ⟨img, -, h⟩
  · refine ⟨fun j hj => ?_, Nat.le_refl _, rfl⟩
    have hun : (unload (reserve K pid) K.next_block).table j = K.table j := hne j hj
    rw [hun]
  rcases h with ⟨-, rfl⟩ | ⟨k, -, -, -, rfl⟩
  · refine ⟨fun j hj => ?_, Nat.le_succ _, rfl⟩
    have hjn : j ≠ (reserve K pid).num_processes := Nat.ne_of_lt hj
    rw [install_ne hjn, hne j hj]
  · refine ⟨fun j hj => ?_, Nat.le_succ _, rfl⟩
    have hjn : j ≠ (Kernel.modify (reserve K pid) k fun p =>
        { p with children := p.children ++ [K.next_pid] }).num_processes := Nat.ne_of_lt hj
    rw [install_ne hjn, Kernel.modify_table]
    split
    next hjk =>
      subst hjk
      rw [hne j hj]
    · rw [hne j hj]

/-- `create_process` が表の外の項目に残すもの。 -/
theorem create_process_new {pid : Nat} {load : Option Image} (h : create_process K pid load = some K')
    (hj : ¬ j < K.num_processes) :
    K'.num_processes ≤ j ∧ K'.table j = K.table j ∨ j = K.num_processes ∧
      (K'.num_processes = K.num_processes ∧ K'.table j = new_pcb K pid (K.table j) ∨
        ∃ img, load = some img ∧ K'.num_processes = K.num_processes + 1 ∧
          K'.table j = { new_pcb K pid (K.table j) with
            state := .new
            iret := user_frame img.eip img.esp
            memory_regions := List.range' (K.next_block + 4) img.vmas }) := by
  have hres : j ≠ K.num_processes → (reserve K pid).table j = K.table j := reserve_ne
  -- 子の列に加える項目は表の中にあるので、ここでは区別しない
  have hinst : ∀ (L : Kernel) img, K' = install L img → load = some img →
      L.num_processes = K.num_processes → L.next_block = K.next_block + 4 →
      L.table j = (reserve K pid).table j →
      K'.num_processes ≤ j ∧ K'.table j = K.table j ∨ j = K.num_processes ∧
        (K'.num_processes = K.num_processes ∧ K'.table j = new_pcb K pid (K.table j) ∨
          ∃ img, load = some img ∧ K'.num_processes = K.num_processes + 1 ∧
            K'.table j = { new_pcb K pid (K.table j) with
              state := .new
              iret := user_frame img.eip img.esp
              memory_regions := List.range' (K.next_block + 4) img.vmas }) := by
    rintro L img rfl hload hn hb hL
    by_cases hjn : j = K.num_processes
    · subst hjn
      have hself := install_self L img
      rw [hn, hL, reserve_self, hb] at hself
      exact .inr ⟨rfl, .inr ⟨img, hload, congrArg (· + 1) hn, hself⟩⟩
    · have hjL : j ≠ L.num_processes := hn.symm ▸ hjn
      refine .inl ⟨?_, ?_⟩
      · show L.num_processes + 1 ≤ j
        omega
      · rw [install_ne hjL, hL, hres hjn]
  rcases create_process_cases h with ⟨rfl, -⟩ | ⟨-, h⟩
  · exact .inl ⟨by omega, rfl⟩
  rcases h with ⟨-, rfl⟩ | ⟨img, hload, ⟨-, hK'⟩ | ⟨k, hk, -, -, hK'⟩⟩
  · by_cases hjn : j = K.num_processes
    · subst hjn
      exact .inr ⟨rfl, .inl ⟨rfl, reserve_self K pid⟩⟩
    · exact .inl ⟨Nat.le_of_not_lt hj, hres hjn⟩
  · exact hinst _ img hK' hload rfl rfl rfl
  · refine hinst _ img hK' hload rfl rfl (Kernel.modify_ne _ _ ?_)
    rintro rfl
    exact hj (List.mem_range.mp (List.mem_of_find?_eq_some hk))

/-- 子の項目は、終了した項目か、表の末尾である。 -/
theorem fork_slot_spec {slot : Nat} (h : fork_slot K = some slot) :
    slot < K.num_processes ∧ (K.table slot).state = .terminated ∧ (K.table slot).pid ≠ 0 ∨
      slot = K.num_processes ∧ K.num_processes < MAX_PROCESSES := by
  unfold fork_slot at h
  split at h
  next j hj =>
    cases h
    have hp := List.find?_some hj
    simp only [Bool.and_eq_true, beq_iff_eq, bne_iff_ne] at hp
    exact .inl ⟨List.mem_range.mp (List.mem_of_find?_eq_some hj), hp⟩
  · split at h
    · cases h
    · cases h
      exact .inr ⟨rfl, by omega⟩

/-- 子を登録し、ファイルを分け合う前の表。 -/
def fork_base (K : Kernel) (i slot : Nat) (regs : Regs) : Kernel :=
  { ((K.alloc K.next_pid (2 + (K.table i).memory_regions.length)).modify slot
      (fork_pcb K (K.table i) regs)).modify i
        (fun p => { p with children := p.children ++ [K.next_pid] }) with
    next_pid := add32 K.next_pid 1 }

theorem fork_into_eq {slot : Nat} {regs : Regs} (h : fork_into K i slot regs = some K') :
    K' = { (share_files (fork_base K i slot regs) i slot (List.range MAX_FILES)).modify slot
        (fun p => { p with state := .ready }) with
      num_processes := if slot = K.num_processes then K.num_processes + 1 else K.num_processes } := by
  obtain ⟨K₁, hadd, rfl⟩ := Option.map_eq_some_iff.mp h
  obtain ⟨-, rfl⟩ := add_child_eq hadd
  rfl

theorem fork_base_slot {slot : Nat} {regs : Regs} (hne : i ≠ slot) :
    (fork_base K i slot regs).table slot = fork_pcb K (K.table i) regs (K.table slot) := by
  simp [fork_base, Kernel.modify_table, Kernel.alloc, Ne.symm hne]

theorem fork_base_self {slot : Nat} {regs : Regs} (hne : i ≠ slot) :
    (fork_base K i slot regs).table i =
      { K.table i with children := (K.table i).children ++ [K.next_pid] } := by
  simp [fork_base, Kernel.modify_table, Kernel.alloc, hne]

theorem fork_base_ne {slot : Nat} {regs : Regs} (hi : j ≠ i) (hslot : j ≠ slot) :
    (fork_base K i slot regs).table j = K.table j := by
  simp [fork_base, Kernel.modify_table, Kernel.alloc, hi, hslot]

/-- `fork_into` が項目 `j` に残す値。ファイルのほかは、子の項目と親の子の列だけを書く。 -/
def fork_entry (K : Kernel) (i slot : Nat) (regs : Regs) (j : Nat) : Pcb :=
  if j = slot then { fork_pcb K (K.table i) regs (K.table slot) with state := .ready }
  else if j = i then { K.table i with children := (K.table i).children ++ [K.next_pid] }
  else K.table j

theorem fork_into_table {slot : Nat} {regs : Regs} (hne : i ≠ slot)
    (h : fork_into K i slot regs = some K') (j : Nat) :
    K'.table j = { fork_entry K i slot regs j with files_open := (K'.table j).files_open } := by
  have hshare := FileFrame.share_files i slot (List.range MAX_FILES) (fork_base K i slot regs)
  have hj := hshare.pcb j
  rw [fork_into_eq h, fork_entry]
  by_cases hs : j = slot
  · subst hs
    rw [fork_base_slot hne] at hj
    simp only [Kernel.modify_self, if_pos]
    rw [hj]
  · rw [if_neg hs]
    simp only [Kernel.modify_table, if_neg hs]
    by_cases hi : j = i
    · subst hi
      rw [fork_base_self hne] at hj
      rw [if_pos rfl]
      exact hj
    · rw [fork_base_ne hi hs] at hj
      rw [if_neg hi]
      exact hj

theorem fork_into_rest {slot : Nat} {regs : Regs} (h : fork_into K i slot regs = some K') :
    K' = { K with
      table := K'.table
      next_pid := add32 K.next_pid 1
      num_processes := if slot = K.num_processes then K.num_processes + 1 else K.num_processes
      nodes := K'.nodes
      next_node := K'.next_node
      pipes := K'.pipes
      next_pipe := K'.next_pipe
      next_block := K'.next_block
      owner := K'.owner
      released := K'.released
      freed := K'.freed } := by
  have hshare := (FileFrame.share_files i slot (List.range MAX_FILES) (fork_base K i slot regs)).rest
  rw [fork_into_eq h]
  generalize share_files (fork_base K i slot regs) i slot (List.range MAX_FILES) = L at *
  rw [hshare]
  rfl

/-! 後始末と、親を起こすこと。 -/

theorem get_process_by_pid_spec {pid : Nat} (h : get_process_by_pid K pid = some j) :
    j < K.num_processes ∧ (K.table j).pid = pid := by
  have hm := List.mem_of_find?_eq_some h
  have hp := List.find?_some h
  exact ⟨List.mem_range.mp hm, by simpa using hp⟩

/-- 後始末をした項目。 -/
def cleaned_pcb (p : Pcb) : Pcb :=
  { p with
    sig := { p.sig with pending := 0#32, stopped_by := 0 }
    kernel_stack_alloc := none
    cr3 := none
    memory_regions := [] }

/-- `FILE` を閉じる前の状態。 -/
def cleanup_base (K : Kernel) (i : Nat) : Kernel :=
  (K.modify i cleaned_pcb).release
    ((K.table i).kernel_stack_alloc.toList ++ (K.table i).cr3.toList ++ (K.table i).memory_regions)

theorem process_cleanup_child_eq (K : Kernel) (i : Nat) :
    process_cleanup_child K i =
      { drop_files (cleanup_base K i) i (List.range MAX_FILES) with
        cleaned := (K.table i).pid :: K.cleaned } := rfl

theorem cleanup_table (K : Kernel) (i j : Nat) :
    (process_cleanup_child K i).table j =
      { (if j = i then cleaned_pcb (K.table i) else K.table j) with
        files_open := ((process_cleanup_child K i).table j).files_open } := by
  rw [process_cleanup_child_eq]
  exact (FileFrame.drop_files i (List.range MAX_FILES) (cleanup_base K i)).pcb j

theorem cleanup_rest (K : Kernel) (i : Nat) :
    process_cleanup_child K i = { K with
      table := (process_cleanup_child K i).table
      nodes := (process_cleanup_child K i).nodes
      next_node := (process_cleanup_child K i).next_node
      pipes := (process_cleanup_child K i).pipes
      next_pipe := (process_cleanup_child K i).next_pipe
      next_block := (process_cleanup_child K i).next_block
      owner := (process_cleanup_child K i).owner
      released := (process_cleanup_child K i).released
      freed := (process_cleanup_child K i).freed
      cleaned := (K.table i).pid :: K.cleaned } := by
  rw [process_cleanup_child_eq]
  have h := (FileFrame.drop_files i (List.range MAX_FILES) (cleanup_base K i)).rest
  generalize drop_files (cleanup_base K i) i (List.range MAX_FILES) = L at *
  rw [h]
  rfl

/-- 起こされた親の項目。 -/
def woken_pcb (child_pid : Nat) (cleanup : Bool) (p : Pcb) : Pcb :=
  { p with
    children := if cleanup then remove_id child_pid p.children else p.children
    tf := { p.tf with eax := child_pid }
    state := .ready }

theorem wake_parent_self (K : Kernel) (j pid : Nat) (b : Bool) :
    (wake_parent K j pid b).table j = woken_pcb pid b (K.table j) := if_pos rfl

theorem wake_parent_ne {k pid : Nat} {b : Bool} (h : k ≠ j) :
    (wake_parent K j pid b).table k = K.table k := if_neg h

/-- 親を起こすか、何もしない。終わった子が今のプロセスでなければ、その場で後始末する。 -/
theorem unblock_parent_cases (K : Kernel) (pid : Nat) (b : Bool) :
    unblock_parent K pid b = K ∨
    ∃ c j, get_process_by_pid K pid = some c ∧ get_process_by_pid K (K.table c).parent_id = some j ∧
      (K.table j).state = .blocked ∧
      ((K.table j).waiting_on_pid = 0 ∨ (K.table j).waiting_on_pid = pid) ∧
      (unblock_parent K pid b = wake_parent K j pid b ∧ (b = true → K.current_process = some c) ∨
        b = true ∧ K.current_process ≠ some c ∧
        unblock_parent K pid b = process_cleanup_child (wake_parent K j pid b) c) := by
  rw [unblock_parent]
  split
  · exact .inl rfl
  next c hc =>
  split
  · exact .inl rfl
  next j hj =>
  split
  next hblocked =>
    refine .inr ⟨c, j, hc, hj, hblocked.1, hblocked.2, ?_⟩
    split
    next hclean => exact .inr ⟨hclean.1, hclean.2, rfl⟩
    next hclean =>
      refine .inl ⟨rfl, fun hb => ?_⟩
      by_cases hcur : K.current_process = some c
      · exact hcur
      · exact absurd ⟨hb, hcur⟩ hclean
  · exact .inl rfl

/-- 表、ファイル、後始末の記録のほかは同じである。 -/
structure CleanFrame (K K' : Kernel) : Prop where
  rest : K' = { K with
    table := K'.table
    nodes := K'.nodes
    next_node := K'.next_node
    pipes := K'.pipes
    next_pipe := K'.next_pipe
    next_block := K'.next_block
    owner := K'.owner
    released := K'.released
    freed := K'.freed
    cleaned := K'.cleaned
    reports := K'.reports }

theorem CleanFrame.num (h : CleanFrame K K') : K'.num_processes = K.num_processes := by rw [h.rest]

theorem CleanFrame.cur (h : CleanFrame K K') : K'.cur_proccess_id = K.cur_proccess_id := by rw [h.rest]

theorem CleanFrame.current (h : CleanFrame K K') : K'.current_process = K.current_process := by
  rw [h.rest]

theorem CleanFrame.refl (K : Kernel) : CleanFrame K K := ⟨rfl⟩

theorem CleanFrame.trans (h : CleanFrame K K') (h' : CleanFrame K' K'') : CleanFrame K K'' := by
  refine ⟨?_⟩
  have := h'.rest
  rw [h.rest] at this
  exact this

theorem CleanFrame.modify (K : Kernel) (i : Nat) (f : Pcb → Pcb) : CleanFrame K (K.modify i f) := ⟨rfl⟩

theorem FileFrame.clean (h : FileFrame K K') : CleanFrame K K' := by
  refine ⟨?_⟩
  have hr := h.rest
  rw [hr]

theorem CleanFrame.cleanup (K : Kernel) (i : Nat) : CleanFrame K (process_cleanup_child K i) := by
  refine ⟨?_⟩
  have hr := cleanup_rest K i
  generalize process_cleanup_child K i = L at *
  rw [hr]

theorem CleanFrame.unblock_parent (K : Kernel) (pid : Nat) (b : Bool) :
    CleanFrame K (unblock_parent K pid b) := by
  have hwake : ∀ j, CleanFrame K (wake_parent K j pid b) := fun _ => ⟨rfl⟩
  rcases unblock_parent_cases K pid b with h | ⟨c, j, -, -, -, -, ⟨h, -⟩ | ⟨-, -, h⟩⟩
  · rw [h]
    exact .refl K
  · rw [h]
    exact hwake j
  · rw [h]
    exact (hwake j).trans (.cleanup _ c)

theorem cleanup_state (K : Kernel) (i j : Nat) :
    ((process_cleanup_child K i).table j).state = (K.table j).state := by
  rw [cleanup_table]
  dsimp only
  split
  next h =>
    subst h
    rfl
  · rfl

/-- 止まっていない項目の状態は変わらない。 -/
theorem unblock_parent_state {pid : Nat} {b : Bool} (h : (K.table j).state ≠ .blocked) :
    ((unblock_parent K pid b).table j).state = (K.table j).state := by
  have hwake : ∀ k, (K.table k).state = .blocked →
      ((wake_parent K k pid b).table j).state = (K.table j).state := by
    intro k hk
    rw [wake_parent_ne]
    rintro rfl
    exact h hk
  rcases unblock_parent_cases K pid b with heq | ⟨c, k, -, -, hk, -, ⟨heq, -⟩ | ⟨-, -, heq⟩⟩
  · rw [heq]
  · rw [heq, hwake k hk]
  · rw [heq, cleanup_state, hwake k hk]

end MyOS.Proc
