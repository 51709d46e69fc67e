import MyOS.Proc.Lemmas.Frame

/-!
# `dup` と `close`

`syscall_dup` は 0 から空きを探し、`syscall_close` は 3 未満を拒む。
-/

namespace MyOS.Proc
open MyOS.Lib

variable {K : Kernel} {i fd d n : Nat} {fp : File} {o : Option File}

/-! ## 記述子の表の更新 -/

theorem setFile_files (K : Kernel) (i fd : Nat) (o : Option File) (j d : Nat) :
    ((setFile K i fd o).table j).files_open d = if j = i ∧ d = fd then o else (K.table j).files_open d := by
  unfold setFile
  rw [Kernel.modify_table]
  by_cases hj : j = i
  · subst hj
    simp
  · simp [hj]

@[simp] theorem setFile_nodes (K : Kernel) (i fd : Nat) (o : Option File) : (setFile K i fd o).nodes = K.nodes := rfl

theorem setNode_nodes (K : Kernel) (n m : Nat) (nd : FsNode) :
    (K.setNode n nd).nodes m = if m = n then nd else K.nodes m := rfl

@[simp] theorem incRef_table (K : Kernel) (n : Nat) : (incRef K n).table = K.table := rfl

@[simp] theorem decRef_table (K : Kernel) (n : Nat) : (decRef K n).table = K.table := by
  unfold decRef
  split <;> rfl

@[simp] theorem decRef_freed (K : Kernel) (n : Nat) : (decRef K n).freed = K.freed := by
  unfold decRef
  split <;> rfl

theorem decRef_nodes (K : Kernel) (n m : Nat) :
    ((decRef K n).nodes m).refcount = if m = n then (K.nodes n).refcount - 1 else (K.nodes m).refcount := by
  unfold decRef
  split
  · rw [setNode_nodes]
    split <;> rfl
  · split
    · subst m
      omega
    · rfl

@[simp] theorem close_fs_table (K : Kernel) (n : Nat) : (close_fs K n).table = K.table := by
  unfold close_fs pipe_close_fn
  split
  · rfl
  · split <;> rfl

/-- `drop_file` の後の表。 -/
theorem drop_file_files (K : Kernel) (i fd j d : Nat) :
    ((drop_file K i fd).table j).files_open d = if j = i ∧ d = fd then none else (K.table j).files_open d := by
  have hset : ∀ K : Kernel, ((setFile K i fd none).table j).files_open d =
      if j = i ∧ d = fd then none else (K.table j).files_open d := fun K => setFile_files K i fd none j d
  unfold drop_file
  cases hfile : (K.table i).files_open fd with
  | none =>
    dsimp only
    split
    · next h => rw [h.1, h.2, hfile]
    · rfl
  | some fp =>
    dsimp only
    split
    · rw [free_node]
      dsimp only
      rw [close_fs_table, hset]
      simp [Kernel.release]
    · rw [hset]
      simp [Kernel.release]

theorem drop_files_files (K : Kernel) (i : Nat) (fds : List Nat) (j d : Nat) :
    ((drop_files K i fds).table j).files_open d = if j = i ∧ d ∈ fds then none else (K.table j).files_open d := by
  induction fds generalizing K with
  | nil => simp [drop_files]
  | cons fd fds ih =>
    have hrest : drop_files K i (fd :: fds) = drop_files (drop_file K i fd) i fds := rfl
    rw [hrest, ih, drop_file_files]
    by_cases hj : j = i <;> by_cases hd : d = fd <;> by_cases hmem : d ∈ fds <;> simp [hj, hd, hmem]

theorem free_fd_some (h : free_fd K i n = some d) :
    n ≤ d ∧ d < MAX_FILES ∧ (K.table i).files_open d = none ∧ ∀ s, n ≤ s → s < d → ((K.table i).files_open s).isSome := by
  unfold free_fd at h
  rw [List.find?_range_eq_some] at h
  obtain ⟨hd, hmem, hleast⟩ := h
  simp only [Bool.and_eq_true, decide_eq_true_eq, Option.isNone_iff_eq_none] at hd
  refine ⟨hd.1, List.mem_range.mp hmem, hd.2, fun s hns hs => ?_⟩
  have := hleast s hs
  simpa [hns, Option.isSome_iff_ne_none] using this

/-! ## `dup` の逆 -/

/-- `dup` の後の状態 `K'` で、`d` は `fd` と同じノードを同じ許可で指し、`close(d)` は 0 を返して、表と
    すべての `refcount` を元の状態 `K` に戻す。解放したノードに `refcount` はない。 -/
structure DupClosed (K K' : Kernel) (i fd d : Nat) : Prop where
  free : (K.table i).files_open d = none
  same : ∃ fp fp', (K.table i).files_open fd = some fp ∧ (K'.table i).files_open d = some fp' ∧
    fp'.file = fp.file ∧ fp'.flags = fp.flags
  returns : (syscall_close K' i d).2 = 0
  files : ∀ j, ((syscall_close K' i d).1.table j).files_open = (K.table j).files_open
  refs : ∀ n, ((syscall_close K' i d).1.nodes n).refcount = (K.nodes n).refcount
  kept : (syscall_close K' i d).1.freed = K.freed

/-- 0 から 2 の記述子が開いていて、ノードの `refcount` は正で、増やしても折り返さない。 -/
def DupCloses (K : Kernel) (i fd : Nat) : Prop :=
  (∀ s < 3, ((K.table i).files_open s).isSome) ∧
    ∀ fp, (K.table i).files_open fd = some fp → 0 < (K.nodes fp.file).refcount ∧ (K.nodes fp.file).refcount + 1 < 2 ^ 32

/-- 失敗しない `dup` がすること。 -/
theorem dup_returns (hd : (syscall_dup K i fd).2 = d) (hne : d ≠ NEG1) :
    ∃ fp, (K.table i).files_open fd = some fp ∧ free_fd K i 0 = some d ∧
      (syscall_dup K i fd).1 = share_file K i d fp.flags fp.file := by
  unfold syscall_dup at hd ⊢
  split at hd
  · exact absurd hd.symm hne
  next hfd =>
    rw [if_neg hfd]
    cases hfile : (K.table i).files_open fd with
    | none =>
      rw [hfile] at hd
      exact absurd hd.symm hne
    | some fp =>
      rw [hfile] at hd
      cases hfree : free_fd K i 0 with
      | none =>
        rw [hfree] at hd
        exact absurd hd.symm hne
      | some d' =>
        rw [hfree] at hd
        have hd' : d' = d := hd
        subst hd'
        exact ⟨fp, rfl, rfl, rfl⟩

/-- 新しい項目を閉じると、表は元に戻る。 -/
theorem drop_share_files (hfree : (K.table i).files_open d = none) (flags n j : Nat) :
    ((drop_file (share_file K i d flags n) i d).table j).files_open = (K.table j).files_open := by
  funext s
  rw [drop_file_files]
  split
  · next h => rw [h.1, h.2, hfree]
  next h =>
    unfold share_file
    rw [setFile_files, if_neg h]
    rfl

/-- 新しい項目を閉じるとき、増やした `refcount` を減らし、0 ならばノードを解放する。 -/
theorem drop_share (K : Kernel) (i d flags n : Nat) :
    let K' := drop_file (share_file K i d flags n) i d
    if add32 (K.nodes n).refcount 1 - 1 = 0 then K'.freed ≠ K.freed
    else K'.freed = K.freed ∧
      ∀ m, (K'.nodes m).refcount = if m = n then add32 (K.nodes n).refcount 1 - 1 else (K.nodes m).refcount := by
  have hfile : ((share_file K i d flags n).table i).files_open d = some ⟨K.next_block, flags, n⟩ := by
    unfold share_file
    rw [setFile_files, if_pos ⟨rfl, rfl⟩]
  have hrefs : ∀ m, ((share_file K i d flags n).nodes m).refcount =
      if m = n then add32 (K.nodes n).refcount 1 else (K.nodes m).refcount := fun m => by
    unfold share_file incRef
    rw [setFile_nodes, setNode_nodes]
    split <;> rfl
  have hdec : ∀ m, ((decRef (share_file K i d flags n) n).nodes m).refcount =
      if m = n then add32 (K.nodes n).refcount 1 - 1 else (K.nodes m).refcount := fun m => by
    rw [decRef_nodes, hrefs, hrefs, if_pos rfl]
    split <;> rfl
  have hzero := hdec n
  rw [if_pos rfl] at hzero
  intro K'
  have hK' : K' = if add32 (K.nodes n).refcount 1 - 1 = 0 then
      free_node (setFile ((decRef (share_file K i d flags n) n).release [K.next_block]) i d none) n
      else setFile ((decRef (share_file K i d flags n) n).release [K.next_block]) i d none := by
    simp only [K', drop_file, hfile]
    rw [← hzero]
    rfl
  have hkept : (setFile ((decRef (share_file K i d flags n) n).release [K.next_block]) i d none).freed = K.freed :=
    decRef_freed _ n
  rw [hK']
  split
  · intro heq
    have hlen := congrArg List.length heq
    have hclose : ∀ K₀ : Kernel, (close_fs K₀ n).freed = K₀.freed := fun K₀ => by
      unfold close_fs pipe_close_fn
      split
      · rfl
      · split <;> rfl
    rw [free_node] at hlen
    simp only [List.length_cons, hclose, hkept] at hlen
    omega
  · exact ⟨hkept, hdec⟩

/-- `dup` の後の `close` が元に戻すのは、ちょうど 0 から 2 が開いていて、`refcount` が正で折り返さない
    ときである。 -/
theorem dup_close_iff (K : Kernel) (i fd d : Nat) (hd : (syscall_dup K i fd).2 = d) (hne : d ≠ NEG1) :
    DupClosed K (syscall_dup K i fd).1 i fd d ↔ DupCloses K i fd := by
  obtain ⟨fp, hfile, hfree, hK'⟩ := dup_returns hd hne
  obtain ⟨-, hmax, hnone, hleast⟩ := free_fd_some hfree
  have hopen : ((share_file K i d fp.flags fp.file).table i).files_open d = some ⟨K.next_block, fp.flags, fp.file⟩ := by
    unfold share_file
    rw [setFile_files, if_pos ⟨rfl, rfl⟩]
  have hclose : 3 ≤ d → syscall_close (share_file K i d fp.flags fp.file) i d =
      (drop_file (share_file K i d fp.flags fp.file) i d, 0) := fun h3 => by
    unfold syscall_close
    have hmax' : ¬MAX_FILES ≤ d := Nat.not_le_of_lt hmax
    rw [if_neg (by omega), hopen]
    rfl
  have hdrop := drop_share K i d fp.flags fp.file
  rw [hK']
  constructor
  · intro h
    have h3 : 3 ≤ d := by
      by_contra hlt
      have hret := h.returns
      unfold syscall_close at hret
      rw [if_pos (by omega)] at hret
      exact Nat.noConfusion hret
    refine ⟨fun s hs => hleast s (Nat.zero_le s) (by omega), fun fp' hfp' => ?_⟩
    cases hfile.symm.trans hfp'
    have hrefs := h.refs fp.file
    have hkept := h.kept
    rw [hclose h3] at hrefs hkept
    dsimp only at hdrop
    split at hdrop
    · exact absurd hkept hdrop
    next hadd =>
      rw [hdrop.2, if_pos rfl] at hrefs
      unfold add32 at hadd hrefs
      omega
  · intro ⟨hlow, hrc⟩
    obtain ⟨hpos, hlt⟩ := hrc fp hfile
    have h3 : 3 ≤ d := by
      by_contra hd3
      have := hlow d (by omega)
      rw [hnone] at this
      exact Bool.false_ne_true this
    have hadd := add32_eq hlt
    rw [hadd, Nat.add_sub_cancel] at hdrop
    dsimp only at hdrop
    rw [if_neg (by omega)] at hdrop
    refine ⟨hnone, ⟨fp, _, hfile, hopen, rfl, rfl⟩, ?_, fun j => ?_, fun m => ?_, ?_⟩
    · rw [hclose h3]
    · rw [hclose h3]
      exact drop_share_files hnone _ _ j
    · rw [hclose h3, hdrop.2]
      split
      · next h => rw [h]
      · rfl
    · rw [hclose h3]
      exact hdrop.1

/-- シェルが動き、`dup(0)` を一度呼んだ後。空きは 3 から後である。 -/
def after_dup : Trace (exec step (boot 1 1 0)) (fun K => K.current_process = some 1 ∧ (syscall_dup K 1 0).2 = 3 ∧
    (((K.table 1).files_open 0).isSome ∧ ((K.table 1).files_open 1).isSome ∧ ((K.table 1).files_open 2).isSome) ∧
    ((K.table 1).files_open 0).map (fun fp => fp.file) = some 0 ∧ (K.nodes 0).refcount = 2) :=
  ⟨start_shell ++ [call 11], by decide +kernel⟩

theorem dup_close_three : ∃ K, Steps step (fun _ _ => True) (boot 1 1 0) K ∧ (syscall_dup K 1 0).2 = 3 ∧
    DupClosed K (syscall_dup K 1 0).1 1 0 3 := by
  obtain ⟨K, hK, -, hd, ⟨h0, h1, h2⟩, hfile, hrc⟩ := after_dup.steps
  refine ⟨K, hK, hd, (dup_close_iff K 1 0 3 hd (by decide)).mpr ⟨fun s hs => ?_, fun fp hfp => ?_⟩⟩
  · match s, hs with
    | 0, _ => exact h0
    | 1, _ => exact h1
    | 2, _ => exact h2
  · rw [hfp] at hfile
    cases fp with
    | mk id flags file =>
      cases Option.some.inj hfile
      simp [hrc]

/-- 動き始めたシェルでは 2 が空いている。`dup(0)` は 2 を返し、`close(2)` は -1 を返す。 -/
def shell_dup : Trace (exec step (boot 1 1 0)) (fun K => K.current_process = some 1 ∧
    ((K.table 1).files_open 0).isSome ∧ (syscall_dup K 1 0).2 = 2 ∧
    (syscall_close (syscall_dup K 1 0).1 1 2).2 = NEG1) :=
  ⟨start_shell, by decide +kernel⟩

theorem dup_not_closed : ∃ K, Steps step (fun _ _ => True) (boot 1 1 0) K ∧ K.current_process = some 1 ∧
    ((K.table 1).files_open 0).isSome ∧ (syscall_dup K 1 0).2 = 2 ∧ ¬DupClosed K (syscall_dup K 1 0).1 1 0 2 := by
  obtain ⟨K, hK, hcur, hopen, hd, hret⟩ := shell_dup.steps
  exact ⟨K, hK, hcur, hopen, hd, fun h => absurd (hret.symm.trans h.returns) (by decide)⟩

end MyOS.Proc
