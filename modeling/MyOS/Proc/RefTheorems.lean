import MyOS.Proc.Lemmas.Refs

/-!
# 参照の数の定理

`refcount` と `FILE` の数、解放したノード。
-/

namespace MyOS.Proc
open MyOS.Lib

variable {K K' K₀ : Kernel} {ev : Event} {i j d fd n m : Nat} {fp : File} {fds : List Nat}

/-! ## 開いたファイルの不変条件 -/

theorem counted_congr (hcount : open_count K' n = open_count K n) (hmounts : K'.mounts = K.mounts) :
    Counted K' n ↔ Counted K n := by
  unfold Counted
  rw [hcount, hmounts]

theorem Counted.of_refers (h : Refers K n j d) : Counted K n := .inl (open_count_pos.mpr ⟨j, d, h⟩)

theorem RefInv.lt (h : RefInv K) (hn : Counted K n) : n < K.next_node := by
  by_contra hge
  obtain ⟨hzero, hglobal⟩ := h.fresh n (by omega)
  rcases hn with hpos | hmem
  · omega
  · simp [is_global, hmem] at hglobal

theorem Balanced.small (hb : Balanced K n) (hmax : K.num_processes ≤ MAX_PROCESSES) :
    (K.nodes n).refcount ≤ MAX_PROCESSES * MAX_FILES := by
  rw [hb]
  exact Nat.le_trans open_count_le (Nat.mul_le_mul_right _ hmax)

theorem RefInv.quiet (h : RefInv K) (hq : Quiet K K') : RefInv K' := by
  have hmounts : K'.mounts = K.mounts := by rw [hq.rest]
  have hin : K'.stdin_node = K.stdin_node := by rw [hq.rest]
  have hout : K'.stdout_node = K.stdout_node := by rw [hq.rest]
  refine ⟨fun n hn => ?_, fun n hn => ?_, ?_, fun hcur hnext => ?_, ?_⟩
  · rw [hq.nodes, hq.open_count]
    exact h.refs n ((counted_congr (hq.open_count n) hmounts).mp hn)
  · rw [hq.open_count, hq.global]
    exact h.fresh n (by rw [hq.rest] at hn; exact hn)
  · rw [hin, hout, hmounts]
    exact h.apart
  · obtain ⟨hnone, hrc⟩ := h.early (hq.cur hcur) (by rw [hq.rest] at hnext; exact hnext)
    rw [hq.nodes, hin, hout]
    exact ⟨fun j d => by rw [hq.files, hnone], hrc⟩
  · rw [hq.rest]
    exact h.freed

/-- 大域のノードが同じで、ノードは増えるだけである。 -/
structure SameNodes (K K' : Kernel) : Prop where
  next_node : K.next_node ≤ K'.next_node
  stdin : K'.stdin_node = K.stdin_node
  stdout : K'.stdout_node = K.stdout_node
  mounts : K'.mounts = K.mounts

structure SameGlobals (K K' : Kernel) : Prop extends SameNodes K K' where
  cur : K'.cur_proccess_id = K.cur_proccess_id

theorem SameGlobals.of_files (h : FileFrame K K') (hnext : K.next_node ≤ K'.next_node) : SameGlobals K K' := by
  refine ⟨⟨hnext, ?_, ?_, ?_⟩, ?_⟩
  all_goals rw [h.rest]

theorem SameNodes.global (h : SameNodes K K') (n : Nat) : is_global K' n = is_global K n := by
  unfold is_global
  rw [h.stdin, h.stdout, h.mounts]

/-- 走っているプロセスのある間の、`early` のほかの条件。 -/
theorem RefInv.of_files (h : RefInv K) (hcur : K.cur_proccess_id ≠ none) (hg : SameGlobals K K')
    (hrefs : ∀ n, Counted K' n → Balanced K' n) (hfresh : ∀ n, K'.next_node ≤ n → open_count K' n = 0)
    (hfreed : ∀ f ∈ K'.freed, f ∈ K.freed ∨ f.refs = 0 ∧ f.global = false) : RefInv K' := by
  refine ⟨hrefs, fun n hn => ⟨hfresh n hn, ?_⟩, ?_, fun hnone => ?_, fun f hf => ?_⟩
  · rw [hg.global]
    exact (h.fresh n (Nat.le_trans hg.next_node hn)).2
  · rw [hg.stdin, hg.stdout, hg.mounts]
    exact h.apart
  · exact absurd (hg.cur ▸ hnone) hcur
  · rcases hfreed f hf with hold | hnew
    · exact h.freed f hold
    · exact hnew

/-! ## 閉じる -/

/-- 大域のノードを指す `FILE` が、閉じた後にも残る。 -/
def Keeps (K : Kernel) (i : Nat) (fds : List Nat) : Prop :=
  ∀ n d, is_global K n = true → d ∈ fds → refers K n i d = true → ∃ j' d', Refers K n j' d' ∧ ¬ (j' = i ∧ d' ∈ fds)

theorem SameGlobals.drop_file (K : Kernel) (i fd : Nat) : SameGlobals K (drop_file K i fd) :=
  .of_files (.drop_file K i fd) (Nat.le_of_eq (drop_file_next K i fd).symm)

/-- 閉じて解放するのは、閉じた後に参照のないノードである。 -/
theorem drop_file_freed (h : (K.table i).files_open fd = some fp) :
    (drop_file K i fd).freed = K.freed ∨ ((drop_file K i fd).nodes fp.file).refcount = 0 ∧
      (drop_file K i fd).freed = ⟨fp.file, open_count (drop_file K i fd) fp.file, is_global K fp.file⟩ :: K.freed := by
  have hdec : (setFile ((decRef K fp.file).release [fp.id]) i fd none).freed = K.freed := decRef_freed K fp.file
  have hglobal : ∀ L : Kernel, FileFrame K L → is_global L fp.file = is_global K fp.file := by
    intro L hL
    rw [hL.rest]
    rfl
  have hset : FileFrame K (setFile ((decRef K fp.file).release [fp.id]) i fd none) :=
    ((FileFrame.decRef K fp.file).trans (.release _ _)).trans (.setFile _ i fd none)
  unfold drop_file
  rw [h]
  dsimp only
  split
  next hzero =>
    refine .inr ⟨?_, ?_⟩
    · rw [free_node_refcount]
      exact hzero
    · unfold free_node
      dsimp only
      rw [close_fs_freed, hdec, hglobal _ (hset.trans (.close_fs _ _))]
      rfl
  · exact .inl hdec

theorem open_count_drop_le (hi : i < K.num_processes) (hfd : fd < MAX_FILES) (n : Nat) :
    open_count (drop_file K i fd) n ≤ open_count K n := by
  cases hfile : (K.table i).files_open fd with
  | none => rw [drop_file_none hfile]
  | some fp =>
    have := open_count_drop hfile hi hfd n
    omega

theorem RefInv.drop_file (h : RefInv K) (hcur : K.cur_proccess_id ≠ none) (hi : i < K.num_processes) (hfd : fd < MAX_FILES)
    (hkeep : ∀ n, is_global K n = true → refers K n i fd = true → ∃ j' d', Refers K n j' d' ∧ ¬ (j' = i ∧ d' = fd)) :
    RefInv (drop_file K i fd) := by
  have hg := SameGlobals.drop_file K i fd
  have hle := open_count_drop_le hi hfd
  have hback : ∀ n, Counted (Proc.drop_file K i fd) n → Counted K n := fun n hn =>
    hn.imp (fun hpos => Nat.lt_of_lt_of_le hpos (hle n)) fun hmem => hg.mounts ▸ hmem
  refine h.of_files hcur hg (fun n hn => Balanced.drop (h.refs n (hback n hn)) hi hfd) (fun n hn => ?_) fun f hf => ?_
  · have := (h.fresh n (Nat.le_trans hg.next_node hn)).1
    have := hle n
    omega
  · cases hfile : (K.table i).files_open fd with
    | none =>
      rw [drop_file_none hfile] at hf
      exact .inl hf
    | some fp =>
      have href : refers K fp.file i fd = true := refers_iff.mpr ⟨fp, hfile, rfl⟩
      rcases drop_file_freed hfile with heq | ⟨hzero, heq⟩
      · rw [heq] at hf
        exact .inl hf
      · rw [heq] at hf
        rcases List.mem_cons.mp hf with rfl | hf
        · have hbal : Balanced (Proc.drop_file K i fd) fp.file :=
            Balanced.drop (h.refs _ (.of_refers ⟨hi, hfd, href⟩)) hi hfd
          have hcount : open_count (Proc.drop_file K i fd) fp.file = 0 := hbal.symm.trans hzero
          refine .inr ⟨hcount, ?_⟩
          by_contra hglobal
          obtain ⟨j', d', ⟨hj', hd', href'⟩, hne⟩ := hkeep fp.file (by simpa using hglobal) href
          have hpos : 0 < open_count (Proc.drop_file K i fd) fp.file := by
            refine open_count_pos.mpr ⟨j', d', (drop_file_num K i fd).symm ▸ hj', hd', ?_⟩
            rw [← href']
            refine refers_congr ?_
            rw [drop_file_files, if_neg hne]
          omega
        · exact .inl hf

theorem RefInv.drop_files (h : RefInv K) (hcur : K.cur_proccess_id ≠ none) (hi : i < K.num_processes)
    (hfds : ∀ fd ∈ fds, fd < MAX_FILES) (hkeep : Keeps K i fds) : RefInv (drop_files K i fds) := by
  induction fds generalizing K with
  | nil => exact h
  | cons fd fds ih =>
    have hg := SameGlobals.drop_file K i fd
    have hstay : ∀ n j' d', Refers K n j' d' → ¬ (j' = i ∧ d' ∈ fd :: fds) → Refers (Proc.drop_file K i fd) n j' d' := by
      rintro n j' d' ⟨hj', hd', href⟩ hne
      refine ⟨(drop_file_num K i fd).symm ▸ hj', hd', ?_⟩
      rw [← href]
      refine refers_congr ?_
      rw [drop_file_files, if_neg]
      rintro ⟨rfl, rfl⟩
      exact hne ⟨rfl, List.mem_cons_self⟩
    have hone : RefInv (Proc.drop_file K i fd) := by
      refine h.drop_file hcur hi (hfds fd List.mem_cons_self) fun n hn href => ?_
      obtain ⟨j', d', href', hne⟩ := hkeep n fd hn List.mem_cons_self href
      refine ⟨j', d', href', ?_⟩
      rintro ⟨rfl, rfl⟩
      exact hne ⟨rfl, List.mem_cons_self⟩
    refine ih hone (hg.cur ▸ hcur) ((drop_file_num K i fd).symm ▸ hi) (fun d hd => hfds d (List.mem_cons_of_mem fd hd)) ?_
    intro n d hn hd href
    rw [hg.global] at hn
    obtain ⟨fp, hfile, hnode⟩ := refers_iff.mp href
    rw [drop_file_files] at hfile
    split at hfile
    · cases hfile
    · obtain ⟨j', d', href', hne⟩ := hkeep n d hn (List.mem_cons_of_mem fd hd) (refers_iff.mpr ⟨fp, hfile, hnode⟩)
      exact ⟨j', d', hstay n j' d' href' hne, fun heq => hne ⟨heq.1, List.mem_cons_of_mem fd heq.2⟩⟩

theorem RefInv.clears (h : RefInv K) (hcur : K.cur_proccess_id ≠ none) (hi : i < K.num_processes)
    (hfds : ∀ fd ∈ fds, fd < MAX_FILES) (hkeep : Keeps K i fds) (hc : Clears K i fds K') : RefInv K' := by
  obtain ⟨L, hL, hK'⟩ := hc
  refine (RefInv.drop_files (h.quiet hL) (fun hnone => hcur (hL.cur hnone)) (hL.num.symm ▸ hi) hfds ?_).quiet hK'
  intro n d hn hd href
  obtain ⟨j', d', ⟨hj', hd', href'⟩, hne⟩ := hkeep n d (hL.global n ▸ hn) hd (hL.refers n i d ▸ href)
  exact ⟨j', d', ⟨hL.num.symm ▸ hj', hd', (hL.refers n j' d').trans href'⟩, hne⟩

/-! ## 開く -/

theorem RefInv.place (h : RefInv K) (hcur : K.cur_proccess_id ≠ none) (hi : i < K.num_processes) (hfd : fd < MAX_FILES)
    (hfree : (K.table i).files_open fd = none) (hn : fp.file < K.next_node)
    (hrc : (K.nodes fp.file).refcount = open_count K fp.file + 1) : RefInv (setFile K i fd (some fp)) := by
  have hcount : ∀ m, open_count (setFile K i fd (some fp)) m = open_count K m + if m = fp.file then 1 else 0 :=
    fun m => open_count_place fp hi hfd (refers_none hfree m)
  refine h.of_files hcur (.of_files (.setFile K i fd _) (Nat.le_refl _)) (fun m hm => ?_) (fun m hm => ?_) fun f hf => .inl hf
  · show (K.nodes m).refcount = _
    rw [hcount]
    split
    next hm' => rw [hm', hrc]
    next hm' =>
      refine h.refs m (hm.imp (fun hpos => ?_) id)
      rwa [hcount, if_neg hm'] at hpos
  · rw [hcount, if_neg fun heq => by rw [heq] at hm; exact absurd hm (Nat.not_le_of_lt hn)]
    exact (h.fresh m hm).1

theorem RefInv.share (h : RefInv K) (hcur : K.cur_proccess_id ≠ none) (hmax : K.num_processes ≤ MAX_PROCESSES)
    (hi : i < K.num_processes) (hfd : fd < MAX_FILES) (hfree : (K.table i).files_open fd = none) (hb : Balanced K n)
    (hn : n < K.next_node) (flags : Nat) : RefInv (share_file K i fd flags n) := by
  have hcount : ∀ m, open_count (share_file K i fd flags n) m = open_count K m + if m = n then 1 else 0 :=
    fun m => open_count_share flags hi hfd (refers_none hfree m) n
  have hlt : (K.nodes n).refcount + 1 < 2 ^ 32 :=
    Nat.lt_of_le_of_lt (Nat.succ_le_succ (hb.small hmax)) (by simp [MAX_PROCESSES, MAX_FILES])
  refine h.of_files hcur (.of_files (.share_file ..) (Nat.le_refl _)) (fun m hm => ?_) (fun m hm => ?_) fun f hf => .inl hf
  · have hold : Balanced K m := by
      by_cases hmn : m = n
      · rw [hmn]
        exact hb
      · refine h.refs m (hm.imp (fun hpos => ?_) id)
        rwa [hcount, if_neg hmn] at hpos
    exact hold.share (fun _ => hlt) flags hi hfd (refers_none hfree m)
  · rw [hcount, if_neg fun heq => by rw [heq] at hm; exact absurd hm (Nat.not_le_of_lt hn)]
    exact (h.fresh m hm).1

/-- まだ指されていないノードを用意する。 -/
theorem RefInv.new_nodes (h : RefInv K) (hcur : K.cur_proccess_id ≠ none) (hf : FileFrame K K')
    (hfiles : ∀ j, (K'.table j).files_open = (K.table j).files_open) (hnext : K.next_node ≤ K'.next_node)
    (hnodes : ∀ m, m < K.next_node → K'.nodes m = K.nodes m) (hfreed : K'.freed = K.freed) : RefInv K' := by
  have hcount : ∀ m, open_count K' m = open_count K m := fun m => open_count_congr hf.num fun j d _ _ => by rw [hfiles]
  have hg := SameGlobals.of_files hf hnext
  refine h.of_files hcur hg (fun m hm => ?_) (fun m hm => ?_) fun f hf' => .inl (hfreed ▸ hf')
  · have hold := (counted_congr (hcount m) hg.mounts).mp hm
    show (K'.nodes m).refcount = open_count K' m
    rw [hnodes m (h.lt hold), hcount]
    exact h.refs m hold
  · rw [hcount]
    exact (h.fresh m (Nat.le_trans hnext hm)).1

theorem RefInv.free_node (h : RefInv K) (hcur : K.cur_proccess_id ≠ none) (hcount : open_count K n = 0)
    (hglobal : is_global K n = false) : RefInv (free_node K n) := by
  have hf := FileFrame.free_node K n
  have hsame : ∀ m, open_count (Proc.free_node K n) m = open_count K m := fun m =>
    open_count_congr hf.num fun j d _ _ => by rw [free_node_table]
  have hnext : (Proc.free_node K n).next_node = K.next_node := close_fs_next K n
  have hg := SameGlobals.of_files hf (Nat.le_of_eq hnext.symm)
  refine h.of_files hcur hg (fun m hm => ?_) (fun m hm => ?_) fun f hf' => ?_
  · show ((Proc.free_node K n).nodes m).refcount = _
    rw [free_node_refcount, hsame]
    exact h.refs m ((counted_congr (hsame m) hg.mounts).mp hm)
  · rw [hsame]
    exact (h.fresh m (hnext ▸ hm)).1
  · have hrec : (Proc.free_node K n).freed = ⟨n, open_count (Proc.free_node K n) n, is_global (Proc.free_node K n) n⟩ :: (close_fs K n).freed := rfl
    rw [hrec, close_fs_freed, hsame, hg.global, hcount, hglobal] at hf'
    rcases List.mem_cons.mp hf' with rfl | hf'
    · exact .inr ⟨rfl, rfl⟩
    · exact .inl hf'

/-! ## 呼び出し -/

theorem RefInv.fopen (h : RefInv K) (hon : OnCpu i K) (hmax : K.num_processes ≤ MAX_PROCESSES) (look : Lookup) (modes : Nat) :
    RefInv (fopen K i look modes).1 := by
  have hcur : K.cur_proccess_id ≠ none := by simp [hon.cur]
  rcases fopen_cases K i look modes with hsame | ⟨L, n, hget, hout⟩
  · rw [hsame]
    exact h
  have hL : RefInv L ∧ OnCpu i L ∧ L.num_processes ≤ MAX_PROCESSES ∧ Balanced L n ∧ n < L.next_node := by
    rcases get_node_cases hget with ⟨rfl, rfl⟩ | ⟨rfl, hmem⟩
    · have hf : FileFrame K { K.setNode K.next_node {} with next_node := K.next_node + 1 } := ⟨fun _ => rfl, rfl⟩
      have hnew : RefInv { K.setNode K.next_node {} with next_node := K.next_node + 1 } :=
        h.new_nodes hcur hf (fun _ => rfl) (Nat.le_succ _) (fun m hm => if_neg (Nat.ne_of_lt hm)) rfl
      refine ⟨hnew, hon.files hf, hmax, ?_, Nat.lt_succ_self _⟩
      unfold Balanced
      rw [show open_count { K.setNode K.next_node {} with next_node := K.next_node + 1 } K.next_node = open_count K K.next_node from rfl,
        (h.fresh K.next_node (Nat.le_refl _)).1, setNode_nodes, if_pos rfl]
    · have hn : Counted L n := .inr hmem
      exact ⟨h, hon, hmax, h.refs n hn, h.lt hn⟩
  obtain ⟨hL, hon, hmax, hb, hn⟩ := hL
  rcases hout with heq | ⟨fd, hfd, heq⟩
  · rw [heq]
    exact hL
  · rw [heq]
    obtain ⟨-, hlt, hfree, -⟩ := free_fd_some hfd
    exact hL.share (by simp [hon.cur]) hmax hon.lt hlt hfree hb hn modes

theorem RefInv.dup (h : RefInv K) (hon : OnCpu i K) (hmax : K.num_processes ≤ MAX_PROCESSES) (fd : Nat) :
    RefInv (syscall_dup K i fd).1 := by
  unfold syscall_dup
  split
  · exact h
  next hfd =>
    split
    · exact h
    next fp hfile =>
      split
      · exact h
      next d hd =>
        obtain ⟨-, hlt, hfree, -⟩ := free_fd_some hd
        have hn : Counted K fp.file := .of_refers ⟨hon.lt, by omega, refers_iff.mpr ⟨fp, hfile, rfl⟩⟩
        exact h.share (by simp [hon.cur]) hmax hon.lt hlt hfree (h.refs _ hn) (h.lt hn) fp.flags

theorem RefInv.close (h : RefInv K) (hon : OnCpu i K)
    (hkeep : 3 ≤ fd → ∀ n, is_global K n = true → refers K n i fd = true → ∃ j' d', Refers K n j' d' ∧ ¬ (j' = i ∧ d' = fd)) :
    RefInv (syscall_close K i fd).1 := by
  unfold syscall_close
  split
  · exact h
  · split
    · exact h
    · exact h.drop_file (by simp [hon.cur]) hon.lt (by omega) (hkeep (by omega))

/-- 開いた写し先は、先に閉じる。 -/
theorem RefInv.dup2 {old_fd new_fd : Nat} (h : RefInv K) (hon : OnCpu i K) (hmax : K.num_processes ≤ MAX_PROCESSES)
    (hlow : ∀ fp, Dup2Of K i old_fd new_fd fp → new_fd < 3 → (K.table i).files_open new_fd = none)
    (hkeep : ∀ fp, Dup2Of K i old_fd new_fd fp → 3 ≤ new_fd → ∀ n, is_global K n = true → refers K n i new_fd = true →
      ∃ j' d', Refers K n j' d' ∧ ¬ (j' = i ∧ d' = new_fd)) : RefInv (syscall_dup2 K i old_fd new_fd).1 := by
  unfold syscall_dup2
  split
  · exact h
  next hrange =>
    split
    · exact h
    next hne =>
      split
      · exact h
      next fp hfile =>
        have hof : Dup2Of K i old_fd new_fd fp := ⟨by omega, by omega, hne, hfile⟩
        have hshare : ∀ L : Kernel, RefInv L → OnCpu i L → L.num_processes ≤ MAX_PROCESSES →
            (L.table i).files_open new_fd = none → (L.table i).files_open old_fd = some fp →
            RefInv (share_file L i new_fd fp.flags fp.file) := by
          intro L hL hon hmax hfree hfile
          have hn : Counted L fp.file := .of_refers ⟨hon.lt, hof.1, refers_iff.mpr ⟨fp, hfile, rfl⟩⟩
          exact hL.share (by simp [hon.cur]) hmax hon.lt hof.2.1 hfree (hL.refs _ hn) (hL.lt hn) fp.flags
        dsimp only
        split
        next hopen =>
          have h3 : 3 ≤ new_fd := by
            by_contra hlt
            rw [hlow fp hof (by omega)] at hopen
            cases hopen
          have hclose : (syscall_close K i new_fd).1 = Proc.drop_file K i new_fd := by
            unfold syscall_close
            rw [if_neg (by omega), if_neg (by simp [Option.isSome_iff_ne_none.mp hopen])]
          have hmax' : (Proc.drop_file K i new_fd).num_processes ≤ MAX_PROCESSES := by rwa [drop_file_num]
          rw [hclose]
          refine hshare _ ?_ (hon.files (.drop_file K i new_fd)) hmax' ?_ ?_
          · exact h.drop_file (by simp [hon.cur]) hon.lt hof.2.1 (hkeep fp hof h3)
          · rw [drop_file_files, if_pos ⟨rfl, rfl⟩]
          · rw [drop_file_files, if_neg fun heq => hne heq.2]
            exact hfile
        next hopen => exact hshare K h hon hmax (by simpa using hopen) hfile

theorem RefInv.pipe (h : RefInv K) (hon : OnCpu i K) (ptr : Nat) (copied : Bool) : RefInv (syscall_pipe K i ptr copied).1 := by
  obtain ⟨L, rfp, wfp, hL⟩ : ∃ L rfp wfp, pipe_create K (K.table i).pid = (L, rfp, wfp) := ⟨_, _, _, rfl⟩
  have hnew := new_pipe_spec K (K.table i).pid
  simp only [hL] at hnew
  have hon' := hon.files hnew.frame
  have hcur : L.cur_proccess_id ≠ none := by simp [hon'.cur]
  have hinv : RefInv L := h.new_nodes (by simp [hon.cur]) hnew.frame (fun j => by rw [hnew.files]) (by rw [hnew.next]; omega)
    (fun m hm => hnew.old m fun w => by omega) hnew.freed
  -- 新しいノードは、まだ指されていない
  have hfresh : ∀ m, K.next_node ≤ m → open_count L m = 0 ∧ is_global L m = false := by
    intro m hm
    obtain ⟨hcount, hglobal⟩ := h.fresh m hm
    refine ⟨?_, ?_⟩
    · rw [← hcount]
      exact open_count_congr hnew.frame.num fun j d _ _ => by rw [hnew.files]
    · rw [← hglobal]
      exact (SameGlobals.of_files hnew.frame (by rw [hnew.next]; omega)).global m
  have hread := hfresh rfp.file (by rw [hnew.read])
  have hwrite := hfresh wfp.file (by rw [hnew.write]; omega)
  rcases syscall_pipe_cases K i ptr copied L rfp wfp hL with ⟨-, heq⟩ | ⟨-, ⟨-, heq⟩ | ⟨rfd, wfd, hr, hw, heq⟩⟩
  · rw [heq]
    exact h
  · rw [heq]
    exact hinv.quiet ⟨⟨fun _ _ => rfl, id, rfl⟩, fun _ => rfl⟩
  · obtain ⟨-, hrlt, hrfree, -⟩ := free_fd_some hr
    obtain ⟨hle, hwlt, hwfree, -⟩ := free_fd_some hw
    rw [← hnew.files] at hrfree hwfree
    rw [heq]
    split
    · have hone : RefInv (setFile L i rfd (some rfp)) := by
        refine hinv.place hcur hon'.lt hrlt hrfree (by rw [hnew.read, hnew.next]; omega) ?_
        rw [hnew.refcount (.inl rfl), hread.1]
      refine hone.place hcur hon'.lt hwlt ?_ ?_ ?_
      · rw [setFile_files, if_neg (by omega), hwfree]
      · show wfp.file < L.next_node
        rw [hnew.write, hnew.next]
        omega
      · rw [open_count_place rfp hon'.lt hrlt (refers_none hrfree _), if_neg (by rw [hnew.read, hnew.write]; omega), hwrite.1]
        exact hnew.refcount (.inr rfl)
    · have hundo := Quiet.unplace L i rfp wfp hrfree hwfree [rfp.id, wfp.id]
      have hback := hinv.quiet hundo
      generalize (setFile (setFile (setFile (setFile L i rfd _) i wfd _) i rfd none) i wfd none).release _ = M at *
      have hcurM : M.cur_proccess_id ≠ none := fun hnone => hcur (hundo.cur hnone)
      rw [← hundo.open_count, ← hundo.global] at hread hwrite
      have hframe := FileFrame.free_node M rfp.file
      refine (hback.free_node hcurM hread.1 hread.2).free_node (by rw [hframe.rest]; exact hcurM) ?_ ?_
      · rw [← hwrite.1]
        exact open_count_congr hframe.num fun j d _ _ => by rw [free_node_table]
      · rw [← hwrite.2]
        exact (SameGlobals.of_files hframe (Nat.le_of_eq (close_fs_next M rfp.file).symm)).global wfp.file

theorem RefInv.file_call {env : Env} {r : Regs} (h : RefInv K) (hc : Calls K ev i env r) (hmax : K.num_processes ≤ MAX_PROCESSES)
    (hok : NodeSafe K ev) (hargs : HasArgs ev) (hf : FileCall K i env r K') : RefInv K' := by
  -- 残る `FILE` は、閉じる記述子のものではない
  have hkeep : ∀ d, Closes K ev i d → d < MAX_FILES → ∀ n, is_global K n = true → refers K n i d = true →
      ∃ j' d', Refers K n j' d' ∧ ¬ (j' = i ∧ d' = d) := by
    intro d hcl hd n hn href
    obtain ⟨j', d', href', hne⟩ := hok.keeps hargs n i d hn ⟨hc.lt, hd, href⟩ hcl
    refine ⟨j', d', href', ?_⟩
    rintro ⟨rfl, rfl⟩
    exact hne hcl
  cases hf with
  | fopen heax => exact h.fopen hc.toOnCpu hmax env.look env.modes
  | close heax =>
    by_cases hd : r.ebx < MAX_FILES
    · exact h.close hc.toOnCpu fun h3 => hkeep _ (.close hc heax h3) hd
    · unfold syscall_close
      rw [if_pos (by omega)]
      exact h
  | dup heax => exact h.dup hc.toOnCpu hmax r.ebx
  | dup2 heax =>
    exact h.dup2 hc.toOnCpu hmax (fun fp hof hlow => hok.dup2 i env r fp hc heax hof hlow)
      fun fp hof h3 => hkeep _ (.dup2 hc heax hof h3) hof.2.1
  | pipe heax => exact h.pipe hc.toOnCpu r.ebx env.copied

/-! ## 項目を加える -/

theorem SameGlobals.fork {slot : Nat} {r : Regs} (hf : fork_into K i slot r = some K') :
    SameGlobals K K' ∧ K'.next_node = K.next_node ∧ K'.freed = K.freed := by
  have hshare := share_files_frame i slot (List.range MAX_FILES) (fork_base K i slot r)
  have hnext : K'.next_node = K.next_node := by
    rw [fork_into_eq hf]
    exact hshare.1
  refine ⟨⟨⟨Nat.le_of_eq hnext.symm, ?_, ?_, ?_⟩, ?_⟩, hnext, ?_⟩
  · rw [fork_into_rest hf]
  · rw [fork_into_rest hf]
  · rw [fork_into_rest hf]
  · rw [fork_into_rest hf]
  · rw [fork_into_eq hf]
    exact hshare.2

theorem RefInv.fork {slot : Nat} {r : Regs} (h : RefInv K) (hon : OnCpu i K) (hmax : K.num_processes ≤ MAX_PROCESSES)
    (hslot : fork_slot K = some slot) (hclosed : slot < K.num_processes → ∀ d, d < MAX_FILES → (K.table slot).files_open d = none)
    (hf : fork_into K i slot r = some K') : RefInv K' := by
  have hne := hon.ne_slot hslot
  have hle : slot ≤ K.num_processes := by
    rcases fork_slot_spec hslot with ⟨hlt, -⟩ | ⟨heq, -⟩ <;> omega
  have hrow : ∀ n, slot < K.num_processes → row_count K n slot = 0 := by
    intro n hlt
    refine List.countP_eq_zero.mpr fun d hd => ?_
    unfold refers
    rw [hclosed hlt d (List.mem_range.mp hd)]
    simp
  have hcount : ∀ n, open_count K' n = open_count K n + row_count K n i := fun n => open_count_fork hne hle (hrow n) hf
  -- 親の行が指すノードは、もう数えている
  have hin : ∀ n, 0 < row_count K n i → 0 < open_count K n := by
    intro n hpos
    obtain ⟨d, hd, href⟩ := row_count_pos.mp hpos
    exact open_count_pos.mpr ⟨i, d, hon.lt, hd, href⟩
  obtain ⟨hg, hnext, hfreed⟩ := SameGlobals.fork hf
  refine h.of_files (by simp [hon.cur]) hg (fun n hn => ?_) (fun n hn => ?_) fun f hf' => .inl (hfreed ▸ hf')
  · have hold : Balanced K n := by
      refine h.refs n (hn.imp (fun hpos => ?_) fun hmem => hg.mounts ▸ hmem)
      rw [hcount] at hpos
      by_contra hzero
      have := hin n (by omega)
      omega
    have hlt : (K.nodes n).refcount + row_count K n i < 2 ^ 32 :=
      Nat.lt_of_le_of_lt (Nat.add_le_add (hold.small hmax) row_count_le) (by simp [MAX_PROCESSES, MAX_FILES])
    exact hold.fork hne hle (hrow n) hlt hf
  · have hzero := (h.fresh n (hnext ▸ hn)).1
    rw [hcount]
    by_contra hpos
    have := hin n (by omega)
    omega

/-- 表を延ばさない `create_process`。 -/
theorem RefInv.not_created {pid : Nat} {load : Option Image} (h : RefInv K) (hcr : create_process K pid load = some K')
    (hnum : K'.num_processes = K.num_processes) (hearly : K' = K ∨ K'.cur_proccess_id ≠ none ∨ K'.next_pid ≠ 1) : RefInv K' := by
  rcases hearly with rfl | hearly
  · exact h
  have hrest := (CreateFrame.create hcr).rest
  have hcount := CreateFrame.open_count hcr hnum
  refine ⟨fun n hn => ?_, fun n hn => ?_, ?_, fun hcur hnext => ?_, ?_⟩
  · have hold := h.refs n ((counted_congr (hcount n) (by rw [hrest])).mp hn)
    rw [hcount]
    rw [hrest]
    exact hold
  · rw [hcount]
    rw [hrest] at hn ⊢
    exact h.fresh n hn
  · rw [hrest]
    exact h.apart
  · rcases hearly with hne | hne
    · exact absurd hcur hne
    · exact absurd hnext hne
  · rw [hrest]
    exact h.freed

/-- 記述子 0 と 1 だけを開いた行。 -/
theorem row_count_boot (hfiles : ∀ d, ((K.table j).files_open d).map (fun fp => fp.file) =
      if d = 0 then some K.stdin_node else if d = 1 then some K.stdout_node else none)
    (hne : K.stdin_node ≠ K.stdout_node) (n : Nat) :
    row_count K n j = if n = K.stdin_node ∨ n = K.stdout_node then 1 else 0 := by
  have hrow : ∀ d, refers K n j d = decide (d = 0 ∧ n = K.stdin_node ∨ d = 1 ∧ n = K.stdout_node) := by
    intro d
    have hany : refers K n j d = (((K.table j).files_open d).map fun fp => fp.file).any (· == n) := by
      unfold refers
      rw [Option.any_map]
    have hbeq : ∀ a : Nat, (a == n) = decide (n = a) := fun a => by rw [Bool.beq_comm]; rfl
    rw [hany, hfiles]
    by_cases h0 : d = 0
    · simp [h0, hbeq]
    · by_cases h1 : d = 1
      · simp [h1, hbeq]
      · simp [h0, h1]
  have hcount : row_count K n j = (List.range MAX_FILES).countP
      fun d => decide (d = 0 ∧ n = K.stdin_node ∨ d = 1 ∧ n = K.stdout_node) :=
    List.countP_congr fun d _ => by rw [hrow]
  rw [hcount]
  by_cases hin : n = K.stdin_node
  · simp only [hin, hne, and_true, and_false, or_false, if_true]
    decide
  · by_cases hout : n = K.stdout_node
    · simp only [hout, Ne.symm hne, and_true, and_false, or_true, false_or, if_true]
      decide
    · simp [hin, hout]

/-- 最初のプロセスを作る。 -/
theorem RefInv.booted {img : Image} (h : RefInv K) (hcur : K.cur_proccess_id = none) (hnext : K.next_pid = 1)
    (hcr : create_process K 0 (some img) = some K') (hnum : K'.num_processes = K.num_processes + 1) : RefInv K' := by
  obtain ⟨hnone, hrc⟩ := h.early hcur hnext
  have hf := CreateFrame.create hcr
  have hrest := hf.rest
  have hin : K'.stdin_node = K.stdin_node := by rw [hrest]
  have hout : K'.stdout_node = K.stdout_node := by rw [hrest]
  have hnodes : K'.nodes = K.nodes := by rw [hrest]
  have hmounts : K'.mounts = K.mounts := by rw [hrest]
  obtain ⟨htable, hpid⟩ : (∃ p : Pcb, K'.table K.num_processes = p ∧ p.files_open = (new_pcb K 0 (K.table K.num_processes)).files_open) ∧
      K'.next_pid = add32 K.next_pid 1 := by
    rcases create_process_cases hcr with ⟨rfl, -⟩ | ⟨-, ⟨hload, -⟩ | ⟨img', -, ⟨-, rfl⟩ | ⟨k, -, h0, -⟩⟩⟩
    · omega
    · cases hload
    · exact ⟨⟨_, install_self _ img', by rw [← reserve_self]; rfl⟩, rfl⟩
    · exact absurd rfl h0
  have hzero : ∀ n, open_count K n = 0 := by
    intro n
    by_contra hpos
    obtain ⟨j, d, -, -, href⟩ := open_count_pos.mp (Nat.pos_of_ne_zero hpos)
    obtain ⟨fp, hfp, -⟩ := refers_iff.mp href
    rw [hnone] at hfp
    cases hfp
  have hcount : ∀ n, open_count K' n = if n = K'.stdin_node ∨ n = K'.stdout_node then 1 else 0 := by
    intro n
    rw [open_count_succ hnum (fun j hj => by rw [hf.old j hj]) n, hzero, Nat.zero_add]
    refine row_count_boot (fun d => ?_) (by rw [hin, hout]; exact h.apart.1) n
    obtain ⟨p, hp, hfiles⟩ := htable
    rw [hp, hfiles, hin, hout]
    unfold new_pcb init_signals_default
    dsimp only
    by_cases h0 : d = 0
    · simp [h0]
    · by_cases h1 : d = 1
      · simp [h1]
      · simp [h0, h1, hnone]
  have hapart : K'.stdin_node ≠ K'.stdout_node ∧ K'.stdin_node ∉ K'.mounts ∧ K'.stdout_node ∉ K'.mounts := by
    rw [hin, hout, hmounts]
    exact h.apart
  refine ⟨fun n hn => ?_, fun n hn => ?_, hapart, fun _ hnext' => ?_, ?_⟩
  · rw [hcount, hnodes]
    split
    next hstd =>
      rcases hstd with rfl | rfl
      · rw [hin, hrc.1]
      · rw [hout, hrc.2]
    next hstd =>
      rcases hn with hpos | hmem
      · rw [hcount, if_neg hstd] at hpos
        omega
      · rw [h.refs n (.inr (hmounts ▸ hmem)), hzero]
  · have hglobal := (h.fresh n (by rw [hrest] at hn; exact hn)).2
    have hsame : is_global K' n = is_global K n := by
      unfold is_global
      rw [hin, hout, hmounts]
    rw [hsame]
    refine ⟨?_, hglobal⟩
    simp only [is_global, Bool.or_eq_false_iff, beq_eq_false_iff_ne] at hglobal
    rw [hcount, if_neg]
    rw [hin, hout]
    exact not_or.mpr hglobal.1
  · rw [hpid, hnext] at hnext'
    cases hnext'
  · rw [hrest]
    exact h.freed

theorem RefInv.create {pid : Nat} {load : Option Image} (h : RefInv K) (hc : Creates K ev pid load) (hok : NodeSafe K ev)
    (hargs : HasArgs ev) (hcr : create_process K pid load = some K') : RefInv K' := by
  have hcur := congrArg Kernel.cur_proccess_id (CreateFrame.create hcr).rest
  cases hc with
  | boot hnone hnext =>
    rcases create_process_cases hcr with ⟨rfl, -⟩ | ⟨-, ⟨rfl, rfl⟩ | ⟨img, rfl, ⟨-, rfl⟩ | ⟨k, -, h0, -⟩⟩⟩
    · exact h
    · refine h.not_created hcr rfl (.inr (.inr ?_))
      show add32 K.next_pid 1 ≠ 1
      rw [hnext]
      decide
    · exact h.booted hnone hnext hcr rfl
    · exact absurd rfl h0
  | @spawn _ i env r hc heax =>
    have hcur' : K'.cur_proccess_id ≠ none := by
      rw [hcur]
      simp [hc.cur]
    rcases create_process_cases hcr with ⟨rfl, -⟩ | ⟨hlt, ⟨-, rfl⟩ | ⟨img, hload, -⟩⟩
    · exact h
    · exact h.not_created hcr rfl (.inr (.inl hcur'))
    · rcases hok.spawn hargs i env r hc heax with hnone | hmax
      · rw [hload] at hnone
        cases hnone
      · omega

/-! ## 一歩と実行 -/

theorem Keeps.of_closes (hok : NodeSafe K₀ ev) (hargs : HasArgs ev) (hi : i < K₀.num_processes)
    (hfds : ∀ d ∈ fds, d < MAX_FILES ∧ Closes K₀ ev i d) : Keeps K₀ i fds := by
  intro n d hn hd href
  obtain ⟨j', d', href', hne⟩ := hok.keeps hargs n i d hn ⟨hi, (hfds d hd).1, href⟩ (hfds d hd).2
  refine ⟨j', d', href', ?_⟩
  rintro ⟨rfl, hd'⟩
  exact hne (hfds d' hd').2

theorem RefInv.unblock {b : Bool} (hs : Synced K₀) (hok : NodeSafe K₀ ev) (hargs : HasArgs ev) (he : Ends K₀ ev i b K)
    (h : RefInv K) : RefInv (unblock_parent K (K.table i).pid b) := by
  have hcur : K.cur_proccess_id ≠ none := by simp [(he.current hs).2]
  rcases unblock_parent_files K (K.table i).pid b with hq | ⟨c, j, rfl, hne, haw, hcl⟩
  · exact h.quiet hq
  · have hci : c ≠ i := by
      rintro rfl
      exact hne (he.current hs).1
    refine h.clears hcur (get_process_by_pid_spec haw.child).1 (fun d hd => List.mem_range.mp hd) ?_ hcl
    intro n d hn hd href
    have hd := List.mem_range.mp hd
    rcases he.files with hq | ⟨fds, hends, hfds⟩
    · rw [hq.global] at hn
      rw [hq.refers] at href
      have hclt := (get_process_by_pid_spec haw.child).1
      rw [hq.num] at hclt
      obtain ⟨j', d', ⟨hj', hd', href'⟩, hno⟩ := hok.keeps hargs n c d hn ⟨hclt, hd, href⟩ (.shared d he haw hci)
      refine ⟨j', d', ⟨hq.num.symm ▸ hj', hd', (hq.refers n j' d').trans href'⟩, ?_⟩
      rintro ⟨rfl, -⟩
      exact hno (.shared d' he haw hci)
    · rw [hends.global] at hn
      have hclt := (get_process_by_pid_spec haw.child).1
      rw [hends.num] at hclt
      obtain ⟨j', d', ⟨hj', hd', href'⟩, hno⟩ :=
        hok.keeps hargs n c d hn ⟨hclt, hd, ((hends.refers n c d).mp href).1⟩ (.shared d he haw hci)
      refine ⟨j', d', ⟨hends.num.symm ▸ hj', hd', (hends.refers n j' d').mpr ⟨href', ?_⟩⟩, ?_⟩
      · rintro ⟨rfl, hmem⟩
        exact hno (hfds d' hmem)
      · rintro ⟨rfl, -⟩
        exact hno (.shared d' he haw hci)

theorem RefInv.step (hs : Synced K₀) (hok : NodeSafe K₀ ev) (hargs : HasArgs ev) (h : RefInv K) (hstep : FileStep K₀ ev K K') :
    RefInv K' := by
  have hclears : ∀ {i j fds L}, OnCpu i K₀ → RefInv K₀ → j < K₀.num_processes →
      (∀ d ∈ fds, d < MAX_FILES ∧ Closes K₀ ev j d) → Clears K₀ j fds L → RefInv L := fun hon h hj hfds =>
    h.clears (by simp [hon.cur]) hj (fun d hd => (hfds d hd).1) (.of_closes hok hargs hj hfds)
  cases hstep with
  | quiet hq => exact h.quiet hq
  | dies _ hq => exact h.quiet hq
  | file hK hc hf =>
    subst hK
    exact h.file_call hc hs.max hok hargs hf
  | create hK hc hcr =>
    subst hK
    exact h.create hc hok hargs hcr
  | fork hK hc heax hslot hf =>
    subst hK
    exact h.fork hc.toOnCpu hs.max hslot (fun hlt => hok.fork _ _ _ _ hc heax hslot hlt) hf
  | reap hK hc hreap h0 hK' =>
    subst hK hK'
    rcases reaped_files K _ (find_terminated_child K (K.table _).pid) with hq | ⟨c, hchild, hcl⟩
    · exact h.quiet hq
    · exact hclears hc.toOnCpu h (get_process_by_pid_spec hchild).1
        (fun d hd => ⟨List.mem_range.mp hd, .reap d hc hreap h0 hchild⟩) hcl
  | exit hK hq hK' =>
    subst hK hK'
    exact hclears hq.onCpu h hq.onCpu.lt (fun d hd => ⟨hq.fds_lt hd, hq.closes hd⟩) (.exit_tree K _ _)
  | reset hK hc heax hK' =>
    subst hK hK'
    exact hclears hc.toOnCpu h hc.lt (fun d hd => ⟨(mem_exec_fds.mp hd).2, .exec hc heax (mem_exec_fds.mp hd).1⟩) (.exec_reset K _)
  | unblock he hK' =>
    subst hK'
    exact h.unblock hs hok hargs he

theorem RefInv.boot (mounts : Nat) : RefInv (boot 1 1 mounts) := by
  have hnone : ∀ j d, ((Proc.boot 1 1 mounts).table j).files_open d = none := by
    intro j d
    simp only [Proc.boot]
    split <;> rfl
  have hzero : ∀ n, open_count (Proc.boot 1 1 mounts) n = 0 := by
    intro n
    by_contra hpos
    obtain ⟨j, d, -, -, href⟩ := open_count_pos.mp (Nat.pos_of_ne_zero hpos)
    obtain ⟨fp, hfp, -⟩ := refers_iff.mp href
    rw [hnone] at hfp
    cases hfp
  have hmount : ∀ n, n ∈ (Proc.boot 1 1 mounts).mounts ↔ 2 ≤ n ∧ n < 2 + mounts := fun n => List.mem_range'_1
  refine ⟨fun n hn => ?_, fun n hn => ⟨hzero n, ?_⟩, ⟨Nat.zero_ne_one, ?_, ?_⟩, fun _ _ => ⟨hnone, rfl, rfl⟩, ?_⟩
  · rcases hn with hpos | hmem
    · rw [hzero] at hpos
      omega
    · have := (hmount n).mp hmem
      rw [hzero]
      simp only [Proc.boot]
      rw [if_neg (by omega), if_neg (by omega)]
  · have hn : 2 + mounts ≤ n := hn
    have hnot : n ∉ (Proc.boot 1 1 mounts).mounts := fun hmem => by have := (hmount n).mp hmem; omega
    simp only [is_global, Bool.or_eq_false_iff, beq_eq_false_iff_ne, List.contains_eq_mem, decide_eq_false_iff_not]
    refine ⟨⟨?_, ?_⟩, hnot⟩
    · show n ≠ 0
      omega
    · show n ≠ 1
      omega
  · rw [hmount]
    exact fun h => Nat.not_succ_le_zero 1 h.1
  · rw [hmount]
    exact fun h => Nat.not_succ_le_self 1 h.1
  · intro f hf
    cases hf

/-- 起動時に `stdin_node` と `stdout_node` の `refcount` が 1 で、参照の数を保つ歩だけの実行では、指されているノードの
    `refcount` は `FILE` の数に等しく、`FILE` かカーネルの大域変数が指すノードは解放されない。 -/
theorem refcount_counts_files (mounts : Nat) (h : Steps step NodeSafe (boot 1 1 mounts) K) :
    (∀ n j d, Refers K n j d → (K.nodes n).refcount = open_count K n) ∧ ∀ f ∈ K.freed, f.refs = 0 ∧ f.global = false := by
  have hinv : RefInv K := (file_run (fun hq _ h => h.quiet hq) (fun hs _ hok hargs _ h hstep => h.step hs hok hargs hstep) h
    (.boot 1 1 mounts) (.boot mounts)).2
  exact ⟨fun n j d href => hinv.refs n (.of_refers href), hinv.freed⟩

/-- 作る呼び出しは `pipe` と、新しい項目への `fork` だけで、閉じるのは `close` だけである。最初のプロセスは標準の入出力を
    開いたままでいる。 -/
def node_safe (K : Kernel) (ev : Event) : Bool :=
  ((at_schedule K ev).all fun x => x.1.cur_proccess_id.all fun i => (x.1.table i).sig.pending == 0#32) &&
    match ev with
    | .syscall _ r =>
      r.eax == 11 || r.eax == 12 || (r.eax == 24 && fork_slot K == some K.num_processes) ||
        r.eax == 20 && K.mounts.isEmpty && decide (1 < K.num_processes) && refers K K.stdin_node 1 0 && refers K K.stdout_node 1 1
    | .fault _ => false
    | _ => true

theorem node_safe_spec (K : Kernel) (ev : Event) (h : node_safe K ev = true) : NodeSafe K ev := by
  simp only [node_safe, Bool.and_eq_true] at h
  obtain ⟨hsig, hcall⟩ := h
  have hdies : ∀ {i L}, Ends K ev i true L → ∃ env r, Calls K ev i env r ∧ (r.eax = 5 ∨ r.eax = 10) := by
    intro i L he
    cases he with
    | exit hq =>
      cases hq with
      | exit hc heax => exact ⟨_, _, hc, .inl heax⟩
      | fault hf =>
        obtain ⟨r₀, rfl, -⟩ := hf.event
        cases hcall
    | fail hc heax => exact ⟨_, _, hc, .inr heax⟩
    | signal hat hcur hsignals =>
      simp only [hat, Option.all_some, hcur, beq_iff_eq] at hsig
      exact absurd hsig hsignals.1
  have heax : ∀ {i env r}, Calls K ev i env r → r.eax = 11 ∨ r.eax = 12 ∨ r.eax = 24 ∧ fork_slot K = some K.num_processes ∨
      r.eax = 20 ∧ K.mounts = [] ∧ 1 < K.num_processes ∧ refers K K.stdin_node 1 0 = true ∧ refers K K.stdout_node 1 1 = true := by
    intro i env r hc
    obtain ⟨r₀, rfl, rfl⟩ := hc.event
    simpa [or_assoc, and_assoc] using hcall
  refine ⟨fun _ i env r hc h8 => ?_, fun i env r fp hc h27 => ?_, fun i env r slot hc h24 hslot hlt => ?_, fun _ n j d hn href hcl => ?_⟩
  · have := heax hc
    omega
  · have := heax hc
    omega
  · have := heax hc
    rcases this with h11 | h12 | ⟨-, hnew⟩ | h20
    · omega
    · omega
    · rw [hslot] at hnew
      exact absurd (Option.some.inj hnew) (Nat.ne_of_lt hlt)
    · omega
  · -- 閉じるのは `close` だけで、3 以上の記述子である
    have honly : ∀ {j d}, Closes K ev j d → 3 ≤ d ∧ ∃ i env r, Calls K ev i env r ∧ r.eax = 20 := by
      intro j d hcl
      cases hcl with
      | close hc h20 h3 => exact ⟨h3, _, _, _, hc, h20⟩
      | dup2 hc h27 => have := heax hc; omega
      | exit _ hc h5 => have := heax hc; omega
      | exec hc h10 => have := heax hc; omega
      | reap _ hc hreap =>
        have := heax hc
        unfold Reaps SYS_WAIT SYS_WAITPID at hreap
        omega
      | shared _ he =>
        obtain ⟨env, r, hc, hends⟩ := hdies he
        have := heax hc
        omega
    obtain ⟨-, i, env, r, hc, h20⟩ := honly hcl
    rcases heax hc with h11 | h12 | h24 | ⟨-, hmounts, hnum, hin, hout⟩
    · omega
    · omega
    · omega
    simp only [is_global, hmounts, List.contains_nil, Bool.or_false, Bool.or_eq_true, beq_iff_eq] at hn
    rcases hn with rfl | rfl
    · exact ⟨1, 0, ⟨hnum, by decide, hin⟩, fun hcl => absurd (honly hcl).1 (by decide)⟩
    · exact ⟨1, 1, ⟨hnum, by decide, hout⟩, fun hcl => absurd (honly hcl).1 (by decide)⟩

/-- パイプを作り、`fork` で分け合い、子が読みの端を閉じる。続いて親が閉じると、読みのノードが解放される。 -/
def shared_pipe : Trace (checked step node_safe (boot 1 1 0)) (fun K =>
    Refers K 3 1 4 ∧ open_count K 3 = 2 ∧ K.freed = [⟨2, 0, false⟩]) :=
  ⟨start_shell ++ [call 12 4, call 24, call 20 3, tick, call 20 3], by decide +kernel⟩

theorem refcount_counts_pipe : ∃ K, Steps step NodeSafe (boot 1 1 0) K ∧ (K.nodes 3).refcount = 2 ∧ K.freed = [⟨2, 0, false⟩] := by
  obtain ⟨K, hK, href, hcount, hfreed⟩ := shared_pipe.steps_checked node_safe_spec
  exact ⟨K, hK, ((refcount_counts_files 0 hK).1 3 1 4 href).trans hcount, hfreed⟩

/-- `spawn` は標準の入出力の `refcount` を増やさない。子が終わると、シェルがまだ開いている `stdin_node` を解放する。 -/
def spawned_exit : Trace (exec step (boot 1 1 0)) (fun K =>
    Refers K 0 1 0 ∧ (K.nodes 0).refcount ≠ open_count K 0 ∧ K.freed.any fun f => decide (f.node = 0 ∧ f.refs = 1 ∧ f.global = true)) :=
  ⟨start_shell ++ [.syscall { load := some shell_image } { user_regs with eax := 8 }, tick, call 5], by decide +kernel⟩

theorem refcount_misses_file : ∃ K, Steps step (fun _ _ => True) (boot 1 1 0) K ∧
    (∃ n j d, Refers K n j d ∧ (K.nodes n).refcount ≠ open_count K n) ∧ ∃ f ∈ K.freed, f.refs = 1 ∧ f.global = true := by
  obtain ⟨K, hK, href, hcount, hfreed⟩ := spawned_exit.steps
  obtain ⟨f, hf, hbad⟩ := List.any_eq_true.mp hfreed
  exact ⟨K, hK, ⟨0, 1, 0, href, hcount⟩, f, hf, (of_decide_eq_true hbad).2⟩

end MyOS.Proc
