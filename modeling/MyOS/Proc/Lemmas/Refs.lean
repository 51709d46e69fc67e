import MyOS.Lib.Count
import MyOS.Proc.FileTheorems
import MyOS.Proc.Lemmas.Wait
import MyOS.Proc.Refs

/-!
# `FILE` の数

一つの項目を書き換えると、`FILE` の数はその項目の分だけ変わる。
-/

namespace MyOS.Proc
open MyOS.Lib

variable {K K' K₀ : Kernel} {ev : Event} {i j d fd n m : Nat} {fp : File} {o : Option File} {fds : List Nat}

/-! ## 数え方 -/

theorem refers_iff : refers K n j d = true ↔ ∃ fp, (K.table j).files_open d = some fp ∧ fp.file = n := by
  simp [refers, Option.any_eq_true]

theorem refers_congr (h : (K'.table j).files_open d = (K.table j).files_open d) : refers K' n j d = refers K n j d := by
  unfold refers
  rw [h]

theorem row_count_congr (h : ∀ d, d < MAX_FILES → (K'.table j).files_open d = (K.table j).files_open d) :
    row_count K' n j = row_count K n j :=
  List.countP_congr fun d hd => by rw [refers_congr (h d (List.mem_range.mp hd))]

theorem open_count_congr (hnum : K'.num_processes = K.num_processes)
    (h : ∀ j d, j < K.num_processes → d < MAX_FILES → (K'.table j).files_open d = (K.table j).files_open d) :
    open_count K' n = open_count K n := by
  unfold open_count
  rw [hnum]
  congr 1
  exact List.map_congr_left fun j hj => row_count_congr fun d => h j d (List.mem_range.mp hj)

theorem row_count_pos : 0 < row_count K n j ↔ ∃ d, d < MAX_FILES ∧ refers K n j d = true := by
  simp [row_count, List.countP_pos_iff]

theorem open_count_pos : 0 < open_count K n ↔ ∃ j d, Refers K n j d := by
  unfold open_count
  rw [List.sum_pos_iff_exists_pos_nat]
  constructor
  · rintro ⟨x, hx, hpos⟩
    obtain ⟨j, hj, rfl⟩ := List.mem_map.mp hx
    obtain ⟨d, hd, href⟩ := row_count_pos.mp hpos
    exact ⟨j, d, List.mem_range.mp hj, hd, href⟩
  · rintro ⟨j, d, hj, hd, href⟩
    exact ⟨_, List.mem_map.mpr ⟨j, List.mem_range.mpr hj, rfl⟩, row_count_pos.mpr ⟨d, hd, href⟩⟩

theorem row_count_le : row_count K n j ≤ MAX_FILES := by
  have := (List.range MAX_FILES).countP_le_length (p := refers K n j)
  rwa [List.length_range] at this

theorem open_count_le : open_count K n ≤ K.num_processes * MAX_FILES := by
  unfold open_count
  generalize K.num_processes = k
  induction k with
  | zero => simp
  | succ k ih =>
    have := row_count_le (K := K) (n := n) (j := k)
    rw [List.range_succ, List.map_append, List.sum_append, List.map_singleton, List.sum_singleton, Nat.succ_mul]
    omega

/-- 一つの行だけが変わる。 -/
theorem open_count_row (hnum : K'.num_processes = K.num_processes) (hi : i < K.num_processes)
    (h : ∀ j, j ≠ i → row_count K' n j = row_count K n j) :
    open_count K' n + row_count K n i = open_count K n + row_count K' n i := by
  unfold open_count
  rw [hnum]
  exact sum_range_change hi fun j _ hj => h j hj

theorem row_count_setFile (K : Kernel) (i fd n : Nat) (o : Option File) (hfd : fd < MAX_FILES) :
    row_count (setFile K i fd o) n i + (refers K n i fd).toNat = row_count K n i + (o.any fun fp => fp.file == n).toNat := by
  have hq : ∀ d, refers (setFile K i fd o) n i d = if d = fd then o.any fun fp => fp.file == n else refers K n i d := by
    intro d
    unfold refers
    rw [setFile_files]
    by_cases hd : d = fd <;> simp [hd]
  have hchange := countP_change (p := refers K n i) (q := refers (setFile K i fd o) n i) (a := fd) List.nodup_range
    (List.mem_range.mpr hfd) fun d _ hd => by rw [hq, if_neg hd]
  rw [hq, if_pos rfl] at hchange
  exact hchange

theorem row_count_setFile_ne (o : Option File) (h : j ≠ i) : row_count (setFile K i fd o) n j = row_count K n j :=
  row_count_congr fun d _ => by rw [setFile_files, if_neg fun hj => h hj.1]

/-- 記述子 `fd` を書き換える。 -/
theorem open_count_setFile (o : Option File) (hi : i < K.num_processes) (hfd : fd < MAX_FILES) :
    open_count (setFile K i fd o) n + (refers K n i fd).toNat = open_count K n + (o.any fun fp => fp.file == n).toNat := by
  have hrow := @open_count_row K (setFile K i fd o) i n rfl hi fun j hj => row_count_setFile_ne o hj
  have hone := row_count_setFile K i fd n o hfd
  omega

/-! ## 閉じる -/

/-- `FILE` の数が `refcount` に等しい。 -/
def Balanced (K : Kernel) (n : Nat) : Prop := (K.nodes n).refcount = open_count K n

theorem free_node_table (K : Kernel) (n : Nat) : (free_node K n).table = K.table := close_fs_table K n

theorem close_fs_refcount (K : Kernel) (n m : Nat) : ((close_fs K n).nodes m).refcount = (K.nodes m).refcount := by
  unfold close_fs pipe_close_fn
  split
  · rfl
  · split
    · rfl
    · rw [setNode_nodes]
      split
      next hm => rw [hm]
      · rfl

theorem free_node_refcount (K : Kernel) (n m : Nat) : ((free_node K n).nodes m).refcount = (K.nodes m).refcount :=
  close_fs_refcount K n m

/-- 開いた記述子を閉じた後の `refcount`。 -/
theorem drop_file_refcount (h : (K.table i).files_open fd = some fp) (m : Nat) :
    ((drop_file K i fd).nodes m).refcount = if m = fp.file then (K.nodes fp.file).refcount - 1 else (K.nodes m).refcount := by
  have hdec : ((setFile ((decRef K fp.file).release [fp.id]) i fd none).nodes m).refcount = _ := decRef_nodes K fp.file m
  unfold drop_file
  rw [h]
  dsimp only
  split
  · rw [free_node_refcount, hdec]
  · exact hdec

theorem drop_file_num (K : Kernel) (i fd : Nat) : (drop_file K i fd).num_processes = K.num_processes :=
  (FileFrame.drop_file K i fd).num

theorem open_count_drop (h : (K.table i).files_open fd = some fp) (hi : i < K.num_processes) (hfd : fd < MAX_FILES) (m : Nat) :
    open_count (drop_file K i fd) m + (if m = fp.file then 1 else 0) = open_count K m := by
  have hsame : open_count (drop_file K i fd) m = open_count (setFile K i fd none) m :=
    open_count_congr (drop_file_num K i fd) fun j d _ _ => by rw [drop_file_files, setFile_files]
  have hset := open_count_setFile (n := m) none hi hfd
  have hold : refers K m i fd = decide (m = fp.file) := by
    simp only [refers, h, Option.any_some]
    by_cases hm : m = fp.file
    · simp [hm]
    · simp [hm, Ne.symm hm]
  rw [hold] at hset
  rw [hsame]
  by_cases hm : m = fp.file
  · simp [hm] at hset ⊢
    omega
  · simp [hm] at hset ⊢
    omega

theorem drop_file_none (h : (K.table i).files_open fd = none) : drop_file K i fd = K := by
  unfold drop_file
  rw [h]

theorem Balanced.drop (h : Balanced K n) (hi : i < K.num_processes) (hfd : fd < MAX_FILES) : Balanced (drop_file K i fd) n := by
  cases hfile : (K.table i).files_open fd with
  | none =>
    rw [drop_file_none hfile]
    exact h
  | some fp =>
    have hcount := open_count_drop hfile hi hfd n
    have hrc := drop_file_refcount hfile n
    unfold Balanced at h ⊢
    rw [hrc]
    split at hcount
    next hn =>
      subst hn
      rw [if_pos rfl]
      omega
    next hn =>
      rw [if_neg hn]
      omega

theorem close_fs_freed (K : Kernel) (n : Nat) : (close_fs K n).freed = K.freed := by
  unfold close_fs pipe_close_fn
  split
  · rfl
  · split <;> rfl

theorem close_fs_next (K : Kernel) (n : Nat) : (close_fs K n).next_node = K.next_node := by
  unfold close_fs pipe_close_fn
  split
  · rfl
  · split <;> rfl

theorem drop_file_next (K : Kernel) (i fd : Nat) : (drop_file K i fd).next_node = K.next_node := by
  have hdec : ∀ n, (decRef K n).next_node = K.next_node := by
    intro n
    unfold decRef
    split <;> rfl
  unfold drop_file
  split
  · rfl
  · dsimp only
    split
    · show (close_fs _ _).next_node = K.next_node
      rw [close_fs_next]
      exact hdec _
    · exact hdec _

theorem drop_files_num (K : Kernel) (i : Nat) (fds : List Nat) : (drop_files K i fds).num_processes = K.num_processes :=
  (FileFrame.drop_files i fds K).num

theorem Balanced.drop_files (h : Balanced K n) (hi : i < K.num_processes) (hfds : ∀ fd ∈ fds, fd < MAX_FILES) :
    Balanced (drop_files K i fds) n := by
  induction fds generalizing K with
  | nil => exact h
  | cons fd fds ih =>
    refine ih (h.drop hi (hfds fd List.mem_cons_self)) ?_ fun d hd => hfds d (List.mem_cons_of_mem fd hd)
    rw [drop_file_num]
    exact hi

theorem refers_drop_files (K : Kernel) (i : Nat) (fds : List Nat) (n j d : Nat) :
    refers (drop_files K i fds) n j d = true ↔ refers K n j d = true ∧ ¬ (j = i ∧ d ∈ fds) := by
  rw [refers_iff, refers_iff, drop_files_files]
  split
  next h => simp [h]
  next h => simp [h]

/-! ## 分け合う -/

theorem share_file_files (K : Kernel) (i fd flags n j d : Nat) :
    ((share_file K i fd flags n).table j).files_open d =
      if j = i ∧ d = fd then some ⟨K.next_block, flags, n⟩ else (K.table j).files_open d := by
  unfold share_file
  rw [setFile_files]
  rfl

theorem share_file_refcount (K : Kernel) (i fd flags n m : Nat) :
    ((share_file K i fd flags n).nodes m).refcount = if m = n then add32 (K.nodes n).refcount 1 else (K.nodes m).refcount := by
  unfold share_file incRef
  rw [setFile_nodes, setNode_nodes]
  split
  next h => rfl
  next h => rfl

/-- `fopen` は、何も変えないか、得たノードを空いた記述子に置く。 -/
theorem fopen_cases (K : Kernel) (i : Nat) (look : Lookup) (modes : Nat) :
    (fopen K i look modes).1 = K ∨ ∃ L n, get_node K look = (L, some n) ∧
      ((fopen K i look modes).1 = L ∨ ∃ fd, free_fd L i 3 = some fd ∧ (fopen K i look modes).1 = share_file L i fd modes n) := by
  unfold fopen
  cases look with
  | missing => exact .inl rfl
  | fresh =>
    refine .inr ⟨_, _, rfl, ?_⟩
    simp only [get_node]
    cases hfd : free_fd { K.setNode K.next_node {} with next_node := K.next_node + 1 } i 3 with
    | none => exact .inl rfl
    | some fd => exact .inr ⟨fd, rfl, rfl⟩
  | global k =>
    simp only [get_node]
    cases K.mounts[k]? with
    | none => exact .inl rfl
    | some n =>
      refine .inr ⟨K, n, rfl, ?_⟩
      dsimp only
      cases hfd : free_fd K i 3 with
      | none => exact .inl rfl
      | some fd => exact .inr ⟨fd, rfl, rfl⟩

theorem get_node_cases {look : Lookup} {L : Kernel} (h : get_node K look = (L, some n)) :
    (L = { K.setNode K.next_node {} with next_node := K.next_node + 1 } ∧ n = K.next_node) ∨ (L = K ∧ n ∈ K.mounts) := by
  cases look with
  | missing => cases h
  | fresh =>
    cases h
    exact .inl ⟨rfl, rfl⟩
  | global k =>
    obtain ⟨rfl, hn⟩ := Prod.mk.inj h
    exact .inr ⟨rfl, List.mem_of_getElem? hn⟩

theorem refers_none (h : (K.table i).files_open fd = none) (m : Nat) : refers K m i fd = false := by
  unfold refers
  rw [h]
  rfl

/-- 記述子 `fd` の前の `FILE` は、`m` を指さない。 -/
theorem open_count_place (fp : File) (hi : i < K.num_processes) (hfd : fd < MAX_FILES) (hold : refers K m i fd = false) :
    open_count (setFile K i fd (some fp)) m = open_count K m + if m = fp.file then 1 else 0 := by
  have hset := open_count_setFile (n := m) (some fp) hi hfd
  rw [hold] at hset
  by_cases hm : m = fp.file
  · simpa [hm] using hset
  · simpa [hm, beq_false_of_ne (Ne.symm hm)] using hset

theorem open_count_share (flags : Nat) (hi : i < K.num_processes) (hfd : fd < MAX_FILES) (hold : refers K m i fd = false) (n : Nat) :
    open_count (share_file K i fd flags n) m = open_count K m + if m = n then 1 else 0 := by
  rw [← open_count_place ⟨K.next_block, flags, n⟩ hi hfd hold]
  exact open_count_congr (FileFrame.share_file K i fd flags n).num fun j d _ _ => by rw [share_file_files, setFile_files]

theorem Balanced.share (h : Balanced K m) (hlt : m = n → (K.nodes n).refcount + 1 < 2 ^ 32) (flags : Nat) (hi : i < K.num_processes)
    (hfd : fd < MAX_FILES) (hold : refers K m i fd = false) : Balanced (share_file K i fd flags n) m := by
  unfold Balanced at h ⊢
  rw [share_file_refcount, open_count_share flags hi hfd hold]
  split
  next hm =>
    rw [add32_eq (hlt hm), ← hm, h]
  · exact h

theorem share_files_row (hne : i ≠ j) (fds : List Nat) (K : Kernel) (m k d : Nat) :
    refers (share_files K i j fds) m k d = if k = j ∧ d ∈ fds then refers K m i d else refers K m k d := by
  induction fds generalizing K with
  | nil => simp [share_files]
  | cons fd fds ih =>
    -- 親の行は変わらない
    have hstep : ∀ L : Kernel, (∀ k d, refers L m k d = if k = j ∧ d = fd then refers K m i fd else refers K m k d) →
        refers (share_files L i j fds) m k d = if k = j ∧ d ∈ fd :: fds then refers K m i d else refers K m k d := by
      intro L hL
      rw [ih, hL, hL]
      by_cases hk : k = j <;> by_cases hd : d = fd <;> by_cases hmem : d ∈ fds <;> simp [hk, hd, hmem, hne]
    rw [share_files]
    split
    next fp hfile =>
      refine hstep _ fun k d => ?_
      unfold refers
      rw [share_file_files, hfile]
      split <;> rfl
    next hfile =>
      refine hstep _ fun k d => ?_
      unfold refers
      rw [setFile_files, hfile]
      split <;> rfl

theorem share_files_refcount (hne : i ≠ j) (fds : List Nat) (K : Kernel)
    (hlt : (K.nodes n).refcount + fds.countP (refers K n i) < 2 ^ 32) :
    ((share_files K i j fds).nodes n).refcount = (K.nodes n).refcount + fds.countP (refers K n i) := by
  induction fds generalizing K with
  | nil => rfl
  | cons fd fds ih =>
    rw [share_files]
    split
    next fp hfile =>
      have hrow : ∀ d, refers (share_file K j fd fp.flags fp.file) n i d = refers K n i d := fun d =>
        refers_congr (by rw [share_file_files, if_neg fun h => hne h.1])
      have hcount : fds.countP (refers (share_file K j fd fp.flags fp.file) n i) = fds.countP (refers K n i) :=
        List.countP_congr fun d _ => by rw [hrow]
      have hself : refers K n i fd = decide (n = fp.file) := by
        simp only [refers, hfile, Option.any_some]
        by_cases hn : n = fp.file
        · simp [hn]
        · simp [hn, Ne.symm hn]
      rw [List.countP_cons, hself] at hlt ⊢
      by_cases hn : n = fp.file
      · subst hn
        simp only [decide_true, if_true] at hlt ⊢
        have hrc : ((share_file K j fd fp.flags fp.file).nodes fp.file).refcount = (K.nodes fp.file).refcount + 1 := by
          rw [share_file_refcount, if_pos rfl, add32_eq (by omega)]
        rw [ih _ (by rw [hrc, hcount]; omega), hrc, hcount]
        omega
      · simp only [hn, decide_false, Bool.false_eq_true, if_false] at hlt ⊢
        have hrc : ((share_file K j fd fp.flags fp.file).nodes n).refcount = (K.nodes n).refcount := by
          rw [share_file_refcount, if_neg hn]
        rw [ih _ (by rw [hrc, hcount]; omega), hrc, hcount]
        rfl
    next hfile =>
      have hrow : ∀ d, refers (setFile K j fd none) n i d = refers K n i d := fun d =>
        refers_congr (by rw [setFile_files, if_neg fun h => hne h.1])
      have hcount : fds.countP (refers (setFile K j fd none) n i) = fds.countP (refers K n i) :=
        List.countP_congr fun d _ => by rw [hrow]
      have hself : refers K n i fd = false := by
        unfold refers
        rw [hfile]
        rfl
      rw [List.countP_cons, hself] at hlt ⊢
      simp only [Bool.false_eq_true, if_false, Nat.add_zero] at hlt ⊢
      rw [ih _ (by rw [hcount]; exact hlt), hcount]
      rfl

/-! ## `fork` -/

theorem fork_row {slot : Nat} {r : Regs} (hne : i ≠ slot) (h : fork_into K i slot r = some K') (m k d : Nat) (hd : d < MAX_FILES) :
    refers K' m k d = if k = slot then refers K m i d else refers K m k d := by
  have hready : ∀ (L : Kernel) (x : Nat), refers { L.modify slot (fun p => { p with state := .ready }) with num_processes := x } m k d =
      refers L m k d := by
    intro L x
    refine refers_congr ?_
    simp only [Kernel.modify_table]
    split
    next hk => rw [hk]
    · rfl
  have hbase : ∀ k, refers (fork_base K i slot r) m k d = refers K m k d := by
    intro k
    refine refers_congr ?_
    by_cases hk : k = slot
    · rw [hk, fork_base_slot hne]
      rfl
    · by_cases hki : k = i
      · rw [hki, fork_base_self hne]
      · rw [fork_base_ne hki hk]
  rw [fork_into_eq h, hready, share_files_row hne, hbase, hbase]
  simp [List.mem_range, hd]

/-- 子は親の行を写す。 -/
theorem open_count_fork {slot : Nat} {r : Regs} (hne : i ≠ slot) (hslot : slot ≤ K.num_processes)
    (hfree : slot < K.num_processes → row_count K n slot = 0) (h : fork_into K i slot r = some K') :
    open_count K' n = open_count K n + row_count K n i := by
  have hrow : ∀ k, row_count K' n k = if k = slot then row_count K n i else row_count K n k := by
    intro k
    have hcongr : row_count K' n k = (List.range MAX_FILES).countP
        (if k = slot then refers K n i else refers K n k) := by
      refine List.countP_congr fun d hd => ?_
      rw [fork_row hne h n k d (List.mem_range.mp hd)]
      split <;> rfl
    rw [hcongr]
    split <;> rfl
  have hnum : K'.num_processes = if slot = K.num_processes then K.num_processes + 1 else K.num_processes := by
    rw [fork_into_rest h]
  have hother : ∀ k, k ≠ slot → row_count K' n k = row_count K n k := fun k hk => by rw [hrow, if_neg hk]
  have hself : row_count K' n slot = row_count K n i := by rw [hrow, if_pos rfl]
  rcases Nat.lt_or_eq_of_le hslot with hlt | heq
  · rw [if_neg (Nat.ne_of_lt hlt)] at hnum
    have hcount := open_count_row hnum hlt hother
    rw [hself, hfree hlt] at hcount
    exact hcount
  · rw [if_pos heq] at hnum
    unfold open_count
    rw [hnum, List.range_succ, List.map_append, List.sum_append, List.map_singleton, List.sum_singleton, ← heq, hself]
    congr 2
    exact List.map_congr_left fun k hk => hother k (by have := List.mem_range.mp hk; omega)

theorem fork_refcount {slot : Nat} {r : Regs} (hne : i ≠ slot) (h : fork_into K i slot r = some K')
    (hlt : (K.nodes n).refcount + row_count K n i < 2 ^ 32) :
    (K'.nodes n).refcount = (K.nodes n).refcount + row_count K n i := by
  have hrow : ∀ d, refers (fork_base K i slot r) n i d = refers K n i d := fun d =>
    refers_congr (by rw [fork_base_self hne])
  have hcount : (List.range MAX_FILES).countP (refers (fork_base K i slot r) n i) = row_count K n i :=
    List.countP_congr fun d _ => by rw [hrow]
  have hshare := share_files_refcount (n := n) hne (List.range MAX_FILES) (fork_base K i slot r) (by rw [hcount]; exact hlt)
  rw [hcount] at hshare
  rw [fork_into_eq h]
  exact hshare

theorem Balanced.fork {slot : Nat} {r : Regs} (hb : Balanced K n) (hne : i ≠ slot) (hslot : slot ≤ K.num_processes)
    (hfree : slot < K.num_processes → row_count K n slot = 0) (hlt : (K.nodes n).refcount + row_count K n i < 2 ^ 32)
    (h : fork_into K i slot r = some K') : Balanced K' n := by
  unfold Balanced at hb ⊢
  rw [fork_refcount hne h hlt, open_count_fork hne hslot hfree h, hb]

/-! ## 開いたファイルを変えない書き込み -/

theorem FileRest.refl (K : Kernel) : FileRest K K := ⟨fun _ _ => rfl, id, rfl⟩

theorem Quiet.refl (K : Kernel) : Quiet K K := ⟨.refl K, fun _ => rfl⟩

theorem Quiet.trans {L : Kernel} (h : Quiet K L) (h' : Quiet L K') : Quiet K K' := by
  refine ⟨⟨fun q w => (h'.users q w).trans (h.users q w), fun hc => h.cur (h'.cur hc), ?_⟩, fun j => (h'.files j).trans (h.files j)⟩
  have hrest := h'.rest
  rw [h.rest] at hrest
  exact hrest

/-- 一つの項目だけを書く。 -/
theorem Quiet.of_row {p : Pcb} (hrest : FileRest K K') (ht : ∀ k, K'.table k = if k = i then p else K.table k)
    (hfiles : p.files_open = (K.table i).files_open) : Quiet K K' := by
  refine ⟨hrest, fun j => ?_⟩
  rw [ht]
  split
  next hj => rw [hfiles, hj]
  · rfl

theorem Fewer.of_row {p : Pcb} (ht : ∀ k, K'.table k = if k = i then p else K.table k)
    (hdead : p.state = .terminated → (K.table i).state = .terminated) : Fewer K K' := by
  intro j hj
  rw [ht] at hj
  split at hj
  next hi =>
    rw [hi]
    exact hdead hj
  · exact hj

theorem FileStep.modify {p : Pcb} (hrest : FileRest K K') (ht : ∀ k, K'.table k = if k = i then p else K.table k)
    (hfiles : p.files_open = (K.table i).files_open) (hdead : p.state = .terminated → (K.table i).state = .terminated) :
    FileStep K₀ ev K K' := .quiet (.of_row hrest ht hfiles) (.of_row ht hdead)

theorem Quiet.num (h : Quiet K K') : K'.num_processes = K.num_processes := by rw [h.rest]

theorem Quiet.refers (h : Quiet K K') (n j d : Nat) : refers K' n j d = refers K n j d := refers_congr (by rw [h.files])

theorem Quiet.open_count (h : Quiet K K') (n : Nat) : open_count K' n = open_count K n :=
  open_count_congr h.num fun j d _ _ => by rw [h.files]

theorem Quiet.global (h : Quiet K K') (n : Nat) : is_global K' n = is_global K n := by rw [h.rest]; rfl

theorem Quiet.nodes (h : Quiet K K') : K'.nodes = K.nodes := by rw [h.rest]

theorem PassSame.files {p p' : Pcb} (h : PassSame p p') : p'.files_open = p.files_open := by rw [h.rest]

theorem Signalled.files {p p' : Pcb} {r : Regs} {fate : Fate} (h : Signalled p r fate p') : p'.files_open = p.files_open := by
  have hpass := fun pre => (pass_all_same p.sig.pending pre p).files
  cases h with
  | killed => rfl
  | passed => exact hpass _
  | stops => exact hpass _
  | kills => exact hpass _
  | overflow => exact hpass _
  | caught => exact hpass _

theorem FileStep.signal {r : Regs} {p' : Pcb} {fate : Fate} (hat : at_schedule K₀ ev = some (K, r))
    (hci : K.cur_proccess_id = some i) (hsig : Signals (K.table i)) (hp : Signalled (K.table i) r fate p') :
    FileStep K₀ ev K (written K i r p' fate) := by
  have hq : Quiet K (written K i r p' fate) := .of_row ⟨fun _ _ => rfl, id, rfl⟩ (fun _ => rfl) hp.files
  have hne : ∀ j, j ≠ i → (written K i r p' fate).table j = K.table j := fun j hj => K.modify_ne (fun _ => p') hj
  rcases hp.state hsig.2.1 with ⟨rfl, -⟩ | ⟨-, hst, -⟩
  · exact .dies (.signal hat hci hsig hp rfl) hq fun j hj hdead => by rwa [hne j hj] at hdead
  · refine .quiet hq fun j hdead => ?_
    by_cases hj : j = i
    · rw [hj, show (written K i r p' fate).table i = p' from K.modify_self i fun _ => p'] at hdead
      exact absurd hdead hst
    · rwa [hne j hj] at hdead

theorem send_signal_quiet (K : Kernel) (sig : Nat) :
    Quiet K (send_signal_to_foreground K sig) ∧ Fewer K (send_signal_to_foreground K sig) := by
  rw [send_signal_to_foreground]
  split
  · refine ⟨⟨⟨fun _ _ => rfl, id, rfl⟩, fun j => ?_⟩, fun j hj => ?_⟩
    · dsimp only
      split <;> rfl
    · dsimp only at hj
      split at hj <;> exact hj
  · exact ⟨.refl K, fun _ => id⟩

theorem sleep_pop_quiet (K : Kernel) (hd : Nat) : Quiet K (sleep_pop K hd) ∧ Fewer K (sleep_pop K hd) := by
  refine ⟨.of_row ⟨fun _ _ => rfl, id, rfl⟩ (fun _ => rfl) rfl, .of_row (fun _ => rfl) fun hdead => ?_⟩
  dsimp only at hdead
  split at hdead
  · cases hdead
  · exact hdead

theorem Act.file_step (ha : Act K₀ ev K K') : FileStep K₀ ev K K' := by
  cases ha with
  | file hc hf => exact .file rfl hc hf
  | create hc hcr => exact .create rfl hc hcr
  | fork hc heax hslot hf => exact .fork rfl hc heax hslot hf
  | reap hc heax h0 => exact .reap rfl hc heax h0 rfl
  | await => exact .modify ⟨fun _ _ => rfl, id, rfl⟩ (fun _ => rfl) rfl id
  | block => exact .modify ⟨fun _ _ => rfl, id, rfl⟩ (fun _ => rfl) rfl nofun
  | enqueue _ _ _ he =>
    have hframe := sleep_enqueue_frame he
    refine .quiet ⟨⟨fun _ _ => by rw [hframe.rest], ?_, ?_⟩, fun j => by rw [hframe.pcb j]⟩ fun j hj => ?_
    · rw [hframe.rest]
      exact id
    · rw [hframe.rest]
    · rwa [hframe.pcb j] at hj
  | tick => exact .quiet ⟨⟨fun _ _ => rfl, id, rfl⟩, fun _ => rfl⟩ fun _ => id
  | @wake r hd K => exact .quiet (sleep_pop_quiet K hd).1 (sleep_pop_quiet K hd).2
  | group => exact .quiet ⟨⟨fun _ _ => rfl, id, rfl⟩, fun _ => rfl⟩ fun _ => id
  | setpgid => exact .modify ⟨fun _ _ => rfl, id, rfl⟩ (fun _ => rfl) rfl id
  | send => exact .modify ⟨fun _ _ => rfl, id, rfl⟩ (fun _ => rfl) rfl id
  | cont => exact .modify ⟨fun _ _ => rfl, id, rfl⟩ (fun _ => rfl) rfl nofun
  | keys => exact .quiet (send_signal_quiet ..).1 (send_signal_quiet ..).2
  | action => exact .modify ⟨fun _ _ => rfl, id, rfl⟩ (fun _ => rfl) rfl id
  | mask => exact .modify ⟨fun _ _ => rfl, id, rfl⟩ (fun _ => rfl) rfl id
  | sigreturn => exact .modify ⟨fun _ _ => rfl, id, rfl⟩ (fun _ => rfl) rfl id
  | exit hq => exact .exit rfl hq rfl
  | reset hc heax => exact .reset rfl hc heax rfl
  | load => exact .modify ⟨fun _ _ => rfl, id, rfl⟩ (fun _ => rfl) rfl nofun
  | fail hc heax hload =>
    refine .dies (.fail hc heax hload rfl rfl) (.of_row ⟨fun _ _ => rfl, id, rfl⟩ (fun _ => rfl) rfl) fun j hj hdead => ?_
    rwa [exec_fail_ne hj] at hdead
  | mmap => exact .modify ⟨fun _ _ => rfl, id, rfl⟩ (fun _ => rfl) rfl id
  | munmap => exact .modify ⟨fun _ _ => rfl, id, rfl⟩ (fun _ => rfl) rfl id
  | signal hat hci hsig hp => exact .signal hat hci hsig hp
  | unblock he => exact .unblock he rfl
  | leave => exact .quiet ⟨⟨fun _ _ => rfl, id, rfl⟩, fun _ => rfl⟩ fun _ => id

/-! ## パイプと新しい項目 -/

theorem new_pipe_files (K : Kernel) (pid : Nat) : ((pipe_create K pid).1).table = K.table := rfl

/-- 両端を二つの空いた記述子に置いて、また空ける。 -/
theorem Quiet.unplace (K : Kernel) (i : Nat) {rfd wfd : Nat} (rfp wfp : File) (hr : (K.table i).files_open rfd = none)
    (hw : (K.table i).files_open wfd = none) (bs : List Nat) :
    Quiet K ((setFile (setFile (setFile (setFile K i rfd (some rfp)) i wfd (some wfp)) i rfd none) i wfd none).release bs) := by
  refine ⟨⟨fun _ _ => rfl, id, rfl⟩, fun j => ?_⟩
  funext d
  show ((setFile (setFile (setFile (setFile K i rfd (some rfp)) i wfd (some wfp)) i rfd none) i wfd none).table j).files_open d = _
  rw [setFile_files, setFile_files, setFile_files, setFile_files]
  by_cases hj : j = i
  · subst hj
    by_cases hdw : d = wfd
    · simp [hdw, hw]
    · by_cases hdr : d = rfd
      · simp [hdr, hr]
      · simp [hdw, hdr]
  · simp [hj]

theorem free_fd_new_pipe (K : Kernel) (pid i start : Nat) : free_fd (pipe_create K pid).1 i start = free_fd K i start := by
  unfold free_fd
  rw [new_pipe_files]

/-- `pipe` の場合分け。`L` は両端のノードを用意した状態である。 -/
theorem syscall_pipe_cases (K : Kernel) (i ptr : Nat) (copied : Bool) (L : Kernel) (rfp wfp : File)
    (hL : pipe_create K (K.table i).pid = (L, rfp, wfp)) :
    is_user_ptr ptr = false ∧ (syscall_pipe K i ptr copied).1 = K ∨
      is_user_ptr ptr = true ∧ ((free_fd K i 3 = none ∨ ∃ rfd, free_fd K i 3 = some rfd ∧ free_fd K i (rfd + 1) = none) ∧
          (syscall_pipe K i ptr copied).1 = L.release [rfp.id, wfp.id] ∨
        ∃ rfd wfd, free_fd K i 3 = some rfd ∧ free_fd K i (rfd + 1) = some wfd ∧
          (syscall_pipe K i ptr copied).1 = if copied then setFile (setFile L i rfd (some rfp)) i wfd (some wfp)
            else free_node (free_node ((setFile (setFile (setFile (setFile L i rfd (some rfp)) i wfd (some wfp)) i rfd none) i
              wfd none).release [rfp.id, wfp.id]) rfp.file) wfp.file) := by
  have hfree : ∀ start, free_fd L i start = free_fd K i start := by
    intro start
    rw [← free_fd_new_pipe K (K.table i).pid, hL]
  unfold syscall_pipe
  cases hptr : is_user_ptr ptr with
  | false => exact .inl ⟨rfl, rfl⟩
  | true =>
    refine .inr ⟨rfl, ?_⟩
    simp only [hL, hfree, Bool.not_true, Bool.false_eq_true, if_false]
    cases hr : free_fd K i 3 with
    | none => exact .inl ⟨.inl rfl, rfl⟩
    | some rfd =>
      dsimp only
      cases hw : free_fd K i (rfd + 1) with
      | none => exact .inl ⟨.inr ⟨rfd, rfl, hw⟩, rfl⟩
      | some wfd =>
        refine .inr ⟨rfd, wfd, rfl, hw, ?_⟩
        dsimp only
        split <;> rfl

/-- 両端のノードを用意した状態。 -/
structure NewPipe (K L : Kernel) (rfp wfp : File) : Prop where
  frame : FileFrame K L
  files : L.table = K.table
  read : rfp.file = K.next_node
  write : wfp.file = K.next_node + 1
  next : L.next_node = K.next_node + 2
  next_pipe : L.next_pipe = K.next_pipe + 1
  old : ∀ m, (∀ w : Bool, m ≠ K.next_node + w.toNat) → L.nodes m = K.nodes m
  new : ∀ w : Bool, L.nodes (K.next_node + w.toNat) = { kind := rw_kind w, refcount := 1, ptr := some K.next_pipe }
  users : ∀ q w, (L.pipes q).users w = if q = K.next_pipe then 1 else (K.pipes q).users w
  freed : L.freed = K.freed

theorem new_pipe_spec (K : Kernel) (pid : Nat) :
    NewPipe K (pipe_create K pid).1 (pipe_create K pid).2.1 (pipe_create K pid).2.2 := by
  have hnodes : ∀ m, ((pipe_create K pid).1).nodes m = if m = K.next_node + 1 then { kind := .pipe_write, refcount := 1, ptr := some K.next_pipe }
      else if m = K.next_node then { kind := .pipe_read, refcount := 1, ptr := some K.next_pipe } else K.nodes m := fun _ => rfl
  refine ⟨.new_pipe K pid, rfl, rfl, rfl, rfl, rfl, fun m hm => ?_, fun w => ?_, fun q w => ?_, rfl⟩
  · have hread := hm false
    have hwrite := hm true
    simp only [Bool.toNat_false, Bool.toNat_true, Nat.add_zero] at hread hwrite
    rw [hnodes, if_neg hwrite, if_neg hread]
  · rw [hnodes]
    cases w <;> simp [rw_kind]
  · show (if q = K.next_pipe then _ else K.pipes q : PipeBuf).users w = _
    split
    · cases w <;> rfl
    · rfl

theorem NewPipe.refcount {L : Kernel} {rfp wfp : File} (h : NewPipe K L rfp wfp) (hm : m = rfp.file ∨ m = wfp.file) :
    (L.nodes m).refcount = 1 := by
  rcases hm with rfl | rfl
  · rw [h.read]
    exact congrArg FsNode.refcount (h.new false)
  · rw [h.write]
    exact congrArg FsNode.refcount (h.new true)

theorem share_files_frame (i j : Nat) (fds : List Nat) (K : Kernel) :
    (share_files K i j fds).next_node = K.next_node ∧ (share_files K i j fds).freed = K.freed := by
  induction fds generalizing K with
  | nil => exact ⟨rfl, rfl⟩
  | cons fd fds ih =>
    unfold share_files
    split
    · exact ih _
    · exact ih _

theorem open_count_succ (hnum : K'.num_processes = K.num_processes + 1)
    (hold : ∀ j, j < K.num_processes → (K'.table j).files_open = (K.table j).files_open) (n : Nat) :
    open_count K' n = open_count K n + row_count K' n K.num_processes := by
  unfold open_count
  rw [hnum, List.range_succ, List.map_append, List.sum_append, List.map_singleton, List.sum_singleton]
  congr 2
  exact List.map_congr_left fun j hj => row_count_congr fun d _ => by rw [hold j (List.mem_range.mp hj)]

theorem CreateFrame.open_count {pid : Nat} {load : Option Image} (h : create_process K pid load = some K')
    (hnum : K'.num_processes = K.num_processes) (n : Nat) : open_count K' n = open_count K n := by
  have hf := CreateFrame.create h
  exact open_count_congr hnum fun j d hj _ => by rw [hf.old j hj]

/-! ## 一歩 -/

theorem pipe_fn_users {pb pb' : PipeBuf} {c c' : PipeCall} (h : pipe_fn pb c = .moved pb' c') (w : Bool) :
    pb'.users w = pb.users w := by
  simp only [pipe_fn, pipe_read_fn, pipe_write_fn] at h
  split at h <;> split at h <;> (try split at h) <;> (try split at h) <;> cases h <;> rfl

theorem Quiet.pipe_iter (K : Kernel) (i : Nat) (c : PipeCall) : Quiet K (pipe_iter K i c) := by
  rw [Proc.pipe_iter]
  split
  next pb c' hm =>
    refine .of_row ⟨fun q w => ?_, id, rfl⟩ (fun _ => rfl) rfl
    show (if q = c.pipe then pb else K.pipes q).users w = (K.pipes q).users w
    split
    next hq => rw [hq, pipe_fn_users hm]
    · rfl
  · exact .of_row ⟨fun _ _ => rfl, id, rfl⟩ (fun _ => rfl) rfl
  · exact .of_row ⟨fun _ _ => rfl, id, rfl⟩ (fun _ => rfl) rfl

theorem Fewer.pipe_iter (K : Kernel) (i : Nat) (c : PipeCall) : Fewer K (pipe_iter K i c) := by
  intro j hj
  rwa [(PipeFrame.pipe_iter K i c).pcb j] at hj

theorem Fin.quiet (h : Fin K₀ ev K K') : Quiet K K' ∧ Fewer K K' := by
  cases h with
  | stays => exact ⟨.refl K, fun _ => id⟩
  | returns => exact ⟨⟨⟨fun _ _ => rfl, id, rfl⟩, fun _ => rfl⟩, fun _ => id⟩
  | pipe_start => exact ⟨.of_row ⟨fun _ _ => rfl, id, rfl⟩ (fun _ => rfl) rfl, .of_row (fun _ => rfl) id⟩
  | pipe_iter => exact ⟨.pipe_iter .., Fewer.pipe_iter _ _ _⟩
  | switch _ hnum _ _ hp =>
    obtain ⟨next, hpick⟩ := pick_spec hnum hp
    refine ⟨⟨⟨fun _ _ => by rw [hpick.rest], fun hcur => ?_, by rw [hpick.rest]⟩, fun j => by rw [hpick.table j]⟩, fun j hj => ?_⟩
    · rw [hpick.rest] at hcur
      cases hcur
    · rw [hpick.table j] at hj
      dsimp only at hj
      split at hj
      · cases hj
      · rw [requeued_table] at hj
        split at hj
        · unfold requeue at hj
          dsimp only at hj
          split at hj
          · cases hj
          · exact hj
        · exact hj

theorem sleep_check_loop_quiet {t k : Nat} (h : sleep_check_loop K t k = some K') :
    Quiet K K' ∧ Fewer K K' ∧ K'.current_process = K.current_process := by
  induction k generalizing K with
  | zero => cases h
  | succ k ih =>
    rw [sleep_check_loop] at h
    split at h
    · cases h
      exact ⟨.refl _, fun _ => id, rfl⟩
    next hd _ =>
      split at h
      · obtain ⟨hq, hfew, hcurrent⟩ := ih (K := sleep_pop K hd) h
        obtain ⟨hpop, hless⟩ := sleep_pop_quiet K hd
        exact ⟨hpop.trans hq, fun j hj => hless j (hfew j hj), hcurrent⟩
      · cases h
        exact ⟨.refl _, fun _ => id, rfl⟩

theorem at_schedule_quiet {r : Regs} (h : at_schedule K₀ ev = some (K, r)) :
    Quiet K₀ K ∧ Fewer K₀ K ∧ K.current_process = K₀.current_process := by
  cases ev with
  | boot => cases h
  | fault => cases h
  | pipe => cases h
  | timer r =>
    obtain ⟨K₁, hK₁, heq⟩ := Option.map_eq_some_iff.mp h
    cases heq
    obtain ⟨hq, hfew, hcurrent⟩ := sleep_check_loop_quiet hK₁
    have htick : Quiet K₀ { K₀ with ticks := add32 K₀.ticks 1 } := ⟨⟨fun _ _ => rfl, id, rfl⟩, fun _ => rfl⟩
    exact ⟨htick.trans hq, hfew, hcurrent⟩
  | keyboard z r =>
    cases h
    exact ⟨(send_signal_quiet ..).1, (send_signal_quiet ..).2, (send_signal_clean ..).current⟩
  | syscall env r =>
    simp only [at_schedule] at h
    split at h
    · cases h
      exact ⟨.refl _, fun _ => id, rfl⟩
    · cases h

/-- コマンド行に語のない `spawn` と `exec` は、何もせずに戻る。 -/
theorem step_no_args (h : step K₀ ev = some K') (hargs : ¬ HasArgs ev) : ∃ r v, K' = return_to K₀ r v := by
  cases ev with
  | boot => exact absurd trivial hargs
  | timer => exact absurd trivial hargs
  | keyboard => exact absurd trivial hargs
  | fault => exact absurd trivial hargs
  | pipe => exact absurd trivial hargs
  | syscall env r =>
    simp only [HasArgs, not_forall, Bool.not_eq_true] at hargs
    obtain ⟨heax, hnone⟩ := hargs
    simp only [step] at h
    split at h
    · cases h
    · split at h
      · cases h
      · obtain ⟨o, ho, rfl⟩ := Option.map_eq_some_iff.mp h
        rcases heax with heax | heax
        · simp only [syscall, heax, syscall_spawn, hnone] at ho
          cases ho
          exact ⟨_, _, rfl⟩
        · simp only [syscall, heax, syscall_exec, hnone] at ho
          cases ho
          exact ⟨_, _, rfl⟩

/-- 開いたファイルの上での書き込みの一つずつで保たれる性質は、実行の全体で保たれる。 -/
theorem file_run {ok : Kernel → Event → Prop} {I : Kernel → Prop} (hquiet : ∀ {K K'}, Quiet K K' → Fewer K K' → I K → I K')
    (hact : ∀ {K₀ ev K K'}, Synced K₀ → I K₀ → ok K₀ ev → HasArgs ev → Acts K₀ ev K₀ K → I K → FileStep K₀ ev K K' → I K')
    (h : Steps step ok K K') (hs : Synced K) (hI : I K) : Synced K' ∧ I K' := by
  refine h.inv (P := fun K => Synced K ∧ I K) (fun K₀ ev K₁ hI hok he => ?_) ⟨hs, hI⟩
  obtain ⟨hs, hI⟩ := hI
  refine ⟨hs.step he, ?_⟩
  by_cases hargs : HasArgs ev
  · obtain ⟨K, hacts, hfin⟩ := step_reaches hs he
    have hK : I K := by
      clear hfin
      induction hacts with
      | refl => exact hI
      | tail hacts ha ih => exact hact hs hI hok hargs hacts ih ha.file_step
    exact hquiet hfin.quiet.1 hfin.quiet.2 hK
  · obtain ⟨r, v, rfl⟩ := step_no_args he hargs
    exact hquiet (K := K₀) ⟨⟨fun _ _ => rfl, id, rfl⟩, fun _ => rfl⟩ (fun _ => id) hI

/-! ## まとめて閉じる書き込み -/

/-- 項目 `i` の `fds` を閉じ、ほかは開いたファイルを変えない。 -/
def Clears (K : Kernel) (i : Nat) (fds : List Nat) (K' : Kernel) : Prop :=
  ∃ L, Quiet K L ∧ Quiet (drop_files L i fds) K'

theorem Clears.head {L : Kernel} (hq : Quiet K L) (h : Clears L i fds K') : Clears K i fds K' := by
  obtain ⟨M, hM, hK'⟩ := h
  exact ⟨M, hq.trans hM, hK'⟩

theorem Clears.tail {L : Kernel} (h : Clears K i fds L) (hq : Quiet L K') : Clears K i fds K' := by
  obtain ⟨M, hM, hL⟩ := h
  exact ⟨M, hM, hL.trans hq⟩

theorem Clears.refers (h : Clears K i fds K') (n j d : Nat) :
    refers K' n j d = true ↔ refers K n j d = true ∧ ¬ (j = i ∧ d ∈ fds) := by
  obtain ⟨L, hL, hK'⟩ := h
  rw [hK'.refers, refers_drop_files, hL.refers]

theorem Clears.num (h : Clears K i fds K') : K'.num_processes = K.num_processes := by
  obtain ⟨L, hL, hK'⟩ := h
  rw [hK'.num, drop_files_num, hL.num]

theorem Clears.global (h : Clears K i fds K') (n : Nat) : is_global K' n = is_global K n := by
  obtain ⟨L, hL, hK'⟩ := h
  rw [hK'.global, ← hL.global, (FileFrame.drop_files i fds L).rest]
  rfl

theorem Clears.exit_tree (K : Kernel) (i : Nat) (fds : List Nat) : Clears K i fds (exit_tree K i fds) := by
  refine ⟨K, .refl K, ?_⟩
  unfold Proc.exit_tree
  generalize drop_files K i fds = L
  refine ⟨⟨fun _ _ => rfl, id, rfl⟩, fun j => ?_⟩
  rw [Kernel.modify_table]
  have hkill : ∀ k, ((kill_children_of L (K.table i).pid).table k).files_open = (L.table k).files_open := by
    intro k
    unfold kill_children_of
    dsimp only
    split <;> rfl
  split
  next hj => rw [hj, hkill]
  · exact hkill j

theorem Clears.exec_reset (K : Kernel) (i : Nat) : Clears K i (List.range' 2 (MAX_FILES - 2)) (exec_reset K i) := by
  refine ⟨K.release ((K.table i).cr3.toList ++ (K.table i).memory_regions), ⟨⟨fun _ _ => rfl, id, rfl⟩, fun _ => rfl⟩, ?_⟩
  unfold Proc.exec_reset
  dsimp only
  generalize drop_files (K.release _) i (List.range' 2 (MAX_FILES - 2)) = L
  exact .of_row ⟨fun _ _ => rfl, id, rfl⟩ (fun _ => rfl) rfl

theorem Clears.cleanup (K : Kernel) (i : Nat) : Clears K i (List.range MAX_FILES) (process_cleanup_child K i) := by
  refine ⟨cleanup_base K i, .of_row ⟨fun _ _ => rfl, id, rfl⟩ (fun _ => rfl) rfl, ?_⟩
  rw [process_cleanup_child_eq]
  exact ⟨⟨fun _ _ => rfl, id, rfl⟩, fun _ => rfl⟩

/-- `unblock_parent` が閉じるのは、後始末をする子の記述子である。 -/
theorem unblock_parent_files (K : Kernel) (pid : Nat) (b : Bool) :
    Quiet K (unblock_parent K pid b) ∨ ∃ c j, b = true ∧ K.current_process ≠ some c ∧ AwaitsChild K pid c j ∧
      Clears K c (List.range MAX_FILES) (unblock_parent K pid b) := by
  have hwake : ∀ j, Quiet K (wake_parent K j pid b) := fun j => .of_row ⟨fun _ _ => rfl, id, rfl⟩ (fun _ => rfl) rfl
  rcases unblock_parent_cases K pid b with h | ⟨c, j, hc, hj, hblocked, hwait, ⟨h, -⟩ | ⟨hb, hne, h⟩⟩
  · rw [h]
    exact .inl (.refl K)
  · rw [h]
    exact .inl (hwake j)
  · rw [h]
    exact .inr ⟨c, j, hb, hne, ⟨hc, hj, hblocked, hwait⟩, (Clears.cleanup _ c).head (hwake j)⟩

theorem get_process_by_pid_child (K : Kernel) (i dead pid : Nat) :
    get_process_by_pid (remove_child_from_parent K i dead) pid = get_process_by_pid K pid := by
  have hpid : ∀ k, ((remove_child_from_parent K i dead).table k).pid = (K.table k).pid := by
    intro k
    rw [remove_child_from_parent, Kernel.modify_table]
    split
    next hk => rw [hk]
    · rfl
  unfold get_process_by_pid
  simp only [hpid]
  rfl

theorem reaped_files (K : Kernel) (i dead : Nat) :
    Quiet K (reaped K i dead) ∨ ∃ c, get_process_by_pid K dead = some c ∧ Clears K c (List.range MAX_FILES) (reaped K i dead) := by
  have hrem : Quiet K (remove_child_from_parent K i dead) := .of_row ⟨fun _ _ => rfl, id, rfl⟩ (fun _ => rfl) rfl
  have hreport : ∀ L : Kernel, Quiet L { L with reports := ((L.table i).pid, dead) :: L.reports } :=
    fun L => ⟨⟨fun _ _ => rfl, id, rfl⟩, fun _ => rfl⟩
  unfold reaped reap_child
  dsimp only
  rw [get_process_by_pid_child]
  split
  · exact .inl (hrem.trans (hreport _))
  next c hc => exact .inr ⟨c, hc, ((Clears.cleanup _ c).head hrem).tail (hreport _)⟩

theorem mem_exec_fds : d ∈ List.range' 2 (MAX_FILES - 2) ↔ 2 ≤ d ∧ d < MAX_FILES := by
  rw [List.mem_range'_1]
  simp [MAX_FILES]

theorem Quits.fds_lt (h : Quits K₀ ev i fds) (hd : d ∈ fds) : d < MAX_FILES := by
  cases h with
  | exit => exact List.mem_range.mp hd
  | fault => cases hd

theorem Quits.closes (h : Quits K₀ ev i fds) (hd : d ∈ fds) : Closes K₀ ev i d := by
  cases h with
  | exit hc heax => exact .exit d hc heax
  | fault => cases hd

/-- 終わるか止まるときに閉じる記述子。 -/
theorem Ends.files {b : Bool} (h : Ends K₀ ev i b K) :
    Quiet K₀ K ∨ ∃ fds, Clears K₀ i fds K ∧ ∀ d ∈ fds, Closes K₀ ev i d := by
  cases h with
  | exit hq => exact .inr ⟨_, .exit_tree K₀ i _, fun d hd => hq.closes hd⟩
  | fail hc heax hload =>
    refine .inr ⟨_, (Clears.exec_reset K₀ i).tail (.of_row ⟨fun _ _ => rfl, id, rfl⟩ (fun _ => rfl) rfl), fun d hd => ?_⟩
    exact .exec hc heax (mem_exec_fds.mp hd).1
  | signal hat _ _ hp =>
    exact .inl ((at_schedule_quiet hat).1.trans (.of_row ⟨fun _ _ => rfl, id, rfl⟩ (fun _ => rfl) hp.files))
  | stop hat _ _ hp =>
    exact .inl ((at_schedule_quiet hat).1.trans (.of_row ⟨fun _ _ => rfl, id, rfl⟩ (fun _ => rfl) hp.files))

theorem Ends.current {b : Bool} (hs : Synced K₀) (h : Ends K₀ ev i b K) :
    K.current_process = some i ∧ K.cur_proccess_id = some i := by
  have hat : ∀ {L : Kernel} {r : Regs}, at_schedule K₀ ev = some (L, r) → L.cur_proccess_id = some i → L.current_process = some i := by
    intro L r hsched hcur
    rw [(at_schedule_quiet hsched).2.2, hs.current, ← (at_schedule_tree hsched).1.cur, hcur]
  cases h with
  | exit hq =>
    rw [(exit_tree_clean ..).current, (exit_tree_clean ..).cur, hq.onCpu.current, hq.onCpu.cur]
    exact ⟨rfl, rfl⟩
  | fail hc heax hload =>
    have hclean := (exec_reset_clean K₀ i).trans (exec_fail_clean _ i)
    rw [hclean.current, hclean.cur, hc.current, hc.cur]
    exact ⟨rfl, rfl⟩
  | @signal L r p' hsched hcur => exact ⟨hat (L := L) hsched hcur, hcur⟩
  | @stop L r p' hsched hcur => exact ⟨hat (L := L) hsched hcur, hcur⟩

end MyOS.Proc
