import MyOS.Proc.RefTheorems

/-!
# パイプの端の定理

`readers` と `writers` は、端を開いたプロセスのあるなしを表す。
-/

namespace MyOS.Proc
open MyOS.Lib

variable {K K' K₀ : Kernel} {ev : Event} {i j d fd n m q : Nat} {w : Bool} {fp : File} {fds : List Nat}

/-! ## 端のノード -/

theorem rw_kind_ne (w : Bool) : rw_kind w ≠ .other := by cases w <;> simp [rw_kind]

theorem rw_kind_inj {w' : Bool} (h : rw_kind w = rw_kind w') : w = w' := by
  cases w <;> cases w' <;> simp [rw_kind] at h ⊢

theorem exists_rw_kind (h : (K.nodes n).kind ≠ .other) : ∃ w, (K.nodes n).kind = rw_kind w := by
  cases hk : (K.nodes n).kind with
  | pipe_read => exact ⟨false, rfl⟩
  | pipe_write => exact ⟨true, rfl⟩
  | other => exact absurd hk h

theorem EndOf.ne_other (h : EndOf K w q n) : (K.nodes n).kind ≠ .other := by
  rw [h.1]
  exact rw_kind_ne w

theorem EndOf.inj {w' : Bool} {q' : Nat} (h : EndOf K w q n) (h' : EndOf K w' q' n) : w = w' ∧ q = q' :=
  ⟨rw_kind_inj (h.1.symm.trans h'.1), Option.some.inj (h.2.symm.trans h'.2)⟩

theorem EndInv.lt (h : EndInv K) (hn : 0 < open_count K n) : n < K.next_node := by
  obtain ⟨j, d, -, hd, href⟩ := open_count_pos.mp hn
  obtain ⟨fp, hfp, rfl⟩ := refers_iff.mp href
  exact h.bound j d fp hd hfp

/-- 開いた端は、パイプから外されていない。 -/
theorem EndInv.of_open (h : EndInv K) (hn : 0 < open_count K n) (hk : (K.nodes n).kind ≠ .other) : ∃ w q, EndOf K w q n := by
  obtain ⟨w, hw⟩ := exists_rw_kind hk
  obtain ⟨q, hq⟩ := Option.ne_none_iff_exists'.mp (h.linked n hn hk)
  exact ⟨w, q, hw, hq⟩

/-- 端とパイプを変えない書き込み。`K.next_node` からのノードには、端でないものを置ける。 -/
structure Steady (K K' : Kernel) : Prop extends SameNodes K K' where
  ends : ∀ m, ((K'.nodes m).kind = (K.nodes m).kind ∧ (K'.nodes m).ptr = (K.nodes m).ptr) ∨
    K.next_node ≤ m ∧ (K'.nodes m).kind = .other
  users : ∀ q w, (K'.pipes q).users w = (K.pipes q).users w
  next_pipe : K'.next_pipe = K.next_pipe

theorem Steady.of_files (h : FileFrame K K') (hnext : K.next_node ≤ K'.next_node)
    (hends : ∀ m, (K'.nodes m).kind = (K.nodes m).kind ∧ (K'.nodes m).ptr = (K.nodes m).ptr)
    (hpipes : K'.pipes = K.pipes) (hnp : K'.next_pipe = K.next_pipe) : Steady K K' :=
  ⟨(SameGlobals.of_files h hnext).toSameNodes, fun m => .inl (hends m), fun q w => by rw [hpipes], hnp⟩

theorem Steady.end_of (h : Steady K K') (he : EndOf K' w q n) : EndOf K w q n := by
  rcases h.ends n with ⟨hk, hp⟩ | ⟨-, hother⟩
  · exact ⟨hk ▸ he.1, hp ▸ he.2⟩
  · exact absurd hother he.ne_other

theorem Steady.kind (h : Steady K K') (hn : n < K.next_node) : (K'.nodes n).kind = (K.nodes n).kind := by
  rcases h.ends n with ⟨hk, -⟩ | ⟨hle, -⟩
  · exact hk
  · omega

theorem Steady.end_iff (h : Steady K K') (hn : n < K.next_node) : EndOf K' w q n ↔ EndOf K w q n := by
  refine ⟨h.end_of, fun he => ?_⟩
  rcases h.ends n with ⟨hk, hp⟩ | ⟨hle, -⟩
  · exact ⟨hk.trans he.1, hp.trans he.2⟩
  · omega

theorem EndInv.steady (h : EndInv K) (hs : Steady K K')
    (hrefs : ∀ w q n, EndOf K w q n → Balanced K n → 0 < open_count K n → Balanced K' n ∧ 0 < open_count K' n)
    (hlinked : ∀ n, (K.nodes n).kind ≠ .other → 0 < open_count K' n → 0 < open_count K n)
    (hbound : ∀ j d fp, d < MAX_FILES → (K'.table j).files_open d = some fp → fp.file < K'.next_node) : EndInv K' := by
  have hlt : ∀ {w q n}, EndOf K w q n → n < K.next_node := fun he => h.lt (h.refs _ _ _ he).2.1
  refine ⟨fun w q n he => ?_, fun n hn hk => ?_, fun n hn => ?_, fun w q n m hn hm => ?_, fun w q hq => ?_, hbound⟩
  · obtain ⟨hrc, hpos, hq⟩ := h.refs w q n (hs.end_of he)
    have := hrefs w q n (hs.end_of he) hrc hpos
    exact ⟨this.1, this.2, hs.next_pipe ▸ hq⟩
  · rcases hs.ends n with ⟨hkind, hptr⟩ | ⟨-, hother⟩
    · rw [hkind] at hk
      rw [hptr]
      exact h.linked n (hlinked n hk hn) hk
    · exact absurd hother hk
  · obtain ⟨hlt', hother⟩ := h.globals n (hs.toSameNodes.global n ▸ hn)
    exact ⟨Nat.lt_of_lt_of_le hlt' hs.next_node, (hs.kind hlt').trans hother⟩
  · exact h.unique w q n m (hs.end_of hn) (hs.end_of hm)
  · rw [hs.users]
    rcases h.users w q (hs.next_pipe ▸ hq) with ⟨hone, n, hn⟩ | ⟨hzero, hno⟩
    · exact .inl ⟨hone, n, (hs.end_iff (hlt hn)).mpr hn⟩
    · exact .inr ⟨hzero, fun n hn => hno n (hs.end_of hn)⟩

theorem Steady.quiet (hq : Quiet K K') : Steady K K' := by
  refine ⟨⟨?_, ?_, ?_, ?_⟩, fun m => .inl ?_, hq.users, ?_⟩
  · rw [hq.rest]
  · rw [hq.rest]
  · rw [hq.rest]
  · rw [hq.rest]
  · rw [hq.nodes]
    exact ⟨rfl, rfl⟩
  · rw [hq.rest]

theorem EndInv.quiet (h : EndInv K) (hq : Quiet K K') : EndInv K' := by
  have hs := Steady.quiet hq
  refine h.steady hs (fun w q n _ hb hpos => ?_) (fun n _ hpos => hq.open_count n ▸ hpos) fun j d fp hd hfp => ?_
  · unfold Balanced
    rw [hq.nodes, hq.open_count]
    exact ⟨hb, hpos⟩
  · rw [hq.files] at hfp
    exact Nat.lt_of_lt_of_le (h.bound j d fp hd hfp) hs.next_node

/-! ## 閉じる -/

theorem decRef_ends (K : Kernel) (n m : Nat) :
    ((decRef K n).nodes m).kind = (K.nodes m).kind ∧ ((decRef K n).nodes m).ptr = (K.nodes m).ptr := by
  unfold decRef
  split
  · rw [setNode_nodes]
    split
    next h =>
      rw [h]
      exact ⟨rfl, rfl⟩
    · exact ⟨rfl, rfl⟩
  · exact ⟨rfl, rfl⟩

theorem close_fs_other (h : (K.nodes n).kind = .other) : close_fs K n = K := if_pos h

theorem close_fs_nodes (h : EndOf K w q n) (m : Nat) :
    (close_fs K n).nodes m = if m = n then { K.nodes n with ptr := none } else K.nodes m := by
  unfold close_fs pipe_close_fn
  rw [if_neg h.ne_other, h.2]
  rfl

theorem close_fs_users (h : EndOf K w q n) (q' : Nat) (w' : Bool) :
    ((close_fs K n).pipes q').users w' =
      if q' = q ∧ w' = w then sub32 ((K.pipes q).users w) 1 else (K.pipes q').users w' := by
  have hread : (K.nodes n).kind = .pipe_read ↔ w = false := by
    rw [h.1]
    cases w <;> simp [rw_kind]
  unfold close_fs pipe_close_fn
  rw [if_neg h.ne_other, h.2]
  show (if q' = q then _ else K.pipes q' : PipeBuf).users w' = _
  by_cases hq : q' = q
  · subst hq
    simp only [if_true, true_and, hread]
    cases w <;> cases w' <;> simp [PipeBuf.users] <;> split <;> rfl
  · simp [hq]

theorem close_fs_next_pipe (K : Kernel) (n : Nat) : (close_fs K n).next_pipe = K.next_pipe := by
  unfold close_fs pipe_close_fn
  split
  · rfl
  · split <;> rfl

/-- 参照のなくなった端をパイプから外す。 -/
theorem EndInv.closes (h : EndInv K) (he : EndOf K w q n) (hg : SameNodes K K')
    (hnodes : ∀ m, (K'.nodes m).kind = (K.nodes m).kind ∧ (K'.nodes m).ptr = if m = n then none else (K.nodes m).ptr)
    (husers : ∀ q' w', (K'.pipes q').users w' = if q' = q ∧ w' = w then 0 else (K.pipes q').users w')
    (hpipe : K'.next_pipe = K.next_pipe)
    (hrefs : ∀ m, Balanced K m → Balanced K' m) (hcount : ∀ m, m ≠ n → open_count K' m = open_count K m)
    (hzero : open_count K' n = 0)
    (hbound : ∀ j d fp, d < MAX_FILES → (K'.table j).files_open d = some fp → fp.file < K'.next_node) : EndInv K' := by
  -- ほかの端は残る
  have hend : ∀ {w' q' m}, EndOf K' w' q' m ↔ EndOf K w' q' m ∧ m ≠ n := by
    intro w' q' m
    unfold EndOf
    rw [(hnodes m).1, (hnodes m).2]
    by_cases hm : m = n
    · simp [hm]
    · simp [hm]
  refine ⟨fun w' q' m hm => ?_, fun m hpos hk => ?_, fun m hm => ?_, fun w' q' m k hm hk => ?_, fun w' q' hq => ?_, hbound⟩
  · obtain ⟨hm, hne⟩ := hend.mp hm
    obtain ⟨hrc, hpos, hlt⟩ := h.refs w' q' m hm
    exact ⟨hrefs m hrc, (hcount m hne).symm ▸ hpos, hpipe ▸ hlt⟩
  · have hne : m ≠ n := by
      rintro rfl
      omega
    rw [(hnodes m).2, if_neg hne]
    rw [(hnodes m).1] at hk
    exact h.linked m (hcount m hne ▸ hpos) hk
  · obtain ⟨hlt, hother⟩ := h.globals m (hg.global m ▸ hm)
    exact ⟨Nat.lt_of_lt_of_le hlt hg.next_node, (hnodes m).1.trans hother⟩
  · exact h.unique w' q' m k (hend.mp hm).1 (hend.mp hk).1
  · rw [husers]
    by_cases hsame : q' = q ∧ w' = w
    · obtain ⟨rfl, rfl⟩ := hsame
      rw [if_pos ⟨rfl, rfl⟩]
      exact .inr ⟨rfl, fun m hm => (hend.mp hm).2 (h.unique w' q' m n (hend.mp hm).1 he)⟩
    · rw [if_neg hsame]
      rcases h.users w' q' (hpipe ▸ hq) with ⟨hone, m, hm⟩ | ⟨hzero, hno⟩
      · refine .inl ⟨hone, m, hend.mpr ⟨hm, ?_⟩⟩
        rintro rfl
        obtain ⟨hw, hq⟩ := hm.inj he
        exact hsame ⟨hq, hw⟩
      · exact .inr ⟨hzero, fun m hm => hno m (hend.mp hm).1⟩

/-- `free_node` の前までの `drop_file`。 -/
def dropped (K : Kernel) (i fd : Nat) (fp : File) : Kernel := setFile ((decRef K fp.file).release [fp.id]) i fd none

theorem drop_file_cases (h : (K.table i).files_open fd = some fp) :
    ((dropped K i fd fp).nodes fp.file).refcount = 0 ∧ drop_file K i fd = free_node (dropped K i fd fp) fp.file ∨
      ((dropped K i fd fp).nodes fp.file).refcount ≠ 0 ∧ drop_file K i fd = dropped K i fd fp := by
  unfold drop_file
  rw [h]
  dsimp only
  split
  next hzero => exact .inl ⟨hzero, rfl⟩
  next hzero => exact .inr ⟨hzero, rfl⟩

theorem dropped_frame (K : Kernel) (i fd : Nat) (fp : File) : FileFrame K (dropped K i fd fp) :=
  ((FileFrame.decRef K fp.file).trans (.release _ _)).trans (.setFile _ i fd none)

theorem Steady.dropped (K : Kernel) (i fd : Nat) (fp : File) : Steady K (dropped K i fd fp) := by
  have hnext : (decRef K fp.file).next_node = K.next_node ∧ (decRef K fp.file).pipes = K.pipes ∧
      (decRef K fp.file).next_pipe = K.next_pipe := by
    unfold decRef
    split <;> exact ⟨rfl, rfl, rfl⟩
  exact .of_files (dropped_frame K i fd fp) (Nat.le_of_eq hnext.1.symm) (decRef_ends K fp.file) hnext.2.1 hnext.2.2

theorem drop_file_bound (h : ∀ j d fp, d < MAX_FILES → (K.table j).files_open d = some fp → fp.file < K.next_node) (i fd : Nat) :
    ∀ j d fp, d < MAX_FILES → ((drop_file K i fd).table j).files_open d = some fp → fp.file < (drop_file K i fd).next_node := by
  intro j d fp hd hfp
  rw [drop_file_files] at hfp
  rw [drop_file_next]
  split at hfp
  · cases hfp
  · exact h j d fp hd hfp

theorem EndInv.drop_file (h : EndInv K) (hi : i < K.num_processes) (hfd : fd < MAX_FILES) : EndInv (drop_file K i fd) := by
  cases hfile : (K.table i).files_open fd with
  | none =>
    rw [drop_file_none hfile]
    exact h
  | some fp =>
    have hbound := drop_file_bound h.bound i fd
    have hcount := open_count_drop hfile hi hfd
    have hbal : ∀ m, Balanced K m → Balanced (Proc.drop_file K i fd) m := fun m hb => hb.drop hi hfd
    have hpos : 0 < open_count K fp.file := open_count_pos.mpr ⟨i, fd, hi, hfd, refers_iff.mpr ⟨fp, hfile, rfl⟩⟩
    have hlinked : ∀ m, (K.nodes m).kind ≠ .other → 0 < open_count (Proc.drop_file K i fd) m → 0 < open_count K m :=
      fun m _ hm => by have := hcount m; omega
    have hs := Steady.dropped K i fd fp
    have hg := SameGlobals.drop_file K i fd
    rcases drop_file_cases hfile with ⟨hzero, heq⟩ | ⟨hne, heq⟩
    · by_cases hk : (K.nodes fp.file).kind = .other
      · -- 端でないノードでは、パイプは変わらない
        have hkind : ((dropped K i fd fp).nodes fp.file).kind = .other := (hs.kind (h.lt hpos)).trans hk
        have hsteady : Steady K (Proc.drop_file K i fd) := by
          rw [heq]
          unfold free_node
          rw [close_fs_other hkind]
          exact ⟨⟨hs.next_node, hs.stdin, hs.stdout, hs.mounts⟩, hs.ends, hs.users, hs.next_pipe⟩
        refine h.steady hsteady (fun w q n he hb hn => ⟨hbal n hb, ?_⟩) hlinked hbound
        have := hcount n
        rw [if_neg] at this
        · omega
        · rintro rfl
          exact he.ne_other hk
      · obtain ⟨w, q, he⟩ := h.of_open hpos hk
        obtain ⟨hrc, -, hq⟩ := h.refs w q fp.file he
        have he' : EndOf (dropped K i fd fp) w q fp.file := (hs.end_iff (h.lt hpos)).mpr he
        have huse : (K.pipes q).users w = 1 := by
          rcases h.users w q hq with ⟨hone, -⟩ | ⟨-, hno⟩
          · exact hone
          · exact absurd he (hno fp.file)
        refine h.closes he hg.toSameNodes (fun m => ?_) (fun q' w' => ?_) ?_ hbal (fun m hm => ?_) ?_ hbound
        · have hm : (Proc.drop_file K i fd).nodes m = (close_fs (dropped K i fd fp) fp.file).nodes m := by rw [heq]; rfl
          rw [hm, close_fs_nodes he']
          have hsame := decRef_ends K fp.file
          by_cases hmn : m = fp.file
          · subst hmn
            rw [if_pos rfl, if_pos rfl]
            exact ⟨(hsame fp.file).1, rfl⟩
          · rw [if_neg hmn, if_neg hmn]
            exact hsame m
        · have hm : (Proc.drop_file K i fd).pipes = (close_fs (dropped K i fd fp) fp.file).pipes := by rw [heq]; rfl
          rw [hm, close_fs_users he', hs.users, hs.users, huse]
          rfl
        · have hm : (Proc.drop_file K i fd).next_pipe = (close_fs (dropped K i fd fp) fp.file).next_pipe := by rw [heq]; rfl
          rw [hm, close_fs_next_pipe, hs.next_pipe]
        · have := hcount m
          rw [if_neg hm] at this
          exact this
        · have hb : Balanced (Proc.drop_file K i fd) fp.file := hbal fp.file hrc
          rw [← hb, heq, free_node_refcount, hzero]
    · refine h.steady (heq ▸ hs) (fun w q n he hb hn => ⟨hbal n hb, ?_⟩) hlinked hbound
      by_cases hn : n = fp.file
      · have hb' : Balanced (Proc.drop_file K i fd) n := hbal n hb
        rw [← hb', hn, heq]
        exact Nat.pos_of_ne_zero hne
      · have := hcount n
        rw [if_neg hn] at this
        omega

theorem close_fs_kind (K : Kernel) (n m : Nat) : ((close_fs K n).nodes m).kind = (K.nodes m).kind := by
  unfold close_fs pipe_close_fn
  split
  · rfl
  · split
    · rfl
    · rw [setNode_nodes]
      split
      next h => rw [h]
      · rfl

theorem drop_file_kind (K : Kernel) (i fd m : Nat) : ((drop_file K i fd).nodes m).kind = (K.nodes m).kind := by
  cases hfile : (K.table i).files_open fd with
  | none => rw [drop_file_none hfile]
  | some fp =>
    rcases drop_file_cases hfile with ⟨-, heq⟩ | ⟨-, heq⟩
    · rw [heq]
      exact (close_fs_kind _ _ m).trans (decRef_ends K fp.file m).1
    · rw [heq]
      exact (decRef_ends K fp.file m).1

theorem EndInv.drop_files (h : EndInv K) (hi : i < K.num_processes) (hfds : ∀ fd ∈ fds, fd < MAX_FILES) :
    EndInv (drop_files K i fds) ∧ ∀ m, ((drop_files K i fds).nodes m).kind = (K.nodes m).kind := by
  induction fds generalizing K with
  | nil => exact ⟨h, fun _ => rfl⟩
  | cons fd fds ih =>
    have hone := h.drop_file hi (hfds fd List.mem_cons_self)
    obtain ⟨hinv, hkind⟩ := ih hone ((drop_file_num K i fd).symm ▸ hi) fun d hd => hfds d (List.mem_cons_of_mem fd hd)
    exact ⟨hinv, fun m => (hkind m).trans (drop_file_kind K i fd m)⟩

theorem EndInv.clears (h : EndInv K) (hi : i < K.num_processes) (hfds : ∀ fd ∈ fds, fd < MAX_FILES) (hc : Clears K i fds K') :
    EndInv K' ∧ ∀ m, (K'.nodes m).kind = (K.nodes m).kind := by
  obtain ⟨L, hL, hK'⟩ := hc
  obtain ⟨hinv, hkind⟩ := (h.quiet hL).drop_files (hL.num.symm ▸ hi) hfds
  exact ⟨hinv.quiet hK', fun m => by rw [hK'.nodes, hkind, hL.nodes]⟩

/-! ## 開く -/

theorem noEnd_iff : NoEnd K j d ↔ ∀ n, refers K n j d = true → (K.nodes n).kind = .other := by
  constructor
  · intro h n hn
    obtain ⟨fp, hfp, rfl⟩ := refers_iff.mp hn
    exact h fp hfp
  · exact fun h fp hfp => h fp.file (refers_iff.mpr ⟨fp, hfp, rfl⟩)

theorem NoEnd.refers (h : NoEnd K j d) (hk : (K.nodes n).kind ≠ .other) : refers K n j d = false := by
  by_contra hn
  exact hk (noEnd_iff.mp h n (by simpa using hn))

theorem NoEnd.of_none (h : (K.table j).files_open d = none) : NoEnd K j d := by
  intro fp hfp
  rw [h] at hfp
  cases hfp

theorem share_file_ends (K : Kernel) (i fd flags n m : Nat) :
    ((share_file K i fd flags n).nodes m).kind = (K.nodes m).kind ∧ ((share_file K i fd flags n).nodes m).ptr = (K.nodes m).ptr := by
  show ((incRef K n).nodes m).kind = _ ∧ ((incRef K n).nodes m).ptr = _
  unfold incRef
  rw [setNode_nodes]
  split
  next h =>
    rw [h]
    exact ⟨rfl, rfl⟩
  · exact ⟨rfl, rfl⟩

theorem Steady.share_file (K : Kernel) (i fd flags n : Nat) : Steady K (share_file K i fd flags n) :=
  .of_files (.share_file K i fd flags n) (Nat.le_refl _) (share_file_ends K i fd flags n) rfl rfl

theorem EndInv.share (h : EndInv K) (hmax : K.num_processes ≤ MAX_PROCESSES) (hi : i < K.num_processes) (hfd : fd < MAX_FILES)
    (hno : NoEnd K i fd) (hn : n < K.next_node) (hopen : (K.nodes n).kind ≠ .other → 0 < open_count K n) (flags : Nat) :
    EndInv (share_file K i fd flags n) := by
  have hs := Steady.share_file K i fd flags n
  have hcount : ∀ {m}, (K.nodes m).kind ≠ .other →
      open_count (Proc.share_file K i fd flags n) m = open_count K m + if m = n then 1 else 0 := fun hk =>
    open_count_share flags hi hfd (hno.refers hk) n
  refine h.steady hs (fun w q m he hb hpos => ⟨?_, ?_⟩) (fun m hk hpos => ?_) fun j d fp hd hfp => ?_
  · refine hb.share (fun hm => ?_) flags hi hfd (hno.refers he.ne_other)
    subst hm
    exact Nat.lt_of_le_of_lt (Nat.succ_le_succ (hb.small hmax)) (by simp [MAX_PROCESSES, MAX_FILES])
  · rw [hcount he.ne_other]
    omega
  · rw [hcount hk] at hpos
    split at hpos
    next hm =>
      subst hm
      exact hopen hk
    · exact hpos
  · rw [share_file_files] at hfp
    refine Nat.lt_of_lt_of_le ?_ hs.next_node
    split at hfp
    · cases hfp
      exact hn
    · exact h.bound j d fp hd hfp

theorem EndInv.fopen (h : EndInv K) (hon : OnCpu i K) (hmax : K.num_processes ≤ MAX_PROCESSES) (look : Lookup) (modes : Nat) :
    EndInv (fopen K i look modes).1 := by
  rcases fopen_cases K i look modes with hsame | ⟨L, n, hget, hout⟩
  · rw [hsame]
    exact h
  have hL : EndInv L ∧ OnCpu i L ∧ L.num_processes ≤ MAX_PROCESSES ∧ n < L.next_node ∧ (L.nodes n).kind = .other := by
    rcases get_node_cases hget with ⟨rfl, rfl⟩ | ⟨rfl, hmem⟩
    · have hs : Steady K { K.setNode K.next_node {} with next_node := K.next_node + 1 } := by
        refine ⟨⟨Nat.le_succ _, rfl, rfl, rfl⟩, fun m => ?_, fun _ _ => rfl, rfl⟩
        show (((K.setNode K.next_node {}).nodes m).kind = _ ∧ ((K.setNode K.next_node {}).nodes m).ptr = _) ∨
          _ ∧ ((K.setNode K.next_node {}).nodes m).kind = _
        rw [setNode_nodes]
        split
        next hm => exact .inr ⟨Nat.le_of_eq hm.symm, rfl⟩
        · exact .inl ⟨rfl, rfl⟩
      have hnodes : ∀ m, m < K.next_node → ({ K.setNode K.next_node {} with next_node := K.next_node + 1 } : Kernel).nodes m = K.nodes m :=
        fun m hm => if_neg (Nat.ne_of_lt hm)
      have hnew : EndInv { K.setNode K.next_node {} with next_node := K.next_node + 1 } := by
        refine h.steady hs (fun w q m he hb hpos => ⟨?_, hpos⟩) (fun m _ hpos => hpos) fun j d fp hd hfp => ?_
        · show (({ K.setNode K.next_node {} with next_node := K.next_node + 1 } : Kernel).nodes m).refcount = open_count K m
          rw [hnodes m (h.lt hpos)]
          exact hb
        · exact Nat.lt_succ_of_lt (h.bound j d fp hd hfp)
      exact ⟨hnew, hon.files ⟨fun _ => rfl, rfl⟩, hmax, Nat.lt_succ_self _, congrArg FsNode.kind (if_pos rfl)⟩
    · obtain ⟨hlt, hother⟩ := h.globals n (by simp [is_global, hmem])
      exact ⟨h, hon, hmax, hlt, hother⟩
  obtain ⟨hL, hon, hmax, hn, hk⟩ := hL
  rcases hout with heq | ⟨fd, hfd, heq⟩
  · rw [heq]
    exact hL
  · rw [heq]
    obtain ⟨-, hlt, hfree, -⟩ := free_fd_some hfd
    exact hL.share hmax hon.lt hlt (.of_none hfree) hn (fun hne => absurd hk hne) modes

theorem EndInv.dup (h : EndInv K) (hon : OnCpu i K) (hmax : K.num_processes ≤ MAX_PROCESSES) (fd : Nat) :
    EndInv (syscall_dup K i fd).1 := by
  unfold syscall_dup
  split
  · exact h
  next hfd =>
    split
    · exact h
    next fp hfile =>
      split
      · exact h
      next d hd =>
        obtain ⟨-, hlt, hfree, -⟩ := free_fd_some hd
        have hpos : 0 < open_count K fp.file :=
          open_count_pos.mpr ⟨i, fd, hon.lt, by omega, refers_iff.mpr ⟨fp, hfile, rfl⟩⟩
        exact h.share hmax hon.lt hlt (.of_none hfree) (h.lt hpos) (fun _ => hpos) fp.flags

theorem EndInv.close (h : EndInv K) (hon : OnCpu i K) (fd : Nat) : EndInv (syscall_close K i fd).1 := by
  unfold syscall_close
  split
  · exact h
  · split
    · exact h
    · exact h.drop_file hon.lt (by omega)

/-- 3 未満の写し先は閉じずに上書きする。 -/
theorem EndInv.dup2 {old_fd new_fd : Nat} (h : EndInv K) (hon : OnCpu i K) (hmax : K.num_processes ≤ MAX_PROCESSES)
    (hlow : ∀ fp, Dup2Of K i old_fd new_fd fp → new_fd < 3 → NoEnd K i new_fd) : EndInv (syscall_dup2 K i old_fd new_fd).1 := by
  unfold syscall_dup2
  split
  · exact h
  next hrange =>
    split
    · exact h
    next hne =>
      split
      · exact h
      next fp hfile =>
        have hof : Dup2Of K i old_fd new_fd fp := ⟨by omega, by omega, hne, hfile⟩
        have hshare : ∀ L : Kernel, EndInv L → OnCpu i L → L.num_processes ≤ MAX_PROCESSES → NoEnd L i new_fd →
            (L.table i).files_open old_fd = some fp → EndInv (Proc.share_file L i new_fd fp.flags fp.file) := by
          intro L hL hon hmax hno hfile
          have hpos : 0 < open_count L fp.file :=
            open_count_pos.mpr ⟨i, old_fd, hon.lt, hof.1, refers_iff.mpr ⟨fp, hfile, rfl⟩⟩
          exact hL.share hmax hon.lt hof.2.1 hno (hL.lt hpos) (fun _ => hpos) fp.flags
        dsimp only
        split
        next hopen =>
          by_cases h3 : new_fd < 3
          · have hclose : (syscall_close K i new_fd).1 = K := by
              unfold syscall_close
              rw [if_pos (.inl h3)]
            rw [hclose]
            exact hshare K h hon hmax (hlow fp hof h3) hfile
          · have hclose : (syscall_close K i new_fd).1 = Proc.drop_file K i new_fd := by
              unfold syscall_close
              rw [if_neg (by omega), if_neg (by simp [Option.isSome_iff_ne_none.mp hopen])]
            have hmax' : (Proc.drop_file K i new_fd).num_processes ≤ MAX_PROCESSES := by rwa [drop_file_num]
            rw [hclose]
            refine hshare _ (h.drop_file hon.lt hof.2.1) (hon.files (.drop_file K i new_fd)) hmax' (.of_none ?_) ?_
            · rw [drop_file_files, if_pos ⟨rfl, rfl⟩]
            · rw [drop_file_files, if_neg fun heq => hne heq.2]
              exact hfile
        next hopen => exact hshare K h hon hmax (.of_none (by simpa using hopen)) hfile

/-! ## パイプを作る -/

/-- 二つのノードを用意した後の状態。`made` は、両端を開いたことである。開かなければ、どちらの端も外れている。 -/
structure PipeMade (K K' : Kernel) (made : Bool) : Prop extends SameNodes K K' where
  next : K'.next_node = K.next_node + 2
  next_pipe : K'.next_pipe = K.next_pipe + 1
  old : ∀ m, (∀ w : Bool, m ≠ K.next_node + w.toNat) → K'.nodes m = K.nodes m
  new : ∀ w : Bool, K'.nodes (K.next_node + w.toNat) =
    { kind := rw_kind w, refcount := 1, ptr := if made then some K.next_pipe else none }
  users : ∀ q w, (K'.pipes q).users w = if q = K.next_pipe then made.toNat else (K.pipes q).users w
  count : ∀ m, open_count K' m = open_count K m + if made = true ∧ ∃ w : Bool, m = K.next_node + w.toNat then 1 else 0
  bound : ∀ j d fp, d < MAX_FILES → (K'.table j).files_open d = some fp → fp.file < K'.next_node

theorem EndInv.made {o : Bool} (h : EndInv K) (hm : PipeMade K K' o) : EndInv K' := by
  have hold : ∀ {m}, m < K.next_node → ∀ w : Bool, m ≠ K.next_node + w.toNat := fun hlt w => by omega
  have hzero : ∀ w : Bool, open_count K (K.next_node + w.toNat) = 0 := by
    intro w
    by_contra hpos
    have := h.lt (Nat.pos_of_ne_zero hpos)
    omega
  -- 端は、前からの端と、新しい両端である
  have hend : ∀ {w q m}, EndOf K' w q m ↔ EndOf K w q m ∨ o = true ∧ q = K.next_pipe ∧ m = K.next_node + w.toNat := by
    intro w q m
    by_cases hnew : ∃ w' : Bool, m = K.next_node + w'.toNat
    · obtain ⟨w', rfl⟩ := hnew
      have hnot : ¬ EndOf K w q (K.next_node + w'.toNat) := fun he => by
        have := (h.refs _ _ _ he).2.1
        have := hzero w'
        omega
      simp only [hnot, false_or]
      unfold EndOf
      rw [hm.new]
      constructor
      · rintro ⟨hk, hp⟩
        obtain rfl := rw_kind_inj hk
        cases o with
        | true => exact ⟨rfl, (Option.some.inj hp).symm, rfl⟩
        | false => cases hp
      · rintro ⟨rfl, rfl, hw⟩
        have : w' = w := by cases w <;> cases w' <;> simp at hw ⊢
        subst this
        exact ⟨rfl, rfl⟩
    · have hne : ∀ w' : Bool, m ≠ K.next_node + w'.toNat := fun w' heq => hnew ⟨w', heq⟩
      have hnot : ¬ (o = true ∧ q = K.next_pipe ∧ m = K.next_node + w.toNat) := fun hh => hne w hh.2.2
      simp only [hnot, or_false]
      unfold EndOf
      rw [hm.old m hne]
  have hlt : ∀ {w q m}, EndOf K w q m → m < K.next_node ∧ q < K.next_pipe := fun he =>
    ⟨h.lt (h.refs _ _ _ he).2.1, (h.refs _ _ _ he).2.2⟩
  have hsame : ∀ {m}, m < K.next_node → open_count K' m = open_count K m := by
    intro m hlt
    rw [hm.count, if_neg, Nat.add_zero]
    rintro ⟨-, w, hw⟩
    exact hold hlt w hw
  refine ⟨fun w q m he => ?_, fun m hpos hk => ?_, fun m hg => ?_, fun w q m k he he' => ?_, fun w q hq => ?_, hm.bound⟩
  · rcases hend.mp he with he | ⟨rfl, rfl, rfl⟩
    · obtain ⟨hrc, hpos, hq⟩ := h.refs w q m he
      rw [hsame (hlt he).1, hm.old m (hold (hlt he).1), hm.next_pipe]
      exact ⟨hrc, hpos, by omega⟩
    · rw [hm.count, if_pos ⟨rfl, w, rfl⟩, hzero, hm.new, hm.next_pipe]
      exact ⟨rfl, by omega, by omega⟩
  · by_cases hnew : ∃ w : Bool, m = K.next_node + w.toNat
    · obtain ⟨w, rfl⟩ := hnew
      rw [hm.count, hzero, Nat.zero_add] at hpos
      split at hpos
      next hmade =>
        rw [hm.new, if_pos hmade.1]
        simp
      · omega
    · have hne : ∀ w : Bool, m ≠ K.next_node + w.toNat := fun w heq => hnew ⟨w, heq⟩
      rw [hm.count, if_neg fun hh => hnew hh.2, Nat.add_zero] at hpos
      rw [hm.old m hne] at hk ⊢
      exact h.linked m hpos hk
  · obtain ⟨hg, hk⟩ := h.globals m (hm.toSameNodes.global m ▸ hg)
    rw [hm.old m (hold hg), hm.next]
    exact ⟨by omega, hk⟩
  · rcases hend.mp he with he | ⟨-, rfl, rfl⟩ <;> rcases hend.mp he' with he' | ⟨-, hq, rfl⟩
    · exact h.unique w q m k he he'
    · have := (hlt he).2
      omega
    · have := (hlt he').2
      omega
    · rfl
  · rw [hm.next_pipe] at hq
    rw [hm.users]
    by_cases hnew : q = K.next_pipe
    · subst hnew
      rw [if_pos rfl]
      cases o with
      | true => exact .inl ⟨rfl, _, hend.mpr (.inr ⟨rfl, rfl, rfl⟩)⟩
      | false =>
        refine .inr ⟨rfl, fun m he => ?_⟩
        rcases hend.mp he with he | ⟨hmade, -⟩
        · have := (hlt he).2
          omega
        · cases hmade
    · rw [if_neg hnew]
      rcases h.users w q (by omega) with ⟨hone, m, he⟩ | ⟨hz, hno⟩
      · exact .inl ⟨hone, m, hend.mpr (.inl he)⟩
      · refine .inr ⟨hz, fun m he => ?_⟩
        rcases hend.mp he with he | ⟨-, hq', -⟩
        · exact hno m he
        · exact hnew hq'

/-- 両端を開かずに外す。 -/
theorem PipeMade.undone {L M : Kernel} {rfp wfp : File} (hg : SameNodes K L) (hnew : NewPipe K L rfp wfp) (hq : Quiet L M)
    (hcount : ∀ m, open_count M m = open_count K m)
    (hbound : ∀ j d fp, d < MAX_FILES → (M.table j).files_open d = some fp → fp.file < K.next_node) :
    PipeMade K (free_node (free_node M rfp.file) wfp.file) false := by
  have hnodes : M.nodes = L.nodes := hq.nodes
  have hread : EndOf M false K.next_pipe rfp.file := by
    unfold EndOf
    rw [hnodes, hnew.read, show K.next_node = K.next_node + Bool.toNat false from rfl, hnew.new]
    exact ⟨rfl, rfl⟩
  have hne : wfp.file ≠ rfp.file := by
    rw [hnew.read, hnew.write]
    omega
  have hwrite : EndOf (free_node M rfp.file) true K.next_pipe wfp.file := by
    have hsame : (free_node M rfp.file).nodes wfp.file = M.nodes wfp.file := (close_fs_nodes hread wfp.file).trans (if_neg hne)
    unfold EndOf
    rw [hsame, hnodes, hnew.write, show K.next_node + 1 = K.next_node + Bool.toNat true from rfl, hnew.new]
    exact ⟨rfl, rfl⟩
  have hK' : ∀ m, (free_node (free_node M rfp.file) wfp.file).nodes m =
      if m = wfp.file then { L.nodes wfp.file with ptr := none } else if m = rfp.file then { L.nodes rfp.file with ptr := none }
      else L.nodes m := by
    intro m
    refine (close_fs_nodes hwrite m).trans ?_
    have hone : ∀ m, (free_node M rfp.file).nodes m = if m = rfp.file then { M.nodes rfp.file with ptr := none } else M.nodes m :=
      close_fs_nodes hread
    rw [hone, hone, if_neg hne, hnodes]
  have hframe := (FileFrame.free_node M rfp.file).trans (.free_node _ wfp.file)
  have hnext : (free_node (free_node M rfp.file) wfp.file).next_node = L.next_node := by
    show (close_fs (free_node M rfp.file) wfp.file).next_node = L.next_node
    rw [close_fs_next]
    show (close_fs M rfp.file).next_node = L.next_node
    rw [close_fs_next, hq.rest]
  have hgM : SameNodes M (free_node (free_node M rfp.file) wfp.file) :=
    (SameGlobals.of_files hframe (by rw [hnext, hq.rest])).toSameNodes
  have hgL := (Steady.quiet hq).toSameNodes
  have htable : (free_node (free_node M rfp.file) wfp.file).table = M.table :=
    (free_node_table _ _).trans (free_node_table M rfp.file)
  refine ⟨⟨?_, ?_, ?_, ?_⟩, hnext.trans hnew.next, ?_, fun m hm => ?_, fun w => ?_, fun q w => ?_, fun m => ?_, fun j d fp hd hfp => ?_⟩
  · rw [hnext]
    exact hg.next_node
  · rw [hgM.stdin, hgL.stdin, hg.stdin]
  · rw [hgM.stdout, hgL.stdout, hg.stdout]
  · rw [hgM.mounts, hgL.mounts, hg.mounts]
  · show (close_fs (free_node M rfp.file) wfp.file).next_pipe = _
    rw [close_fs_next_pipe]
    show (close_fs M rfp.file).next_pipe = _
    rw [close_fs_next_pipe, (Steady.quiet hq).next_pipe, hnew.next_pipe]
  · have hfalse := hm false
    have htrue := hm true
    simp only [Bool.toNat_false, Bool.toNat_true, Nat.add_zero] at hfalse htrue
    rw [hK', hnew.write, hnew.read, if_neg htrue, if_neg hfalse, hnew.old m hm]
  · have hend := hnew.new w
    rw [hK']
    cases w with
    | false =>
      simp only [Bool.toNat_false, Nat.add_zero] at hend ⊢
      rw [if_neg (by rw [hnew.write]; omega), if_pos hnew.read.symm, hnew.read, hend]
      rfl
    | true =>
      simp only [Bool.toNat_true] at hend ⊢
      rw [if_pos hnew.write.symm, hnew.write, hend]
      rfl
  · have hone : ∀ q' w', ((free_node M rfp.file).pipes q').users w' =
        if q' = K.next_pipe ∧ w' = false then sub32 ((M.pipes K.next_pipe).users false) 1 else (M.pipes q').users w' :=
      close_fs_users hread
    refine (close_fs_users hwrite q w).trans ?_
    rw [hone, hone, hq.users, hq.users, hq.users, hnew.users, hnew.users, hnew.users]
    by_cases hqn : q = K.next_pipe
    · cases w <;> simp [hqn, sub32]
    · simp [hqn]
  · simp only [Bool.false_eq_true, false_and, if_false, Nat.add_zero]
    rw [← hcount]
    exact open_count_congr hframe.num fun j d _ _ => by rw [htable]
  · rw [htable] at hfp
    rw [hnext, hnew.next]
    exact Nat.lt_of_lt_of_le (hbound j d fp hd hfp) (Nat.le_add_right _ 2)

theorem EndInv.pipe (h : EndInv K) (hon : OnCpu i K) (ptr : Nat) (copied : Bool)
    (hroom : is_user_ptr ptr = true → ∃ rfd, free_fd K i 3 = some rfd ∧ (free_fd K i (rfd + 1)).isSome) :
    EndInv (syscall_pipe K i ptr copied).1 := by
  obtain ⟨L, rfp, wfp, hL⟩ : ∃ L rfp wfp, pipe_create K (K.table i).pid = (L, rfp, wfp) := ⟨_, _, _, rfl⟩
  have hnew := new_pipe_spec K (K.table i).pid
  simp only [hL] at hnew
  have hon' := hon.files hnew.frame
  have hg : SameNodes K L := (SameGlobals.of_files hnew.frame (by rw [hnew.next]; omega)).toSameNodes
  have hcount : ∀ m, open_count L m = open_count K m := fun m =>
    open_count_congr hnew.frame.num fun j d _ _ => by rw [hnew.files]
  rcases syscall_pipe_cases K i ptr copied L rfp wfp hL with ⟨-, heq⟩ | ⟨hptr, ⟨hfull, -⟩ | ⟨rfd, wfd, hr, hw, heq⟩⟩
  · rw [heq]
    exact h
  · obtain ⟨rfd, hr, hw⟩ := hroom hptr
    rcases hfull with hnone | ⟨rfd', hr', hnone⟩
    · rw [hr] at hnone
      cases hnone
    · cases hr.symm.trans hr'
      rw [hnone] at hw
      cases hw
  · obtain ⟨-, hrlt, hrfree, -⟩ := free_fd_some hr
    obtain ⟨hle, hwlt, hwfree, -⟩ := free_fd_some hw
    rw [← hnew.files] at hrfree hwfree
    rw [heq]
    split
    · refine h.made (o := true) ⟨⟨hg.next_node, hg.stdin, hg.stdout, hg.mounts⟩, hnew.next, hnew.next_pipe, hnew.old, hnew.new, hnew.users,
        fun m => ?_, fun j d fp hd hfp => ?_⟩
      · have hwhold : refers (setFile L i rfd (some rfp)) m i wfd = false := by
          refine refers_none ?_ m
          rw [setFile_files, if_neg (by omega), hwfree]
        rw [open_count_place (K := setFile L i rfd (some rfp)) wfp hon'.lt hwlt hwhold,
          open_count_place rfp hon'.lt hrlt (refers_none hrfree m), hcount, hnew.read, hnew.write]
        by_cases hread : m = K.next_node
        · simp [hread]
        · by_cases hwrite : m = K.next_node + 1 <;> simp [hread, hwrite]
      · rw [setFile_files, setFile_files] at hfp
        show fp.file < L.next_node
        rw [hnew.next]
        split at hfp
        · cases hfp
          rw [hnew.write]
          omega
        · split at hfp
          · cases hfp
            rw [hnew.read]
            omega
          · rw [hnew.files] at hfp
            have := h.bound j d fp hd hfp
            omega
    · have hundo := Quiet.unplace L i rfp wfp hrfree hwfree [rfp.id, wfp.id]
      have hfiles := hundo.files
      generalize (setFile (setFile (setFile (setFile L i rfd _) i wfd _) i rfd none) i wfd none).release _ = M at *
      refine h.made (o := false) (.undone hg hnew hundo (fun m => ?_) fun j d fp hd hfp => ?_)
      · rw [hundo.open_count, hcount]
      · rw [hfiles, hnew.files] at hfp
        exact h.bound j d fp hd hfp

/-! ## 呼び出し -/

theorem EndInv.file_call {env : Env} {r : Regs} (h : EndInv K) (hc : Calls K ev i env r) (hmax : K.num_processes ≤ MAX_PROCESSES)
    (hok : EndSafe K ev) (hf : FileCall K i env r K') : EndInv K' := by
  cases hf with
  | fopen heax => exact h.fopen hc.toOnCpu hmax env.look env.modes
  | close heax => exact h.close hc.toOnCpu r.ebx
  | dup heax => exact h.dup hc.toOnCpu hmax r.ebx
  | dup2 heax => exact h.dup2 hc.toOnCpu hmax fun fp hof hlow => hok.dup2 i env r fp hc heax hof hlow
  | pipe heax => exact h.pipe hc.toOnCpu r.ebx env.copied fun hptr => hok.pipe i env r hc heax hptr

/-- 項目 `i` のほかは、同じ種類のノードを開いたままである。 -/
structure OwnRow (i : Nat) (K K' : Kernel) : Prop where
  files : ∀ j, j ≠ i → (K'.table j).files_open = (K.table j).files_open
  kinds : ∀ m, m < K.next_node → (K'.nodes m).kind = (K.nodes m).kind
  next : K.next_node ≤ K'.next_node

theorem OwnRow.refl (i : Nat) (K : Kernel) : OwnRow i K K := ⟨fun _ _ => rfl, fun _ _ => rfl, Nat.le_refl _⟩

theorem OwnRow.trans {L : Kernel} (h : OwnRow i K L) (h' : OwnRow i L K') : OwnRow i K K' :=
  ⟨fun j hj => (h'.files j hj).trans (h.files j hj),
    fun m hm => (h'.kinds m (Nat.lt_of_lt_of_le hm h.next)).trans (h.kinds m hm), Nat.le_trans h.next h'.next⟩

theorem OwnRow.setFile (K : Kernel) (i fd : Nat) (o : Option File) : OwnRow i K (setFile K i fd o) := by
  refine ⟨fun j hj => ?_, fun _ _ => rfl, Nat.le_refl _⟩
  funext d
  rw [setFile_files, if_neg fun h => hj h.1]

theorem OwnRow.share_file (K : Kernel) (i fd flags n : Nat) : OwnRow i K (share_file K i fd flags n) := by
  refine ⟨fun j hj => ?_, fun m hm => (Steady.share_file K i fd flags n).kind hm, Nat.le_refl _⟩
  funext d
  rw [share_file_files, if_neg fun h => hj h.1]

theorem OwnRow.drop_file (K : Kernel) (i fd : Nat) : OwnRow i K (drop_file K i fd) := by
  refine ⟨fun j hj => ?_, fun m _ => drop_file_kind K i fd m, Nat.le_of_eq (drop_file_next K i fd).symm⟩
  funext d
  rw [drop_file_files, if_neg fun h => hj h.1]

theorem OwnRow.close (K : Kernel) (i fd : Nat) : OwnRow i K (syscall_close K i fd).1 := by
  unfold syscall_close
  split
  · exact .refl i K
  · split
    · exact .refl i K
    · exact .drop_file K i fd

theorem OwnRow.pipe (K : Kernel) (i ptr : Nat) (copied : Bool) : OwnRow i K (syscall_pipe K i ptr copied).1 := by
  obtain ⟨L, rfp, wfp, hL⟩ : ∃ L rfp wfp, pipe_create K (K.table i).pid = (L, rfp, wfp) := ⟨_, _, _, rfl⟩
  have hnew := new_pipe_spec K (K.table i).pid
  simp only [hL] at hnew
  have hmake : OwnRow i K L :=
    ⟨fun j _ => by rw [hnew.files], fun m hm => by rw [hnew.old m fun w => by omega], by rw [hnew.next]; omega⟩
  have hrelease : ∀ (M : Kernel) bs, OwnRow i M (M.release bs) := fun _ _ => ⟨fun _ _ => rfl, fun _ _ => rfl, Nat.le_refl _⟩
  have hfree : ∀ (M : Kernel) n, OwnRow i M (free_node M n) := by
    refine fun M n => ⟨fun j _ => by rw [free_node_table], fun m _ => ?_, Nat.le_of_eq (close_fs_next M n).symm⟩
    exact close_fs_kind M n m
  rcases syscall_pipe_cases K i ptr copied L rfp wfp hL with ⟨-, heq⟩ | ⟨-, ⟨-, heq⟩ | ⟨rfd, wfd, -, -, heq⟩⟩
  · rw [heq]
    exact .refl i K
  · rw [heq]
    exact hmake.trans (hrelease ..)
  · have hset : OwnRow i K (Proc.setFile (Proc.setFile L i rfd (some rfp)) i wfd (some wfp)) :=
      (hmake.trans (.setFile ..)).trans (.setFile ..)
    rw [heq]
    split
    · exact hset
    · refine OwnRow.trans ?_ (hfree ..)
      refine OwnRow.trans ?_ (hfree ..)
      refine OwnRow.trans ?_ (hrelease ..)
      exact (hset.trans (.setFile ..)).trans (.setFile ..)

theorem FileCall.own_row {env : Env} {r : Regs} (hf : FileCall K i env r K') : OwnRow i K K' := by
  cases hf with
  | fopen =>
    rcases fopen_cases K i env.look env.modes with hsame | ⟨L, n, hget, hout⟩
    · rw [hsame]
      exact .refl i K
    have hL : OwnRow i K L := by
      rcases get_node_cases hget with ⟨rfl, -⟩ | ⟨rfl, -⟩
      · exact ⟨fun _ _ => rfl, fun m hm => congrArg FsNode.kind (if_neg (Nat.ne_of_lt hm)), Nat.le_succ _⟩
      · exact .refl i L
    rcases hout with heq | ⟨fd, -, heq⟩
    · rw [heq]
      exact hL
    · rw [heq]
      exact hL.trans (.share_file ..)
  | close => exact .close ..
  | dup =>
    unfold syscall_dup
    repeat' split
    all_goals first | exact .refl i K | exact .share_file ..
  | dup2 =>
    unfold syscall_dup2
    repeat' split
    all_goals try exact .refl i K
    · exact (OwnRow.close K i _).trans (.share_file ..)
    · exact .share_file ..
  | pipe => exact .pipe ..

/-! ## 終わった項目 -/

theorem EndIdle.of (h : EndIdle K) (hinv : EndInv K) (hkind : ∀ m, m < K.next_node → (K'.nodes m).kind = (K.nodes m).kind)
    (hrow : ∀ j, ¬ Alive K' j → ¬ Alive K j ∧ ∀ n d, d < MAX_FILES → refers K' n j d = true → refers K n j d = true) :
    EndIdle K' := by
  intro j hj d hd
  obtain ⟨hdead, hsub⟩ := hrow j hj
  refine noEnd_iff.mpr fun n hn => ?_
  obtain ⟨fp, hfp, rfl⟩ := refers_iff.mp (hsub n d hd hn)
  rw [hkind _ (hinv.bound j d fp hd hfp)]
  exact h j hdead d hd fp hfp

theorem Fewer.alive (h : Fewer K K') (hnum : K'.num_processes = K.num_processes) (hj : ¬ Alive K' j) : ¬ Alive K j := by
  rintro ⟨hlt, hlive⟩
  exact hj ⟨hnum.symm ▸ hlt, fun hdead => hlive (h j hdead)⟩

theorem EndIdle.quiet (h : EndIdle K) (hinv : EndInv K) (hq : Quiet K K') (hf : Fewer K K') : EndIdle K' :=
  h.of hinv (fun m _ => by rw [hq.nodes]) fun j hj => ⟨hf.alive hq.num hj, fun n d _ hn => hq.refers n j d ▸ hn⟩

theorem EndIdle.clears (h : EndIdle K) (hinv : EndInv K) (hi : i < K.num_processes) (hfds : ∀ fd ∈ fds, fd < MAX_FILES)
    (hc : Clears K i fds K') (hf : Fewer K K') : EndIdle K' :=
  h.of hinv (fun m _ => (hinv.clears hi hfds hc).2 m) fun j hj => ⟨hf.alive hc.num hj, fun n d _ hn => ((hc.refers n j d).mp hn).1⟩

theorem EndIdle.file_call {env : Env} {r : Regs} (h : EndIdle K) (hinv : EndInv K) (hc : Calls K ev i env r)
    (hf : FileCall K i env r K') : EndIdle K' := by
  have hown := hf.own_row
  have hframe := hf.frame
  refine h.of hinv hown.kinds fun j hj => ?_
  have hdead : ¬ Alive K j := by
    rintro ⟨hlt, hlive⟩
    refine hj ⟨hframe.num.symm ▸ hlt, ?_⟩
    rw [hframe.pcb j]
    exact hlive
  have hne : j ≠ i := by
    rintro rfl
    exact hdead ⟨hc.lt, by rw [hc.running]; simp⟩
  exact ⟨hdead, fun n d _ hn => by rw [← refers_congr (congrFun (hown.files j hne) d)]; exact hn⟩

/-! ## 項目を加える -/

/-- `create_process` が残す項目の `FILE`。大域のノードを指すか、前からのものである。 -/
theorem create_process_file {pid : Nat} {load : Option Image} (hcr : create_process K pid load = some K')
    (hfp : (K'.table j).files_open d = some fp) :
    (K.table j).files_open d = some fp ∨ j = K.num_processes ∧ (fp.file = K.stdin_node ∨ fp.file = K.stdout_node) := by
  have hnew : (new_pcb K pid (K.table j)).files_open d = some fp →
      (K.table j).files_open d = some fp ∨ fp.file = K.stdin_node ∨ fp.file = K.stdout_node := by
    unfold new_pcb init_signals_default
    dsimp only
    intro hfp
    split at hfp
    · cases hfp
      exact .inr (.inl rfl)
    · split at hfp
      · cases hfp
        exact .inr (.inr rfl)
      · exact .inl hfp
  by_cases hj : j < K.num_processes
  · rw [(CreateFrame.create hcr).old j hj] at hfp
    exact .inl hfp
  · rcases create_process_new hcr hj with ⟨-, heq⟩ | ⟨hjn, ⟨-, heq⟩ | ⟨img, -, -, heq⟩⟩
    · rw [heq] at hfp
      exact .inl hfp
    · rw [heq] at hfp
      exact (hnew hfp).imp id fun hstd => ⟨hjn, hstd⟩
    · rw [heq] at hfp
      exact (hnew hfp).imp id fun hstd => ⟨hjn, hstd⟩

theorem EndInv.create {pid : Nat} {load : Option Image} (h : EndInv K) (hidle : EndIdle K)
    (hcr : create_process K pid load = some K') : EndInv K' ∧ EndIdle K' := by
  have hf := CreateFrame.create hcr
  have hrest := hf.rest
  have hnodes : K'.nodes = K.nodes := by rw [hrest]
  have hnext : K'.next_node = K.next_node := by rw [hrest]
  have hs : Steady K K' := by
    refine ⟨⟨Nat.le_of_eq hnext.symm, ?_, ?_, ?_⟩, fun m => .inl ?_, fun q w => ?_, ?_⟩
    · rw [hrest]
    · rw [hrest]
    · rw [hrest]
    · rw [hnodes]
      exact ⟨rfl, rfl⟩
    · rw [hrest]
    · rw [hrest]
  have hstd : ∀ n, n = K.stdin_node ∨ n = K.stdout_node → n < K.next_node ∧ (K.nodes n).kind = .other := fun n hn =>
    h.globals n (by rcases hn with rfl | rfl <;> simp [is_global])
  -- 表の外にあった項目は、端を開いていない
  have hrow : ∀ j, ¬ Alive K j → ∀ d, d < MAX_FILES → NoEnd K' j d := by
    intro j hj d hd fp hfp
    rw [hnodes]
    rcases create_process_file hcr hfp with hold | ⟨-, hn⟩
    · exact hidle j hj d hd fp hold
    · exact (hstd _ hn).2
  have hnum : K'.num_processes = K.num_processes ∨ K'.num_processes = K.num_processes + 1 := by
    rcases create_process_cases hcr with ⟨rfl, -⟩ | ⟨-, ⟨-, rfl⟩ | ⟨img, -, ⟨-, rfl⟩ | ⟨k, -, -, -, rfl⟩⟩⟩
    · exact .inl rfl
    · exact .inl rfl
    · exact .inr rfl
    · exact .inr rfl
  have hcount : ∀ n, (K.nodes n).kind ≠ .other → open_count K' n = open_count K n := by
    intro n hk
    rcases hnum with hnum | hnum
    · exact CreateFrame.open_count hcr hnum n
    · rw [open_count_succ hnum (fun j hj => by rw [hf.old j hj]) n]
      have hzero : row_count K' n K.num_processes = 0 := by
        refine List.countP_eq_zero.mpr fun d hd => ?_
        have hno := hrow K.num_processes (fun ha => Nat.lt_irrefl _ ha.1) d (List.mem_range.mp hd)
        rw [hno.refers (by rw [hnodes]; exact hk)]
        simp
      rw [hzero, Nat.add_zero]
  refine ⟨h.steady hs (fun w q n he hb hpos => ?_) (fun n hk hpos => hcount n hk ▸ hpos) (fun j d fp hd hfp => ?_), fun j hj d hd => ?_⟩
  · unfold Balanced
    rw [hnodes, hcount n he.ne_other]
    exact ⟨hb, hpos⟩
  · rw [hnext]
    rcases create_process_file hcr hfp with hold | ⟨-, hn⟩
    · exact h.bound j d fp hd hold
    · exact (hstd _ hn).1
  · by_cases ha : Alive K j
    · refine absurd ⟨?_, ?_⟩ hj
      · exact Nat.lt_of_lt_of_le ha.1 hf.num
      · rw [hf.old j ha.1]
        exact ha.2
    · exact hrow j ha d hd

theorem share_files_steady (i j : Nat) (fds : List Nat) (K : Kernel) :
    (∀ m, ((share_files K i j fds).nodes m).kind = (K.nodes m).kind ∧ ((share_files K i j fds).nodes m).ptr = (K.nodes m).ptr) ∧
      (share_files K i j fds).pipes = K.pipes ∧ (share_files K i j fds).next_pipe = K.next_pipe := by
  induction fds generalizing K with
  | nil => exact ⟨fun _ => ⟨rfl, rfl⟩, rfl, rfl⟩
  | cons fd fds ih =>
    unfold share_files
    split
    next fp hfp =>
      obtain ⟨hends, hpipes, hnext⟩ := ih (share_file K j fd fp.flags fp.file)
      refine ⟨fun m => ?_, hpipes, hnext⟩
      rw [(hends m).1, (hends m).2]
      exact share_file_ends K j fd fp.flags fp.file m
    · exact ih _

theorem Steady.fork {slot : Nat} {r : Regs} (hf : fork_into K i slot r = some K') : Steady K K' := by
  obtain ⟨hends, hpipes, hnext⟩ := share_files_steady i slot (List.range MAX_FILES) (fork_base K i slot r)
  refine ⟨(SameGlobals.fork hf).1.toSameNodes, fun m => .inl ?_, fun q w => ?_, ?_⟩
  · rw [fork_into_eq hf]
    exact hends m
  · rw [fork_into_eq hf]
    exact congrArg (fun pipes => (pipes q).users w) hpipes
  · rw [fork_into_eq hf]
    exact hnext

theorem EndInv.fork {slot : Nat} {r : Regs} (h : EndInv K) (hidle : EndIdle K) (hon : OnCpu i K)
    (hmax : K.num_processes ≤ MAX_PROCESSES) (hslot : fork_slot K = some slot) (hf : fork_into K i slot r = some K') :
    EndInv K' ∧ EndIdle K' := by
  have hne := hon.ne_slot hslot
  have hle : slot ≤ K.num_processes := by
    rcases fork_slot_spec hslot with ⟨hlt, -⟩ | ⟨heq, -⟩ <;> omega
  have hdead : ¬ Alive K slot := by
    rintro ⟨hlt, hlive⟩
    rcases fork_slot_spec hslot with ⟨-, hdead, -⟩ | ⟨heq, -⟩
    · exact hlive hdead
    · omega
  have hs := Steady.fork hf
  -- 使い回す項目は、端を開いていない
  have hrow : ∀ {n}, (K.nodes n).kind ≠ .other → slot < K.num_processes → row_count K n slot = 0 := by
    intro n hk _
    refine List.countP_eq_zero.mpr fun d hd => ?_
    rw [(hidle slot hdead d (List.mem_range.mp hd)).refers hk]
    simp
  have hcount : ∀ {n}, (K.nodes n).kind ≠ .other → open_count K' n = open_count K n + row_count K n i :=
    fun hk => open_count_fork hne hle (hrow hk) hf
  refine ⟨h.steady hs (fun w q n he hb hpos => ⟨?_, ?_⟩) (fun n hk hpos => ?_) (fun k d fp hd hfp => ?_), ?_⟩
  · have hlt : (K.nodes n).refcount + row_count K n i < 2 ^ 32 :=
      Nat.lt_of_le_of_lt (Nat.add_le_add (hb.small hmax) row_count_le) (by simp [MAX_PROCESSES, MAX_FILES])
    exact hb.fork hne hle (hrow he.ne_other) hlt hf
  · rw [hcount he.ne_other]
    omega
  · rw [hcount hk] at hpos
    by_contra hzero
    obtain ⟨d, hd, href⟩ := row_count_pos.mp (show 0 < row_count K n i by omega)
    exact hzero (open_count_pos.mpr ⟨i, d, hon.lt, hd, href⟩)
  · have hnew : refers K' fp.file k d = true := refers_iff.mpr ⟨fp, hfp, rfl⟩
    have hold : ∃ k', refers K fp.file k' d = true := by
      rw [fork_row hne hf fp.file k d hd] at hnew
      split at hnew
      · exact ⟨i, hnew⟩
      · exact ⟨k, hnew⟩
    obtain ⟨k', hk'⟩ := hold
    obtain ⟨fp', hfp', heq⟩ := refers_iff.mp hk'
    exact heq ▸ Nat.lt_of_lt_of_le (h.bound k' d fp' hd hfp') hs.next_node
  · refine hidle.of h (fun m hm => hs.kind hm) fun k hk => ?_
    have hks : k ≠ slot := by
      rintro rfl
      refine hk ⟨?_, ?_⟩
      · rw [fork_into_rest hf]
        show k < if k = K.num_processes then K.num_processes + 1 else K.num_processes
        split <;> omega
      · rw [fork_into_table hne hf]
        unfold fork_entry
        rw [if_pos rfl]
        simp
    refine ⟨?_, fun n d hd hn => ?_⟩
    · rintro ⟨hlt, hlive⟩
      refine hk ⟨?_, ?_⟩
      · rw [fork_into_rest hf]
        show k < if slot = K.num_processes then K.num_processes + 1 else K.num_processes
        split <;> omega
      · rw [fork_into_table hne hf]
        unfold fork_entry
        rw [if_neg hks]
        dsimp only
        split
        next hki =>
          rw [← hki]
          exact hlive
        · exact hlive
    · rw [fork_row hne hf n k d hd, if_neg hks] at hn
      exact hn

/-! ## 一歩と実行 -/

/-- 閉じずに終わるプロセスは、端を開いていない。 -/
theorem Falls.no_end (hok : EndSafe K₀ ev) (hargs : HasArgs ev) (hinv : EndInv K₀) (hf : Falls K₀ ev i K K') :
    ∀ d, d < MAX_FILES → NoEnd K i d := by
  intro d hd
  cases hf with
  | fail hc heax hload hK =>
    subst hK
    have hcl := Clears.exec_reset K₀ i
    have hfds : ∀ fd ∈ List.range' 2 (MAX_FILES - 2), fd < MAX_FILES := fun fd hfd => (mem_exec_fds.mp hfd).2
    refine noEnd_iff.mpr fun n hn => ?_
    obtain ⟨hold, hne⟩ := (hcl.refers n i d).mp hn
    rw [(hinv.clears hc.lt hfds hcl).2 n]
    by_cases h2 : d < 2
    · exact noEnd_iff.mp (hok.fail hargs i _ _ hc heax hload d h2) n hold
    · exact absurd ⟨rfl, mem_exec_fds.mpr ⟨by omega, hd⟩⟩ hne
  | signal hat hcur hsig hp => exact hok.signal _ _ i hat hcur (hp.dies hsig) d hd

theorem reaped_fewer (K : Kernel) (i dead : Nat) : Fewer K (reaped K i dead) := by
  intro j hj
  rw [← reap_child_state K i dead j]
  exact hj

/-- 終わるプロセスが閉じない記述子は、端を指さない。 -/
theorem EndSafe.no_end {fds : List Nat} (hok : EndSafe K₀ ev) (hq : Quits K₀ ev i fds) (hd : d < MAX_FILES) (hmem : d ∉ fds) :
    NoEnd K₀ i d := by
  cases hq with
  | exit => exact absurd (List.mem_range.mpr hd) hmem
  | fault hf => exact hok.fault i _ hf d hd

theorem EndInv.step (hs : Synced K₀) (hok : EndSafe K₀ ev) (hargs : HasArgs ev) (h₀ : EndInv K₀) (h : EndInv K) (hidle : EndIdle K)
    (hstep : FileStep K₀ ev K K') : EndInv K' ∧ EndIdle K' := by
  cases hstep with
  | quiet hq hf => exact ⟨h.quiet hq, hidle.quiet h hq hf⟩
  | @dies i hf hq hother =>
    refine ⟨h.quiet hq, fun j hj d hd => ?_⟩
    have hno : NoEnd K j d := by
      by_cases hji : j = i
      · subst hji
        exact hf.no_end hok hargs h₀ d hd
      · refine hidle j ?_ d hd
        rintro ⟨hlt, hlive⟩
        exact hj ⟨hq.num.symm ▸ hlt, fun hdead => hlive (hother j hji hdead)⟩
    intro fp hfp
    rw [hq.files] at hfp
    rw [hq.nodes]
    exact hno fp hfp
  | file hK hc hf =>
    subst hK
    exact ⟨h.file_call hc hs.max hok hf, hidle.file_call h hc hf⟩
  | create hK _ hcr =>
    subst hK
    exact h.create hidle hcr
  | fork hK hc _ hslot hf =>
    subst hK
    exact h.fork hidle hc.toOnCpu hs.max hslot hf
  | reap hK hc _ _ hK' =>
    subst hK hK'
    have hfew := reaped_fewer K
    rcases reaped_files K _ (find_terminated_child K (K.table _).pid) with hq | ⟨c, hchild, hcl⟩
    · exact ⟨h.quiet hq, hidle.quiet h hq (hfew _ _)⟩
    · have hlt := (get_process_by_pid_spec hchild).1
      have hfds : ∀ fd ∈ List.range MAX_FILES, fd < MAX_FILES := fun fd hfd => List.mem_range.mp hfd
      exact ⟨(h.clears hlt hfds hcl).1, hidle.clears h hlt hfds hcl (hfew _ _)⟩
  | @exit i fds hK hq hK' =>
    subst hK hK'
    have hcl := Clears.exit_tree K i fds
    obtain ⟨hinv, hkind⟩ := h.clears hq.onCpu.lt (fun fd hfd => hq.fds_lt hfd) hcl
    refine ⟨hinv, fun j hj d hd => noEnd_iff.mpr fun n hn => ?_⟩
    obtain ⟨hold, hne⟩ := (hcl.refers n j d).mp hn
    rw [hkind]
    by_cases hji : j = i
    · -- 例外では、終わるプロセスも閉じずに終わる
      subst hji
      exact noEnd_iff.mp (hok.no_end hq hd fun hmem => hne ⟨rfl, hmem⟩) n hold
    by_cases ha : Alive K j
    · -- 直の子は、閉じずに終わる
      refine noEnd_iff.mp (hok.exit i fds hq j ha.1 hji ?_ ha.2 d hd) n hold
      by_contra hparent
      refine hj ⟨hcl.num.symm ▸ ha.1, ?_⟩
      rw [exit_tree_table]
      dsimp only
      rw [if_neg (by simp [hji, hparent])]
      exact ha.2
    · exact noEnd_iff.mp (hidle j ha d hd) n hold
  | @reset i env r hK hc heax hK' =>
    subst hK hK'
    have hcl := Clears.exec_reset K i
    have hfds : ∀ fd ∈ List.range' 2 (MAX_FILES - 2), fd < MAX_FILES := fun fd hfd => (mem_exec_fds.mp hfd).2
    have hfew : Fewer K (exec_reset K i) := by
      intro j hj
      rw [exec_reset_table] at hj
      dsimp only at hj
      split at hj
      next hji =>
        rw [hji]
        exact hj
      · exact hj
    exact ⟨(h.clears hc.lt hfds hcl).1, hidle.clears h hc.lt hfds hcl hfew⟩
  | @unblock i b he hK' =>
    subst hK'
    have hfew : Fewer K (unblock_parent K (K.table i).pid b) := by
      intro j hj
      by_contra hlive
      exact unblock_parent_alive hlive hj
    rcases unblock_parent_files K (K.table i).pid b with hq | ⟨c, j, -, -, haw, hcl⟩
    · exact ⟨h.quiet hq, hidle.quiet h hq hfew⟩
    · have hlt := (get_process_by_pid_spec haw.child).1
      have hfds : ∀ fd ∈ List.range MAX_FILES, fd < MAX_FILES := fun fd hfd => List.mem_range.mp hfd
      exact ⟨(h.clears hlt hfds hcl).1, hidle.clears h hlt hfds hcl hfew⟩

theorem boot_files (rc_in rc_out mounts j d : Nat) : ((boot rc_in rc_out mounts).table j).files_open d = none := by
  simp only [boot]
  split <;> rfl

theorem EndInv.boot (rc_in rc_out mounts : Nat) : EndInv (boot rc_in rc_out mounts) ∧ EndIdle (boot rc_in rc_out mounts) := by
  have hkind : ∀ n, ((Proc.boot rc_in rc_out mounts).nodes n).kind = .other := by
    intro n
    simp only [Proc.boot]
    split
    · rfl
    · split <;> rfl
  have hend : ∀ {w q n}, ¬ EndOf (Proc.boot rc_in rc_out mounts) w q n := fun he => he.ne_other (hkind _)
  refine ⟨⟨fun w q n he => absurd he hend, fun n _ hk => absurd (hkind n) hk, fun n hn => ⟨?_, hkind n⟩, fun w q n m he => absurd he hend,
    fun w q hq => absurd hq (Nat.not_lt_zero q), fun j d fp _ hfp => ?_⟩, fun j _ d _ fp _ => hkind _⟩
  · simp only [is_global, Bool.or_eq_true, beq_iff_eq, List.contains_eq_mem, decide_eq_true_eq] at hn
    show n < 2 + mounts
    rcases hn with (rfl | rfl) | hmem
    · show 0 < 2 + mounts
      omega
    · show 1 < 2 + mounts
      omega
    · exact (List.mem_range'_1.mp hmem).2
  · rw [boot_files] at hfp
    cases hfp

/-- 端を閉じる歩だけの実行では、`readers` と `writers` が 0 なのは、ちょうど終わっていないプロセスがその端を開いていない
    ときである。開いた端のノードはパイプから外れておらず、書き手のいない空のパイプを読む呼び出しは終わる。 -/
theorem pipe_ends_held (rc_in rc_out mounts : Nat) (h : Steps step EndSafe (boot rc_in rc_out mounts) K) :
    (∀ q w, q < K.next_pipe → ((K.pipes q).users w = 0 ↔ ¬ Holds K w q)) ∧
      (∀ n j d, Refers K n j d → (K.nodes n).kind ≠ .other → ∃ w q, EndOf K w q n) ∧
      ∀ c : PipeCall, c.pipe < K.next_pipe → (K.pipes c.pipe).count = 0 → ¬ Holds K true c.pipe →
        pipe_read_fn (K.pipes c.pipe) c = .finished := by
  obtain ⟨hinv, hidle⟩ := (file_run (I := fun K => EndInv K ∧ EndIdle K) (fun hq hf h => ⟨h.1.quiet hq, h.2.quiet h.1 hq hf⟩)
    (fun hs h₀ hok hargs _ h hstep => EndInv.step hs hok hargs h₀.1 h.1 h.2 hstep)
    h (.boot ..) (EndInv.boot rc_in rc_out mounts)).2
  have hheld : ∀ q w, q < K.next_pipe → ((K.pipes q).users w = 0 ↔ ¬ Holds K w q) := by
    intro q w hq
    rcases hinv.users w q hq with ⟨hone, n, he⟩ | ⟨hzero, hno⟩
    · refine ⟨fun hzero => by omega, fun hnot => absurd ?_ hnot⟩
      obtain ⟨j, d, hlt, hd, href⟩ := open_count_pos.mp (hinv.refs w q n he).2.1
      obtain ⟨fp, hfp, rfl⟩ := refers_iff.mp href
      refine ⟨j, d, fp, ?_, hd, hfp, he⟩
      by_contra hdead
      exact he.ne_other (hidle j hdead d hd fp hfp)
    · refine ⟨?_, fun _ => hzero⟩
      rintro - ⟨j, d, fp, -, -, -, he⟩
      exact hno _ he
  refine ⟨hheld, fun n j d href hk => hinv.of_open (open_count_pos.mpr ⟨j, d, href⟩) hk, fun c hq hcount hnot => ?_⟩
  have hzero : (K.pipes c.pipe).writers = 0 := (hheld c.pipe true hq).mpr hnot
  unfold pipe_read_fn
  rw [hcount, hzero]
  split <;> rfl

/-- 溜まった信号も `exec` も `dup2` も例外もなく、`exit` を呼ぶプロセスに子がない。 -/
def end_safe (K : Kernel) (ev : Event) : Bool :=
  ((at_schedule K ev).all fun x => x.1.cur_proccess_id.all fun i => (x.1.table i).sig.pending == 0#32) &&
    ((quits K ev).all fun i => (List.range K.num_processes).all fun k => (K.table k).parent_id != (K.table i).pid) &&
    match ev with
    | .syscall _ r => r.eax != 10 && r.eax != 27 && (r.eax != 12 ||
        K.current_process.all fun i => (free_fd K i 3).any fun rfd => (free_fd K i (rfd + 1)).isSome)
    | .fault _ => false
    | _ => true

theorem end_safe_spec (K : Kernel) (ev : Event) (h : end_safe K ev = true) : EndSafe K ev := by
  simp only [end_safe, Bool.and_eq_true] at h
  obtain ⟨⟨hsig, hquit⟩, hcall⟩ := h
  have heax : ∀ {i env r}, Calls K ev i env r → (r.eax ≠ 10 ∧ r.eax ≠ 27) ∧ (r.eax = 12 → ∃ rfd, free_fd K i 3 = some rfd ∧ (free_fd K i (rfd + 1)).isSome) := by
    intro i env r hc
    obtain ⟨r₀, rfl, rfl⟩ := hc.event
    simp only [hc.current, Option.all_some, Bool.and_eq_true, Bool.or_eq_true, bne_iff_ne, Option.any_eq_true] at hcall
    exact ⟨hcall.1, fun h12 => hcall.2.resolve_left (not_not_intro h12)⟩
  refine ⟨fun i env r hc h12 _ => (heax hc).2 h12, fun i env r fp hc h27 => absurd h27 (heax hc).1.2,
    fun i fds hq k hk _ hparent => ?_, fun i r hf => ?_, fun _ i env r hc h10 => absurd h10 (heax hc).1.1,
    fun K₁ r i hat hcur hdies => ?_⟩
  · simp only [hq.quits, Option.all_some, List.all_eq_true, List.mem_range, bne_iff_ne] at hquit
    exact absurd hparent (hquit k hk)
  · obtain ⟨r₀, rfl, -⟩ := hf.event
    cases hcall
  · simp only [hat, Option.all_some, hcur, beq_iff_eq] at hsig
    exact absurd hsig hdies.1.1

/-- シェルが書きの端を閉じ、子は開いたまま `exit` で終わる。 -/
def writer_exits : Trace (checked step end_safe (boot 1 1 0)) (fun K => K.next_pipe = 1 ∧ (K.pipes 0).users true = 0 ∧ (K.pipes 0).users false = 1) :=
  ⟨start_shell ++ [call 12 4, call 24, call 20 4, tick, call 5], by decide +kernel⟩

theorem pipe_ends_held_exit : ∃ K, Steps step EndSafe (boot 1 1 0) K ∧ ¬ Holds K true 0 ∧ Holds K false 0 := by
  obtain ⟨K, hK, hnext, hwriters, hreaders⟩ := writer_exits.steps_checked end_safe_spec
  obtain ⟨hheld, -⟩ := pipe_ends_held 1 1 0 hK
  refine ⟨K, hK, (hheld 0 true (by omega)).mp hwriters, ?_⟩
  by_contra hno
  have := (hheld 0 false (by omega)).mpr hno
  omega

/-- 終わっていないどのプロセスも、パイプ `q` の端を開いていない。 -/
def unheld (K : Kernel) (writing : Bool) (q : Nat) : Bool :=
  (List.range K.num_processes).all fun j => (K.table j).state == .terminated || (List.range MAX_FILES).all fun d =>
    ((K.table j).files_open d).all fun fp => !decide (EndOf K writing q fp.file)

theorem unheld_spec (h : unheld K w q = true) : ¬ Holds K w q := by
  rintro ⟨j, d, fp, ⟨hlt, hlive⟩, hd, hfp, he⟩
  simp only [unheld, List.all_eq_true, List.mem_range, Bool.or_eq_true, beq_iff_eq] at h
  have hrow := (h j hlt).resolve_left hlive d hd
  rw [hfp] at hrow
  simp [he] at hrow

/-- 書きの端を開いた子を `SIGKILL` で終わらせる。 -/
def writer_killed : Trace (exec step (boot 1 1 0)) (fun K =>
    K.next_pipe = 1 ∧ unheld K true 0 = true ∧ (K.pipes 0).writers = 1 ∧ (K.pipes 0).count = 0) :=
  ⟨start_shell ++ [call 12 4, call 24, call 20 4, call 13 2 SIGKILL, tick, tick], by decide +kernel⟩

theorem pipe_end_unheld : ∃ K, Steps step (fun _ _ => True) (boot 1 1 0) K ∧ 0 < K.next_pipe ∧ (K.pipes 0).users true ≠ 0 ∧ ¬ Holds K true 0 ∧
    pipe_read_fn (K.pipes 0) { pipe := 0, writing := false, total := 1, buffer := [], regs := {} } = .waits := by
  obtain ⟨K, hK, hnext, hno, hwriters, hcount⟩ := writer_killed.steps
  refine ⟨K, hK, by omega, ?_, unheld_spec hno, ?_⟩
  · show (K.pipes 0).writers ≠ 0
    omega
  · simp [pipe_read_fn, hcount, hwriters]

end MyOS.Proc
