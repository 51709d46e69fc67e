import MyOS.Apps.FilterTheorems
import MyOS.Proc.PipeTheorems

/-!
# パイプでつないだ二つのアプリケーション

前のアプリケーションは `write` を順に呼んで終わり、終わるときに書きの端が閉じる。後のアプリケーションは、`read` が 0 を返すまで
512 バイトずつ読む。二つのプロセスの進む順に限りはない。
-/

namespace MyOS.Apps
open MyOS.Lib Proc Filters

/-- `outs` は残りの `write`、`chunks` は `read` の返した区切りである。 -/
structure Piping where
  kernel : Kernel
  outs : List (List UInt8)
  exited : Bool := false
  chunks : List (List UInt8) := []
  eof : Bool := false

inductive PipingOp
  | write | exit | read | iter_write | iter_read
  deriving DecidableEq

def write_call (q : Nat) (b : List UInt8) : PipeCall :=
  { pipe := q, writing := true, total := b.length % 2 ^ 32, buffer := b, regs := {} }

def read_call (q : Nat) : PipeCall := { pipe := q, writing := false, total := 512, buffer := [], regs := {} }

/-- `read` の返すバイト。0 なら、繰り返しを終える。 -/
def Piping.receive (s : Piping) (c : PipeCall) : PipeIter → Piping
  | .finished => if c.done = 0 then { s with eof := true } else { s with chunks := s.chunks ++ [c.buffer] }
  | _ => s

section
variable (w r q wn : Nat)

/-- `w` と `r` は書くプロセスと読むプロセス、`q` はパイプ、`wn` は書きの端のノードである。 -/
def piping_step (s : Piping) : PipingOp → Option Piping
  | .write =>
    match s.outs with
    | [] => none
    | b :: outs =>
      if (s.kernel.table w).pipe_call.isNone then some { s with kernel := pipe_start s.kernel w (write_call q b), outs := outs } else none
  | .exit =>
    if s.outs = [] ∧ (s.kernel.table w).pipe_call.isNone ∧ s.exited = false then
      some { s with kernel := pipe_close_fn s.kernel wn, exited := true }
    else none
  | .read =>
    if (s.kernel.table r).pipe_call.isNone ∧ s.eof = false then
      some { s with kernel := pipe_start s.kernel r (read_call q) }
    else none
  | .iter_write => (s.kernel.table w).pipe_call.map fun c => { s with kernel := pipe_iter s.kernel w c }
  | .iter_read =>
    (s.kernel.table r).pipe_call.map fun c =>
      { s.receive c (pipe_fn (s.kernel.pipes c.pipe) c) with kernel := pipe_iter s.kernel r c }

end

/-- `pipe_create` の直後。 -/
def piping_start (K : Kernel) (pid : Nat) (out : List (List UInt8)) : Piping := { kernel := (pipe_create K pid).1, outs := out }

/-! ## 一歩 -/

variable {K : Kernel} {i j w r q wn : Nat} {c c' : PipeCall} {pb pb' : PipeBuf} {s t : Piping} {out : List (List UInt8)}

theorem pipe_start_table (K : Kernel) (i j : Nat) (c : PipeCall) :
    ((pipe_start K i c).table j).pipe_call = if j = i then some c else (K.table j).pipe_call := by
  simp only [pipe_start, Kernel.modify_table]
  split
  · rfl
  · rfl

theorem pipe_iter_nodes (K : Kernel) (i : Nat) (c : PipeCall) : (pipe_iter K i c).nodes = K.nodes := by
  unfold pipe_iter
  split
  · rfl
  · rfl
  · rfl

/-- 一回の繰り返しの後の呼び出し。 -/
def next_call (c : PipeCall) : PipeIter → Option PipeCall
  | .moved _ c' => some c'
  | .waits => some { c with intr := true }
  | .finished => none

/-- 一回の繰り返しの後のパイプ。 -/
def next_pipe_buf (pb : PipeBuf) : PipeIter → PipeBuf
  | .moved pb' _ => pb'
  | _ => pb

theorem pipe_iter_table (K : Kernel) (i j : Nat) (c : PipeCall) : ((pipe_iter K i c).table j).pipe_call =
    if j = i then next_call c (pipe_fn (K.pipes c.pipe) c) else (K.table j).pipe_call := by
  cases hfn : pipe_fn (K.pipes c.pipe) c with
  | moved pb c' =>
    simp only [pipe_iter, hfn, Kernel.modify_table]
    split
    · rfl
    · rfl
  | waits =>
    simp only [pipe_iter, hfn, Kernel.modify_table]
    split
    · rfl
    · rfl
  | finished =>
    simp only [pipe_iter, hfn, return_to, Kernel.modify_table]
    split
    · rfl
    · rfl

theorem pipe_iter_pipes (K : Kernel) (i : Nat) (c : PipeCall) :
    (pipe_iter K i c).pipes c.pipe = next_pipe_buf (K.pipes c.pipe) (pipe_fn (K.pipes c.pipe) c) := by
  cases hfn : pipe_fn (K.pipes c.pipe) c with
  | moved pb c' => exact pipe_iter_moved hfn
  | waits => exact congrFun (pipe_iter_same fun pb' c' h => by simp [hfn] at h) _
  | finished => exact congrFun (pipe_iter_same fun pb' c' h => by simp [hfn] at h) _

/-- `write` の途中。 -/
structure Writing (q : Nat) (c : PipeCall) : Prop where
  pipe : c.pipe = q
  writing : c.writing = true
  total : c.total = c.buffer.length
  done : c.done ≤ c.total

/-- `read` の途中。 -/
structure Receiving (q : Nat) (c : PipeCall) : Prop where
  pipe : c.pipe = q
  writing : c.writing = false
  total : c.total = 512
  done : c.done = c.buffer.length
  fits : c.done ≤ 512

/-- 書き手がいる間の `write` の繰り返し。 -/
theorem Writing.cases (h : Writing q c) (hok : PipeOk pb) (hreaders : pb.readers = 1) :
    (∃ pb', pipe_fn pb c = .moved pb' { c with done := c.done + 1 } ∧ c.done < c.total ∧ PipeOk pb' ∧
        pb'.queue = pb.queue ++ [c.buffer.getD c.done 0] ∧ pb'.count = pb.count + 1 ∧ pb'.readers = pb.readers ∧ pb'.writers = pb.writers) ∨
      (pipe_fn pb c = .waits ∧ pb.count = PIPE_BUF_SIZE) ∨ pipe_fn pb c = .finished ∧ c.done = c.total := by
  have hfn : pipe_fn pb c = pipe_write_fn pb c := by rw [pipe_fn, if_pos h.writing]
  rw [hfn, pipe_write_fn]
  by_cases hlt : c.done < c.total
  · rw [if_pos hlt]
    by_cases hroom : pb.count < PIPE_BUF_SIZE
    · rw [if_pos hroom]
      rw [pipe_write_fn, if_pos hlt, if_pos hroom] at hfn
      obtain ⟨hq, hok'⟩ := pipe_fn_queue hok hfn
      rw [taken, given, if_pos h.writing, if_pos h.writing] at hq
      refine .inl ⟨_, rfl, hlt, hok', ?_, rfl, rfl, rfl⟩
      simpa using (hq.conserve (List.nil_append _).symm).symm
    · rw [if_neg hroom, if_pos (by omega)]
      have := hok.count
      exact .inr (.inl ⟨rfl, by omega⟩)
  · rw [if_neg hlt]
    have := h.done
    exact .inr (.inr ⟨rfl, by omega⟩)

/-- `read` の繰り返し。 -/
theorem Receiving.cases (h : Receiving q c) (hok : PipeOk pb) :
    (∃ pb' x, pipe_fn pb c = .moved pb' { c with done := c.done + 1, buffer := c.buffer ++ [x] } ∧ c.done < 512 ∧ PipeOk pb' ∧
        pb.queue = x :: pb'.queue ∧ pb.count = pb'.count + 1 ∧ pb'.readers = pb.readers ∧ pb'.writers = pb.writers) ∨
      (pipe_fn pb c = .waits ∧ pb.count = 0 ∧ 0 < pb.writers) ∨
        pipe_fn pb c = .finished ∧ (c.done = 512 ∨ pb.count = 0 ∧ pb.writers = 0) := by
  have hread : ¬ c.writing = true := by simp [h.writing]
  have hfn : pipe_fn pb c = pipe_read_fn pb c := by rw [pipe_fn, if_neg hread]
  rw [hfn, pipe_read_fn, h.total]
  by_cases hlt : c.done < 512
  · rw [if_pos hlt]
    by_cases hdata : 0 < pb.count
    · rw [if_pos hdata]
      rw [pipe_read_fn, if_pos (h.total ▸ hlt), if_pos hdata] at hfn
      obtain ⟨hq, hok'⟩ := pipe_fn_queue hok hfn
      rw [taken, given, if_neg hread, if_neg hread, List.drop_left] at hq
      refine .inl ⟨_, _, rfl, hlt, hok', ?_, ?_, rfl, rfl⟩
      · simpa using hq.conserve (List.nil_append _).symm
      · show pb.count = pb.count - 1 + 1
        omega
    · rw [if_neg hdata]
      by_cases hw : 0 < pb.writers
      · rw [if_pos hw]
        exact .inr (.inl ⟨rfl, by omega, hw⟩)
      · rw [if_neg hw]
        exact .inr (.inr ⟨rfl, .inr ⟨by omega, by omega⟩⟩)
  · rw [if_neg hlt]
    have := h.fits
    exact .inr (.inr ⟨rfl, .inl (by omega)⟩)

/-! ## 不変条件 -/

/-- 読み手がすでに受け取ったバイト。 -/
def held : Option PipeCall → List UInt8
  | none => []
  | some c => c.buffer

/-- 書き手がこれから置くバイト。 -/
def unsent : Option PipeCall → List UInt8
  | none => []
  | some c => c.buffer.drop c.done

def Piping.wcall (w : Nat) (s : Piping) : Option PipeCall := (s.kernel.table w).pipe_call

def Piping.rcall (r : Nat) (s : Piping) : Option PipeCall := (s.kernel.table r).pipe_call

def Piping.pipe (q : Nat) (s : Piping) : PipeBuf := s.kernel.pipes q

/-- 書いたバイトは、返した区切り、読みの途中、パイプ、書きの途中、残りの `write` に順に分かれている。 -/
structure Carries (w r q wn : Nat) (out : List (List UInt8)) (s : Piping) : Prop where
  ok : PipeOk (s.pipe q)
  readers : (s.pipe q).readers = 1
  writers : (s.pipe q).writers = if s.exited then 0 else 1
  kind : (s.kernel.nodes wn).kind = .pipe_write
  ptr : s.exited = false → (s.kernel.nodes wn).ptr = some q
  fits : ∀ b ∈ s.outs, b.length < 2 ^ 32
  wcall : ∀ c, s.wcall w = some c → Writing q c
  rcall : ∀ c, s.rcall r = some c → Receiving q c
  bytes : s.chunks.flatten ++ (held (s.rcall r) ++ ((s.pipe q).queue ++ (unsent (s.wcall w) ++ s.outs.flatten))) = out.flatten
  chunks : ∀ c ∈ s.chunks, c ≠ [] ∧ c.length ≤ 512
  exited : s.exited = true → s.outs = [] ∧ s.wcall w = none
  eof : s.eof = true → s.exited = true ∧ s.rcall r = none ∧ (s.pipe q).count = 0

theorem carries_start (hw : (K.table w).pipe_call = none) (hr : (K.table r).pipe_call = none) (hout : ∀ b ∈ out, b.length < 2 ^ 32) (pid : Nat) :
    Carries w r K.next_pipe (K.next_node + 1) out (piping_start K pid out) := by
  have hpb : (piping_start K pid out).pipe K.next_pipe = { refcount := 2, readers := 1, writers := 1 } := if_pos rfl
  have hnode : (piping_start K pid out).kernel.nodes (K.next_node + 1) = { kind := .pipe_write, refcount := 1, ptr := some K.next_pipe } :=
    if_pos rfl
  have hwcall : (piping_start K pid out).wcall w = none := hw
  have hrcall : (piping_start K pid out).rcall r = none := hr
  refine ⟨?_, ?_, ?_, ?_, fun _ => ?_, hout, fun c hc => ?_, fun c hc => ?_, ?_, fun c hc => ?_, fun h => ?_, fun h => ?_⟩
  · rw [hpb]
    exact ⟨by decide, by decide, by decide⟩
  · rw [hpb]
  · rw [hpb]
    rfl
  · rw [hnode]
  · rw [hnode]
  · rw [hwcall] at hc
    cases hc
  · rw [hrcall] at hc
    cases hc
  · rw [hwcall, hrcall, hpb]
    rfl
  · cases hc
  · cases h
  · cases h

theorem Carries.write {b : List UInt8} {outs : List (List UInt8)} (h : Carries w r q wn out s) (hne : r ≠ w) (houts : s.outs = b :: outs)
    (hw : s.wcall w = none) : Carries w r q wn out { s with kernel := pipe_start s.kernel w (write_call q b), outs := outs } := by
  obtain ⟨hb, hfits⟩ := List.forall_mem_cons.mp (houts ▸ h.fits)
  have hwcall : Piping.wcall w { s with kernel := pipe_start s.kernel w (write_call q b), outs := outs } = some (write_call q b) :=
    (pipe_start_table ..).trans (if_pos rfl)
  have hrcall : Piping.rcall r { s with kernel := pipe_start s.kernel w (write_call q b), outs := outs } = s.rcall r :=
    (pipe_start_table ..).trans (if_neg hne)
  refine ⟨h.ok, h.readers, h.writers, h.kind, h.ptr, hfits, fun c hc => ?_, fun c hc => h.rcall c (hrcall ▸ hc), ?_, h.chunks, fun hex => ?_,
    fun heof => hrcall.symm ▸ h.eof heof⟩
  · rw [hwcall] at hc
    cases hc
    exact ⟨rfl, rfl, Nat.mod_eq_of_lt hb, Nat.zero_le _⟩
  · have := h.bytes
    rw [hw, houts] at this
    rw [hwcall, hrcall]
    exact this
  · rw [(h.exited hex).1] at houts
    cases houts

/-- 書きの端を閉じると、書き手がいなくなる。 -/
theorem pipe_close_fn_write (hkind : (K.nodes wn).kind = .pipe_write) (hptr : (K.nodes wn).ptr = some q) (hwriters : (K.pipes q).writers = 1) :
    ((pipe_close_fn K wn).pipes q).queue = (K.pipes q).queue ∧ (PipeOk (K.pipes q) → PipeOk ((pipe_close_fn K wn).pipes q)) ∧
      ((pipe_close_fn K wn).pipes q).readers = (K.pipes q).readers ∧ ((pipe_close_fn K wn).pipes q).writers = 0 ∧
      ((pipe_close_fn K wn).nodes wn).kind = .pipe_write := by
  have hbuf := pipe_close_fn_buf K wn q
  have hends : ((pipe_close_fn K wn).pipes q).readers = (K.pipes q).readers ∧ ((pipe_close_fn K wn).pipes q).writers = 0 ∧
      ((pipe_close_fn K wn).nodes wn).kind = .pipe_write := by
    unfold pipe_close_fn
    simp only [hptr, hkind, reduceCtorEq, if_false, Kernel.setPipe, Kernel.setNode, if_true, hwriters]
    refine ⟨?_, ?_, trivial⟩
    · split
      · rfl
      · rfl
    · split
      · rfl
      · rfl
  refine ⟨?_, fun hok => ?_, hends⟩
  · rw [hbuf]
    rfl
  · rw [hbuf]
    exact ⟨hok.read_pos, hok.count, hok.write_pos⟩

theorem pipe_close_fn_table (K : Kernel) (n : Nat) : (pipe_close_fn K n).table = K.table := by
  unfold pipe_close_fn
  split
  · rfl
  · rfl

theorem Carries.exit (h : Carries w r q wn out s) (houts : s.outs = []) (hw : s.wcall w = none) (hrun : s.exited = false) :
    Carries w r q wn out { s with kernel := pipe_close_fn s.kernel wn, exited := true } := by
  have hwriters := h.writers
  rw [if_neg (by simp [hrun])] at hwriters
  obtain ⟨hqueue, hok, hreaders, hwriters', hkind⟩ := pipe_close_fn_write h.kind (h.ptr hrun) hwriters
  have htable : (pipe_close_fn s.kernel wn).table = s.kernel.table := pipe_close_fn_table ..
  have hwcall : Piping.wcall w { s with kernel := pipe_close_fn s.kernel wn, exited := true } = s.wcall w :=
    congrArg (fun f => Pcb.pipe_call (f w)) htable
  have hrcall : Piping.rcall r { s with kernel := pipe_close_fn s.kernel wn, exited := true } = s.rcall r :=
    congrArg (fun f => Pcb.pipe_call (f r)) htable
  refine ⟨hok h.ok, hreaders.trans h.readers, hwriters', hkind, fun hex => ?_, h.fits, fun c hc => h.wcall c (hwcall ▸ hc),
    fun c hc => h.rcall c (hrcall ▸ hc), ?_, h.chunks, fun _ => ⟨houts, hwcall.trans hw⟩, fun heof => ?_⟩
  · cases hex
  · rw [hwcall, hrcall]
    show _ ++ (_ ++ (((pipe_close_fn s.kernel wn).pipes q).queue ++ _)) = _
    rw [hqueue]
    exact h.bytes
  · have := (h.eof heof).1
    rw [hrun] at this
    cases this

theorem Carries.read (h : Carries w r q wn out s) (hne : r ≠ w) (hr : s.rcall r = none) (heof : s.eof = false) :
    Carries w r q wn out { s with kernel := pipe_start s.kernel r (read_call q) } := by
  have hwcall : Piping.wcall w { s with kernel := pipe_start s.kernel r (read_call q) } = s.wcall w :=
    (pipe_start_table ..).trans (if_neg hne.symm)
  have hrcall : Piping.rcall r { s with kernel := pipe_start s.kernel r (read_call q) } = some (read_call q) :=
    (pipe_start_table ..).trans (if_pos rfl)
  refine ⟨h.ok, h.readers, h.writers, h.kind, h.ptr, h.fits, fun c hc => h.wcall c (hwcall ▸ hc), fun c hc => ?_, ?_, h.chunks,
    fun hex => hwcall.symm ▸ h.exited hex, fun h => ?_⟩
  · rw [hrcall] at hc
    cases hc
    exact ⟨rfl, rfl, rfl, rfl, Nat.zero_le _⟩
  · have := h.bytes
    rw [hr] at this
    rw [hwcall, hrcall]
    exact this
  · rw [heof] at h
    cases h

/-- 書き手の一回の繰り返しの後。 -/
theorem Carries.after_write {x : PipeIter} (h : Carries w r c.pipe wn out s) (hne : r ≠ w) (hrun : s.exited = false)
    (hfn : pipe_fn (s.kernel.pipes c.pipe) c = x) (hok : PipeOk (next_pipe_buf (s.pipe c.pipe) x))
    (hreaders : (next_pipe_buf (s.pipe c.pipe) x).readers = (s.pipe c.pipe).readers)
    (hwriters : (next_pipe_buf (s.pipe c.pipe) x).writers = (s.pipe c.pipe).writers) (hcall : ∀ c', next_call c x = some c' → Writing c.pipe c')
    (hbytes : (next_pipe_buf (s.pipe c.pipe) x).queue ++ unsent (next_call c x) = (s.pipe c.pipe).queue ++ unsent (s.wcall w)) :
    Carries w r c.pipe wn out { s with kernel := pipe_iter s.kernel w c } := by
  have hwcall : Piping.wcall w { s with kernel := pipe_iter s.kernel w c } = next_call c x :=
    hfn ▸ (pipe_iter_table ..).trans (if_pos rfl)
  have hrcall : Piping.rcall r { s with kernel := pipe_iter s.kernel w c } = s.rcall r := (pipe_iter_table ..).trans (if_neg hne)
  have hpipe : Piping.pipe c.pipe { s with kernel := pipe_iter s.kernel w c } = next_pipe_buf (s.pipe c.pipe) x := hfn ▸ pipe_iter_pipes ..
  have hnodes : (pipe_iter s.kernel w c).nodes wn = s.kernel.nodes wn := congrFun (pipe_iter_nodes ..) wn
  refine ⟨hpipe ▸ hok, hpipe ▸ hreaders.trans h.readers, hpipe ▸ hwriters.trans h.writers, hnodes ▸ h.kind, fun hex => hnodes ▸ h.ptr hex,
    h.fits, fun c hc => hcall c (hwcall ▸ hc), fun c hc => h.rcall c (hrcall ▸ hc), ?_, h.chunks, fun hex => ?_, fun heof => ?_⟩
  · have := h.bytes
    rw [← List.append_assoc (s.pipe c.pipe).queue, ← hbytes, List.append_assoc] at this
    rw [hwcall, hrcall, hpipe]
    exact this
  · exact absurd hex (by simp [hrun])
  · exact absurd (h.eof heof).1 (by simp [hrun])

theorem Carries.iter_write (h : Carries w r q wn out s) (hne : r ≠ w) (hc : s.wcall w = some c) :
    Carries w r q wn out { s with kernel := pipe_iter s.kernel w c } := by
  have hw := h.wcall c hc
  obtain rfl := hw.pipe
  have hrun : s.exited = false := by
    by_contra hex
    rw [(h.exited (by simpa using hex)).2] at hc
    cases hc
  rcases hw.cases h.ok h.readers with ⟨pb', hfn, hlt, hok, hqueue, -, hreaders, hwriters⟩ | ⟨hfn, -⟩ | ⟨hfn, hdone⟩
  · have hlt' : c.done < c.buffer.length := hw.total ▸ hlt
    refine h.after_write hne hrun hfn hok hreaders hwriters (fun c' hc' => ?_) ?_
    · cases hc'
      exact ⟨rfl, hw.writing, hw.total, hlt⟩
    · rw [hc]
      dsimp only [next_call, next_pipe_buf, unsent]
      rw [hqueue, List.drop_eq_getElem_cons hlt', List.getD_eq_getElem?_getD, List.getElem?_eq_getElem hlt', Option.getD_some,
        List.append_assoc, List.singleton_append]
  · refine h.after_write hne hrun hfn h.ok rfl rfl (fun c' hc' => ?_) ?_
    · cases hc'
      exact ⟨rfl, hw.writing, hw.total, hw.done⟩
    · rw [hc]
      rfl
  · refine h.after_write hne hrun hfn h.ok rfl rfl (fun c' hc' => ?_) ?_
    · cases hc'
    · rw [hc]
      dsimp only [next_call, next_pipe_buf, unsent]
      rw [hdone, hw.total, List.drop_length]

/-- 読み手の一回の繰り返しの後。 -/
theorem Carries.after_read {x : PipeIter} (h : Carries w r c.pipe wn out s) (hne : r ≠ w) (hfn : pipe_fn (s.kernel.pipes c.pipe) c = x)
    (hok : PipeOk (next_pipe_buf (s.pipe c.pipe) x)) (hreaders : (next_pipe_buf (s.pipe c.pipe) x).readers = (s.pipe c.pipe).readers)
    (hwriters : (next_pipe_buf (s.pipe c.pipe) x).writers = (s.pipe c.pipe).writers) (hcall : ∀ c', next_call c x = some c' → Receiving c.pipe c')
    (hbytes : (s.receive c x).chunks.flatten ++ (held (next_call c x) ++ (next_pipe_buf (s.pipe c.pipe) x).queue) =
      s.chunks.flatten ++ (held (s.rcall r) ++ (s.pipe c.pipe).queue))
    (hchunks : ∀ b ∈ (s.receive c x).chunks, b ≠ [] ∧ b.length ≤ 512)
    (heof : (s.receive c x).eof = true → s.exited = true ∧ next_call c x = none ∧ (next_pipe_buf (s.pipe c.pipe) x).count = 0) :
    Carries w r c.pipe wn out { s.receive c x with kernel := pipe_iter s.kernel r c } := by
  have hwcall : Piping.wcall w { s.receive c x with kernel := pipe_iter s.kernel r c } = s.wcall w := (pipe_iter_table ..).trans (if_neg hne.symm)
  have hrcall : Piping.rcall r { s.receive c x with kernel := pipe_iter s.kernel r c } = next_call c x :=
    hfn ▸ (pipe_iter_table ..).trans (if_pos rfl)
  have hpipe : Piping.pipe c.pipe { s.receive c x with kernel := pipe_iter s.kernel r c } = next_pipe_buf (s.pipe c.pipe) x := hfn ▸ pipe_iter_pipes ..
  have hnodes : (pipe_iter s.kernel r c).nodes wn = s.kernel.nodes wn := congrFun (pipe_iter_nodes ..) wn
  have hsame : (s.receive c x).outs = s.outs ∧ (s.receive c x).exited = s.exited := by
    cases x with
    | moved pb' c' => exact ⟨rfl, rfl⟩
    | waits => exact ⟨rfl, rfl⟩
    | finished =>
      simp only [Piping.receive]
      split
      · exact ⟨rfl, rfl⟩
      · exact ⟨rfl, rfl⟩
  refine ⟨hpipe ▸ hok, hpipe ▸ hreaders.trans h.readers, ?_, hnodes ▸ h.kind, fun hex => ?_, fun b hb => h.fits b (hsame.1 ▸ hb),
    fun c hc => h.wcall c (hwcall ▸ hc), fun c hc => hcall c (hrcall ▸ hc), ?_, hchunks, fun hex => ?_, fun he => ?_⟩
  · rw [hpipe, hwriters, h.writers]
    show _ = if (s.receive c x).exited = true then 0 else 1
    rw [hsame.2]
  · rw [show ({ s.receive c x with kernel := pipe_iter s.kernel r c } : Piping).kernel.nodes wn = s.kernel.nodes wn from hnodes]
    exact h.ptr (hsame.2 ▸ hex)
  · have := h.bytes
    rw [← List.append_assoc (held _), ← List.append_assoc s.chunks.flatten, ← hbytes, List.append_assoc, List.append_assoc] at this
    rw [hwcall, hrcall, hpipe]
    show _ ++ (_ ++ (_ ++ (_ ++ (s.receive c x).outs.flatten))) = _
    rw [hsame.1]
    exact this
  · rw [hwcall]
    obtain ⟨houts, hw⟩ := h.exited (hsame.2 ▸ hex)
    exact ⟨hsame.1.trans houts, hw⟩
  · obtain ⟨hex, hcall, hcount⟩ := heof he
    exact ⟨hsame.2.trans hex, hrcall.trans hcall, hpipe ▸ hcount⟩

theorem Carries.iter_read (h : Carries w r q wn out s) (hne : r ≠ w) (hc : s.rcall r = some c) :
    Carries w r q wn out { s.receive c (pipe_fn (s.kernel.pipes c.pipe) c) with kernel := pipe_iter s.kernel r c } := by
  have hr := h.rcall c hc
  obtain rfl := hr.pipe
  have hopen : s.eof ≠ true := fun heof => by
    rw [(h.eof heof).2.1] at hc
    cases hc
  rcases hr.cases h.ok with ⟨pb', x, hfn, hlt, hok, hqueue, -, hreaders, hwriters⟩ | ⟨hfn, -, -⟩ | ⟨hfn, hdone⟩
  · have hfn' : pipe_fn (s.kernel.pipes c.pipe) c = _ := hfn
    rw [hfn']
    refine h.after_read hne hfn hok hreaders hwriters (fun c' hc' => ?_) ?_ h.chunks fun heof => absurd heof hopen
    · cases hc'
      exact ⟨rfl, hr.writing, hr.total, by simp [hr.done], hlt⟩
    · rw [hc]
      dsimp only [next_call, next_pipe_buf, held, Piping.receive]
      rw [hqueue, List.append_assoc, List.singleton_append]
  · have hfn' : pipe_fn (s.kernel.pipes c.pipe) c = _ := hfn
    rw [hfn']
    refine h.after_read hne hfn h.ok rfl rfl (fun c' hc' => ?_) ?_ h.chunks fun heof => absurd heof hopen
    · cases hc'
      exact ⟨rfl, hr.writing, hr.total, hr.done, hr.fits⟩
    · rw [hc]
      rfl
  · have hfn' : pipe_fn (s.kernel.pipes c.pipe) c = _ := hfn
    rw [hfn']
    by_cases hzero : c.done = 0
    · have hend : s.receive c .finished = { s with eof := true } := if_pos hzero
      have hnil : c.buffer = [] := List.length_eq_zero_iff.mp (hr.done ▸ hzero)
      obtain ⟨hcount, hwriters⟩ : (s.pipe c.pipe).count = 0 ∧ (s.pipe c.pipe).writers = 0 := hdone.resolve_left (by omega)
      have hexited : s.exited = true := by
        by_contra hrun
        rw [h.writers, if_neg hrun] at hwriters
        cases hwriters
      refine h.after_read hne hfn h.ok rfl rfl (fun c' hc' => ?_) ?_ (hend ▸ h.chunks) fun _ => ⟨hexited, rfl, hcount⟩
      · cases hc'
      · rw [hc, hend]
        dsimp only [next_call, next_pipe_buf, held]
        rw [hnil]
    · have hgot : s.receive c .finished = { s with chunks := s.chunks ++ [c.buffer] } := if_neg hzero
      refine h.after_read hne hfn h.ok rfl rfl (fun c' hc' => ?_) ?_ (hgot ▸ fun b hb => ?_) fun heof =>
        absurd ((congrArg Piping.eof hgot).symm.trans heof) hopen
      · cases hc'
      · rw [hc, hgot]
        dsimp only [next_call, next_pipe_buf, held]
        rw [List.flatten_append, List.flatten_singleton, List.append_assoc, List.nil_append]
      · rcases List.mem_append.mp hb with hb | hb
        · exact h.chunks b hb
        · obtain rfl := List.mem_singleton.mp hb
          refine ⟨fun hnil => hzero ?_, hr.done ▸ hr.fits⟩
          rw [hr.done, hnil]
          rfl

theorem Carries.step {op : PipingOp} (h : Carries w r q wn out s) (hne : r ≠ w) (hs : piping_step w r q wn s op = some t) :
    Carries w r q wn out t := by
  cases op with
  | write =>
    simp only [piping_step] at hs
    split at hs
    · cases hs
    next b outs houts =>
      split at hs
      next hw =>
        cases hs
        exact h.write hne houts (Option.isNone_iff_eq_none.mp hw)
      · cases hs
  | exit =>
    simp only [piping_step] at hs
    split at hs
    next hcond =>
      cases hs
      exact h.exit hcond.1 (Option.isNone_iff_eq_none.mp hcond.2.1) hcond.2.2
    · cases hs
  | read =>
    simp only [piping_step] at hs
    split at hs
    next hcond =>
      cases hs
      exact h.read hne (Option.isNone_iff_eq_none.mp hcond.1) hcond.2
    · cases hs
  | iter_write =>
    obtain ⟨c, hc, rfl⟩ := Option.map_eq_some_iff.mp hs
    exact h.iter_write hne hc
  | iter_read =>
    obtain ⟨c, hc, rfl⟩ := Option.map_eq_some_iff.mp hs
    exact h.iter_read hne hc

/-! ## 終わること -/

/-- 書き手の呼び出しの残り。 -/
def write_left : Option PipeCall → Nat
  | none => 0
  | some c => 5 * (c.total - c.done) + 1

/-- 読み手の呼び出しの残り。 -/
def read_left (eof : Bool) : Option PipeCall → Nat
  | none => if eof then 0 else 2
  | some c => if c.done = 0 then 1 else 3

/-- 残りの手数。置く前のバイトは、パイプのバイトより重い。 -/
def Piping.left (w r q : Nat) (s : Piping) : Nat :=
  (s.outs.map fun b => 5 * b.length + 2).sum + write_left (s.wcall w) + (!s.exited).toNat + 3 * (s.pipe q).count +
    read_left s.eof (s.rcall r)

theorem left_after (s : Piping) {call call' : Option PipeCall} (hw : (K.table w).pipe_call = call) (hr : (K.table r).pipe_call = call') :
    Piping.left w r q { s with kernel := K } = (s.outs.map fun b => 5 * b.length + 2).sum + write_left call + (!s.exited).toNat +
      3 * (K.pipes q).count + read_left s.eof call' := by
  rw [← hw, ← hr]
  rfl

/-- パイプが空で書き手がいれば、書き手が進む。 -/
theorem Carries.progress_write (h : Carries w r q wn out s) (hne : r ≠ w) (hrun : s.exited = false) (hcount : (s.pipe q).count = 0) :
    ∃ op t, piping_step w r q wn s op = some t ∧ t.left w r q < s.left w r q := by
  have hbefore : s.left w r q = _ := left_after s rfl rfl
  cases hw : s.wcall w with
  | none =>
    have hwcall : (s.kernel.table w).pipe_call = none := hw
    cases houts : s.outs with
    | nil =>
      have hwriters := h.writers
      rw [if_neg (by simp [hrun])] at hwriters
      obtain ⟨hqueue, -, -, -, -⟩ := pipe_close_fn_write h.kind (h.ptr hrun) hwriters
      have hsame : ((pipe_close_fn s.kernel wn).pipes q).count = (s.kernel.pipes q).count := by
        have := congrArg List.length hqueue
        rwa [PipeBuf.queue, PipeBuf.queue, ring_length, ring_length] at this
      have hafter : Piping.left w r q { s with kernel := pipe_close_fn s.kernel wn, exited := true } = _ :=
        left_after { s with exited := true } rfl rfl
      refine ⟨.exit, _, if_pos ⟨houts, Option.isNone_iff_eq_none.mpr hw, hrun⟩, ?_⟩
      rw [hafter, hbefore, hsame, pipe_close_fn_table, hrun]
      dsimp only
      simp
    | cons b outs =>
      have hstep : piping_step w r q wn s .write = some { s with kernel := pipe_start s.kernel w (write_call q b), outs := outs } := by
        simp only [piping_step]
        rw [houts]
        exact if_pos (Option.isNone_iff_eq_none.mpr hw)
      have hafter : Piping.left w r q { s with kernel := pipe_start s.kernel w (write_call q b), outs := outs } = _ :=
        left_after { s with outs := outs } ((pipe_start_table ..).trans (if_pos rfl)) ((pipe_start_table ..).trans (if_neg hne))
      have hle : b.length % 2 ^ 32 ≤ b.length := Nat.mod_le ..
      refine ⟨.write, _, hstep, ?_⟩
      rw [hafter, hbefore, hwcall, houts, List.map_cons, List.sum_cons]
      dsimp only [write_left, write_call, pipe_start, Kernel.modify]
      omega
  | some c =>
    have hwcall : (s.kernel.table w).pipe_call = some c := hw
    have hcall := h.wcall c hw
    obtain rfl := hcall.pipe
    have hstep : piping_step w r c.pipe wn s .iter_write = some { s with kernel := pipe_iter s.kernel w c } := by
      simp only [piping_step]
      rw [hwcall]
      rfl
    have hafter : Piping.left w r c.pipe { s with kernel := pipe_iter s.kernel w c } = _ :=
      left_after s ((pipe_iter_table ..).trans (if_pos rfl)) ((pipe_iter_table ..).trans (if_neg hne))
    refine ⟨.iter_write, _, hstep, ?_⟩
    rw [hafter, hbefore, hwcall, pipe_iter_pipes]
    rcases hcall.cases h.ok h.readers with ⟨pb', hfn, hlt, -, -, hmoved, -, -⟩ | ⟨hfn, hfull⟩ | ⟨hfn, hdone⟩
    · rw [show pipe_fn (s.kernel.pipes c.pipe) c = _ from hfn]
      have hmoved : pb'.count = (s.kernel.pipes c.pipe).count + 1 := hmoved
      dsimp only [next_call, next_pipe_buf, write_left]
      omega
    · rw [hcount] at hfull
      cases hfull
    · rw [show pipe_fn (s.kernel.pipes c.pipe) c = _ from hfn]
      dsimp only [next_call, next_pipe_buf, write_left]
      omega

/-- `read` が 0 を返すまでは、残りの手数を減らす一歩がある。 -/
theorem Carries.progress (h : Carries w r q wn out s) (hne : r ≠ w) (heof : s.eof = false) :
    ∃ op t, piping_step w r q wn s op = some t ∧ t.left w r q < s.left w r q := by
  have hbefore : s.left w r q = _ := left_after s rfl rfl
  cases hr : s.rcall r with
  | none =>
    have hrcall : (s.kernel.table r).pipe_call = none := hr
    have hafter : Piping.left w r q { s with kernel := pipe_start s.kernel r (read_call q) } = _ :=
      left_after s ((pipe_start_table ..).trans (if_neg hne.symm)) ((pipe_start_table ..).trans (if_pos rfl))
    refine ⟨.read, _, if_pos ⟨Option.isNone_iff_eq_none.mpr hr, heof⟩, ?_⟩
    rw [hafter, hbefore, hrcall, heof]
    dsimp only [read_left, read_call, pipe_start, Kernel.modify]
    simp
  | some c =>
    have hrcall : (s.kernel.table r).pipe_call = some c := hr
    have hcall := h.rcall c hr
    obtain rfl := hcall.pipe
    have hstep : piping_step w r c.pipe wn s .iter_read =
        some { s.receive c (pipe_fn (s.kernel.pipes c.pipe) c) with kernel := pipe_iter s.kernel r c } := by
      simp only [piping_step]
      rw [hrcall]
      rfl
    have hafter : Piping.left w r c.pipe { s.receive c (pipe_fn (s.kernel.pipes c.pipe) c) with kernel := pipe_iter s.kernel r c } = _ :=
      left_after (s.receive c (pipe_fn (s.kernel.pipes c.pipe) c)) ((pipe_iter_table ..).trans (if_neg hne.symm))
        ((pipe_iter_table ..).trans (if_pos rfl))
    rcases hcall.cases h.ok with ⟨pb', x, hfn, hlt, -, -, hmoved, -, -⟩ | ⟨hfn, hcount, hwriters⟩ | ⟨hfn, hdone⟩
    · refine ⟨.iter_read, _, hstep, ?_⟩
      have hmoved : (s.kernel.pipes c.pipe).count = pb'.count + 1 := hmoved
      rw [hafter, hbefore, hrcall, pipe_iter_pipes, show pipe_fn (s.kernel.pipes c.pipe) c = _ from hfn]
      have hone : 1 ≤ if c.done = 0 then 1 else 3 := by
        split
        · exact Nat.le_refl _
        · decide
      dsimp only [next_call, next_pipe_buf, Piping.receive, read_left]
      rw [if_neg (Nat.succ_ne_zero c.done)]
      omega
    · have hrun : s.exited = false := by
        by_contra hex
        rw [h.writers, if_pos (by simpa using hex)] at hwriters
        cases hwriters
      exact h.progress_write hne hrun hcount
    · refine ⟨.iter_read, _, hstep, ?_⟩
      rw [hafter, hbefore, hrcall, pipe_iter_pipes, show pipe_fn (s.kernel.pipes c.pipe) c = _ from hfn]
      by_cases hzero : c.done = 0
      · rw [show s.receive c .finished = { s with eof := true } from if_pos hzero]
        dsimp only [next_call, next_pipe_buf, read_left]
        rw [if_pos hzero]
        simp
      · rw [show s.receive c .finished = { s with chunks := s.chunks ++ [c.buffer] } from if_neg hzero]
        dsimp only [next_call, next_pipe_buf, read_left]
        rw [if_neg hzero, heof]
        simp

/-- どの状態からも、`read` が 0 を返すところまで進める。 -/
theorem Carries.ends {s : Piping} (h : Carries w r q wn out s) (hne : r ≠ w) :
    ∃ t, Steps (piping_step w r q wn) (fun _ _ => True) s t ∧ t.eof = true := by
  by_cases heof : s.eof = true
  · exact ⟨s, .refl s, heof⟩
  · obtain ⟨op, u, hu, hlt⟩ := h.progress hne (by simpa using heof)
    obtain ⟨t, ht, hend⟩ := (h.step hne hu).ends hne
    exact ⟨t, ht.head op trivial hu, hend⟩
termination_by s.left w r q

/-! ## 結果 -/

/-- `pipe_create` からの実行。 -/
abbrev PipingRun (K : Kernel) (pid w r : Nat) (out : List (List UInt8)) (s : Piping) : Prop :=
  Steps (piping_step w r K.next_pipe (K.next_node + 1)) (fun _ _ => True) (piping_start K pid out) s

/-- 二つのプロセスはまだ呼び出しの途中にない。 -/
structure Idle (K : Kernel) (w r : Nat) : Prop where
  ne : r ≠ w
  write : (K.table w).pipe_call = none
  read : (K.table r).pipe_call = none

variable {pid : Nat}

theorem PipingRun.carries (h : PipingRun K pid w r out s) (hidle : Idle K w r) (hout : out.flatten.length < 2 ^ 32) :
    Carries w r K.next_pipe (K.next_node + 1) out s := by
  have hfits : ∀ b ∈ out, b.length < 2 ^ 32 := fun b hb =>
    Nat.lt_of_le_of_lt (List.sublist_flatten_of_mem hb).length_le hout
  exact h.inv (fun _ _ _ hI _ hs => hI.step hidle.ne hs) (carries_start hidle.write hidle.read hfits pid)

/-- `read` が 0 を返したとき、区切りは書いたバイトを過不足なく並べている。 -/
theorem PipingRun.delivered (h : PipingRun K pid w r out s) (hidle : Idle K w r) (hout : out.flatten.length < 2 ^ 32) (heof : s.eof = true) :
    (∀ c ∈ s.chunks, c ≠ []) ∧ s.chunks.flatten = out.flatten := by
  have hI := h.carries hidle hout
  obtain ⟨hexited, hr, hcount⟩ := hI.eof heof
  obtain ⟨houts, hw⟩ := hI.exited hexited
  have hbytes := hI.bytes
  have hqueue : (s.pipe K.next_pipe).queue = [] := by
    rw [← List.length_eq_zero_iff, PipeBuf.queue, ring_length]
    exact hcount
  rw [hr, hw, houts, hqueue] at hbytes
  exact ⟨fun c hc => (hI.chunks c hc).1, by simpa [held, unsent] using hbytes⟩

variable {alloc alloc' : Nat → Bool} {fs : List UInt8 → Option (Nat × List (List UInt8))} {stdin : List (List UInt8)} {data pattern : List UInt8}
  {argv argv' rest : List (List UInt8)} {e : Exit}

end MyOS.Apps
