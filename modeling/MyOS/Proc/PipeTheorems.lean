import MyOS.Lib.Ring
import MyOS.Proc.Syscalls

/-!
# パイプと待ち行列

一つのパイプを、容量 `PIPE_BUF_SIZE` の先入れ先出しの待ち行列と見る。読み書きの繰り返しの一回ずつと、両端の
`pipe_close_fn` を、任意の順に進める。プロセスの数に限りはない。
-/

namespace MyOS.Proc
open MyOS.Lib

/-- 呼び出しの終わりの記録。`count`、`readers`、`writers` は終わるときのパイプの値である。 -/
structure PipeReturn where
  call : PipeCall
  count : Nat
  readers : Nat
  writers : Nat

/-- カーネルに、書き手から受け取ったバイト、読み手へ渡したバイト、終わった呼び出しの記録を添える。 -/
structure PipeRun where
  kernel : Kernel
  accepted : List UInt8 := []
  delivered : List UInt8 := []
  returned : List PipeReturn := []

inductive PipeOp
  | call (i : Nat) (c : PipeCall)
  | iter (i : Nat)
  | close (n : Nat)

/-- 書き手から受け取るバイト。 -/
def taken (c : PipeCall) : List UInt8 := if c.writing then [c.buffer.getD c.done 0] else []

/-- 読み手へ渡すバイト。読み手のバッファの、`read` の位置に置かれる。 -/
def given (c c' : PipeCall) : List UInt8 := if c.writing then [] else c'.buffer.drop c.buffer.length

/-- 繰り返しの一回を記録する。 -/
def PipeRun.log (s : PipeRun) (pb : PipeBuf) (c : PipeCall) : PipeRun :=
  match pipe_fn pb c with
  | .moved _ c' => { s with accepted := s.accepted ++ taken c, delivered := s.delivered ++ given c c' }
  | .waits => s
  | .finished => { s with returned := ⟨c, pb.count, pb.readers, pb.writers⟩ :: s.returned }

/-- `q` はパイプ、`rn` と `wn` は読みと書きの端のノードの番号である。 -/
def pipe_step (q rn wn : Nat) (s : PipeRun) : PipeOp → Option PipeRun
  | .call i c =>
    if (s.kernel.table i).pipe_call.isNone ∧ c.pipe = q ∧ c.done = 0 then
      some { s with kernel := pipe_start s.kernel i c }
    else none
  | .iter i =>
    match (s.kernel.table i).pipe_call with
    | none => none
    | some c =>
      if c.pipe = q then some { s.log (s.kernel.pipes q) c with kernel := pipe_iter s.kernel i c } else none
  | .close n => if n = rn ∨ n = wn then some { s with kernel := pipe_close_fn s.kernel n } else none

/-- `pipe_create` の直後。 -/
def pipe_new (K : Kernel) (pid : Nat) : PipeRun := { kernel := (pipe_create K pid).1 }

/-- パイプに残るバイト。 -/
def PipeBuf.queue (pb : PipeBuf) : List UInt8 := ring pb.buf PIPE_BUF_SIZE pb.read_pos pb.count

/-- 位置の整合。 -/
structure PipeOk (pb : PipeBuf) : Prop where
  read_pos : pb.read_pos < PIPE_BUF_SIZE
  count : pb.count ≤ PIPE_BUF_SIZE
  write_pos : pb.write_pos = (pb.read_pos + pb.count) % PIPE_BUF_SIZE

/-- 少ないまま終わった呼び出しの理由。読みではバイトも書き手もなく、書きでは空きも読み手もない。 -/
def PipeReturn.Ok (x : PipeReturn) : Prop :=
  x.call.done < x.call.total →
    if x.call.writing then x.count = PIPE_BUF_SIZE ∧ x.readers = 0 else x.count = 0 ∧ x.writers = 0

/-!
## パイプの定理

バイトは、書き手から受け取った順に、失われも重なりもせずに読み手へ渡る。
-/

variable {K : Kernel} {pb pb' : PipeBuf} {c c' : PipeCall} {i q : Nat}

/-- 一バイト移る繰り返しは、待ち行列の一歩である。 -/
theorem pipe_fn_queue (h : PipeOk pb) (hm : pipe_fn pb c = .moved pb' c') :
    QueueStep PIPE_BUF_SIZE pb.queue (taken c) (given c c') pb'.queue ∧ PipeOk pb' := by
  have hpos : 0 < PIPE_BUF_SIZE := by decide
  rw [pipe_fn] at hm
  split at hm
  next hw =>
    rw [pipe_write_fn] at hm
    split at hm
    · split at hm
      next hroom =>
        cases hm
        have hlen : pb.queue.length < PIPE_BUF_SIZE := by
          rw [PipeBuf.queue, ring_length]
          exact hroom
        refine ⟨?_, h.read_pos, hroom, ?_⟩
        · have hpush : ring (fun k => if k = (pb.read_pos + pb.count) % PIPE_BUF_SIZE then
              c.buffer.getD c.done 0 else pb.buf k) PIPE_BUF_SIZE pb.read_pos (pb.count + 1) = _ :=
            ring_push _ hroom
          rw [← h.write_pos] at hpush
          rw [taken, given, if_pos hw, if_pos hw]
          show QueueStep _ _ _ _ (ring _ _ _ _)
          rw [hpush]
          exact .push _ hlen
        · show (pb.write_pos + 1) % PIPE_BUF_SIZE = (pb.read_pos + (pb.count + 1)) % PIPE_BUF_SIZE
          rw [h.write_pos, Nat.mod_add_mod, Nat.add_assoc]
      · split at hm <;> cases hm
    · cases hm
  next hw =>
    rw [pipe_read_fn] at hm
    split at hm
    · split at hm
      next hdata =>
        cases hm
        obtain ⟨n, hn⟩ : ∃ n, pb.count = n + 1 := ⟨pb.count - 1, by omega⟩
        have hcount := h.count
        refine ⟨?_, Nat.mod_lt _ hpos, ?_, ?_⟩
        · rw [taken, given, if_neg hw, if_neg hw, List.drop_left]
          rw [PipeBuf.queue, PipeBuf.queue, hn, ring_pop h.read_pos]
          exact .pop _
        · show pb.count - 1 ≤ PIPE_BUF_SIZE
          omega
        · show pb.write_pos = ((pb.read_pos + 1) % PIPE_BUF_SIZE + (pb.count - 1)) % PIPE_BUF_SIZE
          rw [h.write_pos, Nat.mod_add_mod, hn]
          congr 1
          omega
      · split at hm <;> cases hm
    · cases hm

/-- 終わる繰り返しでは、すべて移したか、相手がいない。 -/
theorem pipe_fn_finished (h : pipe_fn pb c = .finished) (hcount : pb.count ≤ PIPE_BUF_SIZE) :
    PipeReturn.Ok ⟨c, pb.count, pb.readers, pb.writers⟩ := by
  intro hlt
  dsimp only at hlt ⊢
  rw [pipe_fn] at h
  split at h
  next hw =>
    rw [pipe_write_fn, if_pos hlt] at h
    rw [if_pos hw]
    split at h
    · cases h
    · split at h
      · cases h
      · omega
  next hw =>
    rw [pipe_read_fn, if_pos hlt] at h
    rw [if_neg hw]
    split at h
    · cases h
    · split at h
      · cases h
      · omega

/-- 受け取ったバイトは、渡したバイトと残るバイトを並べたものである。 -/
structure PipeInv (q : Nat) (s : PipeRun) : Prop where
  ok : PipeOk (s.kernel.pipes q)
  fifo : s.accepted = s.delivered ++ (s.kernel.pipes q).queue
  returned : ∀ x ∈ s.returned, x.Ok

theorem PipeInv.new (K : Kernel) (pid : Nat) : PipeInv K.next_pipe (pipe_new K pid) := by
  have hpipe : (pipe_new K pid).kernel.pipes K.next_pipe = { refcount := 2, readers := 1, writers := 1 } :=
    if_pos rfl
  refine ⟨?_, ?_, fun x hx => by cases hx⟩
  · rw [hpipe]
    exact ⟨by decide, by decide, by decide⟩
  · rw [hpipe]
    rfl

theorem pipe_iter_moved (h : pipe_fn (K.pipes c.pipe) c = .moved pb' c') :
    (pipe_iter K i c).pipes c.pipe = pb' := by
  rw [pipe_iter, h]
  exact if_pos rfl

theorem pipe_iter_same (h : ∀ pb' c', pipe_fn (K.pipes c.pipe) c ≠ .moved pb' c') :
    (pipe_iter K i c).pipes = K.pipes := by
  rw [pipe_iter]
  split
  next pb' c' hm => exact absurd hm (h pb' c')
  · rfl
  · rfl

theorem PipeInv.iter {s : PipeRun} (h : PipeInv c.pipe s) :
    PipeInv c.pipe { s.log (s.kernel.pipes c.pipe) c with kernel := pipe_iter s.kernel i c } := by
  cases hm : pipe_fn (s.kernel.pipes c.pipe) c with
  | moved pb' c' =>
    obtain ⟨hq, hok⟩ := pipe_fn_queue h.ok hm
    have hpb := pipe_iter_moved (i := i) hm
    simp only [PipeRun.log, hm]
    exact ⟨hpb.symm ▸ hok, hpb.symm ▸ hq.conserve h.fifo, h.returned⟩
  | waits =>
    have hpb := pipe_iter_same (K := s.kernel) (c := c) (i := i) fun _ _ h => by simp [hm] at h
    simp only [PipeRun.log, hm]
    exact ⟨hpb.symm ▸ h.ok, hpb.symm ▸ h.fifo, h.returned⟩
  | finished =>
    have hpb := pipe_iter_same (K := s.kernel) (c := c) (i := i) fun _ _ h => by simp [hm] at h
    simp only [PipeRun.log, hm]
    exact ⟨hpb.symm ▸ h.ok, hpb.symm ▸ h.fifo,
      List.forall_mem_cons.mpr ⟨pipe_fn_finished hm h.ok.count, h.returned⟩⟩

/-- 端を閉じても、残るバイトは変わらない。 -/
theorem pipe_close_fn_buf (K : Kernel) (n q : Nat) :
    (pipe_close_fn K n).pipes q = { K.pipes q with
      refcount := ((pipe_close_fn K n).pipes q).refcount
      readers := ((pipe_close_fn K n).pipes q).readers
      writers := ((pipe_close_fn K n).pipes q).writers } := by
  rw [pipe_close_fn]
  split
  · rfl
  next q' _ =>
    simp only [Kernel.setNode, Kernel.setPipe]
    by_cases hq : q = q'
    · subst hq
      simp only [if_pos]
      split <;> split <;> rfl
    · simp only [if_neg hq]

theorem PipeInv.close {s : PipeRun} (n : Nat) (h : PipeInv q s) :
    PipeInv q { s with kernel := pipe_close_fn s.kernel n } := by
  have hpb := pipe_close_fn_buf s.kernel n q
  refine ⟨?_, ?_, h.returned⟩
  · rw [hpb]
    exact ⟨h.ok.read_pos, h.ok.count, h.ok.write_pos⟩
  · dsimp only
    rw [hpb]
    exact h.fifo

theorem PipeInv.step {rn wn : Nat} {s s' : PipeRun} {op : PipeOp} (h : PipeInv q s)
    (hs : pipe_step q rn wn s op = some s') : PipeInv q s' := by
  cases op with
  | call i c =>
    simp only [pipe_step] at hs
    split at hs
    · cases hs
      exact ⟨h.ok, h.fifo, h.returned⟩
    · cases hs
  | iter i =>
    simp only [pipe_step] at hs
    split at hs
    · cases hs
    next c hc =>
      split at hs
      next hq =>
        subst hq
        cases hs
        exact h.iter
      · cases hs
  | close n =>
    simp only [pipe_step] at hs
    split at hs
    · cases hs
      exact h.close n
    · cases hs

/-- 機械の事象 `pipe` は、今のプロセスの繰り返しの一回である。 -/
theorem step_pipe (rn wn : Nat) (hcur : K.current_process = some i) (hc : (K.table i).pipe_call = some c) :
    step K .pipe = (pipe_step c.pipe rn wn { kernel := K } (.iter i)).map PipeRun.kernel := by
  simp [step, hcur, hc, pipe_step]

/-- どの順に進めても、渡したバイトは受け取ったバイトの先頭で、差は残るバイトの数である。少ないまま終わるのは、
    相手の端が閉じているときだけである。 -/
theorem pipe_fifo (K : Kernel) (pid : Nat) {s : PipeRun}
    (h : Steps (pipe_step K.next_pipe K.next_node (K.next_node + 1)) (fun _ _ => True) (pipe_new K pid) s) :
    s.delivered <+: s.accepted ∧
      s.delivered.length + (s.kernel.pipes K.next_pipe).count = s.accepted.length ∧
      (s.kernel.pipes K.next_pipe).count ≤ PIPE_BUF_SIZE ∧
      (s.kernel.pipes K.next_pipe).write_pos =
        ((s.kernel.pipes K.next_pipe).read_pos + (s.kernel.pipes K.next_pipe).count) % PIPE_BUF_SIZE ∧
      s.accepted = s.delivered ++ (s.kernel.pipes K.next_pipe).queue ∧
      ∀ x ∈ s.returned, x.Ok := by
  have hI : PipeInv K.next_pipe s := h.inv (fun _ _ _ hI _ hs => hI.step hs) (.new K pid)
  refine ⟨⟨_, hI.fifo.symm⟩, ?_, hI.ok.count, hI.ok.write_pos, hI.fifo, hI.returned⟩
  rw [hI.fifo, List.length_append, PipeBuf.queue, ring_length]

/-- 二バイトを書き、一バイトを読み、書きの端を閉じ、残りを読む。 -/
def pipe_ops : Trace (exec (pipe_step 0 2 3) (pipe_new (boot 1 1 0) 1))
    (fun s => s.delivered = [7, 8] ∧ s.returned.length = 2) :=
  ⟨[.call 1 { pipe := 0, writing := true, total := 2, buffer := [7, 8], regs := {} }, .iter 1, .iter 1, .iter 1,
    .call 2 { pipe := 0, writing := false, total := 3, buffer := [], regs := {} }, .iter 2, .close 3, .iter 2,
    .iter 2], by decide +kernel⟩

theorem pipe_fifo_two :
    ∃ s, Steps (pipe_step 0 2 3) (fun _ _ => True) (pipe_new (boot 1 1 0) 1) s ∧ s.delivered = [7, 8] ∧
      s.returned.length = 2 ∧ s.delivered <+: s.accepted ∧ ∀ x ∈ s.returned, x.Ok := by
  obtain ⟨s, hs, hdel, hret⟩ := pipe_ops.steps
  have h := pipe_fifo (boot 1 1 0) 1 hs
  exact ⟨s, hs, hdel, hret, h.1, h.2.2.2.2.2⟩

end MyOS.Proc
