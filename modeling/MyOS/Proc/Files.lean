import Mathlib.Algebra.GroupWithZero.Nat
import MyOS.Proc.Types

/-!
# 開いたファイルとパイプ

`fopen.c`、`pipe.c` と、`syscalls.c` のうち `files_open` を書く呼び出し。同じ閉じる手順が五か所に
現れるので、`drop_file` にまとめる。
-/

namespace MyOS.Proc
open MyOS.Lib

/-- プロセス `i` の記述子 `fd` の `FILE` がノード `n` を指す。 -/
def refers (K : Kernel) (n i fd : Nat) : Bool :=
  ((K.table i).files_open fd).any fun fp => fp.file == n

def row_count (K : Kernel) (n i : Nat) : Nat := (List.range MAX_FILES).countP (refers K n i)

/-- ノード `n` を指す `FILE` の数。 -/
def open_count (K : Kernel) (n : Nat) : Nat :=
  ((List.range K.num_processes).map (row_count K n)).sum

/-- `stdin_node`、`stdout_node`、根、マウントの項目のノード。 -/
def is_global (K : Kernel) (n : Nat) : Bool :=
  n == K.stdin_node || n == K.stdout_node || K.mounts.contains n

def setFile (K : Kernel) (i fd : Nat) (o : Option File) : Kernel :=
  K.modify i fun p => { p with files_open := fun j => if j = fd then o else p.files_open j }

/-- `node->refcount++`。 -/
def incRef (K : Kernel) (n : Nat) : Kernel :=
  K.setNode n { K.nodes n with refcount := add32 (K.nodes n).refcount 1 }

/-- `if (node->refcount > 0) node->refcount--`。 -/
def decRef (K : Kernel) (n : Nat) : Kernel :=
  if 0 < (K.nodes n).refcount then
    K.setNode n { K.nodes n with refcount := (K.nodes n).refcount - 1 }
  else K

def pipe_close_fn (K : Kernel) (n : Nat) : Kernel :=
  match (K.nodes n).ptr with
  | none => K
  | some q =>
    let pb := K.pipes q
    let pb := if (K.nodes n).kind = .pipe_read then { pb with readers := sub32 pb.readers 1 }
      else { pb with writers := sub32 pb.writers 1 }
    let pb := if 0 < pb.refcount then { pb with refcount := pb.refcount - 1 } else pb
    (K.setPipe q pb).setNode n { K.nodes n with ptr := none }

/-- パイプでないノードの `close` は、ここで扱う状態を変えない。 -/
def close_fs (K : Kernel) (n : Nat) : Kernel :=
  if (K.nodes n).kind = .other then K else pipe_close_fn K n

/-- `close_fs(node); free(node)`。 -/
def free_node (K : Kernel) (n : Nat) : Kernel :=
  let K := close_fs K n
  { K with freed := ⟨n, open_count K n, is_global K n⟩ :: K.freed }

/-- `files_open[fd]` を閉じる手順。参照がなくなればノードを解放し、項目を空にする。 -/
def drop_file (K : Kernel) (i fd : Nat) : Kernel :=
  match (K.table i).files_open fd with
  | none => K
  | some fp =>
    let K := setFile ((decRef K fp.file).release [fp.id]) i fd none
    if (K.nodes fp.file).refcount = 0 then free_node K fp.file else K

def drop_files (K : Kernel) (i : Nat) (fds : List Nat) : Kernel :=
  fds.foldl (fun K fd => drop_file K i fd) K

/-- 新しい `FILE` を `fd` に置き、参照を増やす。 -/
def share_file (K : Kernel) (i fd flags n : Nat) : Kernel :=
  setFile (incRef (K.alloc (K.table i).pid 1) n) i fd (some ⟨K.next_block, flags, n⟩)

/-- `start` 以上の空いた記述子のうち最小のもの。 -/
def free_fd (K : Kernel) (i start : Nat) : Option Nat :=
  (List.range MAX_FILES).find? fun fd =>
    decide (start ≤ fd) && ((K.table i).files_open fd).isNone

/-- `get_node` と `create_node` の結果。見つからないか、新しく確保したノードか、大域のノードである。 -/
inductive Lookup
  | missing
  | fresh
  | global (k : Nat)

def get_node (K : Kernel) : Lookup → Kernel × Option Nat
  | .missing => (K, none)
  | .fresh => ({ K.setNode K.next_node {} with next_node := K.next_node + 1 }, some K.next_node)
  | .global k => (K, K.mounts[k]?)

def fopen (K : Kernel) (i : Nat) (look : Lookup) (modes_mask : Nat) : Kernel × Nat :=
  match get_node K look with
  | (K, none) => (K, NEG1)
  | (K, some n) =>
    match free_fd K i 3 with
    | none => (K, NEG1)
    | some fd => (share_file K i fd modes_mask n, fd)

def syscall_close (K : Kernel) (i fd : Nat) : Kernel × Nat :=
  if fd < 3 ∨ MAX_FILES ≤ fd then (K, NEG1)
  else if ((K.table i).files_open fd).isNone then (K, NEG1)
  else (drop_file K i fd, 0)

def syscall_dup (K : Kernel) (i old_fd : Nat) : Kernel × Nat :=
  if MAX_FILES ≤ old_fd then (K, NEG1)
  else match (K.table i).files_open old_fd with
  | none => (K, NEG1)
  | some fp =>
    match free_fd K i 0 with
    | none => (K, NEG1)
    | some fd => (share_file K i fd fp.flags fp.file, fd)

def syscall_dup2 (K : Kernel) (i old_fd new_fd : Nat) : Kernel × Nat :=
  if MAX_FILES ≤ old_fd ∨ MAX_FILES ≤ new_fd then (K, NEG1)
  else if old_fd = new_fd then (K, new_fd)
  else match (K.table i).files_open old_fd with
  | none => (K, NEG1)
  | some fp =>
    -- `syscall_close` は 3 未満の記述子を拒むが、その返り値は見ない
    let K := if ((K.table i).files_open new_fd).isSome then (syscall_close K i new_fd).1 else K
    (share_file K i new_fd fp.flags fp.file, new_fd)

/-- 両端の `FILE` は読みの端、書きの端の順に返す。 -/
def pipe_create (K : Kernel) (pid : Nat) : Kernel × File × File :=
  let q := K.next_pipe
  let n := K.next_node
  let b := K.next_block
  let K := (K.alloc pid 2).setPipe q { refcount := 2, readers := 1, writers := 1 }
  let K := K.setNode n { kind := .pipe_read, refcount := 1, ptr := some q }
  let K := K.setNode (n + 1) { kind := .pipe_write, refcount := 1, ptr := some q }
  ({ K with next_pipe := q + 1, next_node := n + 2 }, ⟨b, FILE_READ, n⟩, ⟨b + 1, FILE_WRITE, n + 1⟩)

def is_user_ptr (p : Nat) : Bool := decide (p < KERNEL_VIRTUAL_BASE) && decide (p ≠ 0)

/-- `copied` は `copy_to_user` が成功したことである。失敗すれば両端を閉じて元に戻す。 -/
def syscall_pipe (K : Kernel) (i ptr : Nat) (copied : Bool) : Kernel × Nat :=
  if !is_user_ptr ptr then (K, NEG1)
  else
    let (K, rfp, wfp) := pipe_create K (K.table i).pid
    match free_fd K i 3 with
    | none => (K.release [rfp.id, wfp.id], NEG1)
    | some rfd =>
      match free_fd K i (rfd + 1) with
      | none => (K.release [rfp.id, wfp.id], NEG1)
      | some wfd =>
        let K' := setFile (setFile K i rfd (some rfp)) i wfd (some wfp)
        if copied then (K', 0)
        else
          let K' := (setFile (setFile K' i rfd none) i wfd none).release [rfp.id, wfp.id]
          (free_node (free_node K' rfp.file) wfp.file, NEG1)

/-- 呼び出しを終えて、ユーザの文脈へ `v` を返す。 -/
def return_to (K : Kernel) (r : Regs) (v : Nat) : Kernel := { K with ctx := { r with eax := v } }

/-- 繰り返しの一回の結果。一バイト移す、`sti; hlt` で待つ、終わる、のどれかである。 -/
inductive PipeIter
  | moved (pb : PipeBuf) (c : PipeCall)
  | waits
  | finished

/-- `pipe_read_fn` の繰り返しの一回。 -/
def pipe_read_fn (pb : PipeBuf) (c : PipeCall) : PipeIter :=
  if c.done < c.total then
    if 0 < pb.count then
      .moved
        { pb with
          read_pos := (pb.read_pos + 1) % PIPE_BUF_SIZE
          count := pb.count - 1 }
        { c with
          done := c.done + 1
          buffer := c.buffer ++ [pb.buf pb.read_pos] }
    else if 0 < pb.writers then .waits
    else .finished
  else .finished

/-- `pipe_write_fn` の繰り返しの一回。 -/
def pipe_write_fn (pb : PipeBuf) (c : PipeCall) : PipeIter :=
  if c.done < c.total then
    if pb.count < PIPE_BUF_SIZE then
      .moved
        { pb with
          buf := fun k => if k = pb.write_pos then c.buffer.getD c.done 0 else pb.buf k
          write_pos := (pb.write_pos + 1) % PIPE_BUF_SIZE
          count := pb.count + 1 }
        { c with done := c.done + 1 }
    else if 0 < pb.readers then .waits
    else .finished
  else .finished

def pipe_fn (pb : PipeBuf) (c : PipeCall) : PipeIter :=
  if c.writing then pipe_write_fn pb c else pipe_read_fn pb c

/-- プロセス `i` がパイプの繰り返しを一回進める。 -/
def pipe_iter (K : Kernel) (i : Nat) (c : PipeCall) : Kernel :=
  match pipe_fn (K.pipes c.pipe) c with
  | .moved pb c' => (K.setPipe c.pipe pb).modify i fun p => { p with pipe_call := some c' }
  | .waits => K.modify i fun p => { p with pipe_call := some { c with intr := true } }
  | .finished => return_to (K.modify i fun p => { p with pipe_call := none }) c.regs c.done

end MyOS.Proc
