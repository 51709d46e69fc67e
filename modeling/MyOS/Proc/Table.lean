import Mathlib.Data.Finset.Range
import Mathlib.Data.Finset.Card
import MyOS.Proc.Refs

/-!
# 記述子の表とシェルの配管

記述子の表をノードへの対応 `Row` とみて、表を変える呼び出しの意味を与える。`shell.c` の `main` は、段ごとに `pipe` と
`fork` を呼び、子は `run_stage` で端を 0 と 1 に移す。
-/

namespace MyOS.Proc
open MyOS.Lib

/-! ## 表の意味 -/

/-- 記述子ごとの、許可とノード。 -/
abbrev Row := Nat → Option (Nat × Nat)

def row_of (K : Kernel) (i : Nat) : Row := fun d =>
  if d < MAX_FILES then ((K.table i).files_open d).map fun fp => (fp.flags, fp.file) else none

namespace Row

def empty : Row := fun _ => none

def set (r : Row) (fd : Nat) (o : Option (Nat × Nat)) : Row := fun d => if d = fd then o else r d

/-- `start` 以上の空いた記述子のうち最小のもの。 -/
def free (r : Row) (start : Nat) : Option Nat := (List.range MAX_FILES).find? fun fd => decide (start ≤ fd) && (r fd).isNone

def close (r : Row) (fd : Nat) : Row := if fd < 3 ∨ MAX_FILES ≤ fd then r else r.set fd none

def dup (r : Row) (fd : Nat) : Row :=
  if MAX_FILES ≤ fd then r
  else match r fd with
  | none => r
  | some x =>
    match r.free 0 with
    | none => r
    | some d => r.set d (some x)

def dup2 (r : Row) (old_fd new_fd : Nat) : Row :=
  if MAX_FILES ≤ old_fd ∨ MAX_FILES ≤ new_fd then r
  else if old_fd = new_fd then r
  else match r old_fd with
  | none => r
  | some x => r.set new_fd (some x)

/-- `pipe` が返す二つの記述子。 -/
def pipe_fds (r : Row) : Option (Nat × Nat) := (r.free 3).bind fun rfd => (r.free (rfd + 1)).map fun wfd => (rfd, wfd)

/-- 読みの端はノード `n`、書きの端は次のノードである。 -/
def pipe (r : Row) (n : Nat) : Row :=
  match r.pipe_fds with
  | none => r
  | some (rfd, wfd) => (r.set rfd (some (FILE_READ, n))).set wfd (some (FILE_WRITE, n + 1))

def fopen (r : Row) (flags n : Nat) : Row :=
  match r.free 3 with
  | none => r
  | some fd => r.set fd (some (flags, n))

def exec (r : Row) : Row := fun d => if d < 2 then r d else none

end Row

/-- 表を変える呼び出し。`start` は、作られたプロセスの初めの表である。 -/
inductive TableCall
  | start (stdin stdout : Nat)
  | fopen (flags n : Nat)
  | close (fd : Nat)
  | dup (fd : Nat)
  | dup2 (old_fd new_fd : Nat)
  | pipe (n : Nat)
  | exec
  deriving DecidableEq

def TableCall.run (r : Row) : TableCall → Row
  | .start stdin stdout => (Row.empty.set 0 (some (FILE_READ, stdin))).set 1 (some (FILE_WRITE, stdout))
  | .fopen flags n => r.fopen flags n
  | .close fd => r.close fd
  | .dup fd => r.dup fd
  | .dup2 old_fd new_fd => r.dup2 old_fd new_fd
  | .pipe n => r.pipe n
  | .exec => r.exec

/-- 呼び出しの列が作る表。 -/
def replay (calls : List TableCall) : Row := calls.foldl TableCall.run .empty

/-! ## 呼び出しの記録 -/

instance (K : Kernel) (j : Nat) : Decidable (Alive K j) := inferInstanceAs (Decidable (_ ∧ _))

/-- プロセスが自分の表を変える呼び出し。 -/
def table_call (K : Kernel) (env : Env) (r : Regs) : Option TableCall :=
  match r.eax with
  | 2 => (get_node K env.look).2.map fun n => .fopen env.modes n
  | 10 => if env.args then some .exec else none
  | 11 => some (.dup r.ebx)
  | 12 => if is_user_ptr r.ebx && env.copied then some (.pipe K.next_node) else none
  | 20 => some (.close r.ebx)
  | 27 => some (.dup2 r.ebx r.ecx)
  | _ => none

abbrev CallLog := Nat → List TableCall

def CallLog.set (log : CallLog) (i : Nat) (l : List TableCall) : CallLog := fun j => if j = i then l else log j

/-- 事象の後の記録。子は親の記録を受け継ぐ。 -/
def record (K : Kernel) (log : CallLog) : Event → CallLog
  | .boot _ => if MAX_PROCESSES ≤ K.num_processes then log else log.set K.num_processes [.start K.stdin_node K.stdout_node]
  | .syscall env r =>
    match K.current_process with
    | none => log
    | some i =>
      if r.eax = 24 then
        match fork_slot K with
        | none => log
        | some slot => log.set slot (log i)
      else if r.eax = 8 then
        if env.args = false ∨ MAX_PROCESSES ≤ K.num_processes then log
        else log.set K.num_processes [.start K.stdin_node K.stdout_node]
      else log.set i (log i ++ (table_call K env r).toList)
  | _ => log

/-- カーネルと、表の項目ごとの呼び出しの記録。 -/
structure Logged where
  kernel : Kernel
  log : CallLog

def Logged.step (S : Logged) (ev : Event) : Option Logged :=
  (Proc.step S.kernel ev).map fun K => ⟨K, record S.kernel S.log ev⟩

def Logged.boot (rc_in rc_out mounts : Nat) : Logged := ⟨Proc.boot rc_in rc_out mounts, fun _ => []⟩

/-! ## シェルの配管 -/

/-- `<` と `>` の `open` が開く許可とノード。内側の `none` は失敗である。 -/
structure Redirects where
  in_file : Option (Option (Nat × Nat)) := none
  out_file : Option (Option (Nat × Nat)) := none

/-- `run_stage` の子がパイプの端を 0 と 1 に移す呼び出し。 -/
def wire_calls (pipe_in pipe_out extra_fd : Option Nat) : List TableCall :=
  extra_fd.toList.map .close ++ pipe_in.toList.flatMap (fun d => [.dup2 d 0, .close d]) ++
    pipe_out.toList.flatMap fun d => [.dup2 d 1, .close d]

def run_calls (r : Row) (calls : List TableCall) : Row := calls.foldl TableCall.run r

/-- 開けなければ、子は `exit(1)` で終わる。 -/
def redirect_calls (r : Row) (fd : Nat) : Option (Option (Nat × Nat)) → Option (List TableCall)
  | none => some []
  | some none => none
  | some (some (flags, n)) => (r.free 3).map fun d => [.fopen flags n, .dup2 d fd, .close d]

/-- `run_stage` の子が、命令を始めるまでに行う呼び出し。 -/
def run_stage (r : Row) (st : Redirects) (pipe_in pipe_out extra_fd : Option Nat) : Option (List TableCall) :=
  let calls := wire_calls pipe_in pipe_out extra_fd
  (redirect_calls (run_calls r calls) 0 st.in_file).bind fun ins =>
    (redirect_calls (run_calls r (calls ++ ins)) 1 st.out_file).map fun outs => calls ++ ins ++ outs

/-- 段ごとの子。`forked` は `fork` までのシェルの呼び出し、`calls` は子の呼び出しである。 -/
structure Child where
  forked : List TableCall
  calls : Option (List TableCall)
  deriving DecidableEq

structure Pipeline where
  calls : List TableCall
  children : List Child

/-- `main` の段の繰り返し。`n` は段のパイプの読みの端のノードである。`pipe` が失敗すれば、そこで抜ける。 -/
def pipeline (r : Row) (prev_fd : Option Nat) : List (Redirects × Nat) → Pipeline
  | [] => ⟨[], []⟩
  | (st, n) :: rest =>
    if rest.isEmpty then ⟨prev_fd.toList.map .close, [⟨[], run_stage r st prev_fd none none⟩]⟩
    else match r.pipe_fds with
    | none => ⟨[.pipe n], []⟩
    | some (rfd, wfd) =>
      let closes := prev_fd.toList.map .close ++ [.close wfd]
      let p := pipeline (run_calls (r.pipe n) closes) (some rfd) rest
      ⟨.pipe n :: (closes ++ p.calls),
        ⟨[.pipe n], run_stage (r.pipe n) st prev_fd (some wfd) (some rfd)⟩ ::
          p.children.map fun c => { c with forked := .pipe n :: (closes ++ c.forked) }⟩

/-- 空いた 3 以上の記述子。 -/
def Row.spare (r : Row) : Finset Nat := (Finset.range MAX_FILES).filter fun d => 3 ≤ d ∧ r d = none

/-- 0 と 1 だけを、パイプの端 `input` と `output` に変えた表。 -/
def Row.wired (r : Row) (input output : Option Nat) : Row := fun d =>
  if d = 0 then input.elim (r 0) fun n => some (FILE_READ, n)
  else if d = 1 then output.elim (r 1) fun n => some (FILE_WRITE, n + 1)
  else r d

/-- リダイレクトは、パイプの端に優先する。 -/
def Redirects.row (st : Redirects) (r : Row) : Row := fun d =>
  if d = 0 then (st.in_file.bind id).elim (r 0) some else if d = 1 then (st.out_file.bind id).elim (r 1) some else r d

/-- 段 `k` の命令が受け継ぐ表。 -/
def stage_row (r : Row) (stages : List (Redirects × Nat)) (k : Nat) (st : Redirects) : Row :=
  st.row (r.wired (if k = 0 then none else stages[k - 1]?.map Prod.snd)
    (if k + 1 < stages.length then stages[k]?.map Prod.snd else none))

end MyOS.Proc
