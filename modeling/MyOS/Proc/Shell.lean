import MyOS.Proc.Acts
import MyOS.Proc.Tree

/-!
# シェルの前景の仕事

`shell.c` の `main` は、前景の命令を起こすと `wait` で待ち、`kill(pid, 0)` の答えから、その仕事が止まったか
終わったかを決める。シェルを呼び出しの間の位置で表し、カーネルと合わせて一つの機械にする。行の入力と解析は
入力とし、仕事の名前は略す。
-/

namespace MyOS.Proc
open MyOS.Lib

def MAX_JOBS : Nat := 16
def MAX_STAGES : Nat := 4
def WNOHANG : Nat := 1

/-- シェルの番号。`kmain` が最初に作る。 -/
def SHELL_PID : Nat := 1

inductive JobStatus
  | running
  | stopped
  | done
  deriving DecidableEq

structure Job where
  pid : Nat
  pgid : Nat
  status : JobStatus

def find_job_by_pid (jobs : List Job) (pid : Nat) : Option Nat := jobs.findIdx? fun j => j.pid == pid

def add_job (jobs : List Job) (pid pgid : Nat) : List Job :=
  if MAX_JOBS ≤ jobs.length then jobs else jobs ++ [⟨pid, pgid, .running⟩]

def compact_jobs (jobs : List Job) : List Job := jobs.filter fun j => j.status != .done

/-- `jobs[i].status = status`。 -/
def set_status (jobs : List Job) (i : Nat) (status : JobStatus) : List Job :=
  jobs.modify i fun j => { j with status := status }

/-- `find_job_by_pid` で見つけた仕事の `status` を書く。 -/
def mark_job (jobs : List Job) (pid : Nat) (status : JobStatus) : List Job :=
  match find_job_by_pid jobs pid with
  | none => jobs
  | some i => set_status jobs i status

/-- シェルが次の呼び出しをする前の位置。`pids` は `pipeline_pids`、`left` は残りの段の数で、`probe` の
    `target` は `fg` が選んだ仕事の添字である。 -/
inductive Point
  | prompt
  | spawning (background : Bool)
  | launched (pid : Nat) (background : Bool)
  | detached
  | piping (left : Nat) (pids : List Nat) (background : Bool)
  | forking (left : Nat) (pids : List Nat) (background : Bool)
  | grouping (left : Nat) (pids : List Nat) (background : Bool)
  | killing (rest pids : List Nat) (background : Bool)
  | draining (n : Nat) (pids : List Nat) (background : Bool)
  | waits (n pid : Nat)
  | raised (pid target : Nat) (stopped : Bool)
  | resumed (pid target : Nat)
  | awaiting (pid target : Nat)
  | lowered (pid : Nat)
  | probe (pid : Nat) (target : Option Nat)
  | marked (pid : Nat) (status : JobStatus)
  deriving DecidableEq

structure Shell where
  point : Point
  jobs : List Job

/-- 段をすべて起こした後。仕事の番号は最後の段のものである。 -/
def finish (jobs : List Job) (pids : List Nat) (background : Bool) : Shell :=
  match pids.getLast? with
  | none => ⟨.prompt, jobs⟩
  | some last_pid =>
    ⟨if background then .detached else .waits pids.length last_pid, add_job jobs last_pid (pids.headD 0)⟩

/-- 次の段へ進む。最後の段でなければ、先に `pipe` を呼ぶ。 -/
def next_stage (jobs : List Job) (left : Nat) (pids : List Nat) (background : Bool) : Shell :=
  if left = 0 then finish jobs pids background
  else if left = 1 then ⟨.forking left pids background, jobs⟩
  else ⟨.piping left pids background, jobs⟩

/-- `pipe` が失敗し、起こした段を順に終わらせる。 -/
def kill_stages (jobs : List Job) (rest pids : List Nat) (background : Bool) : Shell :=
  if pids = [] then finish jobs pids background
  else if rest = [] then ⟨.draining pids.length pids background, jobs⟩
  else ⟨.killing rest pids background, jobs⟩

/-- 解析した行。 -/
inductive Command
  | single (background : Bool)
  | pipeline (num_stages : Nat) (background : Bool)
  | jobs
  | fg (target : Nat)
  | bg (target : Nat)

/-- 読んだ行の命令を始める。 -/
def Shell.line (s : Shell) (cmd : Command) : Option Shell :=
  if s.point ≠ .prompt then none
  else match cmd with
  | .single background => some { s with point := .spawning background }
  | .pipeline n background => if 1 < n ∧ n ≤ MAX_STAGES then some (next_stage s.jobs n [] background) else none
  | .jobs => some { s with jobs := compact_jobs s.jobs }
  | .fg t =>
    let jobs := compact_jobs s.jobs
    match jobs[t]? with
    | none => some ⟨.prompt, jobs⟩
    | some j => some ⟨.raised j.pid t (j.status == .stopped), jobs⟩
  | .bg t =>
    let jobs := compact_jobs s.jobs
    match jobs[t]? with
    | none => some ⟨.prompt, jobs⟩
    | some j => some ⟨.lowered j.pid, set_status jobs t .running⟩

/-- 位置を変えない呼び出し。読み書き、`close`、`chdir`、`sbrk` などである。 -/
def quiet (n : Nat) : Bool := !([5, 6, 8, 9, 10, 12, 13, 24, 28, 30, 31, 36].contains n)

/-- `int` として正である。 -/
def positive (v : Nat) : Bool := decide (v ≠ 0 ∧ v < 2 ^ 31)

/-- 呼び出し `n(a, b)` である。 -/
def calls (r : Regs) (n a b : Nat) : Bool := r.eax == n && r.ebx == a && r.ecx == b

/-- 呼び出し `r` が `v` を返した後のシェル。`wait` と `fg` の `waitpid` が返す値は使わない。 -/
def Shell.next (s : Shell) (r : Regs) (v : Nat) : Option Shell :=
  let goto := fun (b : Bool) (p : Point) => if b then some { s with point := p } else none
  if quiet r.eax then some s
  else match s.point with
  | .prompt =>
    -- `reap_background_jobs` の一周
    if calls r SYS_WAITPID 0 WNOHANG then
      some (if positive v then { s with jobs := mark_job s.jobs v .done } else s)
    else none
  | .spawning background =>
    if r.eax = 24 then
      some (if positive v then ⟨.launched v background, add_job s.jobs v v⟩ else { s with point := .prompt })
    else none
  | .launched pid background =>
    goto (calls r 30 pid pid) (if background then .detached else .waits 1 pid)
  | .detached => goto (calls r 30 0 0) .prompt
  | .piping left pids background =>
    if r.eax = 12 then
      some (if v = 0 then { s with point := .forking left pids background }
        else kill_stages s.jobs pids pids background)
    else none
  | .forking left pids background =>
    if r.eax = 24 then
      some (if positive v then { s with point := .grouping (left - 1) (pids ++ [v]) background }
        else next_stage s.jobs (left - 1) pids background)
    else none
  | .grouping left pids background =>
    if calls r 30 (pids.getLastD 0) (pids.headD 0) then some (next_stage s.jobs left pids background) else none
  | .killing rest pids background =>
    if calls r 13 (rest.headD 0) SIGKILL then some (kill_stages s.jobs rest.tail pids background) else none
  | .draining n pids background =>
    if r.eax = SYS_WAIT then
      some (if n ≤ 1 then finish s.jobs pids background else { s with point := .draining (n - 1) pids background })
    else none
  | .waits n pid =>
    goto (r.eax == SYS_WAIT) (if n ≤ 1 then .probe pid none else .waits (n - 1) pid)
  | .raised pid target stopped =>
    goto (calls r 30 pid pid) (if stopped then .resumed pid target else .awaiting pid target)
  | .resumed pid target => goto (calls r 13 pid SIGCONT) (.awaiting pid target)
  | .awaiting pid target => goto (calls r SYS_WAITPID pid 0) (.probe pid (some target))
  | .lowered pid => goto (calls r 13 pid SIGCONT) .prompt
  | .probe pid target =>
    if calls r 13 pid 0 then
      some (if v = 0 then
          ⟨.marked pid .stopped, match target with
            | none => mark_job s.jobs pid .stopped
            | some t => set_status s.jobs t .stopped⟩
        else
          ⟨.marked pid .done, match target with
            | none => mark_job s.jobs pid .done
            | some t => s.jobs.eraseIdx t⟩)
    else none
  | .marked _ _ => goto (calls r 30 0 0) .prompt

/-- シェルとカーネルを合わせた状態。 -/
structure Desk where
  kernel : Kernel
  shell : Shell

/-- `line` は、シェルが一行を読み終えたことである。 -/
inductive DeskEvent
  | line (cmd : Command)
  | kernel (ev : Event)

/-- 事象がシェルの呼び出しなら、その枠。 -/
def shell_call (K : Kernel) : Event → Option Regs
  | .syscall _ r => K.current_process.bind fun i => if (K.table i).pid = SHELL_PID then some r else none
  | _ => none

/-- シェルは位置に従って呼び出す。ほかのプロセスは何を呼んでもよい。 -/
def Desk.step (D : Desk) : DeskEvent → Option Desk
  | .line cmd => (D.shell.line cmd).map fun s => ⟨D.kernel, s⟩
  | .kernel ev => (Proc.step D.kernel ev).bind fun K =>
      match shell_call D.kernel ev with
      | none => some ⟨K, D.shell⟩
      | some r => (D.shell.next r K.ctx.eax).map fun s => ⟨K, s⟩

/-- シェルを作った後。 -/
def Desk.start (K : Kernel) : Desk := ⟨K, .prompt, []⟩

/-! 前景の仕事の番号は `f` である。 -/

/-- シェルは例外を起こさない。 -/
def ShellStays (K : Kernel) (ev : Event) : Prop := ∀ i r, Faults K ev i r → (K.table i).pid ≠ SHELL_PID

/-- 事象 `ev` の前に、シェルが最後の `wait` を呼ぶとき、先に終わっている子は `f` だけである。待っている間は、
    シェルのほかの子が終わらず、止まらない。番号は一巡せず、入力を待つまで `f` は `SIGCONT` を受けず、印を付けた
    シェルは例外を起こさない。 -/
structure ForegroundOk (D : Desk) (ev : Event) : Prop where
  wrap : NoWrap D.kernel ev
  reap : ∀ n f r, D.shell.point = .waits n f → n ≤ 1 → shell_call D.kernel ev = some r → r.eax = SYS_WAIT →
    find_terminated_child D.kernel SHELL_PID = 0 ∨ find_terminated_child D.kernel SHELL_PID = f
  alone : ∀ f, D.shell.point = .probe f none → ∀ i b L, Ends D.kernel ev i b L →
    (D.kernel.table i).parent_id = SHELL_PID → (D.kernel.table i).pid = f
  cont : ∀ f, (∃ t, D.shell.point = .probe f t) ∨ (∃ s, D.shell.point = .marked f s) →
    ∀ i env r, Calls D.kernel ev i env r → r.eax = 13 → r.ebx = f → r.ecx ≠ SIGCONT
  fault : ∀ f s, D.shell.point = .marked f s → ShellStays D.kernel ev

def DeskOk (D : Desk) : DeskEvent → Prop
  | .line _ => True
  | .kernel ev => ForegroundOk D ev

/-- 仕事 `f` を `status` とした通りの状態に、カーネルのプロセスがある。行方は止まったか終わったかである。 -/
def Agrees (K : Kernel) (f : Nat) : JobStatus → Prop
  | .running => False
  | .stopped => ∃ j, j < K.num_processes ∧ (K.table j).pid = f ∧ (K.table j).state = .stopped
  | .done => ∀ j, j < K.num_processes → (K.table j).pid = f → (K.table j).state = .terminated

/-- シェルの生きている子は列にあり、シェルは眠りの列にいない。 -/
structure ShellInv (K : Kernel) : Prop where
  known : SHELL_PID < K.next_pid
  listed : ∀ j k, j < K.num_processes → k < K.num_processes → (K.table j).pid = SHELL_PID →
    (K.table k).parent_id = SHELL_PID → (K.table k).state ≠ .terminated → (K.table k).pid ∈ (K.table j).children
  unqueued : ∀ j, j < K.num_processes → (K.table j).pid = SHELL_PID →
    K.sleep_queue ≠ some j ∧ ∀ k, (K.table k).sleep_next ≠ some j

/-- 番号 `f` はシェルの子に付いた。 -/
structure Kid (K : Kernel) (f : Nat) : Prop where
  pos : f ≠ 0
  known : f < K.next_pid
  parent : ∀ k, k < K.num_processes → (K.table k).pid = f → (K.table k).parent_id = SHELL_PID

/-- プロセス `f` は走らない。 -/
def Halted (K : Kernel) (f : Nat) : Prop :=
  ∀ k, k < K.num_processes → (K.table k).pid = f → (K.table k).state = .stopped ∨ (K.table k).state = .terminated

/-- シェルは `w` を待っている。0 はどの子でもよい。 -/
def Awaits (K : Kernel) (w : Nat) : Prop :=
  ∀ j, j < K.num_processes → (K.table j).pid = SHELL_PID → (K.table j).state = .terminated ∨
    (K.table j).state = .blocked ∧ (K.table j).waiting_on_pid = w

/-- 位置に現れる子の番号。 -/
def Point.pids : Point → List Nat
  | .prompt | .spawning _ | .detached => []
  | .launched pid _ | .waits _ pid | .raised pid _ _ | .resumed pid _ | .awaiting pid _ | .lowered pid
  | .probe pid _ | .marked pid _ => [pid]
  | .piping _ pids _ | .forking _ pids _ | .grouping _ pids _ | .killing _ pids _ | .draining _ pids _ => pids

/-- 答えを待つ間、前景の仕事は走らないか、シェルがそれを待っている。 -/
def PointInv (K : Kernel) : Point → Prop
  | .probe f target => Halted K f ∨ Awaits K (if target.isSome then f else 0)
  | .marked f status => Agrees K f status
  | _ => True

/-- シェルが覚えている番号。 -/
def Shell.known (s : Shell) : List Nat := s.jobs.map Job.pid ++ s.point.pids

structure DeskInv (D : Desk) : Prop where
  sched : SchedInv D.kernel
  pids : PidInv D.kernel
  shell : ShellInv D.kernel
  kids : ∀ f ∈ D.shell.known, Kid D.kernel f
  point : PointInv D.kernel D.shell.point

/-!
## 仕事の表

シェルの `jobs` は 16 個までの項目を持ち、終わった項目は `jobs`、`fg`、`bg` の命令が詰めるまで残る。
始めた仕事を記録し、走る仕事が表にあることを述べる。仕事は、表に書いたプロセスの番号で表す。
-/

def job_id_of (jobs : List Job) (index : Nat) : Nat := 1 + (jobs.take index).countP fun j => j.status != .done

/-- 呼び出し `r` が `v` を返したとき、`add_job` に渡す番号。 -/
def Shell.starts (s : Shell) (r : Regs) (v : Nat) : Option Nat :=
  if quiet r.eax then none
  else match s.point with
  | .spawning _ => if positive v then some v else none
  | .forking left pids _ => if positive v then none else if left - 1 = 0 then pids.getLast? else none
  | .grouping left pids _ => if left = 0 then pids.getLast? else none
  | .draining n pids _ => if n ≤ 1 then pids.getLast? else none
  | _ => none

/-- 歩が始める仕事。 -/
def Desk.starts (D : Desk) (e : DeskEvent) (D' : Desk) : Option Nat :=
  match e with
  | .line _ => none
  | .kernel ev => (shell_call D.kernel ev).bind fun r => D.shell.starts r D'.kernel.ctx.eax

/-- `started` は始めた仕事の記録である。 -/
structure JobRun where
  desk : Desk
  started : List Nat

def JobRun.step (R : JobRun) (e : DeskEvent) : Option JobRun :=
  (R.desk.step e).map fun D => ⟨D, (R.desk.starts e D).toList ++ R.started⟩

def JobRun.start (K : Kernel) : JobRun := ⟨.start K, []⟩

/-- 番号 `pid` のプロセスは終わっていない。 -/
def live (K : Kernel) (pid : Nat) : Bool :=
  (List.range K.num_processes).any fun k => (K.table k).pid == pid && (K.table k).state != .terminated

/-- 終わっていない仕事。 -/
def JobRun.unfinished (R : JobRun) : List Nat := R.started.filter (live R.desk.kernel)

/-- 終わった印のない項目がある。 -/
def Listed (jobs : List Job) (pid : Nat) : Prop := ∃ j ∈ jobs, j.pid = pid ∧ j.status ≠ .done

/-- 終わっていない仕事は、終わった印のない項目として表にあり、その `job_id_of` はほかの項目のものではない。 -/
def JobsListed (R : JobRun) : Prop :=
  ∀ pid ∈ R.unfinished, ∃ (n : Nat) (j : Job), R.desk.shell.jobs[n]? = some j ∧ j.pid = pid ∧ j.status ≠ .done ∧
    ∀ (m : Nat) (j' : Job), R.desk.shell.jobs[m]? = some j' → j'.status ≠ .done →
      job_id_of R.desk.shell.jobs m = job_id_of R.desk.shell.jobs n → m = n

/-- 終わっていない仕事は `MAX_JOBS` 個を越えない。 -/
def FewJobs (R : JobRun) : Prop := R.unfinished.length ≤ MAX_JOBS

/-- 仕事を始めるとき、終わったものも含めて、表に空きがある。番号は `int` として正である。 -/
structure RoomForJob (R : JobRun) (e : DeskEvent) : Prop where
  pids : R.desk.kernel.next_pid < 2 ^ 31
  room : ∀ D', R.desk.step e = some D' → (R.desk.starts e D').isSome → R.desk.shell.jobs.length < MAX_JOBS

/-- `fg` が選んだ項目は、その番号の仕事である。 -/
def PointFits (jobs : List Job) : Point → Prop
  | .raised pid t _ | .resumed pid t | .awaiting pid t | .probe pid (some t) => ∃ j, jobs[t]? = some j ∧ j.pid = pid
  | _ => True

structure JobsInv (R : JobRun) : Prop where
  mid : SchedInv R.desk.kernel ∧ PidInv R.desk.kernel ∧ ShellInv R.desk.kernel
  kids : ∀ f, f ∈ R.desk.shell.known ∨ f ∈ R.started → Kid R.desk.kernel f
  fits : PointFits R.desk.shell.jobs R.desk.shell.point
  listed : ∀ pid ∈ R.started, Listed R.desk.shell.jobs pid ∨ Agrees R.desk.kernel pid .done

end MyOS.Proc
