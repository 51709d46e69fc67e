import MyOS.Proc.Files

/-!
# プロセスの生成と後始末

`process.c` のうち、表の検索、子の登録と削除、`fork_process`、`create_process`、
`process_cleanup_child`、`unblock_parent`、眠りの列。アドレス空間は別に扱い、`load_program` の成否は
入力とする。
-/

namespace MyOS.Proc
open MyOS.Lib

/-- 表の先頭から `pid` を探す。 -/
def get_process_by_pid (K : Kernel) (pid : Nat) : Option Nat :=
  (List.range K.num_processes).find? fun i => (K.table i).pid == pid

/-- 見つけた項目を最後の項目で埋め、一つ縮める。 -/
def remove_id (id : Nat) : List Nat → List Nat
  | [] => []
  | x :: xs => if x = id then (match xs.getLast? with | none => [] | some l => l :: xs.dropLast)
    else x :: remove_id id xs

def remove_child_from_parent (K : Kernel) (i child_pid : Nat) : Kernel :=
  K.modify i fun p => { p with children := remove_id child_pid p.children }

def kill_children_of (K : Kernel) (parent_pid : Nat) : Kernel :=
  { K with
    table := fun i =>
      if i < MAX_PROCESSES ∧ (K.table i).parent_id = parent_pid ∧ (K.table i).state ≠ .terminated then
        { K.table i with state := .terminated }
      else K.table i }

/-- 親の子のうち、状態が `q` を満たす最初のもの。 -/
def find_child (K : Kernel) (parent_pid : Nat) (q : ProcState → Bool) : Option Nat :=
  match get_process_by_pid K parent_pid with
  | none => none
  | some i => (K.table i).children.find? fun c =>
      (get_process_by_pid K c).any fun j => q (K.table j).state

def find_terminated_child (K : Kernel) (parent_pid : Nat) : Nat :=
  (find_child K parent_pid (· == .terminated)).getD 0

def find_stopped_child (K : Kernel) (parent_pid : Nat) : Nat :=
  (find_child K parent_pid (· == .stopped)).getD 0

def has_live_children (K : Kernel) (parent_pid : Nat) : Bool :=
  (find_child K parent_pid fun s => s != .terminated && s != .stopped).isSome

/-- スタック、ディレクトリ、`FILE`、VMA の順に解放する。 -/
def process_cleanup_child (K : Kernel) (i : Nat) : Kernel :=
  let p := K.table i
  let K := (K.modify i fun p =>
    { p with
      sig := { p.sig with pending := 0#32, stopped_by := 0 }
      kernel_stack_alloc := none
      cr3 := none
      memory_regions := [] }).release
    (p.kernel_stack_alloc.toList ++ p.cr3.toList ++ p.memory_regions)
  { drop_files K i (List.range MAX_FILES) with cleaned := p.pid :: K.cleaned }

/-- `children_id` の末尾に加える。十個を越える書き込みは `none` である。 -/
def add_child (K : Kernel) (i pid : Nat) : Option Kernel :=
  if (K.table i).children.length < MAX_PROCESSES then
    some (K.modify i fun p => { p with children := p.children ++ [pid] })
  else none

/-- `parent` のない `init_process_signals`。 -/
def init_signals_default (p : Pcb) : Pcb :=
  { p with
    sig := { p.sig with
      pending := 0#32
      stopped_by := 0
      saved_mask := 0#32
      in_handler := false
      mask := 0#32
      disposition := fun s => if s = SIGCHLD then SIG_IGN else SIG_DFL }
    waiting_on_pid := 0
    pgid := p.pid }

/-- `parent` のある `init_process_signals`。 -/
def init_signals_from (parent p : Pcb) : Pcb :=
  { p with
    sig := { p.sig with
      pending := 0#32
      stopped_by := 0
      saved_mask := 0#32
      in_handler := false
      mask := parent.sig.mask
      disposition := parent.sig.disposition }
    waiting_on_pid := 0
    pgid := parent.pgid }

/-- `load_elf` が `kernel_stack_top` に置く枠。 -/
def user_frame (eip esp : Nat) : Regs :=
  { eip := eip, cs := USER_CS, eflags := 0x202, useresp := esp, ss := 0x23 }

/-- `load_program` の成功。入口、最初のスタックの番地、`load_elf` が作る VMA の数。 -/
structure Image where
  eip : Nat
  esp : Nat
  vmas : Nat

/-- `create_process` が表の末尾の項目に書く値。領域 `b` から二つの `FILE`、スタック、ディレクトリを使う。 -/
def new_pcb (K : Kernel) (parent_pid : Nat) (p : Pcb) : Pcb :=
  let b := K.next_block
  init_signals_default { p with
    pid := K.next_pid
    state := .blocked
    parent_id := parent_pid
    children := []
    pipe_call := none
    files_open := fun fd =>
      if fd = 0 then some ⟨b, FILE_READ, K.stdin_node⟩
      else if fd = 1 then some ⟨b + 1, FILE_WRITE, K.stdout_node⟩
      else p.files_open fd
    kernel_stack_alloc := some (b + 2)
    cr3 := some (b + 3) }

/-- 表の末尾の項目を用意する。 -/
def reserve (K : Kernel) (parent_pid : Nat) : Kernel :=
  { (K.alloc K.next_pid 4).modify K.num_processes (new_pcb K parent_pid) with
    next_pid := add32 K.next_pid 1 }

/-- 読み込みに失敗した。確保した領域を解放し、項目は表の外に残る。 -/
def unload (K : Kernel) (b : Nat) : Kernel := K.release [b, b + 1, b + 2, b + 3]

/-- 読み込んだプロセスを表に加える。 -/
def install (K : Kernel) (img : Image) : Kernel :=
  { (K.alloc (K.table K.num_processes).pid img.vmas).modify K.num_processes (fun p =>
      { p with
        state := .new
        iret := user_frame img.eip img.esp
        memory_regions := List.range' K.next_block img.vmas }) with
    num_processes := K.num_processes + 1 }

def create_process (K : Kernel) (parent_pid : Nat) (load : Option Image) : Option Kernel :=
  if MAX_PROCESSES ≤ K.num_processes then some K
  else
    let pid := K.next_pid
    let b := K.next_block
    let K := reserve K parent_pid
    match if parent_pid ≠ 0 then get_process_by_pid K parent_pid else none with
    | none => some (match load with | none => unload K b | some img => install K img)
    | some j =>
      (add_child K j pid).map fun K' =>
        -- 失敗すれば、登録した子を取り消す
        match load with
        | none => unload K b
        | some img => install K' img

/-- `fork_process` が使う項目。終了した項目を先に使う。 -/
def fork_slot (K : Kernel) : Option Nat :=
  match (List.range K.num_processes).find? fun i =>
      (K.table i).state == .terminated && (K.table i).pid != 0 with
  | some i => some i
  | none => if MAX_PROCESSES ≤ K.num_processes then none else some K.num_processes

/-- 開いたファイルを子と分け合う。 -/
def share_files (K : Kernel) (parent child : Nat) : List Nat → Kernel
  | [] => K
  | fd :: fds =>
    match (K.table parent).files_open fd with
    | some fp => share_files (share_file K child fd fp.flags fp.file) parent child fds
    | none => share_files (setFile K child fd none) parent child fds

/-- 子の項目の初めの値。`eax` のほかは親の枠と同じで、新しいカーネルスタックに置く。VMA は親の数だけ
    写す。 -/
def fork_pcb (K : Kernel) (parent : Pcb) (regs : Regs) (p : Pcb) : Pcb :=
  let b := K.next_block
  init_signals_from parent { p with
    pid := K.next_pid
    state := .blocked
    parent_id := parent.pid
    children := []
    tf := { regs with eax := 0 }
    pipe_call := none
    kernel_stack_alloc := some b
    cr3 := some (b + 1)
    memory_regions := List.range' (b + 2) parent.memory_regions.length }

/-- 項目 `slot` を子にする。 -/
def fork_into (K : Kernel) (i slot : Nat) (regs : Regs) : Option Kernel :=
  let K₁ := { (K.alloc K.next_pid (2 + (K.table i).memory_regions.length)).modify slot
      (fork_pcb K (K.table i) regs) with next_pid := add32 K.next_pid 1 }
  (add_child K₁ i K.next_pid).map fun K₂ =>
    let K₃ := share_files K₂ i slot (List.range MAX_FILES)
    { K₃.modify slot (fun p => { p with state := .ready }) with
      num_processes := if slot = K.num_processes then K.num_processes + 1 else K.num_processes }

/-- 成功すれば子の項目を返す。 -/
def fork_process (K : Kernel) (i : Nat) (regs : Regs) : Option (Kernel × Option Nat) :=
  match fork_slot K with
  | none => some (K, none)
  | some slot => (fork_into K i slot regs).map fun K => (K, some slot)

/-- `wait` と `waitpid` の番号。枠の `eax` に残る。 -/
def SYS_WAIT : Nat := 9
def SYS_WAITPID : Nat := 31
def SYS_SLEEP : Nat := 36

/-- 待っている親 `j` の枠の `eax` に子の番号を書き、`READY` にする。終了した子は列から除く。 -/
def wake_parent (K : Kernel) (j child_pid : Nat) (cleanup : Bool) : Kernel :=
  { K.modify j (fun p =>
      { p with
        children := if cleanup then remove_id child_pid p.children else p.children
        tf := { p.tf with eax := child_pid }
        state := .ready }) with
    reports :=
      if cleanup ∧ ((K.table j).tf.eax = SYS_WAIT ∨ (K.table j).tf.eax = SYS_WAITPID) then
        ((K.table j).pid, child_pid) :: K.reports
      else K.reports }

/-- `cleanup` は、子が止まったのではなく終了したことを表す。 -/
def unblock_parent (K : Kernel) (child_pid : Nat) (cleanup : Bool) : Kernel :=
  match get_process_by_pid K child_pid with
  | none => K
  | some c =>
    match get_process_by_pid K (K.table c).parent_id with
    | none => K
    | some j =>
      if (K.table j).state = .blocked ∧
          ((K.table j).waiting_on_pid = 0 ∨ (K.table j).waiting_on_pid = child_pid) then
        if cleanup ∧ K.current_process ≠ some c then
          process_cleanup_child (wake_parent K j child_pid cleanup) c
        else wake_parent K j child_pid cleanup
      else K

/-- 列をたどり、`wake_tick` 以前の最後の項目を探す。輪があれば終わらない。 -/
def sleep_seek (K : Kernel) (wake_tick : Nat) : Nat → Nat → Option Nat
  | 0, _ => none
  | n + 1, cur =>
    match (K.table cur).sleep_next with
    | none => some cur
    | some next =>
      if (K.table next).wake_tick ≤ wake_tick then sleep_seek K wake_tick n next else some cur

/-- 挿入する場所を、列を `n` 回までたどって探す。長さを限らない列にも使う。 -/
def sleep_enqueue_within (n : Nat) (K : Kernel) (i wake_tick : Nat) : Option Kernel :=
  let K := K.modify i fun p => { p with wake_tick := wake_tick, sleep_next := none }
  match K.sleep_queue with
  | none => some { K with sleep_queue := some i }
  | some h =>
    if wake_tick < (K.table h).wake_tick then
      some { K.modify i (fun p => { p with sleep_next := some h }) with sleep_queue := some i }
    else
      (sleep_seek K wake_tick n h).map fun cur =>
        let next := (K.table cur).sleep_next
        (K.modify i fun p => { p with sleep_next := next }).modify cur fun p =>
          { p with sleep_next := some i }

def sleep_enqueue (K : Kernel) (i wake_tick : Nat) : Option Kernel := sleep_enqueue_within (MAX_PROCESSES + 1) K i wake_tick

/-- 一度外した項目は `sleep_next` が空になるので、`MAX_PROCESSES` 回と一回で終わる。 -/
def sleep_check_loop (K : Kernel) (current_ticks : Nat) : Nat → Option Kernel
  | 0 => none
  | n + 1 =>
    match K.sleep_queue with
    | none => some K
    | some h =>
      if (K.table h).wake_tick ≤ current_ticks then
        let next := (K.table h).sleep_next
        let K := { K.modify h (fun p =>
            { p with
              sleep_next := none
              state := if p.state = .blocked then .ready else p.state }) with
          sleep_queue := next }
        sleep_check_loop K current_ticks n
      else some K

def sleep_check_wakeup (K : Kernel) (current_ticks : Nat) : Option Kernel :=
  sleep_check_loop K current_ticks (MAX_PROCESSES + 2)

end MyOS.Proc
