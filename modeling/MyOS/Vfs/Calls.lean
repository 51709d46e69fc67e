import MyOS.Lib.Run
import MyOS.Mem.UserCopy
import MyOS.Proc.Files
import MyOS.Vfs.Stdio
import MyOS.Vfs.Vnodes

/-!
# パスを取るシステムコール（arch/syscalls.c、fs/vfs.c、stdio/fopen.c）

パスを読めないとき、`resolve_path` は `buf` を空にするだけである。どの呼び出しも、空のパスをそのまま `get_node` に渡す。
-/

namespace MyOS.Vfs
open MyOS.Lib

/-! ## 利用者のメモリとの写し（mem/virt_mem.c） -/

/-- 今のプロセスから見えるメモリ。`pages` は、そのページについての `is_page_mapped`、`present` は、カーネルが読み書きできることである。 -/
structure User where
  pages : Nat → Bool
  present : Nat → Bool
  bytes : ByteMem
  /-- 利用者のページは、カーネルも読み書きできる。 -/
  seen : ∀ page, pages page = true → present page = true

namespace User

def is_page_mapped (u : User) (virt_addr : Nat) : Bool := u.pages (virt_addr / 4096)

/-- `copy_to_user` と `copy_from_user` が、写す前にする検査。ページは 2^20 個なので、これで終わらなければ終わらない。 -/
def check_range (u : User) (start size : Nat) : Option Bool := Mem.check_user u.is_page_mapped start size (2 ^ 20 + 2)

/-- 写すバイトのページが、すべてある。 -/
def accessible (u : User) (start size : Nat) : Bool := (List.range size).all fun i => u.present (add32 start i / 4096)

/-- 検査の後の写し。検査が終わらないか、カーネルの中のページフォルトで止まるときは `none` で、内側の `none` は −1 を返すことを表す。 -/
def copied {α : Type} (u : User) (start size : Nat) (x : α) : Option (Option α) :=
  (u.check_range start size).bind fun ok =>
    if ok then (if u.accessible start size then some (some x) else none) else some none

def copy_from_user (u : User) (src size : Nat) : Option (Option (List UInt8)) :=
  u.copied src size ((List.range size).map fun i => u.bytes (add32 src i))

def copy_to_user (u : User) (dst : Nat) (src : List UInt8) : Option (Option User) :=
  u.copied dst src.length { u with bytes := fun a => src.getD (sub32 a dst) (u.bytes a) }

/-- `resolve_path` の `while (len < 255)` のループ。1 バイトずつ写す。 -/
def copy_path (u : User) : Nat → Nat → Option (Option (List UInt8))
  | 0, _ => some (some [])
  | n + 1, user_path => (u.copy_from_user user_path 1).bind fun
      | none => some none
      | some bytes =>
          let c := bytes.headD 0
          if c = 0 then some (some []) else (copy_path u n (add32 user_path 1)).map (Option.map (c :: ·))

/-- `copy_from_user` で 1 バイトずつ読むメモリ。 -/
def memory (u : User) : UserMem := fun a => (u.copy_from_user a 1).join.bind List.head?

/-- 利用者に見えるページだけを読むメモリ。 -/
def readable (u : User) : UserMem := fun a => if u.is_page_mapped a then some (u.bytes a) else none

end User

/-! ## ノードの全体 -/

variable {σ ν : Type}

/-- `init_initrd` の作る根。initrd のディレクトリは、作る関数も消す関数も持たない。 -/
structure InitrdRoot (n : FsNode σ ν) : Prop where
  flags : n.flags = FS_DIRECTORY
  ptr : n.ptr = none
  readdir : ∃ l, n.readdir = some (some l)
  create : n.create = none
  mkdir : n.mkdir = none
  unlink : n.unlink = none

/-- 起動した後のノード。どのディレクトリの項目の名前も、カーネルの 1 GB に収まる。 -/
structure KernelNodes (σ ν : Type) extends Vnodes σ ν where
  listed : ∀ s n l, readdir_fs (node s n) = some l → l.length < 2 ^ 24
  root : ∀ s, InitrdRoot (node s root_dir)

/-! ## プロセス -/

/-- プロセスのうち、これらのシステムコールが使う欄。`made` は、`cwd` を定めたときのファイルの状態である。 -/
structure Process (σ ν : Type) where
  cwd : List UInt8
  files_open : Nat → Option (ν × Nat)
  user : User
  made : σ

/-- `table` の項目のうち `used` のものに、プロセスが入ったことがある。`heap` は、`malloc` した領域に残るバイトである。 -/
structure World (σ ν : Type) where
  fs : σ
  refcount : ν → Nat
  table : Nat → Process σ ν
  used : Nat → Bool
  current_process : Nat
  heap : ByteMem

namespace World

def current (w : World σ ν) : Process σ ν := w.table w.current_process

def set_current (w : World σ ν) (p : Process σ ν) : World σ ν :=
  { w with table := fun i => if i = w.current_process then p else w.table i }

/-- 空いた記述子のうち、3 以上で最小のもの。 -/
def free_id (w : World σ ν) : Option Nat :=
  (List.range MAX_FILES).find? fun i => decide (3 ≤ i) && (w.current.files_open i).isNone

/-- `buf` の大きさは 256 である。`none` は、パスの読み出しから戻らないことを表す。 -/
def resolve (w : World σ ν) (user_path : Nat) : Option (List UInt8) :=
  if user_path = 0 ∨ (w.current.user.copy_path 255 user_path).isSome = true then
    some ((resolve_path w.current.cwd w.current.user.memory user_path 256).getD [])
  else none

end World

variable [DecidableEq ν]

def KernelNodes.fopen (V : KernelNodes σ ν) (w : World σ ν) (path modes : List UInt8) : Option (World σ ν × Int) :=
  let modes_mask := get_mode modes
  (V.get_node w.fs path).bind fun node =>
    let found := match node with
      | some node => some (w.fs, some node)
      | none => if modes_mask &&& (FILE_WRITE ||| FILE_APPEND) ≠ 0 then V.create_node w.fs path else some (w.fs, none)
    found.map fun
      | (fs, none) => ({ w with fs := fs }, -1)
      | (fs, some node) => match w.free_id with
          | none => ({ w with fs := fs }, -1)
          | some id =>
              let p := { w.current with
                files_open := fun k => if k = id then some (node, modes_mask) else w.current.files_open k }
              ({ w with fs := fs, refcount := fun n => if n = node then add32 (w.refcount n) 1 else w.refcount n }.set_current p,
                id)

/-- `char mode[8]` に写せなければ `"r"` とする。`none` は、写しから戻らないことを表す。 -/
def read_mode (u : User) (ecx : Nat) : Option (List UInt8) :=
  (u.copy_from_user ecx 8).map fun
    | some mode => (mode.take 7).takeWhile (· ≠ 0)
    | none => [0x72]

def syscall_open (V : KernelNodes σ ν) (w : World σ ν) (ebx ecx : Nat) : Option (World σ ν × Int) :=
  (w.resolve ebx).bind fun path => (read_mode w.current.user ecx).bind (V.fopen w path)

/-- 写せたときは `ret` を返す。 -/
def reply (w : World σ ν) (dst : Nat) (src : List UInt8) (ret : Int) : Option (World σ ν × Int) :=
  (w.current.user.copy_to_user dst src).map fun
    | some user => (w.set_current { w.current with user := user }, ret)
    | none => (w, -1)

def bytes32 (x : Nat) : List UInt8 :=
  [UInt8.ofNat x, UInt8.ofNat (x / 256), UInt8.ofNat (x / 65536), UInt8.ofNat (x / 16777216)]

def syscall_stat (V : KernelNodes σ ν) (w : World σ ν) (ebx ecx : Nat) : Option (World σ ν × Int) :=
  if !Proc.is_user_ptr ebx || !Proc.is_user_ptr ecx then some (w, -1)
  else (w.resolve ebx).bind fun path =>
    (V.get_node w.fs path).bind fun
      | none => some (w, -1)
      | some n =>
          let node := V.node w.fs n
          reply w ecx (bytes32 node.size ++ bytes32 (if node.flags &&& FS_DIRECTORY ≠ 0 then 1 else 0)) 0

/-- `kbuf` の `i` 番目の 256 バイト。名前の後は書かない。 -/
def dirent_slot (heap : ByteMem) (i : Nat) (name : List UInt8) : List UInt8 :=
  (List.range 256).map fun j => ((name ++ [0]).take 255).getD j (heap (i * 256 + j))

/-- 写すバイトの列。項目は 2^24 個より少ないので、`count * 256` は折り返さない。 -/
def dirent_bytes (heap : ByteMem) (files : List (List UInt8)) (count : Nat) : List UInt8 :=
  (files.take count).zipIdx.flatMap fun (name, i) => dirent_slot heap i name

def syscall_readdir (V : KernelNodes σ ν) (w : World σ ν) (ebx ecx max_entries : Nat) : Option (World σ ν × Int) :=
  if !Proc.is_user_ptr ebx || !Proc.is_user_ptr ecx || max_entries = 0 then some (w, -1)
  else (w.resolve ebx).bind fun path =>
    (V.get_node w.fs path).bind fun
      | none => some (w, -1)
      | some n => match readdir_fs (V.node w.fs n) with
          | none => some (w, -1)
          | some files =>
              let count := if files.length > max_entries then max_entries else files.length
              reply w ecx (dirent_bytes w.heap files count) count

def syscall_chdir (V : KernelNodes σ ν) (w : World σ ν) (ebx : Nat) : Option (World σ ν × Int) :=
  if !Proc.is_user_ptr ebx then some (w, -1)
  else (w.resolve ebx).bind fun path =>
    (V.get_node w.fs path).map fun
      | none => (w, -1)
      | some n =>
          if (V.node w.fs n).flags &&& FS_DIRECTORY = 0 then (w, -1)
          else (w.set_current { w.current with cwd := path.take 254, made := w.fs }, 0)

/-- 親を探し、その関数 `op` を最後の名前で呼ぶ。 -/
def at_parent (V : KernelNodes σ ν) (w : World σ ν) (path : List UInt8)
    (op : FsNode σ ν → Option (List UInt8 → σ × Int)) : Option (World σ ν × Int) :=
  (V.get_node w.fs (parent_path path)).bind fun
    | none => some (w, -1)
    | some parent => (V.cross w.fs parent).map fun parent =>
        match op (V.node w.fs parent) with
        | some op => ({ w with fs := (op (file_name path)).1 }, (op (file_name path)).2)
        | none => (w, -1)

def syscall_mkdir (V : KernelNodes σ ν) (w : World σ ν) (ebx : Nat) : Option (World σ ν × Int) :=
  if !Proc.is_user_ptr ebx then some (w, -1)
  else (w.resolve ebx).bind fun path => at_parent V w path FsNode.mkdir

def syscall_unlink (V : KernelNodes σ ν) (w : World σ ν) (ebx : Nat) : Option (World σ ν × Int) :=
  if !Proc.is_user_ptr ebx then some (w, -1)
  else (w.resolve ebx).bind fun path =>
    if last_slash path = none then some (w, -1) else at_parent V w path FsNode.unlink

/-- パスを取るシステムコールと、そのレジスタ。 -/
inductive PathCall where
  | open (ebx ecx : Nat)
  | stat (ebx ecx : Nat)
  | readdir (ebx ecx edx : Nat)
  | chdir (ebx : Nat)
  | mkdir (ebx : Nat)
  | unlink (ebx : Nat)
deriving DecidableEq

namespace PathCall

def path : PathCall → Nat
  | «open» ebx _ | stat ebx _ | readdir ebx _ _ | chdir ebx | mkdir ebx | unlink ebx => ebx

def run (V : KernelNodes σ ν) (w : World σ ν) : PathCall → Option (World σ ν × Int)
  | «open» ebx ecx => syscall_open V w ebx ecx
  | stat ebx ecx => syscall_stat V w ebx ecx
  | readdir ebx ecx edx => syscall_readdir V w ebx ecx edx
  | chdir ebx => syscall_chdir V w ebx
  | mkdir ebx => syscall_mkdir V w ebx
  | unlink ebx => syscall_unlink V w ebx

end PathCall

/-! ## 読めないパス -/

/-- 利用者に見えるページの中に、NUL で終わる文字列がない。 -/
def Unreadable (w : World σ ν) (c : PathCall) : Prop := ∀ s, ¬ UserString w.current.user.readable c.path s

/-- `resolve_path` が `buf` を空にする。 -/
def Faults (w : World σ ν) (c : PathCall) : Prop := c.path = 0 ∨ w.current.user.copy_path 255 c.path = some none

def Unwritable (w : World σ ν) (dst size : Nat) : Prop := w.current.user.check_range dst size = some false

/-- 先に調べるポインタで断る。`open` は調べない。 -/
def Guarded : PathCall → Prop
  | .open _ _ => False
  | .stat ebx ecx => Proc.is_user_ptr ebx = false ∨ Proc.is_user_ptr ecx = false
  | .readdir ebx ecx edx => Proc.is_user_ptr ebx = false ∨ Proc.is_user_ptr ecx = false ∨ edx = 0
  | .chdir ebx | .mkdir ebx | .unlink ebx => Proc.is_user_ptr ebx = false

def entries (V : KernelNodes σ ν) (s : σ) (n : ν) : Nat := ((readdir_fs (V.node s n)).getD []).length

/-- 空のパスは根を指す。根でも断るのは、`unlink` と `mkdir` のほかは、記述子や結果の置き場がないときだけである。`open` は、`mode` の
写しから戻らなければならない。 -/
def RootRefuses (V : KernelNodes σ ν) (w : World σ ν) : PathCall → Prop
  | .open _ ecx => (read_mode w.current.user ecx).isSome = true ∧ w.free_id = none
  | .stat _ ecx => Unwritable w ecx 8
  | .readdir _ ecx edx => Unwritable w ecx (min (entries V w.fs V.root_dir) edx * 256)
  | .chdir _ => False
  | .mkdir _ | .unlink _ => True

/-- ファイルがなく、作れもしないか、空いた記述子がない。 -/
def OpenRefused (V : KernelNodes σ ν) (w : World σ ν) (path : List UInt8) (modes_mask : Nat) : Prop :=
  match V.get_node w.fs path with
  | none => False
  | some (some _) => w.free_id = none
  | some none => modes_mask &&& (FILE_WRITE ||| FILE_APPEND) = 0 ∨
      (∃ n, V.create_node w.fs path = some (w.fs, n) ∧ (n = none ∨ w.free_id = none))

def ParentRefused (V : KernelNodes σ ν) (w : World σ ν) (path : List UInt8)
    (op : FsNode σ ν → Option (List UInt8 → σ × Int)) : Prop :=
  ∃ found, V.get_node w.fs (parent_path path) = some found ∧ ∀ n ∈ found, ∃ parent, V.cross w.fs n = some parent ∧
    ∀ f ∈ op (V.node w.fs parent), f (file_name path) = (w.fs, -1)

/-- パス `path` を断る。 -/
def Refuses (V : KernelNodes σ ν) (w : World σ ν) (path : List UInt8) : PathCall → Prop
  | .open _ ecx => ∃ modes, read_mode w.current.user ecx = some modes ∧ OpenRefused V w path (get_mode modes)
  | .stat _ ecx => ∃ found, V.get_node w.fs path = some found ∧ ∀ n ∈ found, Unwritable w ecx 8
  | .readdir _ ecx edx => ∃ found, V.get_node w.fs path = some found ∧ ∀ n ∈ found,
      readdir_fs (V.node w.fs n) = none ∨ Unwritable w ecx (min (entries V w.fs n) edx * 256)
  | .chdir _ => ∃ found, V.get_node w.fs path = some found ∧ ∀ n ∈ found, (V.node w.fs n).flags &&& FS_DIRECTORY = 0
  | .mkdir _ => ParentRefused V w path FsNode.mkdir
  | .unlink _ => last_slash path = none ∨ ParentRefused V w path FsNode.unlink

/-- 読めないパスを断る条件。255 バイトまでに読めなければ根を、読めればその 255 バイトを断る。どちらのときも、読み出しから戻る。 -/
def Refused (V : KernelNodes σ ν) (w : World σ ν) (c : PathCall) : Prop :=
  Guarded c ∨ (Faults w c ∧ RootRefuses V w c) ∨
    (¬ Faults w c ∧ ∃ path, w.resolve c.path = some path ∧ Refuses V w path c)

/-! ## 実行 -/

/-- `cwd` は `/` で始まり、定めたときにディレクトリを指していた。 -/
def CwdOk (V : KernelNodes σ ν) (p : Process σ ν) : Prop :=
  p.cwd.head? = some SLASH ∧ ∃ n, V.get_node p.made p.cwd = some (some n) ∧ (V.node p.made n).kind = FS_DIRECTORY

/-- 事象。`rest` は、`cwd` を変えない残りのすべてである。 -/
inductive Event (σ ν : Type) where
  | call (c : PathCall)
  | create_process (i : Nat) (parent : Option Nat) (files_open : Nat → Option (ν × Nat)) (user : User)
  | fork_process (i : Nat) (files_open : Nat → Option (ν × Nat)) (user : User)
  | switch (i : Nat)
  | rest (fs : σ) (refcount : ν → Nat) (files_open : Nat → Nat → Option (ν × Nat)) (user : Nat → User) (heap : ByteMem)

def World.add (w : World σ ν) (i : Nat) (p : Process σ ν) : World σ ν :=
  { w with
    table := fun j => if j = i then p else w.table j
    used := fun j => decide (j = i) || w.used j }

/-- 親の `cwd` を写す。 -/
def Process.inherit (p : Process σ ν) (files_open : Nat → Option (ν × Nat)) (user : User) : Process σ ν :=
  ⟨p.cwd.take 254, files_open, user, p.made⟩

def World.step (V : KernelNodes σ ν) (w : World σ ν) : Event σ ν → Option (World σ ν)
  | .call c => if w.used w.current_process then (c.run V w).map Prod.fst else none
  | .create_process i parent files_open user =>
      match parent.filter w.used with
      | some j => some (w.add i ((w.table j).inherit files_open user))
      | none => some (w.add i ⟨[SLASH], files_open, user, w.fs⟩)
  | .fork_process i files_open user =>
      if w.used w.current_process then some (w.add i (w.current.inherit files_open user)) else none
  | .switch i => if w.used i then some { w with current_process := i } else none
  | .rest fs refcount files_open user heap => some { w with
      fs := fs
      refcount := refcount
      table := fun i => { w.table i with files_open := files_open i, user := user i }
      heap := heap }

/-- `init_multitasking` の直後。`idle` だけがある。 -/
def World.boot (fs : σ) (refcount : ν → Nat) (user : User) (heap : ByteMem) : World σ ν :=
  ⟨fs, refcount, fun _ => ⟨[SLASH], fun _ => none, user, fs⟩, fun i => decide (i = 0), 0, heap⟩

/-- 読めないパスを断るときに限って渡し、`chdir` をディレクトリのほかの種類に使わない。 -/
def StepOk (V : KernelNodes σ ν) (w : World σ ν) : Event σ ν → Prop
  | .call c => (Unreadable w c → Refused V w c) ∧ ∀ ebx, c = .chdir ebx → ∀ path n, w.resolve ebx = some path →
      V.get_node w.fs path = some (some n) → (V.node w.fs n).flags &&& FS_DIRECTORY ≠ 0 → (V.node w.fs n).kind = FS_DIRECTORY
  | _ => True

end MyOS.Vfs
