import Mathlib.Algebra.GroupWithZero.Nat
import MyOS.Vfs.Vnodes

/-!
# initrd の形式（tools/create_initrd.py、fs/initrd.c）

`create_initrd.py` は、ディレクトリの木を二度たどってイメージを書く。`init_initrd` の後の `get_node` は、それを
ポインタの計算だけで読む。
-/

namespace MyOS.Vfs
open MyOS.Lib

abbrev Name := List UInt8

/-- ディレクトリの木。項目の順は、`os.walk` が返す順である。 -/
inductive Dir where
  | mk (dirs : List (Name × Dir)) (files : List (Name × List UInt8))

namespace Dir

def dirs : Dir → List (Name × Dir)
  | mk dirs _ => dirs

def files : Dir → List (Name × List UInt8)
  | mk _ files => files

/-- 項目の名前。ディレクトリが先に並ぶ。 -/
def names (d : Dir) : List Name := d.dirs.map Prod.fst ++ d.files.map Prod.fst

end Dir

inductive Item where
  | dir (d : Dir)
  | file (data : List UInt8)

/-- 木の中で、名前の列の指すもの。 -/
def Dir.find : Dir → List Name → Option Item
  | d, [] => some (.dir d)
  | d, c :: cs =>
      match d.dirs.find? (·.1 = c) with
      | some e => e.2.find cs
      | none => if cs = [] then (d.files.find? (·.1 = c)).map fun f => .file f.2 else none

/-- `mnt` と `mouse` は、起動の後で根に加わる。 -/
def MNT : Name := [0x6D, 0x6E, 0x74]
def MOUSE : Name := [0x6D, 0x6F, 0x75, 0x73, 0x65]

structure NameOk (n : Name) : Prop where
  pos : n ≠ []
  len : n.length ≤ 127
  sep : SLASH ∉ n
  nul : 0 ∉ n
  mnt : n ≠ MNT
  mouse : n ≠ MOUSE

/-- どのディレクトリでも、名前は正しく、互いに異なる。 -/
def Dir.Valid (t : Dir) : Prop :=
  ∀ p d, t.find p = some (.dir d) → d.names.Nodup ∧ ∀ n ∈ d.names, NameOk n

/-! ## 書く側（create_initrd.py） -/

/-- `os.walk` の一つの要素。`files` には、読んだ内容も置く。 -/
structure WalkStep where
  root_folder : List Name
  folders : List Name
  files : List (Name × List UInt8)

/-- `os.walk` は、どのディレクトリも一度ずつ、親を子より先に並べる。 -/
structure IsWalk (t : Dir) (walk : List WalkStep) : Prop where
  nodup : (walk.map WalkStep.root_folder).Nodup
  listing : ∀ e ∈ walk, ∃ d, t.find e.root_folder = some (.dir d) ∧ e.folders = d.dirs.map Prod.fst ∧ e.files = d.files
  all : ∀ p d, t.find p = some (.dir d) → ∃ e ∈ walk, e.root_folder = p
  parents : ∀ l e l' p n, walk = l ++ e :: l' → e.root_folder = p ++ [n] → ∃ e' ∈ l, e'.root_folder = p

/-- `x.to_bytes(n, 'little')`。収まらない数は、イメージが 2^31 バイトより小さければ現れない。 -/
def to_bytes (x n : Nat) : List UInt8 := (List.range n).map fun i => UInt8.ofNat (x / 256 ^ i)

def pad_bytes (bytes_arr : List UInt8) (padlen : Nat) : List UInt8 :=
  bytes_arr ++ to_bytes 0 (padlen - bytes_arr.length)

/-- 一つの項目の四つのバイト列。 -/
def entry_bytes (flags start size : Nat) (name : Name) : List (List UInt8) :=
  [to_bytes flags 1, to_bytes start 4, to_bytes size 4, pad_bytes name 128]

/-- 一度目に作るディレクトリ。`start` は 0 としておく。 -/
def cur_dir (e : WalkStep) : List (List UInt8) :=
  to_bytes (e.folders.length + e.files.length) 4 ::
    (e.folders.flatMap (fun folder => entry_bytes 0x02 0 0 folder) ++
      e.files.flatMap fun file => entry_bytes 0x01 0 file.2.length file.1)

structure Pass1 where
  cur_ind : Nat
  folder_ind : List Name → Option Nat
  dirs : List (List (List UInt8))
  files_raw : List (List UInt8)

def pass1_step (s : Pass1) (e : WalkStep) : Pass1 where
  cur_ind := s.cur_ind + ((cur_dir e).map List.length).sum
  folder_ind p := if p = e.root_folder then some s.cur_ind else s.folder_ind p
  dirs := s.dirs ++ [cur_dir e]
  files_raw := s.files_raw ++ e.files.map Prod.snd

def pass1 (walk : List WalkStep) : Pass1 := walk.foldl pass1_step ⟨4, fun _ => none, [], []⟩

structure Pass2 where
  dirs : List (List (List UInt8))
  cur_dir_ind : Nat
  cur_file_ind : Nat
  cur_ind : Nat

/-- ディレクトリの項目の `start` を書き直す。`find` は項目の番号である。 -/
def patch_folder (folder_ind : List Name → Option Nat) (root_folder : List Name) (s : Pass2 × Nat) (folder : Name) :
    Pass2 × Nat :=
  ({ s.1 with
      dirs := s.1.dirs.modify s.1.cur_dir_ind fun dir =>
        dir.set (2 + s.2 * 4) (to_bytes ((folder_ind (root_folder ++ [folder])).getD 0) 4) }, s.2 + 1)

def patch_file (files_raw : List (List UInt8)) (s : Pass2 × Nat) : Pass2 × Nat :=
  ({ s.1 with
      dirs := s.1.dirs.modify s.1.cur_dir_ind fun dir => dir.set (2 + s.2 * 4) (to_bytes s.1.cur_ind 4)
      cur_ind := s.1.cur_ind + (files_raw.getD s.1.cur_file_ind []).length
      cur_file_ind := s.1.cur_file_ind + 1 }, s.2 + 1)

def pass2_step (s₁ : Pass1) (s : Pass2) (e : WalkStep) : Pass2 :=
  let r := e.folders.foldl (patch_folder s₁.folder_ind e.root_folder) (s, 0)
  let r := e.files.foldl (fun r _ => patch_file s₁.files_raw r) r
  { r.1 with cur_dir_ind := r.1.cur_dir_ind + 1 }

def pass2 (s₁ : Pass1) (walk : List WalkStep) : Pass2 := walk.foldl (pass2_step s₁) ⟨s₁.dirs, 0, 0, s₁.cur_ind⟩

def magic : List UInt8 := [0x49, 0x4E, 0x52, 0x44]

/-- 書いたファイル。 -/
def create_initrd (walk : List WalkStep) : List UInt8 :=
  let s₁ := pass1 walk
  magic ++ (pass2 s₁ walk).dirs.flatten.flatten ++ s₁.files_raw.flatten

/-! ## 読む側（fs/initrd.c） -/

/-- `initrd_directory_entity_t`。 -/
structure Entity where
  flags : UInt8
  start : Nat
  size : Nat
  name : Name

/-- NUL の手前までの列。番地の終わりで止まる。 -/
def c_string (m : ByteMem) : Nat → Nat → List UInt8
  | 0, _ => []
  | n + 1, a => if m a = 0 then [] else m a :: c_string m n (a + 1)

/-- packed なので、137 バイトを占める。 -/
def entity_at (m : ByteMem) (a : Nat) : Entity :=
  ⟨m a, m.load32 (a + 1), m.load32 (a + 5), c_string m (2 ^ 32 - (a + 9)) (a + 9)⟩

def initrd_loaddir (m : ByteMem) (location : Nat) : List Entity :=
  (List.range (m.load32 location)).map fun i => entity_at m (add32 (add32 location 4) (mul32 137 i))

def initrd_loadfile_fs_node (initrd_location start size : Nat) : InitrdNode :=
  ⟨FS_FILE, size, 0, add32 start initrd_location⟩

def initrd_loaddir_fs_node (initrd_location start : Nat) : InitrdNode :=
  ⟨FS_DIRECTORY, 0, 0, add32 start initrd_location⟩

def initrd_readdir_fs (m : ByteMem) (node : InitrdNode) : Option (List Name) :=
  if node.flags &&& FS_DIRECTORY ≠ FS_DIRECTORY then none else some ((initrd_loaddir m node.impl).map Entity.name)

/-- `mnt` は `initrd_mnt_node` で、起動の途中までは NULL である。 -/
def initrd_finddir_fs (m : ByteMem) (initrd_location : Nat) (mnt : Option InitrdNode) (node : InitrdNode) (name : Name) :
    Option InitrdNode :=
  if node.flags &&& FS_DIRECTORY ≠ FS_DIRECTORY then none
  else if name = MNT ∧ mnt.isSome then mnt
  else ((initrd_loaddir m node.impl).find? (·.name = name)).map fun e =>
    if e.flags &&& FS_FILE ≠ 0 then initrd_loadfile_fs_node initrd_location e.start e.size
    else initrd_loaddir_fs_node initrd_location e.start

/-- 二つの関数が作るノードの欄。 -/
def initrd_fs_node (m : ByteMem) (initrd_location : Nat) (mnt : Option InitrdNode) (n : InitrdNode) :
    FsNode Unit InitrdNode where
  flags := n.flags
  size := n.size
  ptr := none
  readdir := if n.flags = FS_DIRECTORY then some (initrd_readdir_fs m n) else none
  finddir := if n.flags = FS_DIRECTORY then some (initrd_finddir_fs m initrd_location mnt n) else none
  create := none
  mkdir := none
  unlink := none
  mounts := []

/-- `initrd_start` にあるイメージを根とする。 -/
def init_initrd (m : ByteMem) (initrd_start : Nat) : Vnodes Unit InitrdNode where
  node _ := initrd_fs_node m initrd_start none
  root_dir := initrd_loaddir_fs_node initrd_start (sub32 (add32 initrd_start 4) initrd_start)
  depth _ := 0
  mounted _ _ _ h := nomatch h

/-! ## 往復 -/

/-- イメージが、番地 `a` から続けて置かれている。 -/
def Holds (m : ByteMem) (a : Nat) (bytes : List UInt8) : Prop := ∀ i (h : i < bytes.length), m (a + i) = bytes[i]

end MyOS.Vfs
