import MyOS.Vfs.Initrd

/-!
# ノードのグラフ（fs/vfs.c）

ノードは番地の代わりの `ν` で表し、その欄は今のファイルの状態 `σ` から決まる。関数の欄は、NULL なら `none` である。
途中の `malloc` は失敗しないので、捨てた `fname` や写しのための領域は状態に入れない。ノードの木は `Node.graph` で
このグラフになり、探索の結果は同じである。
-/

namespace MyOS.Vfs
open MyOS.Lib

/-- `fs_node_t` のうち、パスを取るシステムコールが使う欄。 -/
structure FsNode (σ ν : Type) where
  flags : UInt8
  size : Nat
  ptr : Option ν
  readdir : Option (Option (List (List UInt8)))
  finddir : Option (List UInt8 → Option ν)
  create : Option (List UInt8 → σ × Option ν)
  mkdir : Option (List UInt8 → σ × Int)
  unlink : Option (List UInt8 → σ × Int)
  mounts : List (List UInt8 × ν)

variable {σ ν : Type}

/-- `(flags & flag) == flag`。 -/
def FsNode.has (n : FsNode σ ν) (flag : UInt8) : Bool := n.flags &&& flag == flag

/-- 種類の番号。`FS_MOUNTPOINT` のビットは除く。 -/
def FsNode.kind (n : FsNode σ ν) : UInt8 := n.flags &&& 0x07

def readdir_fs (n : FsNode σ ν) : Option (List (List UInt8)) :=
  if n.has FS_DIRECTORY then
    if n.mounts = [] then n.readdir.join
    else some ((n.readdir.join).getD [] ++ n.mounts.map Prod.fst)
  else none

/-- ノードの全体。マウントの連なりは輪にならない。 -/
structure Vnodes (σ ν : Type) where
  node : σ → ν → FsNode σ ν
  root_dir : ν
  depth : ν → Nat
  mounted : ∀ s n m, (node s n).ptr = some m → depth m < depth n

namespace Vnodes

/-- `while ((root->flags & FS_MOUNTPOINT) == FS_MOUNTPOINT && root->ptr)` のループ。 -/
def cross_all (V : Vnodes σ ν) (s : σ) (n : ν) : ν :=
  if (V.node s n).has FS_MOUNTPOINT then
    match _h : (V.node s n).ptr with
    | some m => V.cross_all s m
    | none => n
  else n
termination_by V.depth n
decreasing_by exact V.mounted s n m ‹_›

def finddir_fs (V : Vnodes σ ν) (s : σ) (n : ν) (name : List UInt8) : Option ν :=
  if (V.node s n).has FS_DIRECTORY then
    match (V.node s n).finddir.bind (· name) with
    | some found => some found
    | none => ((V.node s n).mounts.find? fun m => m.1 = name).map Prod.snd
  else none

/-- 再帰のたびに `path` は短くなる。`none` は、NULL の `ptr` の先を読むことを表す。 -/
def get_node_loop (V : Vnodes σ ν) (s : σ) : Nat → List UInt8 → Option ν → Option (Option ν)
  | 0, _, _ => none
  | _ + 1, _, none => some none
  | fuel + 1, path, some root =>
      if path = [] ∨ path = [SLASH] then some (some (V.cross_all s root))
      else
        let rest := path.dropWhile (· = SLASH)
        let fname := rest.takeWhile (· ≠ SLASH)
        let root := if (V.node s root).has FS_MOUNTPOINT ∨ (V.node s root).has FS_SYMLINK then (V.node s root).ptr
          else some root
        root.bind fun root =>
          if (V.node s root).finddir.isSome then
            V.get_node_loop s fuel (rest.dropWhile (· ≠ SLASH)) (V.finddir_fs s root fname)
          else some none

/-- `get_node(path, root_dir)`。 -/
def get_node (V : Vnodes σ ν) (s : σ) (path : List UInt8) : Option (Option ν) :=
  V.get_node_loop s (path.length + 1) path (some V.root_dir)

/-- `if ((parent->flags & FS_MOUNTPOINT) == FS_MOUNTPOINT) parent = parent->ptr;` -/
def cross (V : Vnodes σ ν) (s : σ) (parent : ν) : Option ν :=
  if (V.node s parent).has FS_MOUNTPOINT then (V.node s parent).ptr else some parent

end Vnodes

/-- 最後の `/` の位置。なければ `none` である。 -/
def last_slash (path : List UInt8) : Option Nat :=
  if SLASH ∈ path then some ((path.rdropWhile (· ≠ SLASH)).length - 1) else none

/-- 最後の `/` の後。 -/
def file_name (path : List UInt8) : List UInt8 := path.rtakeWhile (· ≠ SLASH)

/-- `mkdir` と `unlink` が親を探すパス。 -/
def parent_path (path : List UInt8) : List UInt8 :=
  match last_slash path with
  | some k => if k > 0 then path.take k else [SLASH]
  | none => [SLASH]

def Vnodes.create_node (V : Vnodes σ ν) (s : σ) (path : List UInt8) : Option (σ × Option ν) :=
  match last_slash path with
  | some (k + 1) =>
      (V.get_node s (path.take (k + 1))).bind fun
        | none => some (s, none)
        | some parent => (V.cross s parent).map fun parent =>
            match (V.node s parent).create with
            | some create => create (file_name path)
            | none => (s, none)
  | _ => (V.cross s V.root_dir).map fun root =>
      match (V.node s root).create with
      | some create => create (file_name path)
      | none => (s, none)

end MyOS.Vfs
