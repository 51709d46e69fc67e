import MyOS.Vfs.Path

/-!
# ノードの木（fs/vfs.c）

`get_node` は、パスの部分を一つずつ `finddir_fs` で探す。ノードは、`finddir` が返すものを子とする木とする。
-/

namespace MyOS.Vfs
open MyOS.Lib

def FS_FILE : UInt8 := 0x01
def FS_DIRECTORY : UInt8 := 0x02
def FS_SYMLINK : UInt8 := 0x06
def FS_MOUNTPOINT : UInt8 := 0x08

/-- `fs_node_t` のうち、探索に使う欄。 -/
inductive Node where
  | mk (flags : UInt8) (ptr : Option Node) (finddir : Option (List UInt8 → Option Node))
      (mounts : List (List UInt8 × Node))

namespace Node

def flags : Node → UInt8
  | mk flags _ _ _ => flags

def ptr : Node → Option Node
  | mk _ ptr _ _ => ptr

def finddir : Node → Option (List UInt8 → Option Node)
  | mk _ _ finddir _ => finddir

def mounts : Node → List (List UInt8 × Node)
  | mk _ _ _ mounts => mounts

/-- `(flags & flag) == flag`。 -/
def has (n : Node) (flag : UInt8) : Bool := n.flags &&& flag == flag

/-- `while ((root->flags & FS_MOUNTPOINT) == FS_MOUNTPOINT && root->ptr)` のループ。 -/
def cross_all : Node → Node
  | mk flags (some ptr) finddir mounts =>
      if (mk flags (some ptr) finddir mounts).has FS_MOUNTPOINT then ptr.cross_all
      else mk flags (some ptr) finddir mounts
  | mk flags none finddir mounts => mk flags none finddir mounts

end Node

def finddir_fs (node : Node) (name : List UInt8) : Option Node :=
  if node.has FS_DIRECTORY then
    match node.finddir.bind (· name) with
    | some found => some found
    | none => (node.mounts.find? fun m => m.1 = name).map Prod.snd
  else none

/-- 再帰のたびに `path` は短くなる。`none` は、NULL の `ptr` の先を読むことを表す。 -/
def get_node_loop : Nat → List UInt8 → Option Node → Option (Option Node)
  | 0, _, _ => none
  | _ + 1, _, none => some none
  | fuel + 1, path, some root =>
      if path = [] ∨ path = [SLASH] then some (some root.cross_all)
      else
        let rest := path.dropWhile (· = SLASH)
        let fname := rest.takeWhile (· ≠ SLASH)
        let root := if root.has FS_MOUNTPOINT ∨ root.has FS_SYMLINK then root.ptr else some root
        root.bind fun root =>
          if root.finddir.isSome then
            get_node_loop fuel (rest.dropWhile (· ≠ SLASH)) (finddir_fs root fname)
          else some none

def get_node (path : List UInt8) (root : Option Node) : Option (Option Node) :=
  get_node_loop (path.length + 1) path root

/-! ## 部分の列による探索 -/

/-- 部分を順に探す。探す前に、マウントをすべてたどる。 -/
def walk : Node → List (List UInt8) → Option Node
  | n, [] => some n
  | n, c :: cs => (finddir_fs n.cross_all c).bind (walk · cs)

def lookup (root : Node) (comps : List (List UInt8)) : Option Node := (walk root comps).map Node.cross_all

/-- 末尾に `/` が二つ以上続く。 -/
def EndsTwice (path : List UInt8) : Prop := [SLASH, SLASH] <:+ path

instance (path : List UInt8) : Decidable (EndsTwice path) := inferInstanceAs (Decidable (_ <:+ _))

/-- `get_node` が探す名前の列。 -/
def lookups (path : List UInt8) : List (List UInt8) :=
  components SLASH path ++ if EndsTwice path then [[]] else []

/-- 記号リンクではなく、マウントは重ならず、項目を持つディレクトリは `finddir` を持つ。 -/
structure Plain (n : Node) : Prop where
  symlink : n.has FS_SYMLINK = false
  mount : n.has FS_MOUNTPOINT = true → n.ptr = some n.cross_all
  finddir : n.cross_all.finddir = none → n.cross_all.mounts = []

/-- 名前を探すどのノードも `P` を満たす。 -/
def OnWay (P : Node → Prop) : Node → List (List UInt8) → Prop
  | _, [] => True
  | n, c :: cs => P n ∧ ∀ m, finddir_fs n.cross_all c = some m → OnWay P m cs

end MyOS.Vfs
