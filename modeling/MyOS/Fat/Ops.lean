import MyOS.Fat.Dir
import MyOS.Lib.Run

/-!
# 作成、削除、開いているノード（fs/fat12.c）

ファイルシステムの状態は、ディスクと表のほかに、開いているノードからなる。ノードは開いたときの項目の写しを
持ち、項目が消されてもそのまま残る。
-/

namespace MyOS.Fat
open MyOS.Lib ByteMem

/-! ## ディレクトリを作る -/

/-- `done` は、書いた項目の番地を持つ。 -/
def mkdir_entry_cb (name : List UInt8) (cluster : Nat) : Callback (Option Nat) :=
  fun base i buf fs done => match done with
    | some _ => (fs, buf, done)
    | none => (fs, Entry.write buf (i * sizeofDirEntry) (new_entry name 0x10 cluster),
        some (base + i * sizeofDirEntry))

/-- 新しいディレクトリのクラスタの中身。根の `..` は 0 を指す。 -/
def dir_cluster_buf (cluster parent : Nat) : ByteMem :=
  Entry.write (Entry.write (fun _ => 0) 0 (dot_entry [0x2E] cluster)) sizeofDirEntry
    (dot_entry [0x2E, 0x2E] (if parent = FAT12_ROOT_INODE then 0 else parent))

/-- 戻り値 0 は `some`、−1 は `none` である。0 のときは、確保したクラスタと項目の番地を持つ。 -/
def fat12_mkdir (fs : Fs) (dir : Node) (name : List UInt8) : Option (Fs × Option (Nat × Nat)) :=
  if name = [] then some (fs, none)
  else (find_entry fs dir.inode name).bind fun
    | some _ => some (fs, none)
    | none =>
        let (fs, cluster) := fat12_allocate_cluster fs
        if cluster = 0 then some (fs, none)
        else
          let fs := fat12_write_cluster fs cluster (dir_cluster_buf cluster dir.inode)
          (fat12_iterate_dir_write (mkdir_entry_cb name cluster) fs dir.inode none).bind fun
            | (fs, none) => (fat12_free_cluster_chain fs cluster).map fun fs => (fs, none)
            | (fs, some slot) => some (fat12_flush_fat fs, some (cluster, slot))

/-! ## ファイルを消す -/

/-- 同名の項目があれば、最初の文字を 0xE5 にして書き戻す。 -/
def unlink_in_group (fs : Fs) (g : Group) (name : List UInt8) : Option (Fs × Nat) :=
  (update_slot fs.disk g name).map fun a =>
    (ata_write_sectors fs g.lba g.sectors
      (store8 (ata_read_sectors fs g.lba) (a - g.lba * ATA_SECTOR_SIZE) 0xE5), a)

def unlink_in_chain (fs : Fs) (name : List UInt8) : Nat → Nat → Option (Option (Fs × Nat))
  | 0, _ => none
  | fuel + 1, cluster =>
      if cluster ≠ 0xFFFF then
        match unlink_in_group fs (cluster_group fs cluster) name with
        | some found => some (some found)
        | none => unlink_in_chain fs name fuel (fat12_get_fat_entry fs cluster)
      else some none

def unlink_in_dir (fs : Fs) (inode : Nat) (name : List UInt8) : Option (Option (Fs × Nat)) :=
  if inode = FAT12_ROOT_INODE then
    some ((List.range (root_dir_sectors fs)).findSome? fun s => unlink_in_group fs (root_group fs s) name)
  else unlink_in_chain fs name maxChain inode

/-- 戻り値 0 は、消した項目の番地を持つ `some`、−1 は `none` である。 -/
def fat12_unlink (fs : Fs) (dir : Node) (name : List UInt8) : Option (Fs × Option Nat) :=
  if name = [] then some (fs, none)
  else (find_entry fs dir.inode name).bind fun
    | none => some (fs, none)
    | some (node, _) =>
        if node.flags &&& FS_DIRECTORY ≠ 0 then some (fs, none)
        else (unlink_in_dir fs dir.inode name).bind fun
          | none => some (fs, none)
          | some (fs, a) =>
              (if node.inode ≥ 2 then fat12_free_cluster_chain fs node.inode else some fs).map
                fun fs => (fat12_flush_fat fs, some a)

/-! ## 開いているノードと操作の列 -/

/-- 開いているノード。`slot` は得たときの項目の番地、`unlinked` はその項目が消されていることを表す。 -/
structure Handle where
  node : Node
  slot : Nat
  unlinked : Bool
deriving DecidableEq

/-- `dirs` は、根のほかのディレクトリの最初のクラスタである。 -/
structure Vol where
  fs : Fs
  dirs : List Nat
  handles : Nat → Option Handle

inductive VolOp
  | find (k dir : Nat) (name : List UInt8)
  | create (k dir : Nat) (name : List UInt8)
  | mkdir (dir : Nat) (name : List UInt8)
  | unlink (dir : Nat) (name : List UInt8)
  | write (k size units : Nat) (buffer : Option ByteMem)
  | seek (k offset : Nat) (type : UInt8)

/-- ディレクトリのノード。読まれるのは `inode` と `flags` だけである。 -/
def dir_node (inode : Nat) : Node := ⟨[], FS_DIRECTORY, 0, inode, 0⟩

/-- 操作の対象はボリュームのディレクトリで、名前は空でない C の文字列である。 -/
def Vol.names (v : Vol) (dir : Nat) (name : List UInt8) : Prop :=
  (dir = FAT12_ROOT_INODE ∨ dir ∈ v.dirs) ∧ name ≠ [] ∧ 0 ∉ name

instance (v : Vol) (dir : Nat) (name : List UInt8) : Decidable (v.names dir name) :=
  inferInstanceAs (Decidable (_ ∧ _))

/-- ノードを番号 `k` で開く。NULL なら何も開かない。 -/
def Vol.open_node (v : Vol) (k : Nat) : Option (Node × Nat) → Vol
  | none => v
  | some (node, a) =>
      { v with handles := fun j => if j = k then some ⟨node, a, v.fs.disk a == 0xE5⟩ else v.handles j }

def Vol.set_node (v : Vol) (k : Nat) (h : Handle) (node : Node) : Vol :=
  { v with handles := fun j => if j = k then some { h with node := node } else v.handles j }

/-- 項目 `a` のノードに、項目が消されたことを記す。 -/
def Handle.mark (a : Nat) (h : Handle) : Handle :=
  { h with unlinked := h.unlinked || h.slot == a }

def Vol.unlink_slot (v : Vol) : Option Nat → Vol
  | none => v
  | some a => { v with handles := fun j => (v.handles j).map (Handle.mark a) }

/-- 書き込みの大きさは、クラスタ一つ分の余裕を残して 32 ビットに収まる。`none` は、操作が戻らないか、
呼び出せないことを表す。 -/
def Vol.step (v : Vol) : VolOp → Option Vol
  | .find k dir name =>
      if v.names dir name then
        (fat12_finddir_fs v.fs (dir_node dir) name).map fun found => v.open_node k found
      else none
  | .create k dir name =>
      if v.names dir name then
        (fat12_create_file v.fs (dir_node dir) name).map fun (fs, made) => { v with fs := fs }.open_node k made
      else none
  | .mkdir dir name =>
      if v.names dir name then
        (fat12_mkdir v.fs (dir_node dir) name).map fun (fs, made) =>
          { v with fs := fs, dirs := (made.map Prod.fst).toList ++ v.dirs }
      else none
  | .unlink dir name =>
      if v.names dir name then
        (fat12_unlink v.fs (dir_node dir) name).map fun (fs, gone) => { v with fs := fs }.unlink_slot gone
      else none
  | .write k size units buffer =>
      (v.handles k).bind fun h =>
        if h.node.flags = FS_FILE ∧ mul32 size units + bytes_per_cluster v.fs ≤ 2 ^ 32 then
          (fat12_write_fs v.fs h.node size units buffer).map fun (fs, node, _) =>
            { v with fs := fs }.set_node k h node
        else none
  | .seek k offset type =>
      (v.handles k).bind fun h =>
        if h.node.flags = FS_FILE ∧ offset < 2 ^ 32 then
          some (v.set_node k h (fat12_seek_fs h.node offset type))
        else none

end MyOS.Fat
