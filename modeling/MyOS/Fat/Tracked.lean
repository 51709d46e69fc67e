import MyOS.Fat.Lemmas.WriteFs

/-!
# 開いているノードのあるボリューム

項目とノードは、どちらも鎖の先頭を指す。`own` は、鎖の先頭にその持ち主の項目を対応させる。ノードの項目が
消されていなければ、ノードの鎖の持ち主はその項目である。
-/

namespace MyOS.Fat
open MyOS.Lib

/-- 0x00 でも、消された項目でも、長い名前の断片でもない。 -/
def Used (m : ByteMem) (a : Nat) : Prop := m a ≠ 0 ∧ m a ≠ 0xE5 ∧ Entry.attributes m a ≠ 0x0F

def IsFile (m : ByteMem) (a : Nat) : Prop := Entry.attributes m a &&& (0x10 : UInt8) = 0

instance (m : ByteMem) (a : Nat) : Decidable (Used m a) := inferInstanceAs (Decidable (_ ∧ _))
instance (m : ByteMem) (a : Nat) : Decidable (IsFile m a) := inferInstanceAs (Decidable (_ = _))

def FileAt (fs : Fs) (D : Set Nat) (a : Nat) : Prop := IsSlot fs D a ∧ Used fs.disk a ∧ IsFile fs.disk a

def DirAt (fs : Fs) (D : Set Nat) (a : Nat) : Prop := IsSlot fs D a ∧ Used fs.disk a ∧ ¬ IsFile fs.disk a

/-- 整ったボリューム。異なるファイルは、異なる鎖を指す。 -/
structure Volume (fs : Fs) (H D : Set Nat) : Prop where
  fat : FatOk fs H
  layout : Layout fs
  dirs : D ⊆ H
  file : ∀ a, FileAt fs D a → Entry.first_cluster fs.disk a = 0 ∨ Entry.first_cluster fs.disk a ∈ H \ D
  dir : ∀ a, DirAt fs D a → Entry.first_cluster fs.disk a = 0 ∨ Entry.first_cluster fs.disk a ∈ D
  apart : ∀ a b, FileAt fs D a → FileAt fs D b →
    Entry.first_cluster fs.disk a = Entry.first_cluster fs.disk b → Entry.first_cluster fs.disk a ≠ 0 → a = b

/-- 項目の残っているノード。 -/
structure HandleOk (fs : Fs) (H D : Set Nat) (own : Nat → Nat) (h : Handle) : Prop where
  entry : FileAt fs D h.slot
  name : fat12_entry_to_name fs.disk h.slot = h.node.name
  inode : h.node.inode = 0 ∨ h.node.inode ∈ H \ D ∧ own h.node.inode = h.slot
  seek : h.node.seek_offset < 2 ^ 32
  size : h.node.size < 2 ^ 32

structure Tracked (fs : Fs) (H D : Set Nat) (own : Nat → Nat) (hs : Set Handle) : Prop where
  fat : FatOk fs H
  layout : Layout fs
  dirs : D ⊆ H
  file : ∀ a, FileAt fs D a → Entry.first_cluster fs.disk a = 0 ∨
    Entry.first_cluster fs.disk a ∈ H \ D ∧ own (Entry.first_cluster fs.disk a) = a
  dir : ∀ a, DirAt fs D a → Entry.first_cluster fs.disk a = 0 ∨ Entry.first_cluster fs.disk a ∈ D
  handle : ∀ h ∈ hs, HandleOk fs H D own h

/-- 項目の残っている、ファイルのノード。 -/
def Vol.live (v : Vol) : Set Handle :=
  { h | (∃ k, v.handles k = some h) ∧ h.node.flags = FS_FILE ∧ h.unlinked = false }

def Vol.dir_set (v : Vol) : Set Nat := { d | d ∈ v.dirs }

/-- 操作の列の不変条件。 -/
def Vol.Ok (v : Vol) : Prop := ∃ H own, Tracked v.fs H v.dir_set own v.live

/-! ## 書き込みの条件 -/

/-- ノードの項目は消されておらず、`fat12_update_dir_entry` が根から名前で探す項目は、その項目であるか、ない。 -/
def UpdatesOwn (fs : Fs) (h : Handle) : Prop :=
  h.unlinked = false ∧ (root_target fs h.node.name = some h.slot ∨ root_target fs h.node.name = none)

/-- さらに、項目の最初のクラスタはノードのものであり、クラスタのないノードの項目は更新される。 -/
def InSync (fs : Fs) (h : Handle) : Prop :=
  UpdatesOwn fs h ∧
    (h.node.inode = 0 ∧ root_target fs h.node.name = some h.slot ∨
      h.node.inode ≠ 0 ∧ Entry.first_cluster fs.disk h.slot = h.node.inode)

instance (fs : Fs) (h : Handle) : Decidable (UpdatesOwn fs h) := inferInstanceAs (Decidable (_ ∧ _))
instance (fs : Fs) (h : Handle) : Decidable (InSync fs h) := inferInstanceAs (Decidable (_ ∧ _))

/-- 書き込みの前の状態とノードが `P` を満たす。 -/
def WritesMeet (P : Fs → Handle → Nat → Prop) (v : Vol) : VolOp → Prop
  | .write k size units _ => ∀ h, v.handles k = some h → P v.fs h (mul32 size units)
  | _ => True

instance (P : Fs → Handle → Nat → Prop) [∀ fs h n, Decidable (P fs h n)] (v : Vol) (op : VolOp) :
    Decidable (WritesMeet P v op) :=
  match op with
  | .write k size units _ => inferInstanceAs (Decidable (∀ h ∈ v.handles k, P v.fs h (mul32 size units)))
  | .find .. | .create .. | .mkdir .. | .unlink .. | .seek .. => .isTrue trivial

/-!
## ファイルの大きさと鎖の長さ

大きさは、項目とノードのそれぞれにある。どちらも、鎖のクラスタの数だけの容量に収まるはずである。
-/

/-- `cluster` から終わりまでのクラスタの数。 -/
def chain_length (fs : Fs) : Nat → Nat → Nat
  | 0, _ => 0
  | fuel + 1, cluster =>
      match fatNext fs cluster with
      | some next => chain_length fs fuel next + 1
      | none => 1

/-- 先頭が `inode` の鎖のクラスタの数。0 は、クラスタのないことを表す。 -/
def node_clusters (fs : Fs) (inode : Nat) : Nat := if inode = 0 then 0 else chain_length fs maxChain inode

def free_clusters (fs : Fs) : Nat := (List.range' 2 fs.total_clusters).countP fun c => fat_entry_raw fs c = 0

/-- 大きさは、鎖の容量を超えない。 -/
def Fits (fs : Fs) (inode size : Nat) : Prop := size ≤ node_clusters fs inode * bytes_per_cluster fs

instance (fs : Fs) (inode size : Nat) : Decidable (Fits fs inode size) := inferInstanceAs (Decidable (_ ≤ _))

structure Sized (v : Vol) : Prop where
  entry : ∀ a, FileAt v.fs v.dir_set a → Fits v.fs (Entry.first_cluster v.fs.disk a) (Entry.file_size v.fs.disk a)
  node : ∀ h ∈ v.live, Fits v.fs h.node.inode h.node.size

/-- 書き込みが何もしないか、位置が、鎖を空きクラスタのすべてで伸ばした先を超えない。 -/
def Reachable (fs : Fs) (h : Handle) (total : Nat) : Prop :=
  total = 0 ∨ h.node.inode = 0 ∧ free_clusters fs = 0 ∨
    h.node.seek_offset ≤ node_clusters fs h.node.inode * bytes_per_cluster fs ∨
    h.node.seek_offset + total < 2 ^ 32 ∧
      h.node.seek_offset ≤ (node_clusters fs h.node.inode + free_clusters fs) * bytes_per_cluster fs

instance (fs : Fs) (h : Handle) (total : Nat) : Decidable (Reachable fs h total) :=
  inferInstanceAs (Decidable (_ ∨ _))

/-! ## 同じファイルの二つのノード -/

/-- ボリュームと、項目 `a` のノードを通して書かれた範囲の終わり。 -/
structure Watch where
  vol : Vol
  top : Nat

/-- 項目 `a` のノードへの書き込みが終わる位置。一つも書けなければ 0。 -/
def write_end (a : Nat) (v : Vol) : VolOp → Nat
  | .write k size units buffer =>
      match v.handles k with
      | some h =>
          if h.slot = a then
            match fat12_write_fs v.fs h.node size units buffer with
            | some (_, _, n) => if n = 0 then 0 else h.node.seek_offset + n
            | none => 0
          else 0
      | none => 0
  | _ => 0

def Watch.step (a : Nat) (w : Watch) (op : VolOp) : Option Watch :=
  (w.vol.step op).map fun v => ⟨v, max w.top (write_end a w.vol op)⟩

/-- 鎖を空きクラスタのすべてで伸ばしたときの容量。 -/
def capacity (fs : Fs) (inode : Nat) : Nat :=
  (node_clusters fs inode + free_clusters fs) * bytes_per_cluster fs

/-- 書き込みが何もしないか、更新される項目の大きさをノードか書く範囲が覆うか、更新されない項目の大きさの中に書く。 -/
def Covers (fs : Fs) (h : Handle) (total : Nat) : Prop :=
  let size := Entry.file_size fs.disk h.slot
  let seek := h.node.seek_offset
  total = 0 ∨ h.node.inode = 0 ∧ free_clusters fs = 0 ∨
    root_target fs h.node.name = some h.slot ∧
      (size ≤ h.node.size ∨ size ≤ seek ∨
        seek + total < 2 ^ 32 ∧ size ≤ seek + total ∧
          (seek + total ≤ capacity fs h.node.inode ∨
            size + bytes_per_cluster fs ≤ capacity fs h.node.inode)) ∨
    root_target fs h.node.name = none ∧ (2 ^ 32 ≤ seek + total ∨ seek + total ≤ size)

instance (fs : Fs) (h : Handle) (total : Nat) : Decidable (Covers fs h total) :=
  inferInstanceAs (Decidable (_ ∨ _))

/-- 開くこと、位置の変更、書き込みだけからなり、書き込みは自身の項目だけを更新し、`a` のノードへの書き込みは
項目の大きさを覆う。 -/
def Shares (a : Nat) (w : Watch) : VolOp → Prop
  | .find .. | .seek .. => True
  | .write k size units _ => ∀ h, w.vol.handles k = some h →
      UpdatesOwn w.vol.fs h ∧ (h.slot = a → Covers w.vol.fs h (mul32 size units))
  | .create .. | .mkdir .. | .unlink .. => False

instance (a : Nat) (w : Watch) (op : VolOp) : Decidable (Shares a w op) :=
  match op with
  | .find .. | .seek .. => .isTrue trivial
  | .write k size units _ => inferInstanceAs (Decidable (∀ h ∈ w.vol.handles k,
      UpdatesOwn w.vol.fs h ∧ (h.slot = a → Covers w.vol.fs h (mul32 size units))))
  | .create .. | .mkdir .. | .unlink .. => .isFalse id

end MyOS.Fat
