import MyOS.Fat.Chain
import MyOS.Fat.Dir
import MyOS.Lib.Chain
import MyOS.Lib.Pack12

/-!
# 表の不変条件

`H` は使用中の鎖の先頭の集合である。どの鎖も範囲の中で終わり、互いに交わらず、0 でない項目は
どれかの鎖に属するか、不良クラスタの印である。
-/

namespace MyOS.Fat
open MyOS.Lib

/-- `fat12_get_fat_entry` を 0xFFFF までたどるときの次のクラスタ。 -/
def fatNext (fs : Fs) (cluster : Nat) : Option Nat :=
  if fat12_get_fat_entry fs cluster = 0xFFFF then none else some (fat12_get_fat_entry fs cluster)

def InRange (fs : Fs) (cluster : Nat) : Prop :=
  2 ≤ cluster ∧ cluster < fs.total_clusters + 2

structure FatOk (fs : Fs) (H : Set Nat) : Prop where
  bound : fs.total_clusters + 2 ≤ 0xFF7
  cache : Pack12.offset (fs.total_clusters + 1) + 1 < fs.fat_cache.size
  chains : ChainSet (fatNext fs) H (InRange fs)
  owned : ∀ c, InRange fs c → fat12_get_fat_entry fs c ≠ 0 →
    Owned (fatNext fs) H c ∨ fat_entry_raw fs c = 0xFF7

/-- `first` の鎖は `l` で、範囲の中にある。ほかの項目は何でもよい。 -/
structure ChainOk (fs : Fs) (first : Nat) (l : List Nat) : Prop where
  bound : fs.total_clusters + 2 ≤ 0xFF7
  cache : Pack12.offset (fs.total_clusters + 1) + 1 < fs.fat_cache.size
  follows : Follows (fatNext fs) first l
  range : ∀ c ∈ l, InRange fs c

/-- ディスクの番地 `x` はクラスタ `cluster` の中にある。 -/
def InCluster (fs : Fs) (cluster x : Nat) : Prop :=
  fat12_cluster_to_lba fs cluster * ATA_SECTOR_SIZE ≤ x ∧
    x < (fat12_cluster_to_lba fs cluster + fs.bpb.sectors_per_cluster) * ATA_SECTOR_SIZE

/-- `fs'` の表とディスクは、`l` のクラスタの外で `fs` と等しい。 -/
structure SameOutside (fs fs' : Fs) (l : List Nat) : Prop where
  root_inode : fs'.root_inode = fs.root_inode
  bpb : fs'.bpb = fs.bpb
  fat_lba : fs'.fat_lba = fs.fat_lba
  root_lba : fs'.root_lba = fs.root_lba
  total_clusters : fs'.total_clusters = fs.total_clusters
  data_lba : fs'.data_lba = fs.data_lba
  size : fs'.fat_cache.size = fs.fat_cache.size
  entry : ∀ c, c ∉ l → fat_entry_raw fs' c = fat_entry_raw fs c
  disk : ∀ x, (∀ c ∈ l, ¬ InCluster fs c x) → fs'.disk x = fs.disk x

/-- `h` の鎖 `l` の末尾に、空いていたクラスタ `ext` だけが順につながった。 -/
structure Appended (fs fs' : Fs) (h : Nat) (l ext : List Nat) : Prop where
  before : Follows (fatNext fs) h l
  after : Follows (fatNext fs') h (l ++ ext)
  free : ∀ c ∈ ext, InRange fs c ∧ fat_entry_raw fs c = 0
  same : SameOutside fs fs' (l ++ ext)

/-! ## 書き込みの跡 -/

/-- 空きクラスタがない。 -/
def Full (fs : Fs) : Prop := ∀ c, InRange fs c → fat_entry_raw fs c ≠ 0

/-- `write_chain_loop` が `fat12_write_cluster` に渡すクラスタを、書く順に並べたもの。 -/
def write_log (offset total_end : Nat) (buffer : Option ByteMem) : Nat → Nat → Nat → Fs → List Nat
  | 0, _, _, _ => []
  | fuel + 1, bytes_written, current, fs =>
      if current ≠ 0xFFFF ∧ bytes_written < total_end then
        match write_cluster_step fs offset total_end buffer bytes_written current with
        | none => []
        | some (fs₁, next) =>
            let clust_end := add32 bytes_written (bytes_per_cluster fs₁)
            (if clust_end > offset then [current] else []) ++
              if next = 0xFFFF ∧ clust_end < total_end then
                let (fs₂, new_cluster) := append_cluster fs₁ current
                if new_cluster = 0 then []
                else write_log offset total_end buffer fuel clust_end new_cluster fs₂
              else write_log offset total_end buffer fuel clust_end next fs₁
      else []

/-- 書いた量 `n` と、書いた後の鎖の長さ `len`。全部書けたか、空きがなくなって最後のクラスタの前後で止まったかの
どちらかである。 -/
def Stored (fs : Fs) (offset size n len : Nat) : Prop :=
  n = size ∧ offset + size ≤ len * bytes_per_cluster fs ∨
    Full fs ∧ n ≤ size ∧ len * bytes_per_cluster fs < offset + size ∧
      len * bytes_per_cluster fs ≤ offset + n + bytes_per_cluster fs ∧
      (n ≠ 0 → offset + n ≤ len * bytes_per_cluster fs)

/-!
## 整ったボリューム

ディスクは、表、根のディレクトリ、クラスタの順に並ぶ。`H` は鎖の先頭の集合、`D` はそのうち
ディレクトリのものである。
-/

/-- `init_fat12` が計算する配置。 -/
structure Layout (fs : Fs) : Prop where
  root_inode : fs.root_inode = FAT12_ROOT_INODE
  bytes_per_sector : fs.bpb.bytes_per_sector = 512
  sectors_per_cluster : fs.bpb.sectors_per_cluster < 256
  root_lba : fs.root_lba = fs.fat_lba + fs.bpb.num_fats * fs.bpb.fat_size_sectors
  data_lba : fs.data_lba = fs.root_lba + root_dir_sectors fs
  data_end : fs.data_lba + fs.total_clusters * fs.bpb.sectors_per_cluster < 2 ^ 32

/-- `a` は、根か `D` のディレクトリの項目の番地である。 -/
def IsSlot (fs : Fs) (D : Set Nat) (a : Nat) : Prop :=
  (∃ s < root_dir_sectors fs, ∃ i < (root_group fs s).entries, a = (root_group fs s).slot i) ∨
    ∃ c, Owned (fatNext fs) D c ∧ ∃ i < (cluster_group fs c).entries, a = (cluster_group fs c).slot i

def IsDir (D : Set Nat) (inode : Nat) : Prop := inode = FAT12_ROOT_INODE ∨ inode ∈ D

/-- ファイルの項目は空か、`D` にない鎖を指す。ディレクトリの項目は根か `D` を指す。 -/
structure EntryOk (fs : Fs) (H D : Set Nat) (a : Nat) : Prop where
  file : Entry.attributes fs.disk a &&& (0x10 : UInt8) = 0 →
    (Entry.first_cluster fs.disk a = 0 ∨ Entry.first_cluster fs.disk a ∈ H \ D) ∧
      Entry.file_size fs.disk a < 0xFFFFFFFF
  dir : Entry.attributes fs.disk a &&& (0x10 : UInt8) ≠ 0 →
    Entry.first_cluster fs.disk a = 0 ∨ Entry.first_cluster fs.disk a ∈ D

structure VolOk (fs : Fs) (H D : Set Nat) : Prop where
  fat : FatOk fs H
  layout : Layout fs
  dirs : D ⊆ H
  entries : ∀ inode, IsDir D inode → ∀ slots, fat12_iterate_dir fs inode = some slots →
    ∀ a ∈ slots, EntryOk fs H D a

/-- 整ったボリュームのディレクトリから得たノードと、その項目の番地。 -/
inductive Obtained (D : Set Nat) : Fs → Node → Nat → Prop
  | finddir {fs : Fs} {H : Set Nat} {dir node : Node} {name : List UInt8} {a : Nat} : VolOk fs H D →
      IsDir D dir.inode → fat12_finddir_fs fs dir name = some (some (node, a)) → Obtained D fs node a
  | create_file {fs fs' : Fs} {H : Set Nat} {dir node : Node} {name : List UInt8} {a : Nat} :
      VolOk fs H D → IsDir D dir.inode → fat12_create_file fs dir name = some (fs', some (node, a)) →
      Obtained D fs' node a

/-- 呼び出しは戻り、項目 `a` は書いた後のノードと一致し、ほかの項目は変わらない。 -/
def EntryKept (fs : Fs) (D : Set Nat) (a : Nat) (r : Option (Fs × Node × Nat)) : Prop :=
  ∃ fs' node' n, r = some (fs', node', n) ∧
    Entry.first_cluster fs'.disk a = node'.inode ∧ Entry.file_size fs'.disk a = node'.size ∧
    ∀ b, IsSlot fs D b → b ≠ a → ∀ k < sizeofDirEntry, fs'.disk (b + k) = fs.disk (b + k)

/-- 根のセクタ `s` の項目 `i` は、0x00 より前にある有効な項目で、名前が `name` と一致する。 -/
def RootMatch (fs : Fs) (name : List UInt8) (a : Nat) : Prop :=
  ∃ s < root_dir_sectors fs, ∃ i < (root_group fs s).entries, a = (root_group fs s).slot i ∧
    (∀ j ≤ i, fs.disk ((root_group fs s).slot j) ≠ 0) ∧ fs.disk a ≠ 0xE5 ∧
    Entry.attributes fs.disk a ≠ 0x0F ∧ strcasecmp_fat (fat12_entry_to_name fs.disk a) name = 0

/-- `a` は、根にある名前 `name` の有効な項目のうち最初のものである。 -/
def FirstRootMatch (fs : Fs) (name : List UInt8) (a : Nat) : Prop :=
  RootMatch fs name a ∧ ∀ b, RootMatch fs name b → a ≤ b

end MyOS.Fat
