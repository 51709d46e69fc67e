import MyOS.Fat.Read
import MyOS.Fat.Tracked

/-!
# 操作の効果

作成、削除、失敗のそれぞれについて、呼び出しの前後で変わるものと、変わらないもの。
-/

namespace MyOS.Fat
open MyOS.Lib

/-! ## ディレクトリの条件 -/

/-- 根か、範囲の中で終わる鎖である。ほかの項目は何でもよい。 -/
structure DirOk (fs : Fs) (inode : Nat) : Prop where
  bound : fs.total_clusters + 2 ≤ 0xFF7
  cache : Pack12.offset (fs.total_clusters + 1) + 1 < fs.fat_cache.size
  chain : inode = FAT12_ROOT_INODE ∨ inode ≠ FAT12_ROOT_INODE ∧ ∃ l, ChainOk fs inode l

def slots (fs : Fs) (inode : Nat) : List Nat := dir_slots (dir_groups fs inode)

def live (fs : Fs) (inode : Nat) : List Nat := live_entries fs.disk (slots fs inode)

/-- 最初の 0x00 の項目の後は、すべて 0x00 である。 -/
def Ended (fs : Fs) (inode : Nat) : Prop :=
  ∀ a ∈ (slots fs inode).dropWhile (fun a => fs.disk a ≠ 0), fs.disk a = 0

/-- 有効な項目の名前は、大文字と小文字の違いを除いても互いに異なる。 -/
def Distinct (fs : Fs) (inode : Nat) : Prop :=
  (live fs inode).Pairwise fun a b =>
    strcasecmp_fat (fat12_entry_to_name fs.disk a) (fat12_entry_to_name fs.disk b) ≠ 0

instance (fs : Fs) (inode : Nat) : Decidable (Ended fs inode) := inferInstanceAs (Decidable (∀ a ∈ _, _))
instance (fs : Fs) (inode : Nat) : Decidable (Distinct fs inode) := inferInstanceAs (Decidable (List.Pairwise _ _))

/-- 8.3 形式の名前。 -/
def Name83 (name : List UInt8) : Prop :=
  ∃ base ext : List UInt8, name = base ++ (if ext = [] then [] else 0x2E :: ext) ∧
    base ≠ [] ∧ base.length ≤ 8 ∧ ext.length ≤ 3 ∧ (∀ c ∈ base ++ ext, c ≠ 0 ∧ c ≠ 0x20 ∧ c ≠ 0x2E) ∧
    base.head? ≠ some 0xE5

/-- 先頭の文字を問わない 8.3 形式の名前。 -/
def Valid83 (name : List UInt8) : Prop :=
  ∃ base ext : List UInt8, name = base ++ (if ext = [] then [] else 0x2E :: ext) ∧
    base ≠ [] ∧ base.length ≤ 8 ∧ ext.length ≤ 3 ∧ ∀ c ∈ base ++ ext, c ≠ 0 ∧ c ≠ 0x20 ∧ c ≠ 0x2E

/-- 項目に書いて読み戻しても、大文字になるほかは変わらない名前。 -/
structure Kept83 (name : List UInt8) : Prop where
  ne_nil : name ≠ []
  no_zero : 0 ∉ name
  decoded : fat12_entry_to_name (Entry.write (fun _ => 0) 0 (new_entry name 0x20 0)) 0 = name.map upper
  first : name.head? ≠ some 0xE5

/-- 項目の 11 バイトの名前。 -/
def entry_83 (m : ByteMem) (a : Nat) : List UInt8 × List UInt8 := (Entry.name m a, Entry.ext m a)

/-- 有効な項目の 11 バイトの名前は、互いに異なる。 -/
def Unique83 (fs : Fs) (inode : Nat) : Prop := ((live fs inode).map (entry_83 fs.disk)).Nodup

instance (fs : Fs) (inode : Nat) : Decidable (Unique83 fs inode) := inferInstanceAs (Decidable (List.Nodup _))

/-- どのディレクトリの名前も互いに異なり、最初の 0x00 の項目の後は 0x00 である。 -/
def Vol.NamesOk (v : Vol) : Prop := ∀ d, IsDir v.dir_set d → Unique83 v.fs d ∧ Ended v.fs d

/-- 作る名前は、8.3 形式で変わらない。 -/
def KeepsNames (_ : Vol) : VolOp → Prop
  | .create _ _ name | .mkdir _ name => Kept83 name
  | .unlink .. => True
  | .find .. | .write .. | .seek .. => False

/-! ## 変わるもの -/

/-- 名前 `name` の項目と、鎖 `chain` だけがなくなった。 -/
structure Removed (fs fs' : Fs) (dir : Node) (name : List UInt8) (chain : List Nat) : Prop where
  gone : fat12_finddir_fs fs' dir name = some none
  others : ∀ other, 0 ∉ other → strcasecmp_fat other name ≠ 0 →
    fat12_finddir_fs fs' dir other = fat12_finddir_fs fs dir other
  freed : ∀ c, fat_entry_raw fs' c = if c ∈ chain then 0 else fat_entry_raw fs c
  distinct : Distinct fs' dir.inode
  ended : Ended fs' dir.inode

/-- 名前 `name` の項目だけが加わった。 -/
structure Added (fs fs' : Fs) (dir : Node) (name : List UInt8) (flags : UInt8) (cluster a : Nat) : Prop where
  made : fat12_finddir_fs fs' dir name = some (some (⟨name.map upper, flags, 0, cluster, 0⟩, a))
  chain : cluster = 0 ∧ Full fs ∨
    InRange fs cluster ∧ fat_entry_raw fs cluster = 0 ∧ Follows (fatNext fs') cluster [cluster]
  others : ∀ other, 0 ∉ other → strcasecmp_fat other name ≠ 0 →
    fat12_finddir_fs fs' dir other = fat12_finddir_fs fs dir other
  ended : Ended fs' dir.inode

/-! ## 変わらないもの -/

/-- NULL か −1 が返った。 -/
def Failed (fs : Fs) (dir : Node) (name : List UInt8) (fs' : Fs) : Prop :=
  fat12_create_file fs dir name = some (fs', none) ∨ fat12_mkdir fs dir name = some (fs', none) ∨
    fat12_unlink fs dir name = some (fs', none)

/-- 表、ディスクの上の表の写し、根のディレクトリ、鎖のクラスタのどれもが同じである。 -/
structure VolumeKept (fs fs' : Fs) (H : Set Nat) : Prop where
  cache : fs'.fat_cache = fs.fat_cache
  copies : ∀ x, x < fs.root_lba * ATA_SECTOR_SIZE → fs'.disk x = fs.disk x
  root : ∀ x, fs.root_lba * ATA_SECTOR_SIZE ≤ x → x < fs.data_lba * ATA_SECTOR_SIZE → fs'.disk x = fs.disk x
  chains : ∀ h ∈ H, ∀ l, Follows (fatNext fs) h l → ∀ c ∈ l, ∀ x, InCluster fs c x → fs'.disk x = fs.disk x

end MyOS.Fat
