import MyOS.Lib.Bytes

/-!
# FAT12 のファイル割り当て表（fs/fat12.c）

表は 12 ビットの項目を詰めたバイト列 `fat_cache` である。ディスクはバイトの列とし、
`ata_read_sectors` と `ata_write_sectors` は必ず成功する。
-/

namespace MyOS.Fat
open MyOS.Lib

def ATA_SECTOR_SIZE : Nat := 512
def FAT12_ROOT_INODE : Nat := 0xFFFFFFFF

/-- `fat12_bpb_t` のうち、読み書きに使う欄。 -/
structure Bpb where
  bytes_per_sector : Nat
  sectors_per_cluster : Nat
  num_fats : Nat
  root_entry_count : Nat
  fat_size_sectors : Nat
deriving DecidableEq, Repr

/-- `fat12_fs_t`、根のノードの番号 `fat12_root.inode`、その先のディスク。 -/
structure Fs where
  root_inode : Nat
  bpb : Bpb
  fat_lba : Nat
  root_lba : Nat
  data_lba : Nat
  fat_cache : Array UInt8
  total_clusters : Nat
  disk : ByteMem

/-! ## セクタの読み書き -/

def ata_read_sectors (fs : Fs) (lba : Nat) : ByteMem :=
  fun i => fs.disk (lba * ATA_SECTOR_SIZE + i)

def ata_write_sectors (fs : Fs) (lba count : Nat) (buffer : ByteMem) : Fs :=
  { fs with disk := fun x =>
      if lba * ATA_SECTOR_SIZE ≤ x ∧ x < (lba + count) * ATA_SECTOR_SIZE then
        buffer (x - lba * ATA_SECTOR_SIZE)
      else fs.disk x }

/-! ## 表の項目 -/

def cacheByte (fs : Fs) (i : Nat) : UInt8 := fs.fat_cache.getD i 0

/-- 12 ビットの項目をそのまま取り出す。 -/
def fat_entry_raw (fs : Fs) (cluster : Nat) : UInt16 :=
  let offset := cluster + cluster / 2
  if cluster % 2 = 1 then
    (cacheByte fs offset >>> 4).toUInt16 ||| ((cacheByte fs (offset + 1)).toUInt16 <<< 4)
  else
    (cacheByte fs offset).toUInt16 ||| ((cacheByte fs (offset + 1) &&& (0x0F : UInt8)).toUInt16 <<< 8)

def fat12_get_fat_entry (fs : Fs) (cluster : Nat) : Nat :=
  let fat_entry := (fat_entry_raw fs cluster).toNat
  if fat_entry ≥ 0xFF8 then 0xFFFF
  else if fat_entry = 0xFF7 then 0xFFFF
  else fat_entry

def fat12_set_fat_entry (fs : Fs) (cluster : Nat) (value : UInt16) : Fs :=
  let offset := cluster + cluster / 2
  let b0 := cacheByte fs offset
  let b1 := cacheByte fs (offset + 1)
  let c0 := if cluster % 2 = 1 then (b0 &&& (0x0F : UInt8)) ||| ((value &&& (0x0F : UInt16)) <<< 4).toUInt8
    else (value &&& (0xFF : UInt16)).toUInt8
  let c1 := if cluster % 2 = 1 then (value >>> 4).toUInt8
    else (b1 &&& (0xF0 : UInt8)) ||| ((value >>> 8) &&& (0x0F : UInt16)).toUInt8
  { fs with fat_cache := (fs.fat_cache.setIfInBounds offset c0).setIfInBounds (offset + 1) c1 }

def fat12_flush_fat (fs : Fs) : Fs :=
  (List.range fs.bpb.num_fats).foldl (fun fs i =>
    ata_write_sectors fs (fs.fat_lba + i * fs.bpb.fat_size_sectors) fs.bpb.fat_size_sectors
      (cacheByte fs)) fs

/-! ## クラスタの確保と解放 -/

/-- 最初の空きクラスタの番号を返す。空きがなければ 0。 -/
def fat12_allocate_cluster (fs : Fs) : Fs × Nat :=
  match (List.range' 2 fs.total_clusters).find? (fun i => fat12_get_fat_entry fs i == 0) with
  | some i => (fat12_set_fat_entry fs i 0xFFF, i)
  | none => (fs, 0)

/-- 項目は 12 ビットなので、これだけたどって終わらない鎖は輪である。 -/
def maxChain : Nat := 4098

def free_cluster_loop : Nat → Nat → Fs → Option Fs
  | 0, _, _ => none
  | fuel + 1, cluster, fs =>
      if cluster ≠ 0xFFFF ∧ cluster ≥ 2 then
        free_cluster_loop fuel (fat12_get_fat_entry fs cluster) (fat12_set_fat_entry fs cluster 0)
      else some fs

/-- `none` は、鎖をたどる繰り返しが終わらないことを表す。 -/
def fat12_free_cluster_chain (fs : Fs) (cluster : Nat) : Option Fs :=
  free_cluster_loop maxChain cluster fs

/-!
## クラスタの鎖の書き込み（fs/fat12.c）

`fat12_write_chain` は、鎖をたどりながらクラスタを読み、書き換え、書き戻す。鎖が足りなければ、
繰り返しの中の二か所のどちらかで空きクラスタを末尾につなぐ。
-/

def bytes_per_cluster (fs : Fs) : Nat := fs.bpb.sectors_per_cluster * fs.bpb.bytes_per_sector

def fat12_cluster_to_lba (fs : Fs) (cluster : Nat) : Nat :=
  add32 fs.data_lba (mul32 (sub32 cluster 2) fs.bpb.sectors_per_cluster)

def fat12_read_cluster (fs : Fs) (cluster : Nat) : ByteMem :=
  ata_read_sectors fs (fat12_cluster_to_lba fs cluster)

def fat12_write_cluster (fs : Fs) (cluster : Nat) (buffer : ByteMem) : Fs :=
  ata_write_sectors fs (fat12_cluster_to_lba fs cluster) fs.bpb.sectors_per_cluster buffer

/-- 空きクラスタを確保して `current` の次につなぐ。空きがなければ 0 を返す。 -/
def append_cluster (fs : Fs) (current : Nat) : Fs × Nat :=
  let (fs, new_cluster) := fat12_allocate_cluster fs
  if new_cluster = 0 then (fs, 0)
  else (fat12_set_fat_entry fs current (UInt16.ofNat new_cluster), new_cluster)

/-- クラスタの中で書き換える範囲の始まりと終わり。 -/
def write_span (bytes_per_cluster offset total_end clust_start clust_end : Nat) : Nat × Nat :=
  (if offset > clust_start then sub32 offset clust_start else 0,
    if total_end < clust_end then sub32 total_end clust_start else bytes_per_cluster)

/-- クラスタ `current` の内容のうち `[offset, total_end)` に当たる部分を書き換えたもの。
`buffer` の `none` は NULL を表す。 -/
def write_buf (fs : Fs) (offset total_end : Nat) (buffer : Option ByteMem)
    (current clust_start clust_end : Nat) : ByteMem :=
  let cluster_buf := fat12_read_cluster fs current
  let span := write_span (bytes_per_cluster fs) offset total_end clust_start clust_end
  let start := span.1
  let len := sub32 span.2 start
  let buf_offset := if clust_start > offset then sub32 clust_start offset else 0
  match buffer with
  | some buffer => fun i =>
      if start ≤ i ∧ i < start + len then buffer (buf_offset + (i - start)) else cluster_buf i
  | none => cluster_buf

def write_into (fs : Fs) (offset total_end : Nat) (buffer : Option ByteMem)
    (current clust_start clust_end : Nat) : Fs :=
  fat12_write_cluster fs current (write_buf fs offset total_end buffer current clust_start clust_end)

/-- 繰り返しを抜けた後の戻り値。 -/
def write_actual (offset size total_end bytes_written : Nat) : Nat :=
  if total_end > offset then
    if bytes_written > total_end then size
    else if bytes_written > offset then bytes_written - offset else 0
  else 0

/-- `memcpy` の長さが桁あふれし、バッファの外まで写そうとする。 -/
def memcpy_overruns (bytes_per_cluster offset total_end : Nat) (buffer : Option ByteMem)
    (bytes_written : Nat) : Bool :=
  let clust_end := add32 bytes_written bytes_per_cluster
  let span := write_span bytes_per_cluster offset total_end bytes_written clust_end
  decide (clust_end > offset ∧ bytes_written < total_end ∧ buffer.isSome ∧ span.2 < span.1)

/-- 一つのクラスタを処理する。`none` は、一か所目で空きがなく途中で戻ることを表す。 -/
def write_cluster_step (fs : Fs) (offset total_end : Nat) (buffer : Option ByteMem)
    (bytes_written current : Nat) : Option (Fs × Nat) :=
  let next := fat12_get_fat_entry fs current
  let clust_start := bytes_written
  let clust_end := add32 bytes_written (bytes_per_cluster fs)
  if clust_end > offset ∧ clust_start < total_end then
    if next = 0xFFFF ∧ clust_end < total_end then
      let (fs, new_cluster) := append_cluster fs current
      if new_cluster = 0 then none
      else some (write_into fs offset total_end buffer current clust_start clust_end, new_cluster)
    else some (write_into fs offset total_end buffer current clust_start clust_end, next)
  else some (fs, next)

def write_chain_loop (offset size total_end : Nat) (buffer : Option ByteMem) :
    Nat → Nat → Nat → Fs → Option (Fs × Nat)
  | 0, _, _, _ => none
  | fuel + 1, bytes_written, current, fs =>
      if current ≠ 0xFFFF ∧ bytes_written < total_end then
        if memcpy_overruns (bytes_per_cluster fs) offset total_end buffer bytes_written then none
        else match write_cluster_step fs offset total_end buffer bytes_written current with
        | none => some (fs, if bytes_written > offset then bytes_written - offset else 0)
        | some (fs, next) =>
            let bytes_written := add32 bytes_written (bytes_per_cluster fs)
            if next = 0xFFFF ∧ bytes_written < total_end then
              let (fs, new_cluster) := append_cluster fs current
              if new_cluster = 0 then some (fs, write_actual offset size total_end bytes_written)
              else write_chain_loop offset size total_end buffer fuel bytes_written new_cluster fs
            else write_chain_loop offset size total_end buffer fuel bytes_written next fs
      else some (fs, write_actual offset size total_end bytes_written)

/-- `none` は、鎖をたどる繰り返しが終わらないか、`memcpy` がバッファの外に出ることを表す。 -/
def fat12_write_chain (fs : Fs) (first_cluster offset size : Nat) (buffer : Option ByteMem) :
    Option (Fs × Nat) :=
  write_chain_loop offset size (add32 offset size) buffer maxChain 0 first_cluster fs

end MyOS.Fat
