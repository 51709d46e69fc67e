import MyOS.Fat.Chain
import MyOS.Lib.Pack12

/-!
# ボリュームの検出（fs/fat12.c）

`init_fat12` は、ブートセクタの欄から配置を計算する。検査するのは、読み込みの成否とセクタの大きさだけである。
-/

namespace MyOS.Fat
open MyOS.Lib ByteMem

/-- ATA の装置。`read_ok` は、先頭のセクタとセクタの数に対して、読み込みの成否を表す。 -/
structure Device where
  present : Bool
  read_ok : Nat → Nat → Bool
  disk : ByteMem

def load16 (m : ByteMem) (a : Nat) : Nat := (m a).toNat + 256 * (m (a + 1)).toNat

/-- `fat12_bpb_t` のうち、配置の計算に使う欄。 -/
structure BootSector where
  bytes_per_sector : Nat
  sectors_per_cluster : Nat
  reserved_sectors : Nat
  num_fats : Nat
  root_entry_count : Nat
  total_sectors_16 : Nat
  fat_size_sectors : Nat
  total_sectors_32 : Nat
deriving DecidableEq

def BootSector.read (m : ByteMem) (a : Nat) : BootSector where
  bytes_per_sector := load16 m (a + 11)
  sectors_per_cluster := (m (a + 13)).toNat
  reserved_sectors := load16 m (a + 14)
  num_fats := (m (a + 16)).toNat
  root_entry_count := load16 m (a + 17)
  total_sectors_16 := load16 m (a + 19)
  fat_size_sectors := load16 m (a + 22)
  total_sectors_32 := load32 m (a + 32)

def BootSector.bpb (b : BootSector) : Bpb :=
  ⟨b.bytes_per_sector, b.sectors_per_cluster, b.num_fats, b.root_entry_count, b.fat_size_sectors⟩

def BootSector.total_sectors (b : BootSector) : Nat :=
  if b.total_sectors_16 ≠ 0 then b.total_sectors_16 else b.total_sectors_32

def BootSector.root_dir_sectors (b : BootSector) : Nat :=
  (b.root_entry_count * 32 + (b.bytes_per_sector - 1)) / b.bytes_per_sector

/-- `divide_error` は 0 での割り算、`rejected` は途中で戻ることを表す。 -/
inductive InitResult
  | divide_error
  | rejected
  | ready (fs : Fs)

def init_fat12 (dev : Device) (lba_offset : Nat) : InitResult :=
  if dev.present = false then .rejected
  else if dev.read_ok lba_offset 1 = false then .rejected
  else
    let b := BootSector.read dev.disk (lba_offset * ATA_SECTOR_SIZE)
    if b.bytes_per_sector ≠ 512 then .rejected
    else
      let fat_lba := add32 lba_offset b.reserved_sectors
      let root_lba := add32 fat_lba (mul32 b.num_fats b.fat_size_sectors)
      let data_lba := add32 root_lba b.root_dir_sectors
      let fat_bytes := mul32 b.fat_size_sectors b.bytes_per_sector
      if dev.read_ok fat_lba b.fat_size_sectors = false then .rejected
      else
        let data_sectors := add32 (sub32 b.total_sectors data_lba) lba_offset
        if b.sectors_per_cluster = 0 then .divide_error
        else .ready
          { root_inode := FAT12_ROOT_INODE
            bpb := b.bpb
            fat_lba := fat_lba
            root_lba := root_lba
            data_lba := data_lba
            fat_cache := Array.ofFn fun i : Fin fat_bytes => dev.disk (fat_lba * ATA_SECTOR_SIZE + i)
            total_clusters := data_sectors / b.sectors_per_cluster
            disk := dev.disk }

/-! ## 安全な配置 -/

/-- 配置は `total` 個のセクタに収まり、どのクラスタの項目も表の中にある。 -/
structure SafeGeometry (total : Nat) (fs : Fs) : Prop where
  data : fs.data_lba ≤ total
  table : ∀ i, 2 ≤ i → i < fs.total_clusters + 2 → Pack12.offset i + 1 < fs.fat_cache.size
  sectors : ∀ i, 2 ≤ i → i < fs.total_clusters + 2 → fs.data_lba ≤ fat12_cluster_to_lba fs i ∧
    fat12_cluster_to_lba fs i + fs.bpb.sectors_per_cluster ≤ total

/-- 戻らないことはなく、戻らずに使われる配置は安全である。 -/
def InitOk (total : Nat) : InitResult → Prop
  | .divide_error => False
  | .rejected => True
  | .ready fs => SafeGeometry total fs

/-- 装置がないか、読み込みに失敗するか、セクタの大きさが 512 でない。 -/
def Rejects (dev : Device) : Prop :=
  let b := BootSector.read dev.disk 0
  dev.present = false ∨ dev.read_ok 0 1 = false ∨ b.bytes_per_sector ≠ 512 ∨
    dev.read_ok b.reserved_sectors b.fat_size_sectors = false

/-- データより前のセクタの数。 -/
def BootSector.meta_sectors (b : BootSector) : Nat :=
  b.reserved_sectors + b.num_fats * b.fat_size_sectors + b.root_dir_sectors

/-- クラスタの大きさは 0 でなく、データはボリュームの中から始まり、表にはどのクラスタの項目も入る。 -/
def BootSector.Sound (b : BootSector) : Prop :=
  b.sectors_per_cluster ≠ 0 ∧ b.meta_sectors ≤ b.total_sectors ∧
    let clusters := (b.total_sectors - b.meta_sectors) / b.sectors_per_cluster
    clusters = 0 ∨ Pack12.offset (clusters + 1) + 1 < b.fat_size_sectors * 512

instance (b : BootSector) : Decidable b.Sound := inferInstanceAs (Decidable (_ ∧ _))

end MyOS.Fat
