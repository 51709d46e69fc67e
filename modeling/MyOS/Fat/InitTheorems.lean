import MyOS.Fat.Init

/-!
# ボリュームの検出の定理

使われる配置が安全なのは、ブートセクタの欄が `BootSector.Sound` を満たすときに限る。
-/

namespace MyOS.Fat
open MyOS.Lib ByteMem

variable {dev : Device} {b : BootSector} {fs : Fs} {m : ByteMem} {a : Nat}

theorem load16_lt (m : ByteMem) (a : Nat) : load16 m a < 2 ^ 16 := by
  have h0 := (m a).toNat_lt
  have h1 := (m (a + 1)).toNat_lt
  unfold load16
  omega

/-- 欄の幅による上限。 -/
structure BootSector.Bounded (b : BootSector) : Prop where
  sectors_per_cluster : b.sectors_per_cluster < 2 ^ 8
  reserved_sectors : b.reserved_sectors < 2 ^ 16
  num_fats : b.num_fats < 2 ^ 8
  root_entry_count : b.root_entry_count < 2 ^ 16
  fat_size_sectors : b.fat_size_sectors < 2 ^ 16
  total_sectors : b.total_sectors < 2 ^ 32

theorem BootSector.read_bounded (m : ByteMem) (a : Nat) : (BootSector.read m a).Bounded := by
  refine ⟨UInt8.toNat_lt _, load16_lt _ _, UInt8.toNat_lt _, load16_lt _ _, load16_lt _ _, ?_⟩
  have h16 := load16_lt m (a + 19)
  have h32 := load32_lt m (a + 32)
  unfold total_sectors BootSector.read
  simp only
  split_ifs <;> omega

theorem BootSector.Bounded.meta_lt (hb : b.Bounded) (h512 : b.bytes_per_sector = 512) :
    b.meta_sectors < 2 ^ 25 := by
  have h1 := hb.reserved_sectors
  have h2 : b.num_fats * b.fat_size_sectors ≤ 255 * 65535 :=
    Nat.mul_le_mul (Nat.le_of_lt_succ hb.num_fats) (Nat.le_of_lt_succ hb.fat_size_sectors)
  have h3 := hb.root_entry_count
  unfold meta_sectors root_dir_sectors
  rw [h512]
  omega

/-- 拒まれないブートセクタから計算する配置。 -/
def geometry (dev : Device) (b : BootSector) : Fs where
  root_inode := FAT12_ROOT_INODE
  bpb := b.bpb
  fat_lba := b.reserved_sectors
  root_lba := b.reserved_sectors + b.num_fats * b.fat_size_sectors
  data_lba := b.meta_sectors
  fat_cache := Array.ofFn fun i : Fin (mul32 b.fat_size_sectors b.bytes_per_sector) =>
    dev.disk (b.reserved_sectors * ATA_SECTOR_SIZE + i)
  total_clusters := sub32 b.total_sectors b.meta_sectors / b.sectors_per_cluster
  disk := dev.disk

theorem init_fat12_eq (dev : Device) : Rejects dev ∧ init_fat12 dev 0 = .rejected ∨
    ¬ Rejects dev ∧ (BootSector.read dev.disk 0).bytes_per_sector = 512 ∧ init_fat12 dev 0 =
      if (BootSector.read dev.disk 0).sectors_per_cluster = 0 then .divide_error
      else .ready (geometry dev (BootSector.read dev.disk 0)) := by
  have hb := BootSector.read_bounded dev.disk 0
  unfold Rejects init_fat12
  rw [Nat.zero_mul]
  generalize BootSector.read dev.disk 0 = b at hb ⊢
  have hfat : b.num_fats * b.fat_size_sectors < 2 ^ 32 :=
    Nat.lt_of_le_of_lt (Nat.mul_le_mul (Nat.le_of_lt_succ hb.num_fats) (Nat.le_of_lt_succ hb.fat_size_sectors))
      (by decide)
  have hres : add32 0 b.reserved_sectors = b.reserved_sectors := by
    have := hb.reserved_sectors
    unfold add32
    omega
  by_cases h1 : dev.present = false
  · exact Or.inl ⟨Or.inl h1, if_pos h1⟩
  by_cases h2 : dev.read_ok 0 1 = false
  · exact Or.inl ⟨Or.inr (Or.inl h2), by rw [if_neg h1, if_pos h2]⟩
  by_cases h3 : b.bytes_per_sector ≠ 512
  · exact Or.inl ⟨Or.inr (Or.inr (Or.inl h3)), by rw [if_neg h1, if_neg h2]; exact if_pos h3⟩
  by_cases h4 : dev.read_ok b.reserved_sectors b.fat_size_sectors = false
  · refine Or.inl ⟨Or.inr (Or.inr (Or.inr h4)), ?_⟩
    rw [if_neg h1, if_neg h2]
    simp only
    rw [if_neg h3, hres, if_pos h4]
  · have h512 := not_not.mp h3
    have hmeta := hb.meta_lt h512
    refine Or.inr ⟨by simp only [not_or]; exact ⟨h1, h2, h3, h4⟩, h512, ?_⟩
    have hroot : add32 b.reserved_sectors (b.num_fats * b.fat_size_sectors) =
        b.reserved_sectors + b.num_fats * b.fat_size_sectors := add32_eq (by unfold BootSector.meta_sectors at hmeta; omega)
    have hdata : add32 (b.reserved_sectors + b.num_fats * b.fat_size_sectors) b.root_dir_sectors =
        b.meta_sectors := add32_eq (by unfold BootSector.meta_sectors at hmeta; omega)
    have hzero : add32 (sub32 b.total_sectors b.meta_sectors) 0 = sub32 b.total_sectors b.meta_sectors := by
      unfold add32 sub32
      omega
    rw [if_neg h1, if_neg h2]
    simp only
    rw [if_neg h3, hres, if_neg h4, mul32_eq hfat, hroot, hdata, hzero]
    split_ifs with h0
    · rfl
    · rfl

theorem geometry_cache_size (hb : b.Bounded) (h512 : b.bytes_per_sector = 512) :
    (geometry dev b).fat_cache.size = b.fat_size_sectors * 512 := by
  have hf := hb.fat_size_sectors
  simp only [geometry, Array.size_ofFn, h512]
  exact mul32_eq (by omega)

theorem offset_mono {i j : Nat} (h : i ≤ j) : Pack12.offset i ≤ Pack12.offset j := by
  unfold Pack12.offset
  omega

theorem geometry_safe_iff (hb : b.Bounded) (h512 : b.bytes_per_sector = 512) (hspc : b.sectors_per_cluster ≠ 0) :
    SafeGeometry b.total_sectors (geometry dev b) ↔ b.Sound := by
  have htotal := hb.total_sectors
  have hsize : (geometry dev b).fat_cache.size = b.fat_size_sectors * 512 := geometry_cache_size hb h512
  by_cases hle : b.meta_sectors ≤ b.total_sectors
  · have hclusters : (geometry dev b).total_clusters =
        (b.total_sectors - b.meta_sectors) / b.sectors_per_cluster := by
      simp only [geometry]
      rw [sub32_eq htotal hle]
    have hroom := Nat.div_mul_le_self (b.total_sectors - b.meta_sectors) b.sectors_per_cluster
    unfold BootSector.Sound
    simp only
    generalize (b.total_sectors - b.meta_sectors) / b.sectors_per_cluster = n at hclusters hroom ⊢
    constructor
    · intro hs
      refine ⟨hspc, hle, ?_⟩
      have htable := hs.table (n + 1)
      rw [hclusters, hsize] at htable
      omega
    · rintro ⟨-, -, htable⟩
      refine ⟨hle, fun i h2 hi => ?_, fun i h2 hi => ?_⟩
      · rw [hclusters] at hi
        have hmono := offset_mono (i := i) (j := n + 1) (by omega)
        rw [hsize]
        omega
      · rw [hclusters] at hi
        have hspan : (i - 2) * b.sectors_per_cluster + b.sectors_per_cluster ≤ n * b.sectors_per_cluster := by
          rw [← Nat.succ_mul]
          exact Nat.mul_le_mul_right _ (by omega)
        have hi32 : i < 2 ^ 32 := by
          have hf := hb.fat_size_sectors
          unfold Pack12.offset at htable
          omega
        have hlba : fat12_cluster_to_lba (geometry dev b) i =
            b.meta_sectors + (i - 2) * b.sectors_per_cluster := by
          unfold fat12_cluster_to_lba
          simp only [geometry, BootSector.bpb]
          rw [sub32_eq hi32 h2, mul32_eq (by omega), add32_eq (by omega)]
        rw [hlba]
        simp only [geometry, BootSector.bpb]
        omega
  · constructor
    · intro hs
      exact absurd hs.data hle
    · intro hs
      exact absurd hs.2.1 hle

/-- 使われる配置が安全なのは、拒まれるか、欄が配置の条件を満たすときに限る。 -/
theorem init_fat12_safe_iff (dev : Device) :
    InitOk (BootSector.read dev.disk 0).total_sectors (init_fat12 dev 0) ↔
      Rejects dev ∨ (BootSector.read dev.disk 0).Sound := by
  have hb := BootSector.read_bounded dev.disk 0
  rcases init_fat12_eq dev with ⟨hrej, heq⟩ | ⟨hrej, h512, heq⟩
  · rw [heq]
    exact iff_of_true trivial (Or.inl hrej)
  · rw [heq]
    by_cases h0 : (BootSector.read dev.disk 0).sectors_per_cluster = 0
    · rw [if_pos h0]
      refine iff_of_false id ?_
      rintro (h | h)
      · exact hrej h
      · exact h.1 h0
    · rw [if_neg h0]
      simp only [hrej, false_or]
      exact geometry_safe_iff hb h512 h0

/-! ## 例 -/

/-- ブートセクタの欄だけを書いたディスク。 -/
def boot_disk (sectors_per_cluster fat_size_sectors : UInt8) : ByteMem := fun a =>
  match a with
  | 12 => 2
  | 13 => sectors_per_cluster
  | 14 => 1
  | 16 => 2
  | 17 => 224
  | 19 => 0x40
  | 20 => 0x0B
  | 22 => fat_size_sectors
  | _ => 0

def boot_device (sectors_per_cluster fat_size_sectors : UInt8) : Device :=
  ⟨true, fun _ _ => true, boot_disk sectors_per_cluster fat_size_sectors⟩

/-- 2880 セクタのディスクに 1 セクタの表しかなければ、クラスタ 341 の項目は表の外にある。クラスタの大きさが
0 なら、割り算に失敗する。 -/
theorem init_fat12_short_table :
    (∀ fs, init_fat12 (boot_device 1 1) 0 = .ready fs → ¬ SafeGeometry 2880 fs) ∧
      ¬ Rejects (boot_device 1 1) ∧ init_fat12 (boot_device 0 9) 0 = .divide_error := by
  refine ⟨?_, by unfold Rejects; decide +kernel, ?_⟩
  · intro fs hfs hsafe
    have hready : init_fat12 (boot_device 1 1) 0 =
        .ready (geometry (boot_device 1 1) (BootSector.read (boot_disk 1 1) 0)) := rfl
    rw [hready] at hfs
    cases hfs
    have htable := hsafe.table 341 (by decide) (by decide +kernel)
    rw [geometry_cache_size (BootSector.read_bounded _ _) rfl] at htable
    exact absurd htable (by decide +kernel)
  · rfl

end MyOS.Fat
