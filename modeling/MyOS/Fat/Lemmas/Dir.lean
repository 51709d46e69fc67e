import MyOS.Fat.Invariant
import MyOS.Fat.Lemmas.Write

/-!
# ディレクトリの項目の場所

項目は 32 バイトごとに並び、異なる項目は重ならない。根の項目は表とクラスタの間にあり、
ディレクトリのクラスタはファイルの鎖と交わらない。
-/

namespace MyOS.Fat
open MyOS.Lib

variable {fs fs' : Fs} {H D : Set Nat} {a b c d h : Nat} {m m' : ByteMem} {l : List Nat}

/-! ## 32 バイトで決まるもの -/

section Bytes

variable (hm : ∀ k < sizeofDirEntry, m' (b + k) = m (a + k))
include hm

theorem Entry.first_cluster_congr : Entry.first_cluster m' b = Entry.first_cluster m a := by
  unfold Entry.first_cluster
  rw [hm 26 (by decide), hm 27 (by decide)]

theorem Entry.file_size_congr : Entry.file_size m' b = Entry.file_size m a := by
  unfold Entry.file_size ByteMem.load32
  simp only [Nat.add_assoc, Nat.reduceAdd]
  rw [hm 28 (by decide), hm 29 (by decide), hm 30 (by decide), hm 31 (by decide)]

theorem Entry.attributes_congr : Entry.attributes m' b = Entry.attributes m a :=
  hm 11 (by decide)

theorem Entry.name_congr : Entry.name m' b = Entry.name m a := by
  refine List.map_congr_left (fun k hk => hm k ?_)
  have := List.mem_range.mp hk
  unfold sizeofDirEntry
  omega

theorem Entry.ext_congr : Entry.ext m' b = Entry.ext m a := by
  refine List.map_congr_left (fun k hk => ?_)
  have := List.mem_range.mp hk
  rw [Nat.add_assoc, Nat.add_assoc]
  exact hm (8 + k) (by unfold sizeofDirEntry; omega)

theorem entry_to_name_congr : fat12_entry_to_name m' b = fat12_entry_to_name m a := by
  unfold fat12_entry_to_name
  rw [Entry.name_congr hm, Entry.ext_congr hm]

theorem make_node_congr : fat12_make_node m' b = fat12_make_node m a := by
  unfold fat12_make_node
  rw [entry_to_name_congr hm, Entry.attributes_congr hm, Entry.file_size_congr hm,
    Entry.first_cluster_congr hm]

end Bytes

/-! ## 項目の番地 -/

theorem Layout.of_same {l : List Nat} (hlay : Layout fs) (hsame : SameOutside fs fs' l) : Layout fs' := by
  have hroot : root_dir_sectors fs' = root_dir_sectors fs := by
    unfold root_dir_sectors
    rw [hsame.bpb]
  refine ⟨?_, ?_, ?_, ?_, ?_, ?_⟩
  · exact hsame.root_inode.trans hlay.root_inode
  · rw [hsame.bpb]
    exact hlay.bytes_per_sector
  · rw [hsame.bpb]
    exact hlay.sectors_per_cluster
  · rw [hsame.root_lba, hsame.fat_lba, hsame.bpb]
    exact hlay.root_lba
  · rw [hsame.data_lba, hsame.root_lba, hroot]
    exact hlay.data_lba
  · rw [hsame.data_lba, hsame.total_clusters, hsame.bpb]
    exact hlay.data_end

theorem Layout.disk (hlay : Layout fs) (disk : ByteMem) : Layout { fs with disk := disk } :=
  ⟨hlay.root_inode, hlay.bytes_per_sector, hlay.sectors_per_cluster, hlay.root_lba, hlay.data_lba,
    hlay.data_end⟩

theorem Layout.root_entries (hlay : Layout fs) (s : Nat) : (root_group fs s).entries = 16 := by
  unfold root_group sizeofDirEntry
  rw [hlay.bytes_per_sector]

theorem Layout.cluster_entries (hlay : Layout fs) (c : Nat) :
    (cluster_group fs c).entries = fs.bpb.sectors_per_cluster * 16 := by
  simp only [cluster_group, bytes_per_cluster, sizeofDirEntry, hlay.bytes_per_sector]
  omega

theorem Layout.cluster_to_lba (hlay : Layout fs) (hc : InRange fs c) :
    fat12_cluster_to_lba fs c = fs.data_lba + (c - 2) * fs.bpb.sectors_per_cluster := by
  obtain ⟨h2, hlt⟩ := hc
  have hend := hlay.data_end
  have hle : (c - 2) * fs.bpb.sectors_per_cluster ≤ fs.total_clusters * fs.bpb.sectors_per_cluster :=
    Nat.mul_le_mul_right _ (by omega)
  have hsmall : fs.total_clusters * fs.bpb.sectors_per_cluster < 2 ^ 32 := by omega
  by_cases hz : fs.bpb.sectors_per_cluster = 0
  · simp only [fat12_cluster_to_lba, add32, mul32, hz, Nat.mul_zero]
    omega
  have hcle : c - 2 ≤ (c - 2) * fs.bpb.sectors_per_cluster :=
    Nat.le_mul_of_pos_right _ (Nat.pos_of_ne_zero hz)
  have hsub : sub32 c 2 = c - 2 := by
    unfold sub32
    omega
  unfold fat12_cluster_to_lba add32 mul32
  rw [hsub, Nat.mod_eq_of_lt (a := (c - 2) * _) (by omega), Nat.mod_eq_of_lt (by omega)]

/-- 異なるクラスタは、セクタ単位で離れている。 -/
theorem Layout.clusters_apart (hlay : Layout fs) (hc : InRange fs c) (hd : InRange fs d) (hne : c ≠ d) :
    fat12_cluster_to_lba fs c + fs.bpb.sectors_per_cluster ≤ fat12_cluster_to_lba fs d ∨
      fat12_cluster_to_lba fs d + fs.bpb.sectors_per_cluster ≤ fat12_cluster_to_lba fs c := by
  rw [hlay.cluster_to_lba hc, hlay.cluster_to_lba hd]
  obtain ⟨hc2, -⟩ := hc
  obtain ⟨hd2, -⟩ := hd
  have hstep : ∀ x y, x < y → x * fs.bpb.sectors_per_cluster + fs.bpb.sectors_per_cluster ≤
      y * fs.bpb.sectors_per_cluster := by
    intro x y hlt
    rw [← Nat.succ_mul]
    exact Nat.mul_le_mul_right _ hlt
  rcases Nat.lt_or_gt_of_ne hne with hlt | hlt
  · have hle := hstep (c - 2) (d - 2) (by omega)
    omega
  · have hle := hstep (d - 2) (c - 2) (by omega)
    omega

theorem slot_mod (g : Group) (i : Nat) : g.slot i % 32 = 0 := by
  unfold Group.slot ATA_SECTOR_SIZE sizeofDirEntry
  omega

theorem IsSlot.mod (hb : IsSlot fs D b) : b % 32 = 0 := by
  rcases hb with ⟨s, -, i, -, rfl⟩ | ⟨c, -, i, -, rfl⟩ <;> exact slot_mod _ _

theorem IsSlot.congr (hbpb : fs'.bpb = fs.bpb) (hroot : fs'.root_lba = fs.root_lba)
    (hdata : fs'.data_lba = fs.data_lba)
    (howned : ∀ c, Owned (fatNext fs) D c → Owned (fatNext fs') D c) (hb : IsSlot fs D b) :
    IsSlot fs' D b := by
  have hrg : ∀ s, root_group fs' s = root_group fs s := by
    intro s
    unfold root_group
    rw [hbpb, hroot]
  have hcg : ∀ c, cluster_group fs' c = cluster_group fs c := by
    intro c
    unfold cluster_group bytes_per_cluster fat12_cluster_to_lba
    rw [hbpb, hdata]
  have hsec : root_dir_sectors fs' = root_dir_sectors fs := by
    unfold root_dir_sectors
    rw [hbpb]
  rcases hb with ⟨s, hs, i, hi, heq⟩ | ⟨c, hc, i, hi, heq⟩
  · exact Or.inl ⟨s, hsec ▸ hs, i, hrg s ▸ hi, hrg s ▸ heq⟩
  · exact Or.inr ⟨c, howned c hc, i, hcg c ▸ hi, hcg c ▸ heq⟩

/-- ディレクトリの項目は、表より後ろにある。 -/
theorem IsSlot.after_fat (hlay : Layout fs) (hok : ChainSet (fatNext fs) D (InRange fs))
    (hb : IsSlot fs D b) : fs.root_lba * ATA_SECTOR_SIZE ≤ b := by
  rcases hb with ⟨s, -, i, -, rfl⟩ | ⟨c, ⟨d, hd, l, hl, hc⟩, i, -, rfl⟩
  · simp only [root_group, Group.slot, ATA_SECTOR_SIZE, sizeofDirEntry]
    omega
  · have hlba := hlay.cluster_to_lba (hok.dom_of_mem hd hl hc)
    have hdata := hlay.data_lba
    simp only [cluster_group, Group.slot, ATA_SECTOR_SIZE, sizeofDirEntry]
    rw [hlba, hdata]
    omega

/-- ファイルのクラスタは、どのディレクトリの項目とも重ならない。 -/
theorem IsSlot.not_inCluster (hlay : Layout fs) (hok : ChainSet (fatNext fs) D (InRange fs))
    (hb : IsSlot fs D b) (hc : InRange fs c) (hnot : ¬ Owned (fatNext fs) D c) {k : Nat}
    (hk : k < sizeofDirEntry) : ¬ InCluster fs c (b + k) := by
  unfold InCluster
  unfold sizeofDirEntry at hk
  rintro ⟨hlo, hhi⟩
  simp only [ATA_SECTOR_SIZE] at hlo hhi
  rcases hb with ⟨s, hs, i, hi, rfl⟩ | ⟨d, ⟨e, he, l, hl, hd⟩, i, hi, rfl⟩
  · have hdata := hlay.data_lba
    rw [hlay.root_entries] at hi
    rw [hlay.cluster_to_lba hc] at hlo
    simp only [root_group, Group.slot, ATA_SECTOR_SIZE, sizeofDirEntry] at hlo
    omega
  · rw [hlay.cluster_entries] at hi
    simp only [cluster_group, Group.slot, ATA_SECTOR_SIZE, sizeofDirEntry] at hlo hhi
    have hne : c ≠ d := by
      rintro rfl
      exact hnot ⟨e, he, l, hl, hd⟩
    have hapart := hlay.clusters_apart hc (hok.dom_of_mem he hl hd) hne
    omega

/-- 異なる項目は重ならない。 -/
theorem slot_disjoint (ha : a % 32 = 0) (hb : b % 32 = 0) (hne : b ≠ a) {k : Nat}
    (hk : k < sizeofDirEntry) : b + k < a ∨ a + 32 ≤ b + k := by
  unfold sizeofDirEntry at hk
  omega

end MyOS.Fat
