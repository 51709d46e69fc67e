import MyOS.Fat.FailTheorems
import MyOS.Fat.Lemmas.Effects

/-!
# 表の写しの定理

削除、ディレクトリの作成、書き込みは、最後に表を書き出す。VFS から呼ばれる `fat12_create_file` は書き出さない。
-/

namespace MyOS.Fat
open MyOS.Lib ByteMem

variable {fs fs' : Fs} {H H' D : Set Nat} {own : Nat → Nat} {hs : Set Handle} {a c d i inode : Nat} {g : Group}
  {name : List UInt8} {node node' : Node} {n size units : Nat} {buffer : Option ByteMem} {v v' v₀ : Vol} {op : VolOp}

/-- `i` 番目の表の写し。 -/
def fat_copy (fs : Fs) (i : Nat) : ByteMem := fun x =>
  fs.disk ((fs.fat_lba + i * fs.bpb.fat_size_sectors) * ATA_SECTOR_SIZE + x)

/-- どの写しも `fat_cache` と同じである。 -/
def Mirrored (fs : Fs) : Prop :=
  ∀ i < fs.bpb.num_fats, ∀ x < fs.bpb.fat_size_sectors * ATA_SECTOR_SIZE, fat_copy fs i x = cacheByte fs x

/-- `fat12_create_file` がクラスタを確保する。 -/
def Allocates (fs : Fs) (dir : Nat) (name : List UInt8) : Prop :=
  find_entry fs dir name = some none ∧ (room fs.disk (dir_groups fs dir)).isSome = true ∧ ¬ Full fs

/-- クラスタを確保する作成はなく、書き込むノードの項目は消されていない。 -/
def KeepsCopies (v : Vol) : VolOp → Prop
  | .create _ dir name => ¬ Allocates v.fs dir name
  | .write k _ _ _ => ∀ h, v.handles k = some h → UpdatesOwn v.fs h
  | .find .. | .mkdir .. | .unlink .. | .seek .. => True

/-! ## 表の書き出し -/

/-- 書き出した後は、どの写しも表と同じである。 -/
theorem flush_mirrored (fs : Fs) : Mirrored (fat12_flush_fat fs) := by
  have hfold : ∀ n : Nat, ∃ disk, (List.range n).foldl (fun fs i =>
      ata_write_sectors fs (fs.fat_lba + i * fs.bpb.fat_size_sectors) fs.bpb.fat_size_sectors (cacheByte fs)) fs =
        { fs with disk := disk } ∧
      ∀ i < n, ∀ x < fs.bpb.fat_size_sectors * ATA_SECTOR_SIZE,
        disk ((fs.fat_lba + i * fs.bpb.fat_size_sectors) * ATA_SECTOR_SIZE + x) = cacheByte fs x := by
    intro n
    induction n with
    | zero => exact ⟨fs.disk, rfl, fun i hi => absurd hi (Nat.not_lt_zero i)⟩
    | succ n ih =>
        obtain ⟨disk, heq, hdisk⟩ := ih
        rw [List.range_succ, List.foldl_append, heq, List.foldl_cons, List.foldl_nil]
        refine ⟨_, rfl, fun i hi x hx => ?_⟩
        dsimp only
        rcases Nat.lt_succ_iff_lt_or_eq.mp hi with hlt | rfl
        · -- 前の写しは、`n` 番目の写しの手前にある。
          have hle : (i + 1) * fs.bpb.fat_size_sectors ≤ n * fs.bpb.fat_size_sectors := Nat.mul_le_mul_right _ hlt
          rw [Nat.succ_mul] at hle
          unfold ATA_SECTOR_SIZE at *
          rw [if_neg (by omega)]
          exact hdisk i hlt x hx
        · unfold ATA_SECTOR_SIZE at *
          rw [if_pos ⟨by omega, by omega⟩, Nat.add_sub_cancel_left]
          rfl
  obtain ⟨disk, heq, hdisk⟩ := hfold fs.bpb.num_fats
  have hflush : fat12_flush_fat fs = { fs with disk := disk } := heq
  rw [hflush]
  exact hdisk

/-- 写しより後ろだけが変わっても、写しは表と同じである。 -/
theorem Mirrored.of_same (hm : Mirrored fs) (hlay : Layout fs) (hsh : SameShape fs fs')
    (hcache : cacheByte fs' = cacheByte fs) (hdisk : ∀ x < fs.root_lba * ATA_SECTOR_SIZE, fs'.disk x = fs.disk x) :
    Mirrored fs' := by
  unfold Mirrored fat_copy at hm ⊢
  rw [hsh.bpb, hsh.fat_lba, hcache]
  intro i hi x hx
  have hle : (i + 1) * fs.bpb.fat_size_sectors ≤ fs.bpb.num_fats * fs.bpb.fat_size_sectors := Nat.mul_le_mul_right _ hi
  have hroot := hlay.root_lba
  rw [Nat.succ_mul] at hle
  rw [← hm i hi x hx]
  unfold ATA_SECTOR_SIZE at *
  exact hdisk _ (by omega)

/-- 書き込みは、何も変えないか、最後に表を書き出す。 -/
theorem write_fs_flushed (h : fat12_write_fs fs node size units buffer = some (fs', node', n)) :
    fs' = fs ∨ ∃ fs₁, fs' = fat12_flush_fat fs₁ := by
  unfold fat12_write_fs at h
  simp only at h
  split at h
  · cases h
    exact Or.inl rfl
  · split at h
    · cases h
      exact Or.inl rfl
    · obtain ⟨⟨fs₁, written⟩, -, h⟩ := Option.bind_eq_some_iff.mp h
      obtain ⟨fs₂, -, heq⟩ := Option.map_eq_some_iff.mp h
      cases heq
      exact Or.inr ⟨fs₂, rfl⟩

/-! ## 一歩 -/

theorem KeepsCopies.owns (hk : KeepsCopies v op) : WritesMeet (fun fs h _ => UpdatesOwn fs h) v op := by
  cases op with
  | write => exact hk
  | _ => trivial

theorem InRange.after_fat (hlay : Layout fs) (hr : InRange fs c) {x : Nat} (hx : InCluster fs c x) :
    fs.root_lba * ATA_SECTOR_SIZE ≤ x := by
  have hlo := hx.1
  have hle : fs.root_lba * ATA_SECTOR_SIZE ≤ fs.data_lba * ATA_SECTOR_SIZE :=
    Nat.mul_le_mul_right _ (by rw [hlay.data_lba]; exact Nat.le_add_right _ _)
  rw [hlay.cluster_to_lba hr, Nat.add_mul] at hlo
  omega

/-- 空きクラスタがなければ、ファイルの作成は表を変えない。 -/
theorem created_mirrored (hlay : Layout fs) (hfull : Full fs) (ha : fs.root_lba * ATA_SECTOR_SIZE ≤ a) (hm : Mirrored fs) :
    Mirrored (created_fs fs name a) := by
  rcases allocate_cluster_cases fs with ⟨c, -, hr, hfree⟩ | ⟨halloc, -⟩
  · exact absurd hfree (hfull c hr)
  · unfold created_fs
    rw [halloc]
    exact hm.of_same hlay (.of_disk fs _) rfl fun x hx => entry_write_outside _ (Or.inl (Nat.lt_of_lt_of_le hx ha))

theorem Moved.mirrored (hmv : Moved v H own op v') (hT : Tracked v.fs H v.dir_set own v.live) (hkeep : KeepsCopies v op)
    (hstep : v.step op = some v') (hm : Mirrored v.fs) : Mirrored v'.fs ∧ SameShape v.fs v'.fs := by
  have hchains := hT.fat.chains.mono hT.dirs
  cases hmv with
  | still hfs =>
      rw [hfs]
      exact ⟨hm, .refl _⟩
  | created hn hg hf hroom =>
      obtain ⟨hmem, hi, hfree⟩ := room_some hroom
      have hdir : IsDir v.dir_set _ := hn.1
      have hslot := hg.isSlot hdir hmem hi
      obtain ⟨H', own', -, hch⟩ := hT.create hslot hfree _
      refine ⟨created_mirrored hT.layout ?_ (hslot.after_fat hT.layout hchains) hm, hch.shape⟩
      by_contra hfull
      refine hkeep ⟨hf, ?_, hfull⟩
      rw [hg.dir_groups_eq, hroom]
      rfl
  | @returned dir c _ _ _ fs' hn _ _ hr _ hp hdisk hcache hch =>
      have hshape := hp.changes.shape.trans hch.shape
      refine ⟨hm.of_same hT.layout hshape hcache fun x hx => ?_, hshape⟩
      obtain ⟨disk, heq, hout, -⟩ := mkdir_fs_eq v.fs c dir
      have hsame : fs'.disk x = disk x := congrFun (hdisk.trans (congrArg Fs.disk heq)) x
      rw [hsame]
      refine hout x fun hin => ?_
      have hafter := hr.after_fat hT.layout hin
      omega
  | made hn hg _ hroom _ _ hp =>
      obtain ⟨hmem, hi, -⟩ := room_some hroom
      have hdir : IsDir v.dir_set _ := hn.1
      exact ⟨flush_mirrored _, hp.changes.shape.trans (hp.made_changes (hg.isSlot hdir hmem hi) _).shape⟩
  | unlinked _ _ _ hgone => exact ⟨flush_mirrored _, (hgone.changes.flush hT.layout hchains).shape⟩
  | @wrote k size units n buffer h fs' H' node' l ext hk _ _ hw =>
      refine ⟨?_, hw.shape⟩
      simp only [Vol.step, hk, Option.bind_some] at hstep
      split at hstep
      · obtain ⟨⟨fs₁, node₁, n₁⟩, hrun, heq⟩ := Option.map_eq_some_iff.mp hstep
        have hfs : fs' = fs₁ := (congrArg Vol.fs heq).symm
        rw [hfs]
        rcases write_fs_flushed hrun with rfl | ⟨fs₂, rfl⟩
        · exact hm
        · exact flush_mirrored fs₂
      · cases hstep

/-! ## 実行 -/

/-- 有効な項目の最初のクラスタは、どの写しでも使用中である。 -/
def MarkedOnDisk (v : Vol) : Prop :=
  ∀ a, IsSlot v.fs v.dir_set a → Used v.fs.disk a → Entry.first_cluster v.fs.disk a ≠ 0 →
    ∀ i < v.fs.bpb.num_fats, Pack12.get12 (fat_copy v.fs i) (Entry.first_cluster v.fs.disk a) ≠ 0

theorem Mirrored.marked (hm : Mirrored v.fs) (hT : Tracked v.fs H v.dir_set own v.live)
    (htable : Pack12.offset (v.fs.total_clusters + 1) + 1 < v.fs.bpb.fat_size_sectors * ATA_SECTOR_SIZE) :
    MarkedOnDisk v := by
  intro a ha hu hne i hi
  have hin : Entry.first_cluster v.fs.disk a ∈ H := by
    by_cases hfile : IsFile v.fs.disk a
    · exact ((hT.file a ⟨ha, hu, hfile⟩).resolve_left hne).1.1
    · exact hT.dirs ((hT.dir a ⟨ha, hu, hfile⟩).resolve_left hne)
  obtain ⟨l, hl, -⟩ := hT.fat.chains.chain _ hin
  have hr := hT.fat.chains.dom_of_mem hin hl hl.mem_head
  have hused := hT.fat.entry_ne_zero hin hl hl.mem_head
  generalize Entry.first_cluster v.fs.disk a = c at *
  have hlt : Pack12.offset c + 1 < v.fs.bpb.fat_size_sectors * ATA_SECTOR_SIZE := by
    have hle := hr.2
    unfold Pack12.offset at *
    omega
  have hcopy : Pack12.get12 (fat_copy v.fs i) c = Pack12.get12 (cacheByte v.fs) c := by
    unfold Pack12.get12
    rw [hm i hi _ hlt, hm i hi _ (by omega)]
  rw [hcopy, ← fat_entry_raw_toNat]
  exact fun h => hused (UInt16.toNat_inj.mp h)

theorem mirrored_run (hok : v₀.Ok) (hm : Mirrored v₀.fs) (hrun : Steps Vol.step KeepsCopies v₀ v) :
    v.Ok ∧ Mirrored v.fs ∧ SameShape v₀.fs v.fs := by
  refine hrun.inv (P := fun v => v.Ok ∧ Mirrored v.fs ∧ SameShape v₀.fs v.fs) (fun s e t hs hkeep hstep => ?_)
    ⟨hok, hm, .refl _⟩
  obtain ⟨⟨H, own, hT⟩, hm, hsh⟩ := hs
  have hmv := step_moved hT (UpdatesOwn.unlinked hkeep.owns) hstep
  obtain ⟨hm', hsh'⟩ := hmv.mirrored hT hkeep hstep hm
  exact ⟨hmv.ok hT hkeep.owns, hm', hsh.trans hsh'⟩

/-- クラスタを確保する作成と、消されたノードへの書き込みがなければ、写しはいつも表と同じで、有効な項目の最初の
クラスタはディスクの上でも使用中である。 -/
theorem copies_mirrored (hv : Volume v₀.fs H v₀.dir_set) (hnone : ∀ k, v₀.handles k = none) (hm : Mirrored v₀.fs)
    (htable : Pack12.offset (v₀.fs.total_clusters + 1) + 1 < v₀.fs.bpb.fat_size_sectors * ATA_SECTOR_SIZE)
    (hrun : Steps Vol.step KeepsCopies v₀ v) : Mirrored v.fs ∧ MarkedOnDisk v := by
  obtain ⟨⟨H', own, hT⟩, hm', hsh⟩ := mirrored_run (hv.ok hnone) hm hrun
  refine ⟨hm', hm'.marked hT ?_⟩
  rw [hsh.total_clusters, hsh.bpb]
  exact htable

/-! ## 書き出されない作成 -/

instance (fs : Fs) : Decidable (Mirrored fs) := inferInstanceAs (Decidable (∀ _ < _, ∀ _ < _, _))

theorem blank_mirrored : Mirrored blankFs := by decide +kernel

theorem copies_mirrored_blank : ∃ v, Steps Vol.step KeepsCopies blank v ∧ v.dirs = [2] ∧ Mirrored v.fs ∧ MarkedOnDisk v := by
  have hrun : (blank.step (.mkdir FAT12_ROOT_INODE letterA)).any (fun v => decide (v.dirs = [2])) = true := by
    decide +kernel
  obtain ⟨v, hstep, hdirs⟩ := (Option.any_eq_true _ _).mp hrun
  have hkeep : KeepsCopies blank (.mkdir FAT12_ROOT_INODE letterA) := trivial
  have hsteps : Steps Vol.step KeepsCopies blank v := .tail _ (.refl blank) hkeep hstep
  exact ⟨v, hsteps, of_decide_eq_true hdirs,
    copies_mirrored blank_volume (fun _ => rfl) blank_mirrored (by decide) hsteps⟩

/-- 作ったファイルの項目はクラスタ 2 を指すが、ディスクの上の表では、クラスタ 2 は空きのままである。 -/
theorem create_not_flushed : Mirrored blankFs ∧ ∃ v, blank.step (.create 0 FAT12_ROOT_INODE letterA) = some v ∧
    Entry.first_cluster v.fs.disk 1536 = 2 ∧ Pack12.get12 (fat_copy v.fs 0) 2 = 0 ∧
    Pack12.get12 (cacheByte v.fs) 2 = 0xFFF ∧ ¬ Mirrored v.fs := by
  have hrun : (blank.step (.create 0 FAT12_ROOT_INODE letterA)).any (fun v =>
      decide (Entry.first_cluster v.fs.disk 1536 = 2 ∧ Pack12.get12 (fat_copy v.fs 0) 2 = 0 ∧
        Pack12.get12 (cacheByte v.fs) 2 = 0xFFF ∧ ¬ Mirrored v.fs)) = true := by decide +kernel
  obtain ⟨v, hstep, h⟩ := (Option.any_eq_true _ _).mp hrun
  exact ⟨blank_mirrored, v, hstep, of_decide_eq_true h⟩

end MyOS.Fat
