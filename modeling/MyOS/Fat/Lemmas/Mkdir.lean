import MyOS.Fat.Lemmas.Entry

/-!
# ディレクトリを作る

新しいクラスタに `.` と `..` を書き、親の空き項目に加える。空き項目がなければ、クラスタを解放して戻る。
-/

namespace MyOS.Fat
open MyOS.Lib ByteMem

variable {fs fs' : Fs} {H D : Set Nat} {own : Nat → Nat} {hs : Set Handle} {a b c i inode parent : Nat}
  {m : ByteMem} {g : Group} {gs : List Group} {name : List UInt8} {l : List Nat}

/-! ## 単位の列の不変性 -/

theorem SameShape.root_group (h : SameShape fs fs') : root_group fs' = root_group fs := by
  funext s
  unfold MyOS.Fat.root_group
  rw [h.bpb, h.root_lba]

theorem SameShape.cluster_group (h : SameShape fs fs') : cluster_group fs' = cluster_group fs := by
  funext c
  unfold MyOS.Fat.cluster_group MyOS.Fat.bytes_per_cluster fat12_cluster_to_lba
  rw [h.bpb, h.data_lba]

theorem SameShape.root_dir_sectors (h : SameShape fs fs') : root_dir_sectors fs' = root_dir_sectors fs := by
  unfold MyOS.Fat.root_dir_sectors
  rw [h.bpb]

/-- ディレクトリの鎖が残れば、単位の列も残る。 -/
theorem Groups.carry (hg : Groups fs inode gs) (hsh : SameShape fs fs')
    (hnext : inode ≠ FAT12_ROOT_INODE → ∀ l, Follows (fatNext fs) inode l → Follows (fatNext fs') inode l) :
    Groups fs' inode gs := by
  cases hg with
  | root =>
      rw [← hsh.root_group, ← hsh.root_dir_sectors]
      exact .root
  | chain hne hfol hend hlen =>
      rw [← hsh.cluster_group]
      exact .chain hne (hnext hne _ hfol) hend hlen

theorem Groups.keep {H' X : Set Nat} (hg : Groups fs inode gs) (hdir : IsDir D inode)
    (hc : Changes fs fs' H H' D X) : Groups fs' inode gs :=
  hg.carry hc.shape fun hne _ hl => hc.follows (hdir.resolve_left hne) hl

theorem room_congr {m' : ByteMem} (h : ∀ g ∈ gs, ∀ i < g.entries, m' (g.slot i) = m (g.slot i)) :
    room m' gs = room m gs := by
  unfold room
  induction gs with
  | nil => rfl
  | cons g gs ih =>
      rw [List.findSome?_cons, List.findSome?_cons, ih (fun g hg => h g (by simp [hg]))]
      have hfind : ((List.range g.entries).find? fun i => m' (g.slot i) = 0 ∨ m' (g.slot i) = 0xE5) =
          (List.range g.entries).find? fun i => m (g.slot i) = 0 ∨ m (g.slot i) = 0xE5 := by
        refine List.find?_congr (fun i hi => ?_)
        rw [h g (by simp) i (List.mem_range.mp hi)]
      rw [hfind]

/-! ## 新しいクラスタの中身 -/

/-- 新しいディレクトリのクラスタを書いた状態。 -/
def mkdir_fs (fs : Fs) (c parent : Nat) : Fs :=
  fat12_write_cluster (fat12_set_fat_entry fs c 0xFFF) c (dir_cluster_buf c parent)

theorem fatNext_cache (h : fs'.fat_cache = fs.fat_cache) (x : Nat) : fatNext fs' x = fatNext fs x := by
  refine fatNext_congr ?_
  have hb : cacheByte fs' = cacheByte fs := by
    funext i
    simp only [cacheByte, h]
  simp only [fat_entry_raw, hb]

theorem fatNext_disk (fs : Fs) (disk : ByteMem) (x : Nat) : fatNext { fs with disk := disk } x = fatNext fs x :=
  fatNext_cache rfl x

theorem set_fat_entry_eq (fs : Fs) (c : Nat) (v : UInt16) :
    ∃ cache, fat12_set_fat_entry fs c v = { fs with fat_cache := cache } := ⟨_, rfl⟩

theorem inCluster_set {v : UInt16} {x : Nat} : InCluster (fat12_set_fat_entry fs c v) b x ↔ InCluster fs b x := by
  obtain ⟨cache, heq⟩ := set_fat_entry_eq fs c v
  rw [heq]
  exact Iff.rfl

theorem mkdir_fs_eq (fs : Fs) (c parent : Nat) : ∃ disk,
    mkdir_fs fs c parent = { fat12_set_fat_entry fs c 0xFFF with disk := disk } ∧
    (∀ x, ¬ InCluster fs c x → disk x = fs.disk x) ∧
    ∀ x, InCluster fs c x → disk x = dir_cluster_buf c parent (x - fat12_cluster_to_lba fs c * ATA_SECTOR_SIZE) := by
  obtain ⟨disk, heq, hout, hin⟩ := fat12_write_cluster_eq (fat12_set_fat_entry fs c 0xFFF) c
    (dir_cluster_buf c parent)
  refine ⟨disk, heq, fun x hx => ?_, fun x hx => ?_⟩
  · rw [hout x (fun h => hx (inCluster_set.mp h))]
    obtain ⟨cache, hset⟩ := set_fat_entry_eq fs c 0xFFF
    rw [hset]
  · rw [hin x (inCluster_set.mpr hx)]
    obtain ⟨cache, hset⟩ := set_fat_entry_eq fs c 0xFFF
    rw [hset]
    rfl

theorem mkdir_fs_next (x : Nat) : fatNext (mkdir_fs fs c parent) x = fatNext (fat12_set_fat_entry fs c 0xFFF) x := by
  obtain ⟨disk, heq, -⟩ := mkdir_fs_eq fs c parent
  rw [heq]
  exact fatNext_cache rfl x

theorem mkdir_fs_inside {k : Nat} (hk : k < fs.bpb.sectors_per_cluster * 512) :
    (mkdir_fs fs c parent).disk (fat12_cluster_to_lba fs c * 512 + k) = dir_cluster_buf c parent k := by
  obtain ⟨disk, heq, -, hin⟩ := mkdir_fs_eq fs c parent
  generalize hlba : fat12_cluster_to_lba fs c = lba at hin ⊢
  have hx : InCluster fs c (lba * 512 + k) := by
    unfold InCluster ATA_SECTOR_SIZE
    rw [hlba, Nat.add_mul]
    exact ⟨Nat.le_add_right _ _, Nat.add_lt_add_left hk _⟩
  rw [heq]
  refine (hin _ hx).trans ?_
  unfold ATA_SECTOR_SIZE
  rw [Nat.add_sub_cancel_left]

theorem dir_cluster_buf_dot {k : Nat} (hk : k < 32) :
    dir_cluster_buf c parent k = (dot_entry [0x2E] c).getD k 0 := by
  unfold dir_cluster_buf
  rw [entry_write_outside _ (Or.inl (by unfold sizeofDirEntry; omega))]
  have h := entry_write_at (m := fun _ => 0) (a := 0) (dot_entry [0x2E] c) hk
  rwa [Nat.zero_add] at h

theorem dir_cluster_buf_dotdot {k : Nat} (hk : k < 32) : dir_cluster_buf c parent (32 + k) =
    (dot_entry [0x2E, 0x2E] (if parent = FAT12_ROOT_INODE then 0 else parent)).getD k 0 := by
  unfold dir_cluster_buf sizeofDirEntry
  exact entry_write_at _ hk

theorem dir_cluster_buf_rest {k : Nat} (hk : 64 ≤ k) : dir_cluster_buf c parent k = 0 := by
  unfold dir_cluster_buf
  rw [entry_write_outside _ (Or.inr (by unfold sizeofDirEntry; omega)),
    entry_write_outside _ (Or.inr (by omega))]

theorem split_cluster (hc : c < 65536) : (UInt8.ofNat c).toNat + 256 * (UInt8.ofNat (c / 256)).toNat = c := by
  rw [UInt8.toNat_ofNat', UInt8.toNat_ofNat']
  omega

/-- 新しいディレクトリの有効な項目は、`.` と `..` だけである。 -/
theorem mkdir_fs_slot (hlay : Layout fs) (hc : c < 65536) (hp : parent = FAT12_ROOT_INODE ∨ parent < 65536)
    (hi : i < (cluster_group fs c).entries)
    (hu : Used (mkdir_fs fs c parent).disk ((cluster_group fs c).slot i)) :
    i < 2 ∧ Entry.attributes (mkdir_fs fs c parent).disk ((cluster_group fs c).slot i) = 0x10 ∧
      Entry.first_cluster (mkdir_fs fs c parent).disk ((cluster_group fs c).slot i) =
        if i = 0 then c else if parent = FAT12_ROOT_INODE then 0 else parent := by
  rw [hlay.cluster_entries] at hi
  have hbyte : ∀ k < 32, (mkdir_fs fs c parent).disk ((cluster_group fs c).slot i + k) =
      dir_cluster_buf c parent (i * 32 + k) := by
    intro k hk
    have hlt : i * 32 + k < fs.bpb.sectors_per_cluster * 512 := by omega
    rw [← mkdir_fs_inside hlt]
    simp only [cluster_group, Group.slot, ATA_SECTOR_SIZE, sizeofDirEntry, Nat.add_assoc]
  have h0 := hbyte 0 (by decide)
  rw [Nat.add_zero, Nat.add_zero] at h0
  have hi2 : i < 2 := by
    by_contra hge
    exact hu.1 (h0.trans (dir_cluster_buf_rest (by omega)))
  unfold Entry.attributes Entry.first_cluster
  rw [hbyte 11 (by decide), hbyte 26 (by decide), hbyte 27 (by decide)]
  refine ⟨hi2, ?_⟩
  rcases (by omega : i = 0 ∨ i = 1) with rfl | rfl
  · simp only [Nat.zero_mul, Nat.zero_add, if_true]
    rw [dir_cluster_buf_dot (by decide), dir_cluster_buf_dot (by decide), dir_cluster_buf_dot (by decide)]
    exact ⟨rfl, split_cluster hc⟩
  · simp only [Nat.one_mul, Nat.one_ne_zero, if_false]
    rw [dir_cluster_buf_dotdot (by decide), dir_cluster_buf_dotdot (by decide),
      dir_cluster_buf_dotdot (by decide)]
    refine ⟨rfl, split_cluster ?_⟩
    split
    · decide
    · next hne => exact hp.resolve_left hne

/-! ## 不変性 -/

/-- ファイルの鎖の先頭は、ディレクトリの鎖にない。 -/
theorem not_owned_dir (hT : Tracked fs H D own hs) (hc : c ∈ H \ D) (hl : Follows (fatNext fs) c l) (hb : b ∈ l) :
    ¬ Owned (fatNext fs) D b := by
  rintro ⟨d, hd, l', hl', hb'⟩
  exact hc.2 (hT.fat.chains.disjoint d (hT.dirs hd) c hc.1 l' l b hl' hl hb' hb ▸ hd)

/-- ファイルの鎖のクラスタの中身を変えても、項目は変わらない。 -/
theorem Changes.cluster {buf : ByteMem} (hT : Tracked fs H D own hs) (hc : c ∈ H \ D)
    (hl : Follows (fatNext fs) c l) (hb : b ∈ l) : Changes fs (fat12_write_cluster fs b buf) H H D ∅ := by
  obtain ⟨disk, heq, hdisk, -⟩ := fat12_write_cluster_eq fs b buf
  rw [heq]
  refine ⟨.of_disk fs disk, hT.fat.disk, hT.dirs, fun _ _ => rfl, fun _ => Iff.rfl,
    fun x hx _ k hk => hdisk _ ?_⟩
  exact hx.not_inCluster hT.layout (hT.fat.chains.mono hT.dirs) (hT.fat.chains.dom_of_mem hc.1 hl hb)
    (not_owned_dir hT hc hl hb) hk

theorem Tracked.change_none (hT : Tracked fs H D own hs) {H' : Set Nat} (hc : Changes fs fs' H H' D ∅)
    (hsub : H ⊆ H') : Tracked fs' H' D own hs := by
  refine hT.change hc (fun b _ _ hmem ho => ⟨hsub hmem.1, ho⟩) ?_ ?_ (fun h hh => ?_)
  · rintro a ⟨⟩
  · rintro a ⟨⟩
  · have hok := hT.handle h hh
    exact hok.keep hc.shape hc.owned (hc.head hok.entry.1 (by simp)) (fun hmem ho => ⟨hsub hmem.1, ho⟩)

/-- どこからも指されない鎖の解放。 -/
theorem Tracked.free_unused (hT : Tracked fs H D own hs) (hc : Changes fs fs' H (H \ {c}) D ∅)
    (hfile : ∀ a, FileAt fs D a → Entry.first_cluster fs.disk a ≠ c) (hnode : ∀ h ∈ hs, h.node.inode ≠ c) :
    Tracked fs' (H \ {c}) D own hs := by
  refine hT.change hc (fun b _ hb hmem ho => ⟨⟨hmem.1, hfile b hb⟩, ho⟩) ?_ ?_ (fun h hh => ?_)
  · rintro a ⟨⟩
  · rintro a ⟨⟩
  · have hok := hT.handle h hh
    exact hok.keep hc.shape hc.owned (hc.head hok.entry.1 (by simp))
      (fun hmem ho => ⟨⟨hmem.1, hnode h hh⟩, ho⟩)

theorem isSlot_insert (hl : Follows (fatNext fs) c [c]) : IsSlot fs (insert c D) b ↔
    IsSlot fs D b ∨ ∃ i < (cluster_group fs c).entries, b = (cluster_group fs c).slot i := by
  unfold IsSlot
  simp only [Owned.insert_iff hl, List.mem_singleton]
  constructor
  · rintro (h | ⟨x, rfl | hx, h⟩)
    · exact Or.inl (Or.inl h)
    · exact Or.inr h
    · exact Or.inl (Or.inr ⟨x, hx, h⟩)
  · rintro ((h | ⟨x, hx, h⟩) | h)
    · exact Or.inl h
    · exact Or.inr ⟨x, Or.inr hx, h⟩
    · exact Or.inr ⟨c, Or.inl rfl, h⟩

/-- どこからも指されない鎖を、ディレクトリにする。 -/
theorem Tracked.insert_dir (hT : Tracked fs H D own hs) (hc : c ∈ H \ D) (hl : Follows (fatNext fs) c [c])
    (hfile : ∀ a, FileAt fs D a → Entry.first_cluster fs.disk a ≠ c) (hnode : ∀ h ∈ hs, h.node.inode ≠ c)
    (hslots : ∀ i < (cluster_group fs c).entries, Used fs.disk ((cluster_group fs c).slot i) →
      ¬ IsFile fs.disk ((cluster_group fs c).slot i) ∧
      (Entry.first_cluster fs.disk ((cluster_group fs c).slot i) = 0 ∨
        Entry.first_cluster fs.disk ((cluster_group fs c).slot i) ∈ insert c D)) :
    Tracked fs H (insert c D) own hs := by
  have hdiff : ∀ x, x ∈ H \ D → x ≠ c → x ∈ H \ insert c D := by
    intro x hx hne
    refine ⟨hx.1, ?_⟩
    rintro (rfl | hD)
    · exact hne rfl
    · exact hx.2 hD
  refine ⟨hT.fat, hT.layout, Set.insert_subset hc.1 hT.dirs, ?_, ?_, fun h hh => ?_⟩
  · rintro a ⟨hslot, hu, hf⟩
    rcases (isSlot_insert hl).mp hslot with hslot | ⟨i, hi, rfl⟩
    · exact (hT.file a ⟨hslot, hu, hf⟩).imp_right
        (fun ⟨hmem, ho⟩ => ⟨hdiff _ hmem (hfile a ⟨hslot, hu, hf⟩), ho⟩)
    · exact absurd hf (hslots i hi hu).1
  · rintro a ⟨hslot, hu, hf⟩
    rcases (isSlot_insert hl).mp hslot with hslot | ⟨i, hi, rfl⟩
    · exact (hT.dir a ⟨hslot, hu, hf⟩).imp_right (fun hmem => Set.mem_insert_of_mem c hmem)
    · exact (hslots i hi hu).2
  · have hok := hT.handle h hh
    refine ⟨⟨(isSlot_insert hl).mpr (Or.inl hok.entry.1), hok.entry.2⟩, hok.name, ?_, hok.seek, hok.size⟩
    exact hok.inode.imp_right (fun ⟨hmem, ho⟩ => ⟨hdiff _ hmem (hnode h hh), ho⟩)

/-- 新しいクラスタを書いた状態。まだどの項目も指していない。 -/
structure Prepared (fs : Fs) (H D : Set Nat) (own : Nat → Nat) (hs : Set Handle) (c parent : Nat) : Prop where
  tracked : Tracked (mkdir_fs fs c parent) (insert c H) D own hs
  dir : Tracked (mkdir_fs fs c parent) (insert c H) (insert c D) own hs
  changes : Changes fs (mkdir_fs fs c parent) H (insert c H) D ∅
  chain : Follows (fatNext (mkdir_fs fs c parent)) c [c]
  head : c ∈ insert c H \ D
  unused_file : ∀ a, FileAt (mkdir_fs fs c parent) D a → Entry.first_cluster (mkdir_fs fs c parent).disk a ≠ c
  unused_node : ∀ h ∈ hs, h.node.inode ≠ c
  slots : ∀ i < (cluster_group fs c).entries, Used (mkdir_fs fs c parent).disk ((cluster_group fs c).slot i) →
    i < 2 ∧ ¬ IsFile (mkdir_fs fs c parent).disk ((cluster_group fs c).slot i)

theorem mkdir_prepared (hT : Tracked fs H D own hs) (hr : InRange fs c) (hfree : fat_entry_raw fs c = 0)
    (hp : IsDir D parent) : ∃ own', Prepared fs H D own' hs c parent := by
  obtain ⟨hT₁, hhead, hnot⟩ := hT.allocate hr hfree 0
  have halloc := Changes.allocate hT.fat hT.dirs hr hfree
  have hl : Follows (fatNext (fat12_set_fat_entry fs c 0xFFF)) c [c] :=
    .last (fatNext_of_raw_end (fat_entry_raw_set_self (hT.fat.in_cache hr) (by decide)))
  have hwrite : Changes (fat12_set_fat_entry fs c 0xFFF) (mkdir_fs fs c parent) (insert c H) (insert c H) D ∅ :=
    Changes.cluster hT₁ hhead hl (by simp)
  have hT₂ := hT₁.change_none hwrite Set.Subset.rfl
  have hbound := hT.fat.bound
  have hlt : c < 65536 := by
    have := hr.2
    omega
  have hpar : parent = FAT12_ROOT_INODE ∨ parent < 65536 := by
    refine hp.imp_right (fun hd => ?_)
    obtain ⟨l, hl, -⟩ := hT.fat.chains.chain parent (hT.dirs hd)
    have := (hT.fat.chains.dom_of_mem (hT.dirs hd) hl hl.mem_head).2
    omega
  have hkeep := halloc.trans hwrite
  have hl₂ : Follows (fatNext (mkdir_fs fs c parent)) c [c] := hl.congr (fun x _ => mkdir_fs_next x)
  have hfile : ∀ a, FileAt (mkdir_fs fs c parent) D a → Entry.first_cluster (mkdir_fs fs c parent).disk a ≠ c := by
    -- 前からある項目は `H` の鎖を指し、`c` は `H` にない。
    intro a ha heq
    have hslot := (hkeep.shape.isSlot hkeep.owned).mp ha.1
    have ha' := (fileAt_congr (hkeep.shape.isSlot hkeep.owned) (hkeep.head hslot (by simp))).mp ha
    rw [Entry.first_cluster_congr (hkeep.kept a hslot (by simp))] at heq
    rcases hT.file a ha' with h0 | ⟨hmem, -⟩
    · have := hr.1
      omega
    · exact hnot (heq ▸ hmem.1)
  have hnode : ∀ h ∈ hs, h.node.inode ≠ c := by
    intro h hh heq
    rcases (hT.handle h hh).inode with h0 | ⟨hmem, -⟩
    · have := hr.1
      omega
    · exact hnot (heq ▸ hmem.1)
  refine ⟨_, hT₂, ?_, hkeep, hl₂, hhead, hfile, hnode, fun i hi hu => ?_⟩
  · refine hT₂.insert_dir hhead hl₂ hfile hnode (fun i hi hu => ?_)
    rw [hkeep.shape.cluster_group] at hi hu ⊢
    obtain ⟨-, hattr, hfc⟩ := mkdir_fs_slot hT.layout hlt hpar hi hu
    unfold IsFile
    rw [hattr, hfc]
    refine ⟨by decide, ?_⟩
    split
    · exact Or.inr (Set.mem_insert c D)
    · split
      · exact Or.inl rfl
      · next hne => exact Or.inr (Set.mem_insert_of_mem c (hp.resolve_left hne))
  · obtain ⟨hi2, hattr, -⟩ := mkdir_fs_slot hT.layout hlt hpar hi hu
    unfold IsFile
    rw [hattr]
    exact ⟨hi2, by decide⟩

theorem write_in_slot_mkdir (hi : i < g.entries) (hg : g.entries * 32 ≤ g.sectors * 512) :
    write_in_slot (mkdir_entry_cb name c) g i fs none =
      ({ fs with disk := Entry.write fs.disk (g.slot i) (new_entry name 0x10 c) }, some (g.slot i)) := by
  unfold write_in_slot
  exact Prod.ext (ata_write_entry rfl _ hi hg) rfl

theorem write_in_slot_follows {d : Nat} (hl : Follows (fatNext fs) d l) :
    Follows (fatNext (write_in_slot (mkdir_entry_cb name c) g i fs none).1) d l := by
  have hdisk : ∃ disk, (write_in_slot (mkdir_entry_cb name c) g i fs none).1 = { fs with disk := disk } := ⟨_, rfl⟩
  obtain ⟨disk, heq⟩ := hdisk
  rw [heq]
  exact hl.congr (fun x _ => fatNext_cache rfl x)

/-- ディレクトリを作り終えた状態。 -/
def made_dir (fs : Fs) (c parent : Nat) (name : List UInt8) (a : Nat) : Fs :=
  fat12_flush_fat { mkdir_fs fs c parent with
    disk := Entry.write (mkdir_fs fs c parent).disk a (new_entry name 0x10 c) }

theorem made_dir_eq (hlay : Layout (mkdir_fs fs c parent)) (name : List UInt8) (a : Nat) :
    ∃ disk, made_dir fs c parent name a = { mkdir_fs fs c parent with disk := disk } := by
  obtain ⟨disk, heq, -⟩ := flush_fat_eq (hlay.disk
    (Entry.write (mkdir_fs fs c parent).disk a (new_entry name 0x10 c)))
  exact ⟨disk, heq⟩

theorem made_dir_next (hlay : Layout (mkdir_fs fs c parent)) (x : Nat) :
    fatNext (made_dir fs c parent name a) x = fatNext (fat12_set_fat_entry fs c 0xFFF) x := by
  obtain ⟨disk, heq⟩ := made_dir_eq hlay name a
  rw [heq, fatNext_disk, mkdir_fs_next]

/-- 親に加えた項目の中身。 -/
theorem Prepared.made_slot {own' : Nat → Nat} (hp : Prepared fs H D own' hs c parent) (ha : IsSlot fs D a)
    (name : List UInt8) {k : Nat} (hk : k < sizeofDirEntry) :
    (made_dir fs c parent name a).disk (a + k) = (new_entry name 0x10 c).getD k 0 := by
  obtain ⟨disk, heq, hdisk⟩ := flush_fat_eq (hp.tracked.layout.disk
    (Entry.write (mkdir_fs fs c parent).disk a (new_entry name 0x10 c)))
  have hslot : IsSlot (mkdir_fs fs c parent) D a := (hp.changes.shape.isSlot hp.changes.owned).mpr ha
  have hafter := hslot.after_fat hp.tracked.layout (hp.tracked.fat.chains.mono hp.tracked.dirs)
  have hmade : (made_dir fs c parent name a).disk = disk := congrArg Fs.disk heq
  rw [hmade, hdisk (a + k) (hafter.trans (Nat.le_add_right _ _))]
  exact entry_write_at _ hk

theorem Prepared.made_not_file {own' : Nat → Nat} (hp : Prepared fs H D own' hs c parent) (ha : IsSlot fs D a)
    (name : List UInt8) : ¬ IsFile (made_dir fs c parent name a).disk a := by
  unfold IsFile Entry.attributes
  rw [hp.made_slot ha name (by decide), new_entry_attr]
  decide

theorem Prepared.made_changes {own' : Nat → Nat} (hp : Prepared fs H D own' hs c parent) (ha : IsSlot fs D a)
    (name : List UInt8) :
    Changes (mkdir_fs fs c parent) (made_dir fs c parent name a) (insert c H) (insert c H) (insert c D) {a} := by
  have hslot : IsSlot (mkdir_fs fs c parent) (insert c D) a :=
    (isSlot_insert hp.chain).mpr (Or.inl ((hp.changes.shape.isSlot hp.changes.owned).mpr ha))
  have hentry := Changes.entry hp.dir.fat hp.dir.dirs hslot
    (fun x hx => entry_write_outside (new_entry name 0x10 c) (m := (mkdir_fs fs c parent).disk) hx)
  exact hentry.flush hp.dir.layout (hp.dir.fat.chains.mono hp.dir.dirs)

theorem Prepared.made {own' : Nat → Nat} (hp : Prepared fs H D own' hs c parent) (hr : InRange fs c)
    (hbound : fs.total_clusters + 2 ≤ 0xFF7) (ha : IsSlot fs D a) (hnot : ¬ Used fs.disk a) (name : List UInt8) :
    Tracked (made_dir fs c parent name a) (insert c H) (insert c D) own' hs := by
  have hnot' : ¬ Used (mkdir_fs fs c parent).disk a := by
    rw [used_congr (hp.changes.head ha (by simp))]
    exact hnot
  have hslot : IsSlot (mkdir_fs fs c parent) (insert c D) a :=
    (isSlot_insert hp.chain).mpr (Or.inl ((hp.changes.shape.isSlot hp.changes.owned).mpr ha))
  have hlt : c < 65536 := by
    have := hr.2
    omega
  exact (hp.dir.add_entry hslot hnot' hlt (fun h => absurd h (by decide)) (fun _ => Set.mem_insert c D)).flush

/-- 空きクラスタがあり、同名の項目がないときの `fat12_mkdir`。 -/
theorem mkdir_run {dir : Node} (hlay : Layout fs) (hg : Groups fs dir.inode gs)
    (hg₂ : Groups (mkdir_fs fs c dir.inode) dir.inode gs)
    (hroom : room (mkdir_fs fs c dir.inode).disk gs = room fs.disk gs) (hne : name ≠ [])
    (hfind : find_entry fs dir.inode name = some none)
    (halloc : fat12_allocate_cluster fs = (fat12_set_fat_entry fs c 0xFFF, c)) (hr : InRange fs c) :
    fat12_mkdir fs dir name =
      match room fs.disk gs with
      | some (g, i) => some (made_dir fs c dir.inode name (g.slot i), some (c, g.slot i))
      | none => (fat12_free_cluster_chain (mkdir_fs fs c dir.inode) c).map fun fs => (fs, none) := by
  have hc0 : c ≠ 0 := by
    have := hr.1
    omega
  have honce : ∀ base i buf fs, Done (mkdir_entry_cb name c) (mkdir_entry_cb name c base i buf fs none).2.2 :=
    fun _ _ _ _ _ _ _ _ => rfl
  have hwrite := iterate_dir_write_eq honce hg₂ (fun _ g i l hl => write_in_slot_follows hl)
  unfold fat12_mkdir
  rw [if_neg hne]
  simp only [hfind, Option.bind_some, halloc]
  rw [if_neg hc0]
  change (fat12_iterate_dir_write (mkdir_entry_cb name c) (mkdir_fs fs c dir.inode) dir.inode none).bind _ = _
  rw [hwrite, Option.bind_some]
  unfold write_in_room
  rw [hroom]
  cases hcase : room fs.disk gs with
  | none => rfl
  | some r =>
      obtain ⟨g, i⟩ := r
      obtain ⟨hmem, hi, -⟩ := room_some hcase
      dsimp only
      rw [write_in_slot_mkdir hi (hg.fits hlay hmem)]
      rfl

theorem mkdir_eq (hT : Tracked fs H D own hs) (hg : Groups fs inode gs) (hdir : IsDir D inode) (hne : name ≠ [])
    (hfind : find_entry fs inode name = some none)
    (halloc : fat12_allocate_cluster fs = (fat12_set_fat_entry fs c 0xFFF, c)) (hr : InRange fs c)
    (hfree : fat_entry_raw fs c = 0) : fat12_mkdir fs (dir_node inode) name =
      match room fs.disk gs with
      | some (g, i) => some (made_dir fs c inode name (g.slot i), some (c, g.slot i))
      | none => (fat12_free_cluster_chain (mkdir_fs fs c inode) c).map fun fs => (fs, none) := by
  obtain ⟨own', hp⟩ := mkdir_prepared hT hr hfree hdir
  have hroom : room (mkdir_fs fs c inode).disk gs = room fs.disk gs := by
    refine room_congr (fun g hmem i hi => ?_)
    have h := hp.changes.kept _ (hg.isSlot hdir hmem hi) (by simp) 0 (by decide)
    rwa [Nat.add_zero] at h
  exact mkdir_run hT.layout hg (hg.keep hdir hp.changes) hroom hne hfind halloc hr

theorem mkdir_fs_cache : cacheByte (mkdir_fs fs c parent) = cacheByte (fat12_set_fat_entry fs c 0xFFF) := by
  obtain ⟨disk, heq, -⟩ := mkdir_fs_eq fs c parent
  rw [heq]
  rfl

/-- 確保したばかりのクラスタを戻すと、表は元のバイト列に戻る。 -/
theorem free_one_cache (hl : Follows (fatNext (mkdir_fs fs c parent)) c [c]) (hr : InRange fs c)
    (hz : fat_entry_raw fs c = 0) (hok : FatOk fs H) (hok' : FatOk (mkdir_fs fs c parent) (insert c H))
    (hrun : fat12_free_cluster_chain (mkdir_fs fs c parent) c = some fs') : cacheByte fs' = cacheByte fs := by
  have hlast : fatNext (mkdir_fs fs c parent) c = none := by
    cases hl with
    | last hn => exact hn
    | step _ ht => cases ht
  have hend := fatNext_eq_none.mp hlast
  have hne := hok'.ne_end (Set.mem_insert c H) hl (List.mem_singleton.mpr rfl)
  have hr' := hok'.chains.dom_of_mem (Set.mem_insert c H) hl (List.mem_singleton.mpr rfl)
  have hfs' : fs' = fat12_set_fat_entry (mkdir_fs fs c parent) c 0 := by
    unfold fat12_free_cluster_chain maxChain at hrun
    unfold free_cluster_loop at hrun
    rw [if_pos ⟨hne, hr.1⟩, hend] at hrun
    unfold free_cluster_loop at hrun
    rw [if_neg (by decide)] at hrun
    exact (Option.some.inj hrun).symm
  have hget : Pack12.get12 (cacheByte fs) c = 0 := by
    rw [← fat_entry_raw_toNat, hz]
    rfl
  rw [hfs', cacheByte_set_fat_entry (hok'.in_cache hr'), mkdir_fs_cache,
    cacheByte_set_fat_entry (hok.in_cache hr)]
  exact Pack12.set12_restore hget

/-- `fat12_mkdir` は、何も変えずに失敗するか、クラスタを戻して失敗するか、最初の空き項目に作る。 -/
theorem mkdir_cases (hT : Tracked fs H D own hs) (hg : Groups fs inode gs) (hdir : IsDir D inode)
    (hne : name ≠ []) :
    fat12_mkdir fs (dir_node inode) name = some (fs, none) ∨
    ∃ c, InRange fs c ∧ fat_entry_raw fs c = 0 ∧ find_entry fs inode name = some none ∧
      ∃ own', Prepared fs H D own' hs c inode ∧
      ((room fs.disk gs = none ∧ ∃ fs', fs'.disk = (mkdir_fs fs c inode).disk ∧
        cacheByte fs' = cacheByte fs ∧
        Changes (mkdir_fs fs c inode) fs' (insert c H) (insert c H \ {c}) D ∅ ∧
        fat12_mkdir fs (dir_node inode) name = some (fs', none)) ∨
      ∃ g i, room fs.disk gs = some (g, i) ∧ fat12_mkdir fs (dir_node inode) name =
        some (made_dir fs c inode name (g.slot i), some (c, g.slot i))) := by
  have hfind : find_entry fs inode name = _ := find_entry_eq hg
  cases hv : (visible fs.disk gs).find? (matches_name fs.disk name) with
  | some a =>
      left
      rw [hv] at hfind
      unfold fat12_mkdir
      rw [if_neg hne, show (dir_node inode).inode = inode from rfl, hfind]
      rfl
  | none =>
      rw [hv] at hfind
      rcases allocate_cluster_cases fs with ⟨c, halloc, hr, hz⟩ | ⟨halloc, -⟩
      · right
        obtain ⟨own', hp⟩ := mkdir_prepared hT hr hz hdir
        have heq := mkdir_eq hT hg hdir hne hfind halloc hr hz
        refine ⟨c, hr, hz, hfind, own', hp, ?_⟩
        cases hroom : room fs.disk gs with
        | none =>
            obtain ⟨fs', hfree, hdisk, hch, -⟩ := Changes.free hp.tracked.fat hp.tracked.dirs hp.head
            rw [hroom] at heq
            refine Or.inl ⟨rfl, fs', hdisk, ?_, hch, heq.trans ?_⟩
            · exact free_one_cache hp.chain hr hz hT.fat hp.tracked.fat hfree
            · rw [hfree]
              rfl
        | some r =>
            rw [hroom] at heq
            exact Or.inr ⟨r.1, r.2, rfl, heq⟩
      · left
        unfold fat12_mkdir
        rw [if_neg hne, show (dir_node inode).inode = inode from rfl, hfind]
        simp [halloc]

end MyOS.Fat
