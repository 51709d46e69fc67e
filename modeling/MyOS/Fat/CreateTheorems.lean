import MyOS.Fat.EffectTheorems

/-!
# 作成の定理

ファイルやディレクトリの作成は、最初の空き項目に名前を一つ加える。
-/

namespace MyOS.Fat
open MyOS.Lib ByteMem

variable {fs fs' : Fs} {a b c i inode : Nat} {l pre post : List Nat} {gs : List Group} {g : Group}
  {dir node : Node} {name other : List UInt8} {attr flags : UInt8}

/-! ## 空き項目に書いた結果 -/

theorem make_node_new {m : ByteMem} (hname : Kept83 name) (hc : c < 65536)
    (hattr : attr = 0x20 ∧ flags = FS_FILE ∨ attr = 0x10 ∧ flags = FS_DIRECTORY) :
    fat12_make_node (Entry.write m a (new_entry name attr c)) a = ⟨name.map upper, flags, 0, c, 0⟩ := by
  unfold fat12_make_node
  rw [hname.name_write, attributes_new, file_size_new, first_cluster_new attr hc]
  rcases hattr with ⟨rfl, rfl⟩ | ⟨rfl, rfl⟩ <;> rfl

/-- 最初の空き項目だけが変わり、そこに新しい項目があるなら、名前が一つ加わっている。 -/
theorem added_of_slot (hlay : Layout fs) (hdir : DirOk fs dir.inode) (hflags : dir.flags &&& FS_DIRECTORY ≠ 0)
    (he : Ended fs dir.inode) (hname : Kept83 name) (hnew : ∀ b ∈ live fs dir.inode, matches_name fs.disk name b = false)
    (hroom : room fs.disk (dir_groups fs dir.inode) = some (g, i))
    (hg' : Groups fs' dir.inode (dir_groups fs dir.inode))
    (hsame : ∀ b ∈ slots fs dir.inode, b ≠ g.slot i → SameSlot fs.disk fs'.disk b)
    (hat : SameSlot (Entry.write fs.disk (g.slot i) (new_entry name attr c)) fs'.disk (g.slot i))
    (hattr : attr = 0x20 ∧ flags = FS_FILE ∨ attr = 0x10 ∧ flags = FS_DIRECTORY) (hc : c < 65536)
    (hchain : c = 0 ∧ Full fs ∨ InRange fs c ∧ fat_entry_raw fs c = 0 ∧ Follows (fatNext fs') c [c]) :
    Added fs fs' dir name flags c (g.slot i) := by
  have hfirst : Entry.write fs.disk (g.slot i) (new_entry name attr c) (g.slot i) ≠ 0 ∧
      Entry.write fs.disk (g.slot i) (new_entry name attr c) (g.slot i) ≠ 0xE5 := hname.first_write
  have hu : Used fs'.disk (g.slot i) := by
    unfold Used
    rw [hat.first, Entry.attributes_congr hat, attributes_new]
    refine ⟨hfirst.1, hfirst.2, ?_⟩
    rcases hattr with ⟨rfl, -⟩ | ⟨rfl, -⟩ <;> decide
  obtain ⟨L, R, hlive, hlive', hsub, hended⟩ := live_added hlay hdir he hg' hroom hsame hu
  generalize g.slot i = a at *
  have hfinal : live_entries fs'.disk (dir_slots (dir_groups fs dir.inode)) = L ++ a :: R := by
    rw [← hg'.dir_groups_eq]
    exact hlive'
  have hname' : (fat12_entry_to_name fs'.disk a).map upper = name.map upper := by
    rw [entry_to_name_congr hat, hname.name_write, map_upper_upper]
  refine ⟨?_, hchain, fun other h0 hdiff => ?_, hended⟩
  · unfold fat12_finddir_fs
    rw [if_neg hflags, find_inserted hg' hfinal (fun b hb => hsub b (List.mem_append_left _ hb))
      (fun b hb => hnew b ?_) ((matches_name_iff hname.no_zero).mpr hname'), make_node_congr hat,
      make_node_new hname hc hattr]
    rw [hlive]
    exact List.mem_append_left _ hb
  · have hmiss : matches_name fs'.disk other a = false := by
      refine Bool.eq_false_iff.mpr fun hyes => hdiff ?_
      rw [strcasecmp_fat_eq_zero h0 hname.no_zero, ← (matches_name_iff h0).mp hyes, hname']
    unfold fat12_finddir_fs
    rw [find_insert hdir.groups hg' hlive hfinal hsub hmiss]

/-! ## 確保 -/

/-- 確保は、ディレクトリの鎖を変えない。 -/
theorem DirOk.set_follows (hdir : DirOk fs inode) (hne : inode ≠ FAT12_ROOT_INODE) (hr : InRange fs c)
    (hfree : fat_entry_raw fs c = 0) {v : UInt16} (hl : Follows (fatNext fs) inode l) :
    Follows (fatNext (fat12_set_fat_entry fs c v)) inode l := by
  refine hl.congr fun x hx => (SameOutside.set (hr.in_cache hdir.cache)).fatNext fun hxc => ?_
  rw [List.mem_singleton] at hxc
  exact hdir.not_owned hfree ⟨inode, ⟨rfl, hne⟩, l, hl, hxc ▸ hx⟩

theorem DirOk.allocate_follows (hdir : DirOk fs inode) (hne : inode ≠ FAT12_ROOT_INODE) (hl : Follows (fatNext fs) inode l) :
    Follows (fatNext (fat12_allocate_cluster fs).1) inode l := by
  rcases allocate_cluster_cases fs with ⟨c, halloc, hr, hfree⟩ | ⟨halloc, -⟩
  · rw [halloc]
    exact hdir.set_follows hne hr hfree hl
  · rw [halloc]
    exact hl

theorem DirOk.lt (hdir : DirOk fs inode) (hr : InRange fs c) : c < 65536 := by
  have hlt := hr.2
  have hbound := hdir.bound
  omega

/-- 確保したクラスタは、一つだけの鎖である。 -/
theorem follows_fresh (hr : InRange fs c) (hcache : Pack12.offset (fs.total_clusters + 1) + 1 < fs.fat_cache.size) :
    Follows (fatNext (fat12_set_fat_entry fs c 0xFFF)) c [c] :=
  .last (fatNext_of_raw_end (fat_entry_raw_set_self (hr.in_cache hcache) (by decide)))

/-- 空きクラスタがあれば一つだけの鎖ができ、なければ 0 が返る。 -/
theorem DirOk.allocate_fresh (hdir : DirOk fs inode) : (fat12_allocate_cluster fs).2 < 65536 ∧
    ((fat12_allocate_cluster fs).2 = 0 ∧ Full fs ∨ InRange fs (fat12_allocate_cluster fs).2 ∧
      fat_entry_raw fs (fat12_allocate_cluster fs).2 = 0 ∧
      Follows (fatNext (fat12_allocate_cluster fs).1) (fat12_allocate_cluster fs).2 [(fat12_allocate_cluster fs).2]) ∧
    SameShape fs (fat12_allocate_cluster fs).1 := by
  rcases allocate_cluster_cases fs with ⟨c, halloc, hr, hfree⟩ | ⟨halloc, hfull⟩
  · rw [halloc]
    exact ⟨hdir.lt hr, Or.inr ⟨hr, hfree, follows_fresh hr hdir.cache⟩, (SameOutside.set (hr.in_cache hdir.cache)).shape⟩
  · rw [halloc]
    exact ⟨Nat.zero_lt_succ _, Or.inl ⟨rfl, hfull⟩, .of_disk fs fs.disk⟩

theorem find_entry_new (hg : Groups fs inode gs) (hnew : ∀ b ∈ live_entries fs.disk (dir_slots gs), matches_name fs.disk name b = false) :
    find_entry fs inode name = some none := by
  rw [find_entry_live hg, List.find?_eq_none.mpr fun b hb => by rw [hnew b hb]; exact Bool.false_ne_true]
  rfl

/-! ## ファイルの作成 -/

/-- 同名の項目がなければ、最初の空き項目に作るか、失敗する。 -/
theorem create_file_new (hdir : DirOk fs dir.inode) (hnew : ∀ b ∈ live fs dir.inode, matches_name fs.disk name b = false) :
    fat12_create_file fs dir name = some (match room fs.disk (dir_groups fs dir.inode) with
      | some (g, i) => ((created fs name g i).1, some (created fs name g i).2)
      | none => (fs, none)) := by
  have honce : ∀ base i buf fs, Done (create_file_callback name) (create_file_callback name base i buf fs none).2.2 :=
    fun _ _ _ _ _ _ _ _ => rfl
  unfold fat12_create_file
  rw [find_entry_new hdir.groups hnew, Option.bind_some]
  dsimp only [create_in_dir]
  refine iterate_dir_write_eq honce hdir.groups fun hne g i l hl => ?_
  exact (hdir.allocate_follows hne hl).congr fun x _ => fatNext_cache rfl x

theorem create_added (hlay : Layout fs) (hdir : DirOk fs dir.inode) (hflags : dir.flags &&& FS_DIRECTORY ≠ 0)
    (he : Ended fs dir.inode) (hname : Kept83 name) (hnew : ∀ b ∈ live fs dir.inode, matches_name fs.disk name b = false)
    (h : fat12_create_file fs dir name = some (fs', some (node, a))) :
    node = ⟨name.map upper, FS_FILE, 0, node.inode, 0⟩ ∧ Added fs fs' dir name FS_FILE node.inode a := by
  rw [create_file_new hdir hnew] at h
  cases hroom : room fs.disk (dir_groups fs dir.inode) with
  | none =>
      rw [hroom] at h
      cases h
  | some r =>
      obtain ⟨g, i⟩ := r
      obtain ⟨hmem, hi, -⟩ := room_some hroom
      rw [hroom] at h
      simp only [created_eq hi (hdir.groups.fits hlay hmem)] at h
      cases h
      obtain ⟨hc, hchain, hshape⟩ := hdir.allocate_fresh
      have hnode := make_node_new (m := fs.disk) (a := g.slot i) hname hc (Or.inl ⟨rfl, rfl⟩)
      have hinode : (fat12_make_node (created_disk fs name (g.slot i)) (g.slot i)).inode = (fat12_allocate_cluster fs).2 :=
        congrArg Node.inode hnode
      rw [hinode]
      refine ⟨hnode, added_of_slot hlay hdir hflags he hname hnew hroom ?_ (fun b hb hne => ?_) (fun _ _ => rfl)
        (Or.inl ⟨rfl, rfl⟩) hc ?_⟩
      · refine hdir.groups.carry (hshape.trans (.of_disk _ _)) fun hne l hl => ?_
        exact (hdir.allocate_follows hne hl).congr fun x _ => fatNext_disk _ _ x
      · have ha := hdir.isSlot (mem_dir_slots hmem hi)
        exact SameSlot.of_outside ha.mod (hdir.isSlot hb).mod hne fun x hx => entry_write_outside _ hx
      · exact hchain.imp_right fun ⟨hr, hz, hl⟩ => ⟨hr, hz, hl.congr fun x _ => fatNext_disk _ _ x⟩

/-! ## ディレクトリの作成 -/

theorem mkdir_fs_shape : SameShape fs (mkdir_fs fs c inode) := by
  obtain ⟨disk, heq, -⟩ := mkdir_fs_eq fs c inode
  rw [heq]
  exact ⟨rfl, rfl, rfl, rfl, rfl, rfl⟩

theorem DirOk.mkdir_groups (hdir : DirOk fs inode) (hr : InRange fs c) (hfree : fat_entry_raw fs c = 0) :
    Groups (mkdir_fs fs c inode) inode (dir_groups fs inode) := by
  refine hdir.groups.carry mkdir_fs_shape fun hne l hl => ?_
  exact (hdir.set_follows hne hr hfree hl).congr fun x _ => mkdir_fs_next x

/-- 確保したクラスタへの書き込みは、親の項目を変えない。 -/
theorem DirOk.mkdir_same (hdir : DirOk fs inode) (hlay : Layout fs) (hr : InRange fs c) (hfree : fat_entry_raw fs c = 0)
    (hb : b ∈ slots fs inode) : SameSlot fs.disk (mkdir_fs fs c inode).disk b := by
  obtain ⟨disk, heq, hdisk, -⟩ := mkdir_fs_eq fs c inode
  rw [heq]
  exact fun k hk => hdisk _ ((hdir.isSlot hb).not_inCluster hlay hdir.chainSet hr (hdir.not_owned hfree) hk)

theorem made_dir_disk (hlay : Layout fs) (c inode : Nat) (name : List UInt8) (a : Nat) :
    ∃ disk, made_dir fs c inode name a = { mkdir_fs fs c inode with disk := disk } ∧
      ∀ x, fs.root_lba * ATA_SECTOR_SIZE ≤ x →
        disk x = Entry.write (mkdir_fs fs c inode).disk a (new_entry name 0x10 c) x := by
  have hlay₁ : Layout (mkdir_fs fs c inode) := mkdir_fs_shape.layout hlay
  obtain ⟨disk, heq, hdisk⟩ := flush_fat_eq (hlay₁.disk (Entry.write (mkdir_fs fs c inode).disk a (new_entry name 0x10 c)))
  have hroot : (mkdir_fs fs c inode).root_lba = fs.root_lba := mkdir_fs_shape.root_lba
  refine ⟨disk, heq, fun x hx => hdisk x ?_⟩
  simp only [hroot]
  exact hx

/-- 成功した `fat12_mkdir` は、最初の空き項目に新しいディレクトリを書いている。 -/
theorem mkdir_some (hlay : Layout fs) (hdir : DirOk fs dir.inode) (hne : name ≠ [])
    (hnew : ∀ b ∈ live fs dir.inode, matches_name fs.disk name b = false)
    (h : fat12_mkdir fs dir name = some (fs', some (c, a))) :
    ∃ g i, room fs.disk (dir_groups fs dir.inode) = some (g, i) ∧ a = g.slot i ∧ fs' = made_dir fs c dir.inode name a ∧
      InRange fs c ∧ fat_entry_raw fs c = 0 := by
  have hfind : find_entry fs dir.inode name = some none := find_entry_new hdir.groups hnew
  rcases allocate_cluster_cases fs with ⟨d, halloc, hr, hfree⟩ | ⟨halloc, -⟩
  · have hroom : room (mkdir_fs fs d dir.inode).disk (dir_groups fs dir.inode) = room fs.disk (dir_groups fs dir.inode) := by
      exact room_congr fun g hg i hi => (hdir.mkdir_same hlay hr hfree (mem_dir_slots hg hi)).first
    rw [mkdir_run hlay hdir.groups (hdir.mkdir_groups hr hfree) hroom hne hfind halloc hr] at h
    cases hcase : room fs.disk (dir_groups fs dir.inode) with
    | none =>
        rw [hcase] at h
        obtain ⟨fs₁, -, heq⟩ := Option.map_eq_some_iff.mp h
        cases heq
    | some r =>
        rw [hcase] at h
        cases h
        exact ⟨r.1, r.2, rfl, rfl, rfl, hr, hfree⟩
  · unfold fat12_mkdir at h
    rw [if_neg hne, hfind, Option.bind_some] at h
    simp only [halloc, if_true] at h
    cases h

theorem mkdir_added (hlay : Layout fs) (hdir : DirOk fs dir.inode) (hflags : dir.flags &&& FS_DIRECTORY ≠ 0)
    (he : Ended fs dir.inode) (hname : Kept83 name) (hnew : ∀ b ∈ live fs dir.inode, matches_name fs.disk name b = false)
    (h : fat12_mkdir fs dir name = some (fs', some (c, a))) : Added fs fs' dir name FS_DIRECTORY c a := by
  obtain ⟨g, i, hroom, rfl, rfl, hr, hfree⟩ := mkdir_some hlay hdir hname.ne_nil hnew h
  obtain ⟨hmem, hi, -⟩ := room_some hroom
  have ha : g.slot i ∈ slots fs dir.inode := mem_dir_slots hmem hi
  obtain ⟨disk, heq, hdisk⟩ := made_dir_disk hlay c dir.inode name (g.slot i)
  have hafter : ∀ b ∈ slots fs dir.inode, fs.root_lba * ATA_SECTOR_SIZE ≤ b := fun b hb =>
    (hdir.isSlot hb).after_fat hlay hdir.chainSet
  rw [heq]
  refine added_of_slot hlay hdir hflags he hname hnew hroom ?_ (fun b hb hne => ?_) (fun k hk => ?_) (Or.inr ⟨rfl, rfl⟩)
    (hdir.lt hr) (Or.inr ⟨hr, hfree, ?_⟩)
  · exact (hdir.mkdir_groups hr hfree).carry (.of_disk _ disk) fun _ _ hl => hl.congr fun x _ => fatNext_disk _ disk x
  · have hsame := hdir.mkdir_same hlay hr hfree hb
    have hwrite : SameSlot (mkdir_fs fs c dir.inode).disk disk b := fun k hk => by
      have hout := slot_disjoint (hdir.isSlot ha).mod (hdir.isSlot hb).mod hne hk
      rw [hdisk _ ((hafter b hb).trans (Nat.le_add_right _ _)), entry_write_outside _ hout]
    exact hsame.trans hwrite
  · have hstart := hafter _ ha
    have hx := hdisk (g.slot i + k) (hstart.trans (Nat.le_add_right _ _))
    rw [entry_write_at _ hk] at hx ⊢
    exact hx
  · refine (follows_fresh hr hdir.cache).congr fun x _ => ?_
    rw [fatNext_disk, mkdir_fs_next]

/-! ## 新しいディレクトリ -/

/-- 新しいディレクトリのクラスタは、`dir_cluster_buf` のままである。 -/
theorem made_dir_inside (name : List UInt8) (hlay : Layout fs) (hdir : DirOk fs inode) (ha : a ∈ slots fs inode) (hr : InRange fs c)
    (hfree : fat_entry_raw fs c = 0) {k : Nat} (hk : k < fs.bpb.sectors_per_cluster * 512) :
    (made_dir fs c inode name a).disk (fat12_cluster_to_lba fs c * 512 + k) = dir_cluster_buf c inode k := by
  obtain ⟨disk, heq, hdisk⟩ := made_dir_disk hlay c inode name a
  have hin : InCluster fs c (fat12_cluster_to_lba fs c * 512 + k) := by
    unfold InCluster ATA_SECTOR_SIZE
    omega
  have hafter : fs.root_lba * ATA_SECTOR_SIZE ≤ fat12_cluster_to_lba fs c * 512 + k := by
    rw [hlay.cluster_to_lba hr, hlay.data_lba]
    unfold ATA_SECTOR_SIZE
    omega
  have hslot := hdir.isSlot ha
  have hmiss : ∀ j < sizeofDirEntry, ¬ InCluster fs c (a + j) := fun j hj =>
    hslot.not_inCluster hlay hdir.chainSet hr (hdir.not_owned hfree) hj
  rw [← mkdir_fs_inside hk, heq]
  generalize fat12_cluster_to_lba fs c * 512 + k = x at *
  refine (hdisk x hafter).trans (entry_write_outside _ ?_)
  by_contra hx
  have hmiss' := hmiss (x - a) (by unfold sizeofDirEntry; omega)
  rw [Nat.add_sub_cancel' (by omega)] at hmiss'
  exact hmiss' hin

/-- 番地 0 に項目のバイト列を置いたもの。 -/
def entry_bytes (bytes : List UInt8) : ByteMem := fun k => bytes.getD k 0

/-- `.` と `..` の項目のノード。 -/
theorem make_node_dot {m : ByteMem} {dots : List UInt8} (hdots : dots = [0x2E] ∨ dots = [0x2E, 0x2E]) (hc : c < 65536)
    (hm : ∀ k < sizeofDirEntry, m (a + k) = (dot_entry dots c).getD k 0) :
    fat12_make_node m a = ⟨dots, FS_DIRECTORY, 0, c, 0⟩ ∧ Used m a := by
  have hm₀ : ∀ k < sizeofDirEntry, m (a + k) = entry_bytes (dot_entry dots c) (0 + k) := fun k hk => by
    rw [hm k hk, Nat.zero_add]
    rfl
  have hfirst := hm 0 (by decide)
  rw [Nat.add_zero] at hfirst
  obtain ⟨hname, hattr, hsize, hdot, hcluster⟩ : fat12_entry_to_name (entry_bytes (dot_entry dots c)) 0 = dots ∧
      Entry.attributes (entry_bytes (dot_entry dots c)) 0 = 0x10 ∧
      Entry.file_size (entry_bytes (dot_entry dots c)) 0 = 0 ∧ (dot_entry dots c).getD 0 0 = 0x2E ∧
      Entry.first_cluster (entry_bytes (dot_entry dots c)) 0 = c := by
    rcases hdots with rfl | rfl <;> exact ⟨rfl, rfl, rfl, rfl, split_cluster hc⟩
  unfold Used fat12_make_node
  rw [entry_to_name_congr hm₀, Entry.attributes_congr hm₀, Entry.file_size_congr hm₀, Entry.first_cluster_congr hm₀,
    hname, hattr, hsize, hcluster, hfirst, hdot]
  exact ⟨rfl, by decide, by decide, by decide⟩

theorem DirOk.inode_lt (hdir : DirOk fs inode) : (if inode = FAT12_ROOT_INODE then 0 else inode) < 65536 := by
  split_ifs with hroot
  · decide
  · obtain ⟨-, l, hl⟩ := hdir.chain.resolve_left hroot
    exact hdir.lt (hl.range inode hl.follows.mem_head)

/-- 一つのクラスタからなるディレクトリの項目。 -/
theorem fresh_slots (hlay : Layout fs) (hdir : DirOk fs inode) (hr : InRange fs c) (hshape : SameShape fs fs')
    (hfol : Follows (fatNext fs') c [c]) :
    slots fs' c = (List.range (fs.bpb.sectors_per_cluster * 16)).map (cluster_group fs c).slot := by
  have hlt := hr.2
  have hbound := hdir.bound
  have hg : Groups fs' c ([c].map (cluster_group fs')) := by
    refine .chain ?_ hfol (fun d hd => ?_) (by unfold maxChain; simp)
    · unfold FAT12_ROOT_INODE
      omega
    · rw [List.mem_singleton.mp hd]
      omega
  unfold slots dir_slots
  rw [hg.dir_groups_eq, hshape.cluster_group, List.map_singleton, List.flatMap_singleton, hlay.cluster_entries]

theorem made_dir_slots (hlay : Layout fs) (hdir : DirOk fs inode) (hr : InRange fs c) :
    slots (made_dir fs c inode name a) c = (List.range (fs.bpb.sectors_per_cluster * 16)).map (cluster_group fs c).slot := by
  obtain ⟨disk, heq, -⟩ := made_dir_disk hlay c inode name a
  rw [heq]
  refine fresh_slots hlay hdir hr (mkdir_fs_shape.trans (.of_disk _ disk)) ?_
  refine (follows_fresh hr hdir.cache).congr fun x _ => ?_
  rw [fatNext_disk, mkdir_fs_next]

/-- クラスタが `dir_cluster_buf` のままなら、項目は `.` と `..` だけである。 -/
theorem new_dir_live {n parent : Nat} (hslots : slots fs' c = (List.range n).map (cluster_group fs c).slot) (hn : 3 ≤ n)
    (hbyte : ∀ i < n, ∀ k < sizeofDirEntry,
      fs'.disk ((cluster_group fs c).slot i + k) = dir_cluster_buf c parent (i * 32 + k))
    (hc : c < 65536) (hp : (if parent = FAT12_ROOT_INODE then 0 else parent) < 65536) :
    (live fs' c).map (fat12_make_node fs'.disk) = [⟨[0x2E], FS_DIRECTORY, 0, c, 0⟩,
        ⟨[0x2E, 0x2E], FS_DIRECTORY, 0, if parent = FAT12_ROOT_INODE then 0 else parent, 0⟩] ∧ Ended fs' c := by
  obtain ⟨r, rfl⟩ : ∃ r, n = r + 2 + 1 := ⟨n - 3, by omega⟩
  have hslots' : slots fs' c = (cluster_group fs c).slot 0 :: (cluster_group fs c).slot 1 ::
      (cluster_group fs c).slot 2 :: (List.range r).map fun i => (cluster_group fs c).slot (i + 3) := by
    rw [hslots]
    simp [List.range_succ_eq_map, Function.comp_def]
  obtain ⟨hdot, hu⟩ := make_node_dot (m := fs'.disk) (a := (cluster_group fs c).slot 0) (Or.inl rfl) hc fun k hk => by
    rw [hbyte 0 (by omega) k hk, Nat.zero_mul, Nat.zero_add]
    exact dir_cluster_buf_dot hk
  obtain ⟨hdotdot, hu'⟩ := make_node_dot (m := fs'.disk) (a := (cluster_group fs c).slot 1) (Or.inr rfl) hp fun k hk => by
    rw [hbyte 1 (by omega) k hk, Nat.one_mul]
    exact dir_cluster_buf_dotdot hk
  have hzero : ∀ i < r + 2 + 1, 2 ≤ i → fs'.disk ((cluster_group fs c).slot i) = 0 := fun i hi h2 => by
    have h := hbyte i hi 0 (by decide)
    rwa [Nat.add_zero, dir_cluster_buf_rest (by omega)] at h
  have hend := hzero 2 (by omega) (by omega)
  refine ⟨?_, ?_⟩
  · unfold live
    rw [hslots', live_cons_used hu, live_cons_used hu', live_cons_end hend, List.map_cons, List.map_cons, hdot, hdotdot,
      List.map_nil]
  · unfold Ended
    rw [hslots', List.dropWhile_cons_of_pos (by simpa using hu.1), List.dropWhile_cons_of_pos (by simpa using hu'.1),
      List.dropWhile_cons_of_neg (by simpa using hend)]
    intro b hb
    rcases List.mem_cons.mp hb with rfl | hb
    · exact hend
    · obtain ⟨i, hi, rfl⟩ := List.mem_map.mp hb
      exact hzero (i + 3) (by have := List.mem_range.mp hi; omega) (by omega)

theorem made_dir_live (hlay : Layout fs) (hbpc : 0 < bytes_per_cluster fs) (hdir : DirOk fs inode)
    (ha : a ∈ slots fs inode) (hr : InRange fs c) (hfree : fat_entry_raw fs c = 0) :
    (live (made_dir fs c inode name a) c).map (fat12_make_node (made_dir fs c inode name a).disk) =
      [⟨[0x2E], FS_DIRECTORY, 0, c, 0⟩,
        ⟨[0x2E, 0x2E], FS_DIRECTORY, 0, if inode = FAT12_ROOT_INODE then 0 else inode, 0⟩] := by
  have hspc : 0 < fs.bpb.sectors_per_cluster := by
    unfold bytes_per_cluster at hbpc
    exact Nat.pos_of_mul_pos_right hbpc
  refine (new_dir_live (made_dir_slots hlay hdir hr) (by omega) (fun i hi k hk => ?_) (hdir.lt hr) hdir.inode_lt).1
  unfold sizeofDirEntry at hk
  have hin := made_dir_inside name hlay hdir ha hr hfree (k := i * 32 + k) (by omega)
  rw [← hin, ← Nat.add_assoc]
  rfl

/-! ## 作成の効果 -/

/-- 整ったディレクトリに新しい名前を作ると、その項目だけが加わり、新しいディレクトリには `.` と `..` だけがある。 -/
theorem create_mkdir_added (hlay : Layout fs) (hbpc : 0 < bytes_per_cluster fs) (hdir : DirOk fs dir.inode)
    (hflags : dir.flags &&& FS_DIRECTORY ≠ 0) (he : Ended fs dir.inode) (hname : Name83 name)
    (hnew : ∀ b ∈ live fs dir.inode, strcasecmp_fat (fat12_entry_to_name fs.disk b) name ≠ 0) :
    (∀ fs' node a, fat12_create_file fs dir name = some (fs', some (node, a)) →
      node = ⟨name.map upper, FS_FILE, 0, node.inode, 0⟩ ∧ Added fs fs' dir name FS_FILE node.inode a) ∧
    ∀ fs' c a, fat12_mkdir fs dir name = some (fs', some (c, a)) → Added fs fs' dir name FS_DIRECTORY c a ∧
      (live fs' c).map (fat12_make_node fs'.disk) = [⟨[0x2E], FS_DIRECTORY, 0, c, 0⟩,
        ⟨[0x2E, 0x2E], FS_DIRECTORY, 0, if dir.inode = FAT12_ROOT_INODE then 0 else dir.inode, 0⟩] := by
  have hnew' : ∀ b ∈ live fs dir.inode, matches_name fs.disk name b = false := fun b hb => decide_eq_false (hnew b hb)
  refine ⟨fun fs' node a h => create_added hlay hdir hflags he hname.kept hnew' h, fun fs' c a h =>
    ⟨mkdir_added hlay hdir hflags he hname.kept hnew' h, ?_⟩⟩
  obtain ⟨g, i, hroom, rfl, rfl, hr, hfree⟩ := mkdir_some hlay hdir hname.ne_nil hnew' h
  obtain ⟨hmem, hi, -⟩ := room_some hroom
  exact made_dir_live hlay hbpc hdir (mem_dir_slots hmem hi) hr hfree

theorem name83_letter : Name83 [0x62] :=
  ⟨[0x62], [], rfl, by decide, by decide, by decide, by simp, by decide⟩

theorem create_mkdir_added_one :
    (∃ fs' node a, fat12_create_file one_file (dir_node FAT12_ROOT_INODE) [0x62] = some (fs', some (node, a)) ∧
      Added one_file fs' (dir_node FAT12_ROOT_INODE) [0x62] FS_FILE node.inode a) ∧
    ∃ fs' c a, fat12_mkdir one_file (dir_node FAT12_ROOT_INODE) [0x62] = some (fs', some (c, a)) ∧
      Added one_file fs' (dir_node FAT12_ROOT_INODE) [0x62] FS_DIRECTORY c a ∧
      (live fs' c).map (fat12_make_node fs'.disk) =
        [⟨[0x2E], FS_DIRECTORY, 0, c, 0⟩, ⟨[0x2E, 0x2E], FS_DIRECTORY, 0, 0, 0⟩] := by
  have hdir : DirOk one_file (dir_node FAT12_ROOT_INODE).inode := one_file_ok.dirOk (Or.inl rfl)
  have hadd := create_mkdir_added one_file_layout (by decide +kernel) hdir (by decide)
    (by decide +kernel) name83_letter (by decide +kernel)
  have hcreate : ((fat12_create_file one_file (dir_node FAT12_ROOT_INODE) [0x62]).bind Prod.snd).isSome = true := by
    decide +kernel
  have hmkdir : ((fat12_mkdir one_file (dir_node FAT12_ROOT_INODE) [0x62]).bind Prod.snd).isSome = true := by
    decide +kernel
  obtain ⟨⟨node, a⟩, hmade⟩ := Option.isSome_iff_exists.mp hcreate
  obtain ⟨⟨fs', made⟩, hrun, rfl⟩ := Option.bind_eq_some_iff.mp hmade
  obtain ⟨⟨c, b⟩, hmade'⟩ := Option.isSome_iff_exists.mp hmkdir
  obtain ⟨⟨fs₂, made'⟩, hrun', rfl⟩ := Option.bind_eq_some_iff.mp hmade'
  exact ⟨⟨fs', node, a, hrun, (hadd.1 fs' node a hrun).2⟩, fs₂, c, b, hrun', hadd.2 fs₂ c b hrun'⟩

end MyOS.Fat
