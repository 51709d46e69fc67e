import MyOS.Fat.Lemmas.Slots

/-!
# ノードを得る

`fat12_finddir_fs` と `fat12_create_file` が返すノードは、ディレクトリの一つの項目と一致している。
-/

namespace MyOS.Fat
open MyOS.Lib ByteMem

variable {fs fs' : Fs} {H D : Set Nat} {a c d inode : Nat} {l : List Nat} {gs : List Group}
  {name : List UInt8} {node : Node} {g : Group}

/-- 開いているファイルのノード。番地 `a` の項目と一致し、鎖はディレクトリのものではない。 -/
structure Opened (fs : Fs) (H D : Set Nat) (node : Node) (a : Nat) : Prop where
  fat : FatOk fs H
  layout : Layout fs
  dirs : D ⊆ H
  slot : IsSlot fs D a
  inode_eq : Entry.first_cluster fs.disk a = node.inode
  size_eq : Entry.file_size fs.disk a = node.size
  inode : node.inode = 0 ∨ node.inode ∈ H \ D
  size : node.size < 0xFFFFFFFF

/-! ## 探す -/

theorem VolOk.groups (hv : VolOk fs H D) (hdir : IsDir D inode) : ∃ gs, Groups fs inode gs :=
  hv.fat.groups hv.dirs hdir

theorem visible_isSlot (hg : Groups fs inode gs) (hdir : IsDir D inode) (ha : a ∈ visible fs.disk gs) :
    IsSlot fs D a := by
  obtain ⟨g, hmem, hlive⟩ := mem_visible ha
  obtain ⟨i, hi, rfl, -⟩ := mem_live_slots.mp hlive
  exact hg.isSlot hdir hmem hi

theorem make_node_file (m : ByteMem) (h : (fat12_make_node m a).flags = FS_FILE) :
    Entry.attributes m a &&& (0x10 : UInt8) = 0 := by
  unfold fat12_make_node at h
  by_contra hne
  simp only [ne_eq, hne, not_false_eq_true, if_true] at h
  exact absurd h (by decide)

theorem find_entry_opened (hv : VolOk fs H D) (hdir : IsDir D inode)
    (hf : find_entry fs inode name = some (some (node, a))) (hfile : node.flags = FS_FILE) :
    Opened fs H D node a := by
  obtain ⟨gs, hg⟩ := hv.groups hdir
  rw [find_entry_eq hg] at hf
  obtain ⟨b, hb, heq⟩ := Option.map_eq_some_iff.mp (Option.some.inj hf)
  cases heq
  have hmem := List.mem_of_find?_eq_some hb
  obtain ⟨hfc, hsz⟩ := (hv.entries inode hdir _ (iterate_dir_eq hg) a hmem).file (make_node_file _ hfile)
  exact ⟨hv.fat, hv.layout, hv.dirs, visible_isSlot hg hdir hmem, rfl, rfl, hfc, hsz⟩

/-! ## クラスタの確保 -/

/-- 確保は空きクラスタ一つを新しい先頭にするか、何も変えない。ディスクには触れない。 -/
theorem allocate_cluster_spec (hok : FatOk fs H) :
    ∃ fs₁ c H₁, fat12_allocate_cluster fs = (fs₁, c) ∧ FatOk fs₁ H₁ ∧ H ⊆ H₁ ∧
      fs₁.disk = fs.disk ∧ (∃ l, SameOutside fs fs₁ l ∧ ∀ x ∈ l, fat_entry_raw fs x = 0) ∧
      c < 0xFF7 ∧ (c = 0 ∧ fs₁ = fs ∧ (∀ x, InRange fs x → fat_entry_raw fs x ≠ 0) ∨
        c ≠ 0 ∧ c ∈ H₁ ∧ c ∉ H ∧ InRange fs c ∧ fat_entry_raw fs c = 0) := by
  rcases allocate_cluster_cases fs with ⟨c, halloc, hr, hfree⟩ | ⟨halloc, hfull⟩
  · refine ⟨_, c, _, halloc, hok.allocate hr hfree, Set.subset_insert c H, rfl,
      ⟨[c], SameOutside.set (hok.in_cache hr), by simpa using hfree⟩, ?_, Or.inr ⟨?_, ?_, ?_, hr, hfree⟩⟩
    · have := hr.2
      have := hok.bound
      omega
    · have := hr.1
      omega
    · exact Set.mem_insert c H
    · intro hc
      obtain ⟨l, hl, -⟩ := hok.chains.chain c hc
      exact hok.entry_ne_zero hc hl hl.mem_head hfree
  · exact ⟨fs, 0, H, halloc, hok, Set.Subset.rfl, rfl, ⟨[], SameOutside.refl fs [], by simp⟩, by decide,
      Or.inl ⟨rfl, rfl, hfull⟩⟩

theorem owned_of_sameOutside (hok : FatOk fs H) (hD : D ⊆ H) (hsame : SameOutside fs fs' l)
    (hfree : ∀ x ∈ l, fat_entry_raw fs x = 0) : Owned (fatNext fs') D c ↔ Owned (fatNext fs) D c :=
  hok.owned_kept hD hsame (fun x hx ho => hok.not_owned_of_free (hfree x hx) (ho.mono hD))

/-! ## 作る -/

/-- 単位 `g` の項目 `i` に新しいファイルを作った結果。 -/
def created (fs : Fs) (name : List UInt8) (g : Group) (i : Nat) : Fs × Node × Nat :=
  let alloc := fat12_allocate_cluster fs
  let buf := Entry.write (ata_read_sectors fs g.lba) (i * sizeofDirEntry) (new_entry name 0x20 alloc.2)
  (ata_write_sectors alloc.1 g.lba g.sectors buf, fat12_make_node buf (i * sizeofDirEntry), g.slot i)

theorem allocate_disk (fs : Fs) : (fat12_allocate_cluster fs).1.disk = fs.disk := by
  rcases allocate_cluster_cases fs with ⟨c, halloc, -⟩ | ⟨halloc, -⟩
  · rw [halloc]
    rfl
  · rw [halloc]

/-- セクタを読み、項目を書いて書き戻すと、その項目だけが変わる。 -/
theorem ata_write_entry {fs₁ : Fs} {i : Nat} (hdisk : fs₁.disk = fs.disk) (bytes : List UInt8) (hi : i < g.entries)
    (hg : g.entries * 32 ≤ g.sectors * 512) :
    ata_write_sectors fs₁ g.lba g.sectors (Entry.write (ata_read_sectors fs g.lba) (i * sizeofDirEntry) bytes) =
      { fs₁ with disk := Entry.write fs.disk (g.slot i) bytes } := by
  have hend : i * 32 + 32 ≤ g.sectors * 512 := by
    have := Nat.mul_le_mul_right 32 hi
    omega
  clear hi hg
  unfold ata_write_sectors ata_read_sectors Entry.write Group.slot ATA_SECTOR_SIZE sizeofDirEntry
  rw [hdisk]
  refine congrArg (fun d : ByteMem => ({ fs₁ with disk := d } : Fs)) (funext fun x => ?_)
  by_cases hx : g.lba * 512 ≤ x ∧ x < (g.lba + g.sectors) * 512
  · rw [if_pos hx]
    by_cases hxi : g.lba * 512 + i * 32 ≤ x ∧ x < g.lba * 512 + i * 32 + 32
    · rw [if_pos hxi, if_pos (by omega), Nat.sub_sub]
    · rw [if_neg hxi, if_neg (by omega)]
      dsimp only
      congr 1
      omega
  · have hxi : ¬ (g.lba * 512 + i * 32 ≤ x ∧ x < g.lba * 512 + i * 32 + 32) := by
      rintro ⟨hlo, hhi⟩
      refine hx ⟨Nat.le_trans (Nat.le_add_right _ _) hlo, Nat.lt_of_lt_of_le hhi ?_⟩
      rw [Nat.add_mul, Nat.add_assoc]
      exact Nat.add_le_add_left hend _
    rw [if_neg hx, if_neg hxi]

/-- 新しいファイルの項目を書いたディスク。 -/
def created_disk (fs : Fs) (name : List UInt8) (a : Nat) : ByteMem :=
  Entry.write fs.disk a (new_entry name 0x20 (fat12_allocate_cluster fs).2)

theorem entry_write_shift (bytes : List UInt8) (m : ByteMem) (d i k : Nat) :
    Entry.write (fun x => m (d + x)) i bytes (i + k) = Entry.write m (d + i) bytes (d + i + k) := by
  unfold Entry.write
  by_cases hk : k < sizeofDirEntry
  · rw [if_pos (by omega), if_pos (by omega)]
    congr 1
    omega
  · rw [if_neg (by omega), if_neg (by omega)]
    dsimp only
    rw [Nat.add_assoc]

theorem created_eq {i : Nat} (hi : i < g.entries) (hg : g.entries * 32 ≤ g.sectors * 512) :
    created fs name g i = ({ (fat12_allocate_cluster fs).1 with disk := created_disk fs name (g.slot i) },
      fat12_make_node (created_disk fs name (g.slot i)) (g.slot i), g.slot i) := by
  unfold created
  dsimp only
  rw [ata_write_entry (allocate_disk fs) _ hi hg]
  refine congrArg (Prod.mk _) (Prod.ext (make_node_congr (fun k hk => ?_)) rfl)
  exact entry_write_shift _ fs.disk _ _ k

/-- 確保は、使用中の鎖を変えない。 -/
theorem created_follows (hok : FatOk fs H) (hd : d ∈ H) (name : List UInt8) (g : Group) (i : Nat)
    (hl : Follows (fatNext fs) d l) : Follows (fatNext (created fs name g i).1) d l := by
  obtain ⟨fs₁, c, H₁, halloc, -, -, -, ⟨l₁, hsame, hfree⟩, -⟩ := allocate_cluster_spec hok
  refine hl.congr (fun x hx => ?_)
  unfold created
  rw [halloc]
  exact fatNext_congr (hsame.entry x (fun hxl => hok.entry_ne_zero hd hl hx (hfree x hxl)))

/-- 最初の空き項目に作るか、空き項目がなく何も変わらない。 -/
theorem create_in_dir_eq (hok : FatOk fs H) (hD : D ⊆ H) (hdir : IsDir D inode) (hg : Groups fs inode gs)
    (name : List UInt8) : create_in_dir fs inode name = some (match room fs.disk gs with
      | some (g, i) => ((created fs name g i).1, some (created fs name g i).2)
      | none => (fs, none)) := by
  unfold create_in_dir
  have honce : ∀ base i buf fs, Done (create_file_callback name) (create_file_callback name base i buf fs none).2.2 :=
    fun _ _ _ _ _ _ _ _ => rfl
  exact iterate_dir_write_eq honce hg
    (fun hne g i l hl => created_follows hok (hD (hdir.resolve_left hne)) name g i hl)

/-! ## 作った項目 -/

theorem pad_length {n : Nat} {l : List UInt8} (h : l.length ≤ n) : (pad n l).length = n := by
  unfold pad
  rw [List.length_append, List.length_replicate]
  omega

theorem name_to_83_length (name : List UInt8) :
    (fat12_name_to_83 name).1.length = 8 ∧ (fat12_name_to_83 name).2.length = 3 := by
  unfold fat12_name_to_83
  refine ⟨pad_length ?_, pad_length ?_⟩
  · rw [List.length_map]
    exact List.length_take_le _ _
  · rw [List.length_map]
    split
    · exact List.length_take_le _ _
    · exact Nat.zero_le _

/-- 新しい項目の最後の 6 バイトは、クラスタの番号と大きさ 0 である。 -/
theorem new_entry_tail (attr : UInt8) (k : Nat) : (new_entry name attr c).getD (26 + k) 0 =
    [UInt8.ofNat c, UInt8.ofNat (c / 256), 0, 0, 0, 0].getD k 0 := by
  obtain ⟨h8, h3⟩ := name_to_83_length name
  unfold new_entry
  dsimp only
  rw [List.getD_eq_getElem?_getD, List.getD_eq_getElem?_getD,
    List.getElem?_append_right (by simp [h8, h3])]
  simp [h8, h3]

theorem entry_write_tail (m : ByteMem) (a c : Nat) (name : List UInt8) (attr : UInt8) {k : Nat} (hk : k < 6) :
    Entry.write m a (new_entry name attr c) (a + 26 + k) =
      [UInt8.ofNat c, UInt8.ofNat (c / 256), 0, 0, 0, 0].getD k 0 := by
  unfold Entry.write
  rw [if_pos (by unfold sizeofDirEntry; omega), show a + 26 + k - a = 26 + k by omega, new_entry_tail]

theorem first_cluster_new {m : ByteMem} (attr : UInt8) (hc : c < 65536) :
    Entry.first_cluster (Entry.write m a (new_entry name attr c)) a = c := by
  unfold Entry.first_cluster
  have h0 := entry_write_tail m a c name attr (k := 0) (by decide)
  have h1 := entry_write_tail m a c name attr (k := 1) (by decide)
  simp only [List.getD_cons_zero, List.getD_cons_succ, Nat.add_zero, Nat.add_assoc, Nat.reduceAdd] at h0 h1
  rw [h0, h1, UInt8.toNat_ofNat', UInt8.toNat_ofNat']
  omega

theorem file_size_new {m : ByteMem} (attr : UInt8) :
    Entry.file_size (Entry.write m a (new_entry name attr c)) a = 0 := by
  unfold Entry.file_size load32
  have h : ∀ k < 4, Entry.write m a (new_entry name attr c) (a + 28 + k) = 0 := by
    intro k hk
    have ht := entry_write_tail m a c name attr (k := k + 2) (by omega)
    rw [show a + 28 + k = a + 26 + (k + 2) by omega, ht]
    have hz : ∀ k < 4, [(0 : UInt8), 0, 0, 0].getD k 0 = 0 := by decide
    exact hz k hk
  have h0 := h 0 (by decide)
  rw [Nat.add_zero] at h0
  rw [h0, h 1 (by decide), h 2 (by decide), h 3 (by decide)]
  rfl

theorem created_opened {i : Nat} (hv : VolOk fs H D) (hslot : IsSlot fs D (g.slot i)) (hi : i < g.entries)
    (hg : g.entries * 32 ≤ g.sectors * 512) :
    ∃ H', Opened (created fs name g i).1 H' D (created fs name g i).2.1 (created fs name g i).2.2 := by
  obtain ⟨fs₁, c, H₁, halloc, hok₁, hsub, -, ⟨l, hsame, hfree⟩, hc, hcase⟩ := allocate_cluster_spec hv.fat
  rw [created_eq hi hg]
  unfold created_disk
  rw [halloc]
  dsimp only
  refine ⟨H₁, hok₁.disk, ?_, hv.dirs.trans hsub, ?_, rfl, rfl, ?_, ?_⟩
  · exact (hv.layout.of_same hsame).disk _
  · refine IsSlot.congr hsame.bpb hsame.root_lba hsame.data_lba ?_ hslot
    exact fun x hx => (owned_of_sameOutside hv.fat hv.dirs hsame hfree).mpr hx
  · have hfc : (fat12_make_node (Entry.write fs.disk (g.slot i) (new_entry name 0x20 c)) (g.slot i)).inode = c :=
      first_cluster_new _ (by omega)
    rw [hfc]
    rcases hcase with ⟨h0, -⟩ | ⟨-, hmem, hnot, -⟩
    · exact Or.inl h0
    · exact Or.inr ⟨hmem, fun hD => hnot (hv.dirs hD)⟩
  · have hsz : (fat12_make_node (Entry.write fs.disk (g.slot i) (new_entry name 0x20 c)) (g.slot i)).size = 0 :=
      file_size_new _
    rw [hsz]
    decide

theorem create_in_dir_opened (hv : VolOk fs H D) (hdir : IsDir D inode)
    (hc : create_in_dir fs inode name = some (fs', some (node, a))) : ∃ H', Opened fs' H' D node a := by
  obtain ⟨gs, hg⟩ := hv.groups hdir
  rw [create_in_dir_eq hv.fat hv.dirs hdir hg] at hc
  cases hroom : room fs.disk gs with
  | none =>
      rw [hroom] at hc
      cases hc
  | some r =>
      obtain ⟨hmem, hi, -⟩ := room_some hroom
      rw [hroom] at hc
      cases hc
      exact created_opened hv (hg.isSlot hdir hmem hi) hi (hg.fits hv.layout hmem)

theorem Obtained.opened (hobt : Obtained D fs node a) (hfile : node.flags = FS_FILE) :
    ∃ H, Opened fs H D node a := by
  cases hobt with
  | @finddir _ H dir _ name _ hv hdir hf =>
      unfold fat12_finddir_fs at hf
      split at hf
      · cases hf
      · exact ⟨H, find_entry_opened hv hdir hf hfile⟩
  | @create_file fs₀ _ H dir _ name _ hv hdir hc =>
      unfold fat12_create_file at hc
      obtain ⟨found, hfound, hc⟩ := Option.bind_eq_some_iff.mp hc
      cases found with
      | some x =>
          cases hc
          exact ⟨H, find_entry_opened hv hdir hfound hfile⟩
      | none => exact create_in_dir_opened hv hdir hc

end MyOS.Fat
