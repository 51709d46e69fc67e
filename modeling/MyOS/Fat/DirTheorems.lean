import MyOS.Fat.Lemmas.WriteFs

/-!
# ディレクトリの項目の定理

`fat12_write_fs` は、書いた後に根だけを名前で探し直して項目を更新する。項目が正しく更新されるのは、
ファイル自身の項目が根の最初の同名の項目であるときに限る。
-/

namespace MyOS.Fat
open MyOS.Lib

variable {fs fs' : Fs} {H D : Set Nat} {node node' : Node} {a total n : Nat}
  {l ext log : List Nat} {H' : Set Nat}

theorem Opened.writable (ho : Opened fs H D node a) (hoff : node.seek_offset < 2 ^ 32) : Writable fs H D node :=
  ⟨ho.fat, ho.layout, ho.dirs, ho.inode, hoff⟩

/-! ## 項目が正しく更新される条件 -/

theorem entryKept_same (ho : Opened fs H D node a) : EntryKept fs D a (some (fs, node, 0)) :=
  ⟨fs, node, 0, rfl, ho.inode_eq, ho.size_eq, fun _ _ _ _ _ => rfl⟩

/-- 更新の対象がファイル自身の項目なら、項目は書いた後のノードと一致する。 -/
theorem Wrote.entryKept (ho : Opened fs H D node a) (hw : Wrote fs fs' H H' D node node' total n l ext log)
    (ht : root_target fs node.name = some a) : EntryKept fs D a (some (fs', node', n)) := by
  have hslots : slotsAfter fs node.name node' = updated fs.disk a node' := by
    unfold slotsAfter
    rw [ht]
  have hsize : node'.size < 2 ^ 32 := by
    have h1 := ho.size
    have h2 := hw.position
    rw [hw.node_eq]
    exact Nat.max_lt.mpr ⟨by omega, h2⟩
  have hbytes := hw.slots a ho.slot
  rw [hslots] at hbytes
  refine ⟨fs', node', n, rfl, ?_, ?_, fun b hb hne k hk => ?_⟩
  · rw [Entry.first_cluster_congr hbytes]
    exact first_cluster_updated hw.inode_lt
  · rw [Entry.file_size_congr hbytes]
    exact file_size_updated hsize
  · rw [hw.slots b hb k hk, hslots]
    refine updated_of_outside ?_
    have := slot_disjoint ho.slot.mod hb.mod hne hk
    omega

/-- 更新の対象が別の項目なら、大きくなったファイルの項目は古いまま残る。 -/
theorem Wrote.not_entryKept (ho : Opened fs H D node a) (hw : Wrote fs fs' H H' D node node' total n l ext log)
    (hgrow : node.size < node'.size) (ht : root_target fs node.name ≠ some a) :
    ¬ EntryKept fs D a (some (fs', node', n)) := by
  rintro ⟨_, _, _, heq, -, hsize, -⟩
  cases heq
  have hold : ∀ k < sizeofDirEntry, fs'.disk (a + k) = fs.disk (a + k) := by
    intro k hk
    rw [hw.slots a ho.slot k hk]
    unfold slotsAfter
    cases htarget : root_target fs node.name with
    | none => rfl
    | some t =>
        obtain ⟨⟨s, hs, i, hi, rfl, -⟩, -⟩ := (root_target_eq_some ho.layout).mp htarget
        have hne : a ≠ (root_group fs s).slot i := by
          rintro rfl
          exact ht htarget
        have := slot_disjoint (slot_mod (root_group fs s) i) ho.slot.mod hne hk
        exact updated_of_outside (by omega)
  rw [Entry.file_size_congr hold, ho.size_eq] at hsize
  omega

/-- ファイルのノードへのどの書き込みも、自身の項目だけを正しく更新するのは、その項目が根の最初の同名の
項目であるか、クラスタのないファイルで空きもないときに限る。書き込むバッファは、クラスタ一つ分の余裕を
残して 32 ビットの番地に収まる。 -/
theorem write_fs_entry_iff (hobt : Obtained D fs node a) (hfile : node.flags = FS_FILE) :
    (∀ seek_offset size units buffer, seek_offset < 2 ^ 32 →
      mul32 size units + bytes_per_cluster fs ≤ 2 ^ 32 →
      EntryKept fs D a (fat12_write_fs fs { node with seek_offset := seek_offset } size units buffer)) ↔
    FirstRootMatch fs node.name a ∨
      node.inode = 0 ∧ ∀ c, InRange fs c → fat_entry_raw fs c ≠ 0 := by
  obtain ⟨H, ho⟩ := hobt.opened hfile
  have hseek : ∀ seek_offset, Opened fs H D { node with seek_offset := seek_offset } a :=
    fun _ => ⟨ho.fat, ho.layout, ho.dirs, ho.slot, ho.inode_eq, ho.size_eq, ho.inode, ho.size⟩
  rw [← root_target_eq_some ho.layout]
  constructor
  · intro hall
    by_contra hnot
    obtain ⟨ht, hfull⟩ := not_or.mp hnot
    have hsmall : mul32 1 1 + bytes_per_cluster fs ≤ 2 ^ 32 := by
      have h1 := ho.layout.sectors_per_cluster
      have h2 := ho.layout.bytes_per_sector
      unfold bytes_per_cluster mul32
      rw [h2]
      omega
    have hlt := ho.size
    -- ファイルの終わりの先に 1 バイト書けば、大きさは必ず変わる。
    have hkept := hall (node.size + 1) 1 1 none (by omega) hsmall
    rcases write_fs_spec ((hseek (node.size + 1)).writable (by simp only; omega)) 1 1 none hsmall with
      ⟨-, -, hz | hz⟩ | ⟨-, -, fs', H', node', n, l, ext, heq, hw⟩
    · exact absurd hz (by decide)
    · exact hfull hz
    · rw [heq] at hkept
      refine hw.not_entryKept (hseek _) ?_ ht hkept
      rw [hw.node_eq]
      simp only
      omega
  · intro hcond seek_offset size units buffer hoff hsz
    rcases write_fs_spec ((hseek seek_offset).writable hoff) size units buffer hsz with
      ⟨heq, -⟩ | ⟨-, hfree, fs', H', node', n, l, ext, heq, hw⟩
    · rw [heq]
      exact entryKept_same (hseek seek_offset)
    · rw [heq]
      rcases hcond with ht | ⟨h0, hfull⟩
      · exact hw.entryKept (hseek seek_offset) ht
      · exact absurd hfull (hfree h0)

/-! ## 同名のファイルが二つあるボリューム -/

def nameA : List UInt8 := [0x41, 0x2E, 0x54, 0x58, 0x54]

/-- 根に `A.TXT` とディレクトリ `D` があり、`D` の中にも `A.TXT` がある。 -/
def twoFiles : Fs where
  root_inode := FAT12_ROOT_INODE
  bpb := ⟨512, 1, 1, 16, 1⟩
  fat_lba := 1
  root_lba := 2
  data_lba := 3
  fat_cache := #[0xF0, 0xFF, 0xFF, 0xFF, 0xFF, 0xFF, 0xFF, 0x0F, 0, 0, 0, 0, 0]
  total_clusters := 6
  disk := Entry.write (Entry.write (Entry.write (Entry.write (Entry.write (fun _ => 0)
    1024 (new_entry nameA 0x20 2)) 1056 (new_entry [0x44] 0x10 3))
    2048 (dot_entry [0x2E] 3)) 2080 (dot_entry [0x2E, 0x2E] 0)) 2112 (new_entry nameA 0x20 4)

def rootDir : Node := ⟨[0x6D, 0x6E, 0x74], FS_DIRECTORY, 0, FAT12_ROOT_INODE, 0⟩
def dirD : Node := ⟨[0x44], FS_DIRECTORY, 0, 3, 0⟩

theorem twoFiles_follows {c : Nat} (hc : c ∈ ({2, 3, 4} : Set Nat)) : Follows (fatNext twoFiles) c [c] := by
  refine .last ?_
  rcases hc with rfl | rfl | rfl <;> decide +kernel

theorem twoFiles_fatOk : FatOk twoFiles {2, 3, 4} := by
  refine ⟨by decide, by decide, ⟨fun c hc => ⟨[c], twoFiles_follows hc, ?_⟩, ?_⟩, fun c hc hne => ?_⟩
  · intro d hd
    rw [List.mem_singleton.mp hd]
    rcases hc with rfl | rfl | rfl <;> exact ⟨by decide, by decide⟩
  · intro c hc d hd l l' x hl hl' hx hx'
    rw [hl.unique (twoFiles_follows hc)] at hx
    rw [hl'.unique (twoFiles_follows hd)] at hx'
    rw [← List.mem_singleton.mp hx, ← List.mem_singleton.mp hx']
  · have hzero : ∀ c < 8, 5 ≤ c → fat12_get_fat_entry twoFiles c = 0 := by decide +kernel
    have h2 : 2 ≤ c := hc.1
    have h8 : c < 8 := hc.2
    have hlt : c < 5 := by
      by_contra hge
      exact hne (hzero c h8 (by omega))
    have hmem : c ∈ ({2, 3, 4} : Set Nat) := by
      simp only [Set.mem_insert_iff, Set.mem_singleton_iff]
      omega
    exact Or.inl ⟨c, hmem, [c], twoFiles_follows hmem, by simp⟩

theorem twoFiles_volOk : VolOk twoFiles {2, 3, 4} {3} := by
  refine ⟨twoFiles_fatOk, ⟨rfl, rfl, by decide, rfl, rfl, by decide⟩, by simp, ?_⟩
  have hroot : fat12_iterate_dir twoFiles FAT12_ROOT_INODE = some [1024, 1056] := by decide +kernel
  have hsub : fat12_iterate_dir twoFiles 3 = some [2048, 2080, 2112] := by decide +kernel
  have hfile : ∀ a ∈ [1024, 2112], Entry.attributes twoFiles.disk a &&& (0x10 : UInt8) = 0 ∧
      (Entry.first_cluster twoFiles.disk a = 2 ∨ Entry.first_cluster twoFiles.disk a = 4) ∧
      Entry.file_size twoFiles.disk a = 0 := by decide +kernel
  have hdir : ∀ a ∈ [1056, 2048, 2080], Entry.attributes twoFiles.disk a &&& (0x10 : UInt8) ≠ 0 ∧
      (Entry.first_cluster twoFiles.disk a = 0 ∨ Entry.first_cluster twoFiles.disk a = 3) := by
    decide +kernel
  have hfok : ∀ a ∈ [1024, 2112], EntryOk twoFiles {2, 3, 4} {3} a := by
    intro a ha
    obtain ⟨hattr, hfc, hsz⟩ := hfile a ha
    refine ⟨fun _ => ⟨Or.inr ?_, by rw [hsz]; decide⟩, fun h => absurd hattr h⟩
    rcases hfc with hfc | hfc <;> rw [hfc] <;> simp
  have hdok : ∀ a ∈ [1056, 2048, 2080], EntryOk twoFiles {2, 3, 4} {3} a := by
    intro a ha
    obtain ⟨hattr, hfc⟩ := hdir a ha
    exact ⟨fun h => absurd h hattr, fun _ => hfc⟩
  rintro inode (rfl | rfl) slots hit a ha
  · rw [hroot] at hit
    cases hit
    rcases List.mem_cons.mp ha with rfl | ha
    · exact hfok _ (by simp)
    · exact hdok _ (by simp_all)
  · rw [hsub] at hit
    cases hit
    rcases List.mem_cons.mp ha with rfl | ha
    · exact hdok _ (by simp)
    rcases List.mem_cons.mp ha with rfl | ha
    · exact hdok _ (by simp)
    · exact hfok _ (by simp_all)

/-- 根の `A.TXT` への書き込みは、いつも自身の項目だけを更新する。 -/
theorem write_fs_entry_root : ∃ node, Obtained {3} twoFiles node 1024 ∧ node.flags = FS_FILE ∧
    ∀ seek_offset size units buffer, seek_offset < 2 ^ 32 →
      mul32 size units + bytes_per_cluster twoFiles ≤ 2 ^ 32 →
      EntryKept twoFiles {3} 1024
        (fat12_write_fs twoFiles { node with seek_offset := seek_offset } size units buffer) := by
  have hfind : fat12_finddir_fs twoFiles rootDir nameA =
      some (some (⟨nameA, FS_FILE, 0, 2, 0⟩, 1024)) := by decide +kernel
  have hobt := Obtained.finddir twoFiles_volOk (Or.inl rfl) hfind
  refine ⟨_, hobt, rfl, (write_fs_entry_iff hobt rfl).mpr (Or.inl ?_)⟩
  rw [← root_target_eq_some twoFiles_volOk.layout]
  decide +kernel

/-- `D` の `A.TXT` に 1 バイト書くと、根の `A.TXT` の項目がクラスタ 4 を指すようになる。 -/
theorem write_fs_entry_cross_linked : ∃ node, Obtained {3} twoFiles node 2112 ∧ node.flags = FS_FILE ∧
    ((fat12_write_fs twoFiles node 1 1 (some fun _ => 0x58)).map fun r =>
      (Entry.first_cluster r.1.disk 1024, Entry.file_size r.1.disk 2112, r.2.1.size)) = some (4, 0, 1) ∧
    ¬ EntryKept twoFiles {3} 2112 (fat12_write_fs twoFiles node 1 1 (some fun _ => 0x58)) := by
  have hfind : fat12_finddir_fs twoFiles dirD nameA =
      some (some (⟨nameA, FS_FILE, 0, 4, 0⟩, 2112)) := by decide +kernel
  have hdir : IsDir {3} dirD.inode := Or.inr rfl
  have hobt := Obtained.finddir twoFiles_volOk hdir hfind
  have hrun : ((fat12_write_fs twoFiles ⟨nameA, FS_FILE, 0, 4, 0⟩ 1 1 (some fun _ => 0x58)).map fun r =>
      (Entry.first_cluster r.1.disk 1024, Entry.file_size r.1.disk 2112, r.2.1.size)) = some (4, 0, 1) := by
    decide +kernel
  refine ⟨_, hobt, rfl, hrun, ?_⟩
  rintro ⟨fs', node', n, heq, -, hsize, -⟩
  rw [heq] at hrun
  simp only [Option.map_some, Option.some.injEq, Prod.mk.injEq] at hrun
  omega

end MyOS.Fat
