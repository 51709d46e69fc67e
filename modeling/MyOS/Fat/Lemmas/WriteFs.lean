import MyOS.Fat.Lemmas.Create

/-!
# `fat12_write_fs` の結果

最初のクラスタの用意、鎖への書き込み、項目の更新、表の書き出しの各段階をつなぐ。
-/

namespace MyOS.Fat
open MyOS.Lib

variable {fs fs' fs'' : Fs} {H D : Set Nat} {node node' : Node} {a b c size units n : Nat} {l l₀ ext : List Nat}
  {buffer : Option ByteMem}

/-! ## 配置 -/

/-- 配置が同じである。 -/
structure SameShape (fs fs' : Fs) : Prop where
  root_inode : fs'.root_inode = fs.root_inode
  bpb : fs'.bpb = fs.bpb
  fat_lba : fs'.fat_lba = fs.fat_lba
  root_lba : fs'.root_lba = fs.root_lba
  data_lba : fs'.data_lba = fs.data_lba
  total_clusters : fs'.total_clusters = fs.total_clusters

theorem SameShape.refl (fs : Fs) : SameShape fs fs := ⟨rfl, rfl, rfl, rfl, rfl, rfl⟩

theorem SameShape.of_disk (fs : Fs) (disk : ByteMem) : SameShape fs { fs with disk := disk } :=
  ⟨rfl, rfl, rfl, rfl, rfl, rfl⟩

theorem SameShape.trans (h : SameShape fs fs') (h' : SameShape fs' fs'') : SameShape fs fs'' :=
  ⟨h'.root_inode.trans h.root_inode, h'.bpb.trans h.bpb, h'.fat_lba.trans h.fat_lba,
    h'.root_lba.trans h.root_lba, h'.data_lba.trans h.data_lba, h'.total_clusters.trans h.total_clusters⟩

theorem SameOutside.shape (h : SameOutside fs fs' l) : SameShape fs fs' :=
  ⟨h.root_inode, h.bpb, h.fat_lba, h.root_lba, h.data_lba, h.total_clusters⟩

theorem SameShape.layout (h : SameShape fs fs') (hlay : Layout fs) : Layout fs' := by
  have hroot : root_dir_sectors fs' = root_dir_sectors fs := by
    unfold root_dir_sectors
    rw [h.bpb]
  refine ⟨?_, ?_, ?_, ?_, ?_, ?_⟩
  · exact h.root_inode.trans hlay.root_inode
  · rw [h.bpb]
    exact hlay.bytes_per_sector
  · rw [h.bpb]
    exact hlay.sectors_per_cluster
  · rw [h.root_lba, h.fat_lba, h.bpb]
    exact hlay.root_lba
  · rw [h.data_lba, h.root_lba, hroot]
    exact hlay.data_lba
  · rw [h.data_lba, h.total_clusters, h.bpb]
    exact hlay.data_end

theorem SameShape.bytes_per_cluster (h : SameShape fs fs') : bytes_per_cluster fs' = bytes_per_cluster fs := by
  unfold MyOS.Fat.bytes_per_cluster
  rw [h.bpb]

theorem SameShape.inRange (h : SameShape fs fs') : InRange fs' c ↔ InRange fs c := by
  unfold InRange
  rw [h.total_clusters]

theorem SameShape.isSlot (h : SameShape fs fs')
    (hown : ∀ c, Owned (fatNext fs') D c ↔ Owned (fatNext fs) D c) : IsSlot fs' D b ↔ IsSlot fs D b :=
  ⟨IsSlot.congr h.bpb.symm h.root_lba.symm h.data_lba.symm (fun c hc => (hown c).mp hc),
    IsSlot.congr h.bpb h.root_lba h.data_lba (fun c hc => (hown c).mpr hc)⟩

/-- 鎖の全体の大きさは、32 ビットにも余裕をもって収まる。 -/
theorem Layout.capacity_lt (hlay : Layout fs) (hok : FatOk fs H) :
    (fs.total_clusters + 1) * bytes_per_cluster fs < 2 ^ 32 := by
  have hspc := hlay.sectors_per_cluster
  have hbound := hok.bound
  have hbpc : bytes_per_cluster fs ≤ 255 * 512 := by
    unfold bytes_per_cluster
    rw [hlay.bytes_per_sector]
    omega
  calc (fs.total_clusters + 1) * bytes_per_cluster fs ≤ 4086 * (255 * 512) :=
        Nat.mul_le_mul (by omega) hbpc
    _ < 2 ^ 32 := by decide

/-! ## 表の書き出し -/

theorem flush_fat_eq (hlay : Layout fs) : ∃ disk, fat12_flush_fat fs = { fs with disk := disk } ∧
    ∀ x, fs.root_lba * ATA_SECTOR_SIZE ≤ x → disk x = fs.disk x := by
  have hfold : ∀ (is : List Nat), (∀ i ∈ is, i < fs.bpb.num_fats) → ∀ d : ByteMem,
      ∃ disk, is.foldl (fun fs i => ata_write_sectors fs (fs.fat_lba + i * fs.bpb.fat_size_sectors)
          fs.bpb.fat_size_sectors (cacheByte fs)) { fs with disk := d } = { fs with disk := disk } ∧
        ∀ x, fs.root_lba * ATA_SECTOR_SIZE ≤ x → disk x = d x := by
    intro is
    induction is with
    | nil => exact fun _ d => ⟨d, rfl, fun _ _ => rfl⟩
    | cons i is ih =>
        intro his d
        have hi := his i (by simp)
        obtain ⟨disk, heq, hx⟩ := ih (fun j hj => his j (by simp [hj]))
          (fun x => if (fs.fat_lba + i * fs.bpb.fat_size_sectors) * ATA_SECTOR_SIZE ≤ x ∧
            x < (fs.fat_lba + i * fs.bpb.fat_size_sectors + fs.bpb.fat_size_sectors) * ATA_SECTOR_SIZE then
            cacheByte fs (x - (fs.fat_lba + i * fs.bpb.fat_size_sectors) * ATA_SECTOR_SIZE) else d x)
        refine ⟨disk, heq, fun x hle => (hx x hle).trans (if_neg ?_)⟩
        rintro ⟨-, hlt⟩
        have hmul : (i + 1) * fs.bpb.fat_size_sectors ≤ fs.bpb.num_fats * fs.bpb.fat_size_sectors :=
          Nat.mul_le_mul_right _ hi
        rw [Nat.add_mul, Nat.one_mul] at hmul
        have hroot := hlay.root_lba
        unfold ATA_SECTOR_SIZE at *
        omega
  exact hfold (List.range fs.bpb.num_fats) (fun i hi => List.mem_range.mp hi) fs.disk

/-! ## 書いた後の位置 -/

/-- 書いた後の位置は 32 ビットに収まる。終わりが桁あふれすれば、何も書いたことにならない。 -/
def Advanced (offset size n : Nat) : Prop := offset + n < 2 ^ 32 ∧ (2 ^ 32 ≤ offset + size → n = 0)

theorem write_actual_advanced {offset total_end bytes_written : Nat} (hoff : offset < 2 ^ 32)
    (hsize : size < 2 ^ 32) (hend : total_end = add32 offset size) :
    Advanced offset size (write_actual offset size total_end bytes_written) := by
  unfold Advanced write_actual
  unfold add32 at hend
  split_ifs <;> omega

theorem write_chain_loop_advanced {offset : Nat} (hoff : offset < 2 ^ 32) (hsize : size < 2 ^ 32) :
    ∀ (fuel bytes_written cur : Nat) (fs : Fs),
      write_chain_loop offset size (add32 offset size) buffer fuel bytes_written cur fs = some (fs', n) →
      Advanced offset size n := by
  intro fuel
  induction fuel with
  | zero =>
      intro bytes_written cur fs h
      cases h
  | succ fuel ih =>
      intro bytes_written cur fs h
      unfold write_chain_loop at h
      split at h
      · next hgo =>
          split at h
          · cases h
          · split at h
            · cases h
              have hlt := hgo.2
              unfold add32 at hlt
              unfold Advanced
              split <;> omega
            · simp only at h
              split at h
              · split at h
                · cases h
                  exact write_actual_advanced hoff hsize rfl
                · exact ih _ _ _ h
              · exact ih _ _ _ h
      · cases h
        exact write_actual_advanced hoff hsize rfl

/-! ## 最初のクラスタ -/

/-- 書き込めるノード。鎖はディレクトリのものではない。 -/
structure Writable (fs : Fs) (H D : Set Nat) (node : Node) : Prop where
  fat : FatOk fs H
  layout : Layout fs
  dirs : D ⊆ H
  inode : node.inode = 0 ∨ node.inode ∈ H \ D
  seek : node.seek_offset < 2 ^ 32

/-- 書く前のノードの鎖。クラスタがなければ空である。 -/
def OldChain (fs : Fs) (node : Node) (l : List Nat) : Prop :=
  node.inode = 0 ∧ l = [] ∨ node.inode ≠ 0 ∧ Follows (fatNext fs) node.inode l

/-- 最初のクラスタを用意した後の状態。 -/
structure Started (fs fs₁ : Fs) (H H₁ D : Set Nat) (node node₁ : Node) (l ext : List Nat) : Prop where
  fat : FatOk fs₁ H₁
  heads : H ⊆ H₁
  head : node₁.inode ∈ H₁ \ D
  disk : fs₁.disk = fs.disk
  before : OldChain fs node l
  after : Follows (fatNext fs₁) node₁.inode (l ++ ext)
  same : SameOutside fs fs₁ ext
  free : ∀ c ∈ ext, InRange fs c ∧ fat_entry_raw fs c = 0
  node_eq : node₁ = { node with inode := node₁.inode }
  old : node.inode ≠ 0 → node₁.inode = node.inode
  fresh : node.inode = 0 → node₁.inode ∉ H

theorem write_start_spec (hw : Writable fs H D node) :
    write_start fs node = none ∧ node.inode = 0 ∧ Full fs ∨
      ∃ fs₁ H₁ node₁ l ext, write_start fs node = some (fs₁, node₁) ∧
        Started fs fs₁ H H₁ D node node₁ l ext := by
  unfold write_start
  by_cases hz : node.inode = 0
  · rw [if_pos hz]
    rcases allocate_cluster_cases fs with ⟨c, halloc, hr, hfree⟩ | ⟨halloc, hfull⟩
    · rw [halloc]
      have hc : c ≠ 0 := by
        have := hr.1
        omega
      have hnot : c ∉ H := by
        intro hmem
        obtain ⟨l, hl, -⟩ := hw.fat.chains.chain c hmem
        exact hw.fat.entry_ne_zero hmem hl hl.mem_head hfree
      refine Or.inr ⟨_, insert c H, { node with inode := c }, [], [c], if_neg hc, hw.fat.allocate hr hfree,
        Set.subset_insert c H, ⟨Set.mem_insert c H, fun hD => hnot (hw.dirs hD)⟩, rfl, Or.inl ⟨hz, rfl⟩,
        .last ?_, SameOutside.set (hw.fat.in_cache hr), by simpa using ⟨hr, hfree⟩, rfl,
        fun h => absurd hz h, fun _ => hnot⟩
      exact fatNext_of_raw_end (fat_entry_raw_set_self (hw.fat.in_cache hr) (by decide))
    · rw [halloc]
      exact Or.inl ⟨if_pos rfl, hz, hfull⟩
  · rw [if_neg hz]
    have hmem := hw.inode.resolve_left hz
    obtain ⟨l, hl, -⟩ := hw.fat.chains.chain node.inode hmem.1
    exact Or.inr ⟨fs, H, node, l, [], rfl, hw.fat, Set.Subset.rfl, hmem, rfl, Or.inr ⟨hz, hl⟩,
      by simpa using hl, SameOutside.refl fs [], by simp, rfl, fun _ => rfl, fun h => absurd h hz⟩

/-! ## 書いた結果 -/

/-- 書き込みの後の、ディレクトリの項目の中身。 -/
def slotsAfter (fs : Fs) (name : List UInt8) (node : Node) : ByteMem :=
  match root_target fs name with
  | some t => updated fs.disk t node
  | none => fs.disk

/-- 書き込みが進んだときの結果。鎖 `l` の後ろに、空いていた `ext` だけがつながる。 -/
structure Wrote (fs fs' : Fs) (H H' D : Set Nat) (node node' : Node) (total n : Nat) (l ext log : List Nat) :
    Prop where
  shape : SameShape fs fs'
  fat : FatOk fs' H'
  heads : H ⊆ H'
  inode : node'.inode ∈ H' \ D
  old : node.inode ≠ 0 → node'.inode = node.inode
  fresh : node.inode = 0 → node'.inode ∉ H
  node_eq : node' = { node with
    inode := node'.inode, seek_offset := node.seek_offset + n, size := max node.size (node.seek_offset + n) }
  advanced : Advanced node.seek_offset total n
  before : OldChain fs node l
  after : Follows (fatNext fs') node'.inode (l ++ ext)
  free : ∀ c ∈ ext, InRange fs c ∧ fat_entry_raw fs c = 0
  entry : ∀ c, c ∉ l ++ ext → fat_entry_raw fs' c = fat_entry_raw fs c
  log : ∀ c ∈ log, c ∈ l ++ ext
  stored : node.seek_offset + total < 2 ^ 32 → Stored fs' node.seek_offset total n (l ++ ext).length
  slots : ∀ b, IsSlot fs D b → ∀ k < sizeofDirEntry, fs'.disk (b + k) = slotsAfter fs node.name node' (b + k)

theorem Wrote.position {H' : Set Nat} {total : Nat} {log : List Nat}
    (hw : Wrote fs fs' H H' D node node' total n l ext log) : node.seek_offset + n < 2 ^ 32 := hw.advanced.1

theorem Wrote.inode_lt {H' : Set Nat} {total : Nat} {log : List Nat}
    (hw : Wrote fs fs' H H' D node node' total n l ext log) : node'.inode < 65536 := by
  have hr := (hw.fat.chains.dom_of_mem hw.inode.1 hw.after hw.after.mem_head).2
  have hb := hw.fat.bound
  omega

/-- `fat12_write_fs` が `fat12_write_cluster` に渡すクラスタ。 -/
def fat12_write_log (fs : Fs) (node : Node) (size units : Nat) (buffer : Option ByteMem) : List Nat :=
  let total := mul32 size units
  if total = 0 then []
  else match write_start fs node with
  | none => []
  | some (fs, node) => write_log node.seek_offset (add32 node.seek_offset total) buffer maxChain 0 node.inode fs

/-- ファイルの鎖への書き込みは、ディレクトリの項目を変えない。 -/
theorem Appended.slot_kept {fs₁ fs₂ : Fs} {h : Nat} {b k : Nat} (hlay : Layout fs₁)
    (hok : FatOk fs₁ H) (hD : D ⊆ H) (hh : h ∈ H \ D) (ha : Appended fs₁ fs₂ h l ext)
    (hb : IsSlot fs₁ D b) (hk : k < sizeofDirEntry) : fs₂.disk (b + k) = fs₁.disk (b + k) := by
  refine ha.same.disk _ (fun c hc => ?_)
  have hchains := hok.chains.mono hD
  rcases List.mem_append.mp hc with hc | hc
  · refine hb.not_inCluster hlay hchains (hok.chains.dom_of_mem hh.1 ha.before hc) ?_ hk
    rintro ⟨d, hd, l', hl', hc'⟩
    exact hh.2 (hok.chains.disjoint d (hD hd) h hh.1 l' l c hl' ha.before hc' hc ▸ hd)
  · obtain ⟨hr, hfree⟩ := ha.free c hc
    exact hb.not_inCluster hlay hchains hr (fun ho => hok.not_owned_of_free hfree (ho.mono hD)) hk

/-- 項目の更新と表の書き出しは、項目の外ではディレクトリに触れない。 -/
theorem update_sync_eq {fs₂ : Fs} (hlay : Layout fs₂) (node : Node) :
    ∃ disk, (fat12_update_dir_entry fs₂ node).map fat12_sync = some { fs₂ with disk := disk } ∧
      ∀ x, fs₂.root_lba * ATA_SECTOR_SIZE ≤ x → disk x = slotsAfter fs₂ node.name node x := by
  rw [update_dir_entry_eq hlay, Option.map_some]
  unfold slotsAfter fat12_sync
  cases root_target fs₂ node.name with
  | none =>
      obtain ⟨disk, heq, hx⟩ := flush_fat_eq hlay
      exact ⟨disk, congrArg some heq, hx⟩
  | some t =>
      obtain ⟨disk, heq, hx⟩ := flush_fat_eq (hlay.disk (updated fs₂.disk t node))
      exact ⟨disk, congrArg some heq, hx⟩

theorem write_fs_started {fs₁ : Fs} {H₁ : Set Nat} {node₁ : Node} (hw : Writable fs H D node)
    (hs : Started fs fs₁ H H₁ D node node₁ l₀ ext) (hsz : size + bytes_per_cluster fs ≤ 2 ^ 32)
    (hlt : size < 2 ^ 32) :
    ∃ fs' node' n ext', ((fat12_write_chain fs₁ node₁.inode node₁.seek_offset size buffer).bind fun (fs, written) =>
        let seek_offset := add32 node₁.seek_offset written
        let node := { node₁ with seek_offset, size := max node₁.size seek_offset }
        (fat12_update_dir_entry fs node).map fun fs => (fat12_sync fs, node, written)) =
      some (fs', node', n) ∧ Wrote fs fs' H H₁ D node node' size n l₀ ext'
        (write_log node₁.seek_offset (add32 node₁.seek_offset size) buffer maxChain 0 node₁.inode fs₁) := by
  have hseek : node₁.seek_offset = node.seek_offset := by rw [hs.node_eq]
  have hname : node₁.name = node.name := by rw [hs.node_eq]
  have hsize : node₁.size = node.size := by rw [hs.node_eq]
  have hlay₁ := hw.layout.of_same hs.same
  obtain ⟨fs₂, n, l, ext₂, hwrite, hok₂, ha, hlog, hst⟩ := write_chain_spec node₁.seek_offset size buffer hs.fat
    hs.head.1 (hseek ▸ hw.seek) (by rw [hs.same.bytes_per_cluster]; exact hsz)
  obtain rfl := ha.before.unique hs.after
  have hlay₂ := hlay₁.of_same ha.same
  have hfree₁ : ∀ x ∈ ext, fat_entry_raw fs x = 0 := fun x hx => (hs.free x hx).2
  -- 鎖への書き込みまでは、どの項目も変わらない。
  have hkept : ∀ b, IsSlot fs D b → ∀ k < sizeofDirEntry, fs₂.disk (b + k) = fs.disk (b + k) := by
    intro b hb k hk
    have hb₁ : IsSlot fs₁ D b := hb.congr hs.same.bpb hs.same.root_lba hs.same.data_lba
      (fun x hx => (owned_of_sameOutside hw.fat hw.dirs hs.same hfree₁).mpr hx)
    rw [ha.slot_kept hlay₁ hs.fat (hw.dirs.trans hs.heads) hs.head hb₁ hk, hs.disk]
  have htarget : root_target fs₂ node.name = root_target fs node.name :=
    root_target_congr (ha.same.bpb.trans hs.same.bpb) (ha.same.root_lba.trans hs.same.root_lba) hkept
  have hadv := write_chain_loop_advanced (hseek ▸ hw.seek) hlt _ _ _ _ hwrite
  rw [hseek] at hadv
  rw [hwrite]
  simp only [Option.bind_some, hseek, hsize, add32_eq hadv.1]
  generalize hnode : ({ node₁ with
    seek_offset := node.seek_offset + n, size := max node.size (node.seek_offset + n) } : Node) = node'
  have hinode : node'.inode = node₁.inode := by rw [← hnode]
  have hname' : node'.name = node.name := by rw [← hnode]; exact hname
  obtain ⟨disk, hup, hdisk⟩ := update_sync_eq hlay₂ node'
  obtain ⟨fs₃, hfs₃, hsync⟩ := Option.map_eq_some_iff.mp hup
  rw [hfs₃, Option.map_some, hsync]
  have hshape : SameShape fs { fs₂ with disk := disk } :=
    (hs.same.shape.trans ha.same.shape).trans (.of_disk fs₂ disk)
  refine ⟨_, node', n, ext ++ ext₂, rfl, hshape, hok₂.disk, hs.heads, hinode ▸ hs.head,
    fun h => hinode.trans (hs.old h), fun h => hinode ▸ hs.fresh h, ?_, hadv, hs.before, ?_, fun c hc => ?_,
    fun c hc => ?_, ?_, fun hrange => ?_, fun b hb k hk => ?_⟩
  · rw [← hnode, hs.node_eq]
  · have hafter := ha.after
    rw [List.append_assoc] at hafter
    rw [hinode]
    exact hafter
  · rcases List.mem_append.mp hc with hc | hc
    · exact hs.free c hc
    · obtain ⟨hr, hz⟩ := ha.free c hc
      -- 後から足したクラスタは、はじめから空いていた。
      have hnot : c ∉ ext := fun hmem =>
        hs.fat.entry_ne_zero hs.head.1 ha.before (List.mem_append_right _ hmem) hz
      exact ⟨hs.same.inRange.mp hr, (hs.same.entry c hnot).symm.trans hz⟩
  · rw [← List.append_assoc] at hc
    have hnot : c ∉ ext := fun h => hc (by simp [h])
    exact (ha.same.entry c hc).trans (hs.same.entry c hnot)
  · intro c hc
    rw [← List.append_assoc]
    exact hlog c (by rw [hseek]; exact hc)
  · rw [← List.append_assoc, ← hseek]
    refine hst ?_ (hseek ▸ hrange)
    exact hlay₁.capacity_lt hs.fat
  · have hroot : fs₂.root_lba * ATA_SECTOR_SIZE ≤ b + k := by
      rw [ha.same.root_lba, hs.same.root_lba]
      exact (hb.after_fat hw.layout (hw.fat.chains.mono hw.dirs)).trans (Nat.le_add_right _ _)
    refine (hdisk _ hroot).trans ?_
    unfold slotsAfter
    rw [hname', htarget]
    cases root_target fs node.name with
    | none => exact hkept b hb k hk
    | some t => exact updated_congr (hkept b hb k hk)

/-- 書き込みは必ず戻る。何も変えないか、`Wrote` のとおりに進む。 -/
theorem write_fs_spec (hw : Writable fs H D node) (size units : Nat) (buffer : Option ByteMem)
    (hsz : mul32 size units + bytes_per_cluster fs ≤ 2 ^ 32) :
    fat12_write_fs fs node size units buffer = some (fs, node, 0) ∧
      fat12_write_log fs node size units buffer = [] ∧ (mul32 size units = 0 ∨ node.inode = 0 ∧ Full fs) ∨
    mul32 size units ≠ 0 ∧ (node.inode = 0 → ¬ Full fs) ∧ ∃ fs' H' node' n l ext,
      fat12_write_fs fs node size units buffer = some (fs', node', n) ∧
        Wrote fs fs' H H' D node node' (mul32 size units) n l ext (fat12_write_log fs node size units buffer) := by
  simp only [fat12_write_fs, fat12_write_log]
  by_cases hz : mul32 size units = 0
  · exact Or.inl ⟨if_pos hz, if_pos hz, Or.inl hz⟩
  · simp only [if_neg hz]
    rcases write_start_spec hw with ⟨hnone, h0, hfull⟩ | ⟨fs₁, H₁, node₁, l, ext, hsome, hs⟩
    · rw [hnone]
      exact Or.inl ⟨rfl, rfl, Or.inr ⟨h0, hfull⟩⟩
    · rw [hsome]
      obtain ⟨fs', node', n, ext', heq, hwr⟩ := write_fs_started hw hs hsz mul32_lt
      refine Or.inr ⟨hz, fun h0 hfull => ?_, fs', H₁, node', n, l, ext', heq, hwr⟩
      -- 空きのないボリュームでは、最初のクラスタを用意できない。
      rw [write_start, if_pos h0] at hsome
      rcases allocate_cluster_cases fs with ⟨c, -, hr, hfree⟩ | ⟨halloc, -⟩
      · exact hfull c hr hfree
      · simp [halloc] at hsome

end MyOS.Fat
