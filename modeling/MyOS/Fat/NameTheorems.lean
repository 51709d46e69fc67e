import MyOS.Fat.CreateTheorems

/-!
# 名前の定理

8.3 形式の名前は、欄に書いて読むと、大文字になるほかは戻る。8.3 形式で変わらない名前だけを作る実行では、どのディレクトリにも、
11 バイトの名前が同じ項目は二つない。
-/

namespace MyOS.Fat
open MyOS.Lib ByteMem

variable {fs fs' : Fs} {H H' D X : Set Nat} {own : Nat → Nat} {hs : Set Handle} {a b c d d' i dir inode : Nat}
  {l : List Nat} {gs gs' : List Group} {g : Group} {m m' : ByteMem} {name : List UInt8} {node : Node} {v v' v₀ : Vol}
  {op : VolOp} {attr : UInt8}

/-! ## 8.3 形式の往復 -/

theorem entry_name_round_trip {name other : List UInt8} (hname : Valid83 name) (hother : Valid83 other)
    (hfirst : Entry.name m a = (fat12_name_to_83 name).1) (hlast : Entry.ext m a = (fat12_name_to_83 name).2) :
    fat12_entry_to_name m a = name.map upper ∧
      (strcasecmp_fat (fat12_entry_to_name m a) other = 0 ↔ name.map upper = other.map upper) ∧
      (fat12_name_to_83 name = fat12_name_to_83 other ↔ name.map upper = other.map upper) := by
  have hdecoded := hname.decoded hfirst hlast
  refine ⟨hdecoded, ?_, fun heq => ?_, fun heq => ?_⟩
  · rw [strcasecmp_fat_eq_zero (entry_to_name_no_zero m a) hother.no_zero, hdecoded, map_upper_upper]
  · rw [← hdecoded]
    exact hother.decoded (heq ▸ hfirst) (heq ▸ hlast)
  · rw [← name_to_83_upper name, heq, name_to_83_upper]

/-- `a.c` と `A.C` である。 -/
theorem entry_name_round_trip_letter :
    strcasecmp_fat (fat12_entry_to_name (Entry.write (fun _ => 0) 0 (new_entry [0x61, 0x2E, 0x63] 0x20 0)) 0)
      [0x41, 0x2E, 0x43] = 0 :=
  (entry_name_round_trip ⟨[0x61], [0x63], by decide, by decide, by decide, by decide, by simp⟩
    ⟨[0x41], [0x43], by decide, by decide, by decide, by decide, by simp⟩ entry_name_write entry_ext_write).2.1.mpr
    (by decide)

/-! ## 項目の名前 -/

theorem SameSlot.entry_83 (h : SameSlot m m' b) : entry_83 m' b = entry_83 m b := by
  unfold MyOS.Fat.entry_83
  rw [Entry.name_congr h, Entry.ext_congr h]

theorem map_entry_83 (h : ∀ b ∈ l, SameSlot m m' b) : l.map (entry_83 m') = l.map (entry_83 m) :=
  List.map_congr_left fun b hb => (h b hb).entry_83

theorem entry_to_name_eq (h : entry_83 m' b = entry_83 m a) : fat12_entry_to_name m' b = fat12_entry_to_name m a := by
  obtain ⟨hname, hext⟩ := Prod.mk.inj h
  unfold fat12_entry_to_name
  rw [hname, hext]

/-! ## 一つのディレクトリ -/

/-- どの項目も同じなら、名前も同じである。 -/
theorem names_same (hg' : Groups fs' d (dir_groups fs d)) (hsame : ∀ b ∈ slots fs d, SameSlot fs.disk fs'.disk b)
    (h : Unique83 fs d ∧ Ended fs d) : Unique83 fs' d ∧ Ended fs' d := by
  have hslots : slots fs' d = slots fs d := by
    unfold slots
    rw [hg'.dir_groups_eq]
  have hlive : live fs' d = live fs d := by
    unfold live
    rw [hslots, live_congr hsame]
  refine ⟨?_, ?_⟩
  · unfold Unique83
    have hmap : (live fs d).map (entry_83 fs'.disk) = (live fs d).map (entry_83 fs.disk) :=
      map_entry_83 fun b hb => hsame b (live_subset hb)
    rw [hlive, hmap]
    exact h.1
  · have hend := h.2
    unfold Ended at hend ⊢
    rw [hslots, dropWhile_congr fun b hb => by rw [(hsame b hb).first]]
    intro b hb
    rw [(hsame b (List.dropWhile_subset _ hb)).first]
    exact hend b hb

/-- 見つからなかった名前の項目を加えても、名前は互いに異なる。 -/
theorem names_added (hlay : Layout fs) (hdir : DirOk fs d) (hname : Kept83 name)
    (hnew : ∀ b ∈ live fs d, matches_name fs.disk name b = false)
    (hroom : room fs.disk (dir_groups fs d) = some (g, i)) (hg' : Groups fs' d (dir_groups fs d))
    (hsame : ∀ b ∈ slots fs d, b ≠ g.slot i → SameSlot fs.disk fs'.disk b)
    (hat : SameSlot (Entry.write fs.disk (g.slot i) (new_entry name attr c)) fs'.disk (g.slot i))
    (hu : Used fs'.disk (g.slot i)) (h : Unique83 fs d ∧ Ended fs d) : Unique83 fs' d ∧ Ended fs' d := by
  obtain ⟨L, R, hlive, hlive', hsub, hended⟩ := live_added hlay hdir h.2 hg' hroom hsame hu
  refine ⟨?_, hended⟩
  have hold := h.1
  unfold Unique83 at hold ⊢
  rw [hlive] at hold hnew
  rw [hlive', List.map_append, List.map_cons, List.nodup_middle, ← List.map_append, map_entry_83 hsub]
  refine List.nodup_cons.mpr ⟨fun hmem => ?_, hold⟩
  obtain ⟨b, hb, heq⟩ := List.mem_map.mp hmem
  have hmatch : matches_name fs.disk name b = true := by
    rw [matches_name_iff hname.no_zero, entry_to_name_eq heq, entry_to_name_congr hat, hname.name_write, map_upper_upper]
  rw [hnew b hb] at hmatch
  exact Bool.false_ne_true hmatch

/-- 項目を消しても、名前は互いに異なる。 -/
theorem names_removed (hlay : Layout fs) (hdir : DirOk fs d) (hg' : Groups fs' d (dir_groups fs d)) (ha : a ∈ live fs d)
    (hother : ∀ b ∈ slots fs d, b ≠ a → SameSlot fs.disk fs'.disk b) (hdel : fs'.disk a = 0xE5)
    (h : Unique83 fs d ∧ Ended fs d) : Unique83 fs' d ∧ Ended fs' d := by
  obtain ⟨L, R, hlive, hlive', hsub, hended⟩ := live_removed hlay hdir h.2 hg' ha hother hdel
  refine ⟨?_, hended⟩
  have hold := h.1
  unfold Unique83 at hold ⊢
  rw [hlive] at hold
  rw [hlive', map_entry_83 hsub]
  rw [List.map_append, List.map_cons, List.nodup_middle, ← List.map_append] at hold
  exact (List.nodup_cons.mp hold).2

/-! ## すべてのディレクトリ -/

theorem heads_subset (hd : IsDir D d) : heads d ⊆ D := by
  rintro x ⟨rfl, hne⟩
  exact hd.resolve_left hne

/-- 根でないディレクトリの項目は、ほかのディレクトリの項目ではない。 -/
theorem slots_apart_chain (hlay : Layout fs) (hok : ChainSet (fatNext fs) D (InRange fs)) (hd : IsDir D d)
    (hd' : IsDir D d') (hroot : d' ≠ FAT12_ROOT_INODE) (hne : d ≠ d') (hg : Groups fs d gs) (hg' : Groups fs d' gs')
    (hb : b ∈ dir_slots gs) : b ∉ dir_slots gs' := by
  intro hb'
  have hin' := hd'.resolve_left hroot
  obtain ⟨g, hgm, hb⟩ := List.mem_flatMap.mp hb
  obtain ⟨i, hi, rfl⟩ := List.mem_map.mp hb
  have hslot := hg.isSlot (isDir_heads d) hgm (List.mem_range.mp hi)
  obtain ⟨g', hgm', hb'⟩ := List.mem_flatMap.mp hb'
  obtain ⟨j, hj, heq⟩ := List.mem_map.mp hb'
  cases hg' with
  | root => exact hroot rfl
  | @chain _ l' _ hl' _ _ =>
      obtain ⟨c, hc, rfl⟩ := List.mem_map.mp hgm'
      have hnot : ¬ Owned (fatNext fs) (heads d) c := by
        rintro ⟨h, ⟨rfl, hh⟩, l, hl, hcl⟩
        exact hne (hok.disjoint h (hd.resolve_left hh) d' hin' l l' c hl hl' hcl hc)
      refine hslot.not_inCluster hlay (hok.mono (heads_subset hd)) (hok.dom_of_mem hin' hl' hc) hnot (k := 0) (by decide) ?_
      have hj' := List.mem_range.mp hj
      rw [hlay.cluster_entries] at hj'
      rw [← heq]
      simp only [InCluster, cluster_group, Group.slot, ATA_SECTOR_SIZE, sizeofDirEntry]
      omega

/-- 異なるディレクトリは、同じ項目を持たない。 -/
theorem slots_apart (hlay : Layout fs) (hok : ChainSet (fatNext fs) D (InRange fs)) (hd : IsDir D d)
    (hd' : IsDir D d') (hne : d ≠ d') (hg : Groups fs d gs) (hg' : Groups fs d' gs') (hb : b ∈ dir_slots gs) :
    b ∉ dir_slots gs' := by
  by_cases hroot : d' = FAT12_ROOT_INODE
  · have hroot' : d ≠ FAT12_ROOT_INODE := fun h => hne (h.trans hroot.symm)
    exact fun hb' => slots_apart_chain hlay hok hd' hd hroot' hne.symm hg' hg hb' hb
  · exact slots_apart_chain hlay hok hd hd' hroot hne hg hg' hb

theorem Tracked.dirOk (hT : Tracked fs H D own hs) (hd : IsDir D d) : DirOk fs d :=
  hT.fat.dirOk (hd.imp_right fun h => hT.dirs h)

theorem Changes.same (hT : Tracked fs H D own hs) (hch : Changes fs fs' H H' D X) (hd : IsDir D d) (hb : b ∈ slots fs d)
    (hX : b ∉ X) : SameSlot fs.disk fs'.disk b := by
  obtain ⟨g, hg, hb⟩ := List.mem_flatMap.mp hb
  obtain ⟨i, hi, rfl⟩ := List.mem_map.mp hb
  exact hch.kept _ ((hT.dirOk hd).groups.isSlot hd hg (List.mem_range.mp hi)) hX

/-- どの項目も変わらない操作は、どのディレクトリの名前も変えない。 -/
theorem names_kept_all (hT : Tracked fs H D own hs) (hch : Changes fs fs' H H' D ∅)
    (h : ∀ d, IsDir D d → Unique83 fs d ∧ Ended fs d) : ∀ d, IsDir D d → Unique83 fs' d ∧ Ended fs' d :=
  fun d hd => names_same ((hT.dirOk hd).groups.keep hd hch) (fun _ hb => hch.same hT hd hb (Set.notMem_empty _)) (h d hd)

/-- 項目 `a` だけが変わる操作は、`a` のあるディレクトリのほかの名前を変えない。 -/
theorem names_changed (hT : Tracked fs H D own hs) (hch : Changes fs fs' H H' D {a}) (hdir : IsDir D dir)
    (ha : a ∈ slots fs dir) (hat : Unique83 fs dir ∧ Ended fs dir → Unique83 fs' dir ∧ Ended fs' dir)
    (h : ∀ d, IsDir D d → Unique83 fs d ∧ Ended fs d) : ∀ d, IsDir D d → Unique83 fs' d ∧ Ended fs' d := by
  intro d hd
  by_cases hne : d = dir
  · rw [hne]
    exact hat (h dir hdir)
  · refine names_same ((hT.dirOk hd).groups.keep hd hch) (fun b hb => hch.same hT hd hb ?_) (h d hd)
    rintro rfl
    exact slots_apart hT.layout (hT.fat.chains.mono hT.dirs) hd hdir hne (hT.dirOk hd).groups (hT.dirOk hdir).groups hb ha

/-! ## 一歩 -/

theorem unmatched (hT : Tracked fs H D own hs) (hd : IsDir D d) (hf : find_entry fs d name = some none) :
    ∀ b ∈ live fs d, matches_name fs.disk name b = false := by
  rw [find_entry_live (hT.dirOk hd).groups, Option.some.injEq, Option.map_eq_none_iff] at hf
  exact fun b hb => Bool.eq_false_iff.mpr (List.find?_eq_none.mp hf b hb)

theorem names_created (hT : Tracked fs H D own hs) (hd : IsDir D d) (hname : Kept83 name)
    (hf : find_entry fs d name = some none) (hroom : room fs.disk (dir_groups fs d) = some (g, i))
    (h : ∀ d, IsDir D d → Unique83 fs d ∧ Ended fs d) :
    ∀ d, IsDir D d → Unique83 (created_fs fs name (g.slot i)) d ∧ Ended (created_fs fs name (g.slot i)) d := by
  obtain ⟨hmem, hi, hfree⟩ := room_some hroom
  have hdir := hT.dirOk hd
  obtain ⟨H', own', -, hch⟩ := hT.create (hdir.groups.isSlot hd hmem hi) hfree name
  refine names_changed hT hch hd (mem_dir_slots hmem hi) (names_added hT.layout hdir hname (unmatched hT hd hf) hroom
    (hdir.groups.keep hd hch) (fun b hb hne => hch.same hT hd hb hne) (fun _ _ => rfl) ?_) h
  exact used_created hname.ne_nil hname.no_zero hname.first_write.2

/-- 書いたばかりのディレクトリには、`.` と `..` だけがある。 -/
theorem names_fresh {own' : Nat → Nat} (hT : Tracked fs H D own hs) (hd : IsDir D d) (hr : InRange fs c)
    (hp : Prepared fs H D own' hs c d) : Unique83 (mkdir_fs fs c d) c ∧ Ended (mkdir_fs fs c d) c := by
  have hdir := hT.dirOk hd
  have hslots := fresh_slots hT.layout hdir hr mkdir_fs_shape hp.chain
  rcases Nat.eq_zero_or_pos fs.bpb.sectors_per_cluster with hzero | hpos
  · rw [hzero] at hslots
    unfold Unique83 Ended live
    rw [hslots]
    exact ⟨List.nodup_nil, by simp⟩
  · have hbyte : ∀ i < fs.bpb.sectors_per_cluster * 16, ∀ k < sizeofDirEntry,
        (mkdir_fs fs c d).disk ((cluster_group fs c).slot i + k) = dir_cluster_buf c d (i * 32 + k) := by
      intro i hi k hk
      unfold sizeofDirEntry at hk
      have hin : (mkdir_fs fs c d).disk (fat12_cluster_to_lba fs c * 512 + (i * 32 + k)) = dir_cluster_buf c d (i * 32 + k) :=
        mkdir_fs_inside (by omega)
      rw [← hin, ← Nat.add_assoc]
      rfl
    obtain ⟨hnodes, hended⟩ := new_dir_live hslots (by omega) hbyte (hdir.lt hr) hdir.inode_lt
    have hmap := congrArg (List.map Node.name) hnodes
    have hnames : ((live (mkdir_fs fs c d) c).map fun a => fat12_entry_to_name (mkdir_fs fs c d).disk a) =
        [[0x2E], [0x2E, 0x2E]] := by
      rw [List.map_map] at hmap
      exact hmap
    have hnodup : ((live (mkdir_fs fs c d) c).map fun a => fat12_entry_to_name (mkdir_fs fs c d).disk a).Nodup := by
      rw [hnames]
      decide
    refine ⟨?_, hended⟩
    unfold Unique83
    rw [List.Nodup, List.pairwise_map] at hnodup ⊢
    exact hnodup.imp fun hne heq => hne (entry_to_name_eq heq)

theorem names_made {own' : Nat → Nat} (hT : Tracked fs H D own hs) (hd : IsDir D d) (hname : Kept83 name)
    (hf : find_entry fs d name = some none) (hroom : room fs.disk (dir_groups fs d) = some (g, i)) (hr : InRange fs c)
    (hp : Prepared fs H D own' hs c d) (h : ∀ d, IsDir D d → Unique83 fs d ∧ Ended fs d) :
    ∀ e, IsDir (insert c D) e →
      Unique83 (made_dir fs c d name (g.slot i)) e ∧ Ended (made_dir fs c d name (g.slot i)) e := by
  obtain ⟨hmem, hi, -⟩ := room_some hroom
  have hg := (hT.dirOk hd).groups
  have hslot := hg.isSlot hd hmem hi
  have hsame : ∀ b ∈ slots fs d, SameSlot fs.disk (mkdir_fs fs c d).disk b := fun b hb =>
    hp.changes.same hT hd hb (Set.notMem_empty _)
  have hgroups : dir_groups (mkdir_fs fs c d) d = dir_groups fs d := (hg.keep hd hp.changes).dir_groups_eq
  have hlive : live (mkdir_fs fs c d) d = live fs d := by
    unfold live slots
    rw [hgroups]
    exact live_congr hsame
  have hd' : IsDir (insert c D) d := hd.imp_right fun hin => Set.mem_insert_of_mem c hin
  have hdir' := hp.dir.dirOk hd'
  have hch := hp.made_changes hslot name
  have hat : SameSlot (Entry.write (mkdir_fs fs c d).disk (g.slot i) (new_entry name 0x10 c))
      (made_dir fs c d name (g.slot i)).disk (g.slot i) := fun k hk => by
    rw [hp.made_slot hslot name hk, entry_write_at _ hk]
  refine names_changed hp.dir hch hd' (a := g.slot i) ?_ (names_added hp.dir.layout hdir' hname (fun b hb => ?_) ?_
    (hdir'.groups.keep hd' hch) (fun b hb hne => hch.same hp.dir hd' hb hne) hat ?_) ?_
  · unfold slots
    rw [hgroups]
    exact mem_dir_slots hmem hi
  · rw [hlive] at hb
    rw [(hsame b (live_subset hb)).matches_name]
    exact unmatched hT hd hf b hb
  · rw [hgroups, room_congr fun g hg i hi => (hsame _ (mem_dir_slots hg hi)).first]
    exact hroom
  · have hfirst : Entry.write (mkdir_fs fs c d).disk (g.slot i) (new_entry name 0x10 c) (g.slot i) ≠ 0 ∧
        Entry.write (mkdir_fs fs c d).disk (g.slot i) (new_entry name 0x10 c) (g.slot i) ≠ 0xE5 := hname.first_write
    unfold Used
    rw [hat.first, Entry.attributes_congr hat, attributes_new]
    exact ⟨hfirst.1, hfirst.2, by decide⟩
  · intro e he
    rcases he with rfl | rfl | he
    · exact names_kept_all hT hp.changes h _ (Or.inl rfl)
    · exact names_fresh hT hd hr hp
    · exact names_kept_all hT hp.changes h e (Or.inr he)

theorem names_unlinked (hT : Tracked fs H D own hs) (hd : IsDir D d) (ha : a ∈ live fs d)
    (hgone : Unlinked fs fs' H H' D own hs a) (h : ∀ d, IsDir D d → Unique83 fs d ∧ Ended fs d) :
    ∀ d, IsDir D d → Unique83 (fat12_flush_fat fs') d ∧ Ended (fat12_flush_fat fs') d := by
  have hdir := hT.dirOk hd
  have hch := hgone.changes.flush hT.layout (hT.fat.chains.mono hT.dirs)
  refine names_changed hT hch hd (live_subset ha) (names_removed hT.layout hdir (hdir.groups.keep hd hch) ha
    (fun b hb hne => hch.same hT hd hb hne) ?_) h
  obtain ⟨disk, heq, hdisk⟩ := flush_fat_eq (hgone.changes.shape.layout hT.layout)
  have hafter := hgone.file.1.after_fat hT.layout (hT.fat.chains.mono hT.dirs)
  rw [← hgone.changes.shape.root_lba] at hafter
  have hfinal : (fat12_flush_fat fs').disk a = disk a := congrArg (fun fs : Fs => fs.disk a) heq
  rw [hfinal, hdisk a hafter, hgone.disk]
  exact store8_self

theorem Moved.names (hm : Moved v H own op v') (hT : Tracked v.fs H v.dir_set own v.live) (hok : KeepsNames v op)
    (h : v.NamesOk) : v'.NamesOk := by
  cases hm with
  | still hfs hdirs _ =>
      unfold Vol.NamesOk Vol.dir_set
      rw [hfs, hdirs]
      exact h
  | created hn hg hf hroom =>
      rw [← hg.dir_groups_eq] at hroom
      exact names_created hT hn.1 hok hf hroom h
  | returned hn hg _ _ _ hp _ _ hch => exact names_kept_all hp.tracked hch (names_kept_all hT hp.changes h)
  | made hn hg hf hroom hr _ hp =>
      rw [← hg.dir_groups_eq] at hroom
      intro e he
      refine names_made hT hn.1 hok hf hroom hr hp h e (he.imp_right fun hin => ?_)
      exact (List.mem_cons.mp hin).imp id id
  | unlinked hn hg hf hgone =>
      have hlive := List.mem_of_find?_eq_some hf
      rw [visible_eq, ← hg.dir_groups_eq] at hlive
      exact names_unlinked hT hn.1 hlive hgone h
  | wrote => exact hok.elim

/-! ## 実行 -/

theorem KeepsNames.no_write (hok : KeepsNames v op) : WritesMeet (fun fs h _ => UpdatesOwn fs h) v op := by
  cases op with
  | write => exact hok.elim
  | _ => trivial

theorem names_run (hok : v₀.Ok) (hnames : v₀.NamesOk) (hrun : Steps Vol.step KeepsNames v₀ v) : v.Ok ∧ v.NamesOk := by
  refine hrun.inv (P := fun v => v.Ok ∧ v.NamesOk) (fun s e t hs hkeep hstep => ⟨hs.1.step hkeep.no_write hstep, ?_⟩)
    ⟨hok, hnames⟩
  obtain ⟨⟨H, own, hT⟩, hn⟩ := hs
  exact (step_moved hT (UpdatesOwn.unlinked hkeep.no_write) hstep).names hT hkeep hn

theorem dir_node_flags (d : Nat) : (dir_node d).flags &&& FS_DIRECTORY ≠ 0 :=
  show FS_DIRECTORY &&& FS_DIRECTORY ≠ 0 by decide

/-- 同名の項目が見つかるか、どの有効な項目とも一致しないかである。 -/
theorem find_entry_or (hdir : DirOk fs d) (name : List UInt8) : (∃ found, find_entry fs d name = some (some found)) ∨
    ∀ b ∈ live fs d, matches_name fs.disk name b = false := by
  rw [find_entry_live hdir.groups]
  cases hf : (live_entries fs.disk (dir_slots (dir_groups fs d))).find? (matches_name fs.disk name) with
  | some b => exact Or.inl ⟨_, rfl⟩
  | none => exact Or.inr fun b hb => Bool.eq_false_iff.mpr (List.find?_eq_none.mp hf b hb)

/-- 作成に成功した名前を探すと、返された項目が見つかる。 -/
theorem create_finds (hlay : Layout fs) (hdir : DirOk fs d) (he : Ended fs d) (hname : Kept83 name)
    (hc : fat12_create_file fs (dir_node d) name = some (fs', some (node, a))) :
    fat12_finddir_fs fs' (dir_node d) name = some (some (node, a)) := by
  rcases find_entry_or hdir name with ⟨found, hf⟩ | hnew
  · unfold fat12_create_file at hc
    rw [show (dir_node d).inode = d from rfl, hf] at hc
    cases hc
    rw [finddir_dir_node, hf]
  · obtain ⟨hnode, hadd⟩ : node = ⟨name.map upper, FS_FILE, 0, node.inode, 0⟩ ∧
        Added fs fs' (dir_node d) name FS_FILE node.inode a :=
      create_added hlay hdir (dir_node_flags d) he hname hnew hc
    rw [hadd.made, ← hnode]

theorem mkdir_finds (hlay : Layout fs) (hdir : DirOk fs d) (he : Ended fs d) (hname : Kept83 name)
    (hc : fat12_mkdir fs (dir_node d) name = some (fs', some (c, a))) :
    ∃ node, fat12_finddir_fs fs' (dir_node d) name = some (some (node, a)) ∧ node.inode = c := by
  rcases find_entry_or hdir name with ⟨found, hf⟩ | hnew
  · unfold fat12_mkdir at hc
    rw [if_neg hname.ne_nil, show (dir_node d).inode = d from rfl, hf] at hc
    cases hc
  · have hadd : Added fs fs' (dir_node d) name FS_DIRECTORY c a :=
      mkdir_added hlay hdir (dir_node_flags d) he hname hnew hc
    exact ⟨_, hadd.made, rfl⟩

/-- 名前が互いに異なるボリュームで、8.3 形式で変わらない名前だけを作る限り、11 バイトの名前は互いに異なり、
作成に成功した名前を探すと、その項目が見つかる。 -/
theorem names_unique (hv : Volume v₀.fs H v₀.dir_set) (hnone : ∀ k, v₀.handles k = none) (hnames : v₀.NamesOk)
    (hrun : Steps Vol.step KeepsNames v₀ v) :
    (∀ d, IsDir v.dir_set d → Unique83 v.fs d) ∧
      ∀ d name, v.names d name → Kept83 name →
        (∀ fs' node a, fat12_create_file v.fs (dir_node d) name = some (fs', some (node, a)) →
          fat12_finddir_fs fs' (dir_node d) name = some (some (node, a))) ∧
        ∀ fs' c a, fat12_mkdir v.fs (dir_node d) name = some (fs', some (c, a)) →
          ∃ node, fat12_finddir_fs fs' (dir_node d) name = some (some (node, a)) ∧ node.inode = c := by
  obtain ⟨⟨H', own, hT⟩, hn⟩ := names_run (hv.ok hnone) hnames hrun
  refine ⟨fun d hd => (hn d hd).1, fun d name hin hname => ⟨fun fs' node a hc => ?_, fun fs' c a hc => ?_⟩⟩
  · exact create_finds hT.layout (hT.dirOk hin.1) (hn d hin.1).2 hname hc
  · exact mkdir_finds hT.layout (hT.dirOk hin.1) (hn d hin.1).2 hname hc

/-! ## 長い名前 -/

def longName : List UInt8 := [0x4C, 0x4F, 0x4E, 0x47, 0x46, 0x49, 0x4C, 0x45, 0x4E, 0x41, 0x4D, 0x45]

theorem blank_names : blank.NamesOk := by
  rintro d (rfl | hd)
  · decide +kernel
  · exact absurd hd List.not_mem_nil

theorem kept83_letter : Kept83 letterA := ⟨by decide, by decide, by decide +kernel, by decide⟩

theorem names_unique_blank : ∃ v, Steps Vol.step KeepsNames blank v ∧ (v.handles 0).isSome = true ∧
    Unique83 v.fs FAT12_ROOT_INODE := by
  have hrun : (blank.step (.create 0 FAT12_ROOT_INODE letterA)).any (fun v => (v.handles 0).isSome) = true := by
    decide +kernel
  obtain ⟨v, hstep, hopen⟩ := (Option.any_eq_true _ _).mp hrun
  have hkeep : KeepsNames blank (.create 0 FAT12_ROOT_INODE letterA) := kept83_letter
  have hsteps : Steps Vol.step KeepsNames blank v := .tail _ (.refl blank) hkeep hstep
  exact ⟨v, hsteps, hopen, (names_unique blank_volume (fun _ => rfl) blank_names hsteps).1 _ (Or.inl rfl)⟩

/-- 8 文字より長い名前は、作成に成功しても見つからず、もう一度作ると同じ名前の項目が二つになる。 -/
theorem names_doubled : blank.NamesOk ∧
    (∃ v, exec Vol.step blank [.create 0 FAT12_ROOT_INODE longName, .create 1 FAT12_ROOT_INODE longName] = some v ∧
      ¬ Unique83 v.fs FAT12_ROOT_INODE) ∧
    ∃ fs' made, fat12_create_file blank.fs (dir_node FAT12_ROOT_INODE) longName = some (fs', some made) ∧
      fat12_finddir_fs fs' (dir_node FAT12_ROOT_INODE) longName = some none := by
  have htwice : (exec Vol.step blank [.create 0 FAT12_ROOT_INODE longName, .create 1 FAT12_ROOT_INODE longName]).any
      (fun v => decide (¬ Unique83 v.fs FAT12_ROOT_INODE)) = true := by decide +kernel
  have honce : (fat12_create_file blank.fs (dir_node FAT12_ROOT_INODE) longName).any (fun r => r.2.isSome &&
      decide (fat12_finddir_fs r.1 (dir_node FAT12_ROOT_INODE) longName = some none)) = true := by decide +kernel
  obtain ⟨v, hv, hdup⟩ := (Option.any_eq_true _ _).mp htwice
  obtain ⟨⟨fs', made⟩, hmade, hfind⟩ := (Option.any_eq_true _ _).mp honce
  obtain ⟨hsome, hnone⟩ := Bool.and_eq_true_iff.mp hfind
  obtain ⟨m, rfl⟩ := Option.isSome_iff_exists.mp hsome
  exact ⟨blank_names, ⟨v, hv, of_decide_eq_true hdup⟩, fs', m, hmade, of_decide_eq_true hnone⟩

end MyOS.Fat
