import MyOS.Fat.Lemmas.Effects
import MyOS.Fat.OpenTheorems

/-!
# 作成と削除の定理

削除は、名前の項目一つとその鎖だけをなくす。作成は、名前の項目一つだけを加える。
-/

namespace MyOS.Fat
open MyOS.Lib ByteMem

variable {fs fs' fs₂ : Fs} {H : Set Nat} {a b c inode : Nat} {l pre post : List Nat} {gs : List Group}
  {dir node : Node} {name other : List UInt8}

theorem FatOk.dirOk (hok : FatOk fs H) (hdir : IsDir H inode) : DirOk fs inode := by
  refine ⟨hok.bound, hok.cache, hdir.imp_right fun hin => ?_⟩
  obtain ⟨l, hl, -⟩ := hok.chains.chain inode hin
  have hr := (hok.chains.dom_of_mem hin hl hl.mem_head).2
  have hb := hok.bound
  refine ⟨?_, l, hok.chainOk hin hl⟩
  unfold FAT12_ROOT_INODE
  omega

/-! ## 削除 -/

/-- ファイルの鎖を解放した結果。 -/
structure Freed (fs fs' : Fs) (first : Nat) (l : List Nat) : Prop where
  chain : first = 0 ∧ l = [] ∨ first ≠ 0 ∧ Follows (fatNext fs) first l
  same : SameOutside fs fs' l
  zero : ∀ c ∈ l, fat_entry_raw fs' c = 0
  disk : fs'.disk = fs.disk

theorem free_file (hok : FatOk fs H) (hin : c = 0 ∨ c ∈ H) :
    ∃ fs' l, (if c ≥ 2 then fat12_free_cluster_chain fs c else some fs) = some fs' ∧ Freed fs fs' c l := by
  rcases hin with rfl | hin
  · exact ⟨fs, [], rfl, Or.inl ⟨rfl, rfl⟩, .refl fs [], by simp, rfl⟩
  · obtain ⟨fs', l, hrun, hl, -, hsame, hzero⟩ := free_cluster_chain_spec hok hin
    have h2 := (hok.chains.dom_of_mem hin hl hl.mem_head).1
    exact ⟨fs', l, by rw [if_pos h2, hrun], Or.inr ⟨by omega, hl⟩, hsame, hzero, free_cluster_loop_disk _ _ _ hrun⟩

/-- 解放した鎖は、ディレクトリの鎖と交わらない。 -/
theorem Freed.follows (hok : FatOk fs H) (hf : Freed fs fs' c l) (hin : c = 0 ∨ c ∈ H \ {inode}) (hdir : inode ∈ H)
    {l' : List Nat} (hl' : Follows (fatNext fs) inode l') : Follows (fatNext fs') inode l' := by
  refine hl'.congr fun x hx => hf.same.fatNext fun hxl => ?_
  rcases hf.chain with ⟨-, rfl⟩ | ⟨h0, hl⟩
  · cases hxl
  · obtain ⟨hc, hne⟩ := hin.resolve_left h0
    exact hne (hok.chains.disjoint c hc inode hdir l l' x hl hl' hxl hx)

/-- 同じ名前の有効な項目は一つだけである。 -/
theorem distinct_split (h : (l ++ a :: post).Pairwise fun a b =>
      strcasecmp_fat (fat12_entry_to_name fs.disk a) (fat12_entry_to_name fs.disk b) ≠ 0) (h0 : 0 ∉ name)
    (hname : matches_name fs.disk name a = true) : ∀ b ∈ l ++ post, matches_name fs.disk name b = false := by
  have hno : ∀ b, strcasecmp_fat (fat12_entry_to_name fs.disk b) (fat12_entry_to_name fs.disk a) ≠ 0 →
      matches_name fs.disk name b = false := by
    intro b hne
    refine Bool.eq_false_iff.mpr fun hb => hne ?_
    rw [strcasecmp_fat_eq_zero (entry_to_name_no_zero _ _) (entry_to_name_no_zero _ _), (matches_name_iff h0).mp hb,
      (matches_name_iff h0).mp hname]
  obtain ⟨-, htail, hcross⟩ := List.pairwise_append.mp h
  intro b hb
  rcases List.mem_append.mp hb with hb | hb
  · exact hno b (hcross b hb a (by simp))
  · refine hno b fun heq => (List.pairwise_cons.mp htail).1 b hb ?_
    rw [strcasecmp_fat_eq_zero (entry_to_name_no_zero _ _) (entry_to_name_no_zero _ _)] at heq ⊢
    exact heq.symm

/-- `fat12_unlink` は、見える唯一の同名のファイルを消し、その鎖を解放する。 -/
theorem unlink_eq (hok : FatOk fs H) (hlay : Layout fs) (hdir : DirOk fs dir.inode) (hne : name ≠ [])
    (hfind : (live fs dir.inode).find? (matches_name fs.disk name) = some a) (hfile : IsFile fs.disk a)
    (hown : Entry.first_cluster fs.disk a = 0 ∨ Entry.first_cluster fs.disk a ∈ H) :
    ∃ fs₂ l, fat12_unlink fs dir name = some (fat12_flush_fat fs₂, some a) ∧
      Freed { fs with disk := store8 fs.disk a 0xE5 } fs₂ (Entry.first_cluster fs.disk a) l := by
  have hentry : find_entry fs dir.inode name = some (some (fat12_make_node fs.disk a, a)) := by
    rw [find_entry_live hdir.groups]
    have hfind' : (live_entries fs.disk (dir_slots (dir_groups fs dir.inode))).find? (matches_name fs.disk name) =
        some a := hfind
    rw [hfind']
    rfl
  have htarget : unlink_target fs.disk (dir_groups fs dir.inode) name = some a := by
    refine unlink_target_of_visible ?_
    rw [visible_eq]
    exact hfind
  have hok' : FatOk { fs with disk := store8 fs.disk a 0xE5 } H := hok.disk
  obtain ⟨fs₂, l, hrun, hf⟩ := free_file hok' hown
  refine ⟨fs₂, l, ?_, hf⟩
  have hflags : (fat12_make_node fs.disk a).flags &&& FS_DIRECTORY = 0 := by
    have hattr : Entry.attributes fs.disk a &&& (0x10 : UInt8) = 0 := hfile
    simp only [fat12_make_node, hattr]
    decide
  unfold fat12_unlink
  rw [if_neg hne, hentry, Option.bind_some]
  simp only [hflags, ne_eq, not_true_eq_false, if_false]
  rw [unlink_in_dir_eq hlay hdir.groups, htarget, Option.map_some, Option.bind_some]
  simp only
  have hinode : (fat12_make_node fs.disk a).inode = Entry.first_cluster fs.disk a := rfl
  rw [hinode, hrun]
  rfl

/-- 項目 `a` のほかの項目は、前後で同じである。 -/
theorem slots_same (hdir : DirOk fs inode) (hlay : Layout fs) (ha : a ∈ slots fs inode) (disk : ByteMem) {disk' : ByteMem}
    (hwrite : ∀ b ∈ slots fs inode, ∀ k < sizeofDirEntry, disk (b + k) = fs.disk (b + k) ∨ b + k < a + 32 ∧ a ≤ b + k)
    (hflush : ∀ x, fs.root_lba * ATA_SECTOR_SIZE ≤ x → disk' x = disk x) (hb : b ∈ slots fs inode) (hne : b ≠ a) :
    SameSlot fs.disk disk' b := by
  intro k hk
  have hslot := hdir.isSlot hb
  have hafter := hslot.after_fat hlay hdir.chainSet
  rw [hflush (b + k) (by omega)]
  have hout := slot_disjoint (hdir.isSlot ha).mod hslot.mod hne hk
  rcases hwrite b hb k hk with h | h
  · exact h
  · omega

/-- 有効な項目 `a` だけが 0xE5 になり、ほかの項目が同じなら、その名前だけがなくなっている。 -/
theorem removed_of_slot (hlay : Layout fs) (hdir : DirOk fs dir.inode) (hd : Distinct fs dir.inode)
    (he : Ended fs dir.inode) (ha : a ∈ live fs dir.inode) (h0 : 0 ∉ name) (hname : matches_name fs.disk name a = true)
    (hg' : Groups fs' dir.inode (dir_groups fs dir.inode))
    (hother : ∀ b ∈ slots fs dir.inode, b ≠ a → SameSlot fs.disk fs'.disk b) (hdel : fs'.disk a = 0xE5)
    (hfreed : ∀ c, fat_entry_raw fs' c = if c ∈ l then 0 else fat_entry_raw fs c) : Removed fs fs' dir name l := by
  obtain ⟨L, R, hlive, hlive', hsub, hended⟩ := live_removed hlay hdir he hg' ha hother hdel
  unfold Distinct at hd
  rw [hlive] at hd
  have hno := distinct_split hd h0 hname
  have hfinal : live_entries fs'.disk (dir_slots (dir_groups fs dir.inode)) = L ++ R := by
    rw [← hg'.dir_groups_eq]
    exact hlive'
  refine ⟨?_, fun other h0' hdiff => ?_, hfreed, ?_, hended⟩
  · unfold fat12_finddir_fs
    split_ifs
    · rfl
    · rw [find_entry_live hg', hfinal, List.find?_eq_none.mpr fun b hb => ?_]
      · rfl
      · rw [(hsub b hb).matches_name, hno b hb]
        exact Bool.false_ne_true
  · have hmiss : matches_name fs.disk other a = false := by
      refine Bool.eq_false_iff.mpr fun hyes => hdiff ?_
      rw [strcasecmp_fat_eq_zero h0' h0, ← (matches_name_iff h0').mp hyes, (matches_name_iff h0).mp hname]
    unfold fat12_finddir_fs
    rw [find_insert hg' hdir.groups hfinal hlive (fun b hb => (hsub b hb).symm) hmiss]
  · unfold Distinct
    rw [hlive']
    have hsublist : (L ++ R).Sublist (L ++ a :: R) := (List.Sublist.refl _).append (List.sublist_cons_self _ _)
    refine List.Pairwise.imp_of_mem (fun {x y} hx hy hne => ?_) (hd.sublist hsublist)
    rw [entry_to_name_congr (hsub x hx), entry_to_name_congr (hsub y hy)]
    exact hne

/-- 削除の前後で、ディレクトリの有効な項目は `a` だけが減る。 -/
theorem unlink_removed (hok : FatOk fs H) (hlay : Layout fs) (hdir : IsDir H dir.inode) (hd : Distinct fs dir.inode)
    (he : Ended fs dir.inode) (ha : a ∈ live fs dir.inode) (h0 : 0 ∉ name)
    (hname : matches_name fs.disk name a = true)
    (hown : Entry.first_cluster fs.disk a = 0 ∨ Entry.first_cluster fs.disk a ∈ H \ {dir.inode})
    (hf : Freed { fs with disk := store8 fs.disk a 0xE5 } fs₂ (Entry.first_cluster fs.disk a) l) :
    Removed fs (fat12_flush_fat fs₂) dir name l := by
  have hdirOk := hok.dirOk hdir
  have hmem : a ∈ slots fs dir.inode := live_subset ha
  have hlay₂ : Layout fs₂ := (hlay.disk _).of_same hf.same
  obtain ⟨disk, heq, hflush⟩ := flush_fat_eq hlay₂
  have hroot : fs₂.root_lba = fs.root_lba := hf.same.root_lba
  rw [hroot, hf.disk] at hflush
  rw [heq]
  refine removed_of_slot hlay hdirOk hd he ha h0 hname ?_ (fun b hb hne => ?_) ?_ (fun c => ?_)
  · refine hdirOk.groups.carry (((SameShape.of_disk fs _).trans hf.same.shape).trans (.of_disk fs₂ disk)) fun hne l' hl' => ?_
    have hl₁ : Follows (fatNext { fs with disk := store8 fs.disk a 0xE5 }) dir.inode l' :=
      hl'.congr fun x _ => fatNext_disk fs _ x
    exact (hf.follows hok.disk hown (hdir.resolve_left hne) hl₁).congr fun x _ => fatNext_disk fs₂ disk x
  · refine slots_same hdirOk hlay hmem (store8 fs.disk a 0xE5) (fun x _ k _ => ?_) hflush hb hne
    unfold store8
    split_ifs with hxa
    · exact Or.inr ⟨by omega, by omega⟩
    · exact Or.inl rfl
  · exact (hflush a ((hdirOk.isSlot hmem).after_fat hlay hdirOk.chainSet)).trans (if_pos rfl)
  · split_ifs with hc
    · exact hf.zero c hc
    · exact hf.same.entry c hc

/-- 整ったディレクトリのファイルを名前で消すと、その項目と鎖だけがなくなる。 -/
theorem unlink_file (hok : FatOk fs H) (hlay : Layout fs) (hdir : IsDir H dir.inode) (hd : Distinct fs dir.inode)
    (he : Ended fs dir.inode) (ha : a ∈ live fs dir.inode) (hfile : IsFile fs.disk a)
    (hown : Entry.first_cluster fs.disk a = 0 ∨ Entry.first_cluster fs.disk a ∈ H \ {dir.inode}) (hne : name ≠ [])
    (h0 : 0 ∉ name) (hname : strcasecmp_fat (fat12_entry_to_name fs.disk a) name = 0) :
    ∃ fs' chain, fat12_unlink fs dir name = some (fs', some a) ∧
      (Entry.first_cluster fs.disk a = 0 ∧ chain = [] ∨
        Entry.first_cluster fs.disk a ≠ 0 ∧ Follows (fatNext fs) (Entry.first_cluster fs.disk a) chain) ∧
      Removed fs fs' dir name chain := by
  have hname' : matches_name fs.disk name a = true := decide_eq_true hname
  have hfind : (live fs dir.inode).find? (matches_name fs.disk name) = some a := by
    obtain ⟨L, R, hsplit⟩ := List.append_of_mem ha
    unfold Distinct at hd
    rw [hsplit] at hd ⊢
    have hno := distinct_split hd h0 hname'
    rw [List.find?_append, List.find?_eq_none.mpr fun b hb => ?_, Option.none_or, List.find?_cons_of_pos hname']
    rw [hno b (List.mem_append_left _ hb)]
    exact Bool.false_ne_true
  obtain ⟨fs₂, l, hrun, hf⟩ := unlink_eq hok hlay (hok.dirOk hdir) hne hfind hfile (hown.imp_right fun h => h.1)
  refine ⟨_, l, hrun, ?_, unlink_removed hok hlay hdir hd he ha h0 hname' hown hf⟩
  exact hf.chain.imp_right fun h => ⟨h.1, h.2.congr fun x _ => (fatNext_disk fs _ x).symm⟩

/-- 根に、クラスタ 2 を持つファイル `A` だけがある。 -/
def one_file : Fs :=
  { fat12_set_fat_entry blankFs 2 0xFFF with disk := Entry.write (fun _ => 0) 1536 (new_entry letterA 0x20 2) }

theorem one_file_ok : FatOk one_file {2} := by
  have hfat : FatOk blankFs ∅ := blank_volume.fat
  have hok : FatOk (fat12_set_fat_entry blankFs 2 0xFFF) (insert 2 ∅) :=
    hfat.allocate (by unfold InRange; decide) (by decide +kernel)
  rw [insert_empty_eq] at hok
  exact hok.disk

theorem one_file_layout : Layout one_file := ⟨rfl, rfl, by decide, rfl, rfl, by decide⟩

theorem unlink_file_one : ∃ fs' chain, fat12_unlink one_file (dir_node FAT12_ROOT_INODE) [0x61] = some (fs', some 1536) ∧
    (Entry.first_cluster one_file.disk 1536 = 0 ∧ chain = [] ∨ Entry.first_cluster one_file.disk 1536 ≠ 0 ∧
      Follows (fatNext one_file) (Entry.first_cluster one_file.disk 1536) chain) ∧
    Removed one_file fs' (dir_node FAT12_ROOT_INODE) [0x61] chain := by
  have hfc : Entry.first_cluster one_file.disk 1536 = 2 := by decide +kernel
  refine unlink_file one_file_ok one_file_layout (Or.inl rfl) (by decide +kernel) (by decide +kernel) (by decide +kernel)
    (by decide +kernel) (Or.inr ?_) (by decide) (by decide) (by decide +kernel)
  rw [hfc]
  exact ⟨rfl, by decide⟩

end MyOS.Fat
