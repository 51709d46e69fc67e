import MyOS.Fat.Lemmas.Names
import MyOS.Fat.Lemmas.Read
import MyOS.Fat.Lemmas.Data
import MyOS.Fat.Lemmas.Mkdir

/-!
# 項目の増減と探索

有効な項目を一つ加えたり消したりすると、有効な項目の並びは `a` のところだけが変わる。ほかの名前の探索は変わらない。
-/

namespace MyOS.Fat
open MyOS.Lib

variable {fs fs' : Fs} {m m' : ByteMem} {a b c d inode : Nat} {l pre post L R : List Nat} {gs : List Group}
  {name other : List UInt8}

/-! ## 有効な項目の並び -/

/-- 項目 `b` の 32 バイトが同じである。 -/
def SameSlot (m m' : ByteMem) (b : Nat) : Prop := ∀ k < sizeofDirEntry, m' (b + k) = m (b + k)

theorem SameSlot.first (h : SameSlot m m' b) : m' b = m b := by
  have h0 := h 0 (by decide)
  rwa [Nat.add_zero] at h0

theorem takeWhile_congr {p q : Nat → Bool} (h : ∀ b ∈ l, p b = q b) : l.takeWhile p = l.takeWhile q := by
  induction l with
  | nil => rfl
  | cons a l ih => rw [List.takeWhile_cons, List.takeWhile_cons, h a (by simp), ih fun b hb => h b (by simp [hb])]

theorem live_congr (h : ∀ b ∈ l, SameSlot m m' b) : live_entries m' l = live_entries m l := by
  unfold live_entries
  have htake : l.takeWhile (fun a => m' a ≠ 0) = l.takeWhile (fun a => m a ≠ 0) :=
    takeWhile_congr fun b hb => by rw [(h b hb).first]
  rw [htake]
  refine List.filter_congr fun b hb => ?_
  have hmem := List.takeWhile_subset _ hb
  unfold Entry.attributes
  rw [(h b hmem).first, h b hmem 11 (by decide)]

theorem live_subset : live_entries m l ⊆ l := fun _ hb => List.takeWhile_subset _ (List.mem_of_mem_filter hb)

theorem live_append_subset : live_entries m pre ++ live_entries m post ⊆ pre ++ post := fun _ hb =>
  List.mem_append.mpr ((List.mem_append.mp hb).imp (fun h => live_subset h) fun h => live_subset h)

theorem mem_split_ne (hnd : (pre ++ a :: post).Nodup) (hb : b ∈ pre ++ post) : b ∈ pre ++ a :: post ∧ b ≠ a := by
  refine ⟨by simpa using Or.imp_right Or.inr (List.mem_append.mp hb), ?_⟩
  rintro rfl
  exact (List.nodup_middle.mp hnd).notMem hb

theorem live_append_used (hpre : ∀ b ∈ pre, m b ≠ 0) : live_entries m (pre ++ l) = live_entries m pre ++ live_entries m l := by
  unfold live_entries
  have hall : pre.takeWhile (fun a => m a ≠ 0) = pre :=
    List.takeWhile_eq_self_iff.mpr fun b hb => decide_eq_true (hpre b hb)
  rw [List.takeWhile_append_of_pos fun b hb => decide_eq_true (hpre b hb), List.filter_append, hall]

theorem live_cons_used (hu : Used m a) : live_entries m (a :: l) = a :: live_entries m l := by
  unfold live_entries
  rw [List.takeWhile_cons_of_pos (by simpa using hu.1), List.filter_cons_of_pos (by simpa using hu.2)]

theorem live_cons_deleted (ha : m a = 0xE5) : live_entries m (a :: l) = live_entries m l := by
  unfold live_entries
  rw [List.takeWhile_cons_of_pos (by simp [ha]), List.filter_cons_of_neg (by simp [ha])]

theorem live_cons_end (ha : m a = 0) : live_entries m (a :: l) = [] := by
  unfold live_entries
  rw [List.takeWhile_cons_of_neg (by simp [ha])]
  rfl

theorem live_zero (h : ∀ b ∈ l, m b = 0) : live_entries m l = [] := by
  cases l with
  | nil => rfl
  | cons a l => exact live_cons_end (h a (by simp))

/-- 消された項目か、後に何もない終わりの項目が、有効な項目になる。 -/
theorem live_insert (hsame : ∀ b ∈ pre ++ post, SameSlot m m' b) (hpre : ∀ b ∈ pre, m b ≠ 0) (hu : Used m' a)
    (hfree : m a = 0xE5 ∨ m a = 0 ∧ ∀ b ∈ post, m b = 0) :
    live_entries m (pre ++ a :: post) = live_entries m pre ++ live_entries m post ∧
      live_entries m' (pre ++ a :: post) = live_entries m pre ++ a :: live_entries m post := by
  have hpre' : ∀ b ∈ pre, m' b ≠ 0 := fun b hb => by
    rw [(hsame b (List.mem_append_left _ hb)).first]
    exact hpre b hb
  rw [live_append_used hpre, live_append_used hpre', live_cons_used hu,
    live_congr fun b hb => hsame b (List.mem_append_left _ hb),
    live_congr fun b hb => hsame b (List.mem_append_right _ hb)]
  refine ⟨?_, rfl⟩
  rcases hfree with hdel | ⟨hend, hzero⟩
  · rw [live_cons_deleted hdel]
  · rw [live_cons_end hend, live_zero hzero]

theorem dropWhile_used (hpre : ∀ b ∈ pre, m b ≠ 0) :
    (pre ++ l).dropWhile (fun a => m a ≠ 0) = l.dropWhile (fun a => m a ≠ 0) := by
  rw [List.dropWhile_append_of_pos fun b hb => decide_eq_true (hpre b hb)]

theorem dropWhile_congr {p q : Nat → Bool} (h : ∀ b ∈ l, p b = q b) : l.dropWhile p = l.dropWhile q := by
  induction l with
  | nil => rfl
  | cons a l ih => rw [List.dropWhile_cons, List.dropWhile_cons, h a (by simp), ih fun b hb => h b (by simp [hb])]

/-- 項目 `a` を使っても消しても、最初の 0x00 の後は 0x00 のままである。 -/
theorem ended_change (hsame : ∀ b ∈ pre ++ post, SameSlot m m' b) (hpre : ∀ b ∈ pre, m b ≠ 0) (ha : m' a ≠ 0)
    (hend : ∀ b ∈ (pre ++ a :: post).dropWhile (fun a => m a ≠ 0), m b = 0) :
    ∀ b ∈ (pre ++ a :: post).dropWhile (fun a => m' a ≠ 0), m' b = 0 := by
  have hpre' : ∀ b ∈ pre, m' b ≠ 0 := fun b hb => by
    rw [(hsame b (List.mem_append_left _ hb)).first]
    exact hpre b hb
  have hpost : ∀ b ∈ post, m' b = m b := fun b hb => (hsame b (List.mem_append_right _ hb)).first
  rw [dropWhile_used hpre] at hend
  rw [dropWhile_used hpre', List.dropWhile_cons_of_pos (by simp [ha]), dropWhile_congr fun b hb => by rw [hpost b hb]]
  intro b hb
  have hmem := List.dropWhile_subset _ hb
  rw [hpost b hmem]
  by_cases h0 : m a = 0
  · rw [List.dropWhile_cons_of_neg (by simp [h0])] at hend
    exact hend b (by simp [hmem])
  · rw [List.dropWhile_cons_of_pos (by simp [h0])] at hend
    exact hend b hb

/-! ## 探索 -/

theorem find_entry_live (hg : Groups fs inode gs) : find_entry fs inode name =
    some (((live_entries fs.disk (dir_slots gs)).find? (matches_name fs.disk name)).map fun a =>
      (fat12_make_node fs.disk a, a)) := by
  rw [find_entry_eq hg, visible_eq]

theorem matches_name_iff (h0 : 0 ∉ name) : matches_name m name a = true ↔
    (fat12_entry_to_name m a).map upper = name.map upper := by
  unfold matches_name
  rw [decide_eq_true_eq, strcasecmp_fat_eq_zero (entry_to_name_no_zero m a) h0]

theorem SameSlot.matches_name (h : SameSlot m m' b) : matches_name m' name b = matches_name m name b := by
  unfold MyOS.Fat.matches_name
  rw [entry_to_name_congr h]

/-- 名前の違う項目を一つ加えても、探索の結果は変わらない。 -/
theorem find_insert (hg : Groups fs inode gs) (hg' : Groups fs' inode gs)
    (hlive : live_entries fs.disk (dir_slots gs) = L ++ R) (hlive' : live_entries fs'.disk (dir_slots gs) = L ++ a :: R)
    (hsame : ∀ b ∈ L ++ R, SameSlot fs.disk fs'.disk b) (hno : matches_name fs'.disk other a = false) :
    find_entry fs' inode other = find_entry fs inode other := by
  rw [find_entry_live hg, find_entry_live hg', hlive, hlive']
  have hfind : (L ++ a :: R).find? (matches_name fs'.disk other) = (L ++ R).find? (matches_name fs.disk other) := by
    rw [List.find?_append, List.find?_cons_of_neg (by simp [hno]), ← List.find?_append]
    exact List.find?_congr fun b hb => (hsame b hb).matches_name
  rw [hfind]
  refine congrArg some (Option.map_congr fun b hb => ?_)
  rw [make_node_congr (hsame b (List.mem_of_find?_eq_some hb))]

/-- 前に同じ名前の項目がなければ、加えた項目が見つかる。 -/
theorem find_inserted (hg' : Groups fs' inode gs) (hlive' : live_entries fs'.disk (dir_slots gs) = L ++ a :: R)
    (hsame : ∀ b ∈ L, SameSlot fs.disk fs'.disk b) (hnew : ∀ b ∈ L, matches_name fs.disk name b = false)
    (hyes : matches_name fs'.disk name a = true) :
    find_entry fs' inode name = some (some (fat12_make_node fs'.disk a, a)) := by
  rw [find_entry_live hg', hlive', List.find?_append]
  have hnone : L.find? (matches_name fs'.disk name) = none :=
    List.find?_eq_none.mpr fun b hb => by rw [(hsame b hb).matches_name, hnew b hb]; exact Bool.false_ne_true
  rw [hnone, Option.none_or, List.find?_cons_of_pos hyes]
  rfl

/-! ## 項目の位置 -/

/-- 有効な項目より前に、終わりの項目はない。 -/
theorem mem_live_split (ha : a ∈ live_entries m l) :
    ∃ pre post, l = pre ++ a :: post ∧ (∀ b ∈ pre, m b ≠ 0) ∧ Used m a := by
  obtain ⟨hmem, hu⟩ := List.mem_filter.mp ha
  have ha0 := List.mem_takeWhile_imp hmem
  obtain ⟨pre, rest, heq⟩ := List.append_of_mem hmem
  refine ⟨pre, rest ++ l.dropWhile (fun a => m a ≠ 0), ?_, fun b hb => ?_, by simpa using ha0, by simpa using hu⟩
  · rw [← List.cons_append, ← List.append_assoc, ← heq, List.takeWhile_append_dropWhile]
  · have hb0 := List.mem_takeWhile_imp (show b ∈ l.takeWhile (fun a => m a ≠ 0) by rw [heq]; simp [hb])
    simpa using hb0

/-- 最初の空き項目より前に、空きも終わりもない。 -/
theorem room_split {g : Group} {i : Nat} (h : room m gs = some (g, i)) :
    ∃ pre post, dir_slots gs = pre ++ g.slot i :: post ∧ ∀ b ∈ pre, m b ≠ 0 ∧ m b ≠ 0xE5 := by
  have hfind : (dir_slots gs).find? (fun a => m a = 0 ∨ m a = 0xE5) = some (g.slot i) := by
    have hroom := congrArg (Option.map fun r : Group × Nat => r.1.slot r.2) h
    unfold room at hroom
    rw [List.map_findSome?, Option.map_some] at hroom
    unfold dir_slots
    rw [List.find?_flatMap, ← hroom]
    refine congrArg (List.findSome? · gs) (funext fun g => ?_)
    rw [List.find?_map, Function.comp_apply, Option.map_map]
    rfl
  obtain ⟨-, pre, post, heq, hpre⟩ := List.find?_eq_some_iff_append.mp hfind
  exact ⟨pre, post, heq, fun b hb => by simpa using hpre b hb⟩

theorem mem_dir_slots {g : Group} {i : Nat} (hg : g ∈ gs) (hi : i < g.entries) : g.slot i ∈ dir_slots gs :=
  List.mem_flatMap.mpr ⟨g, hg, List.mem_map.mpr ⟨i, List.mem_range.mpr hi, rfl⟩⟩

/-- 二つの単位は重ならない。 -/
def Apart (g g' : Group) : Prop :=
  g.lba * ATA_SECTOR_SIZE + g.entries * sizeofDirEntry ≤ g'.lba * ATA_SECTOR_SIZE ∨
    g'.lba * ATA_SECTOR_SIZE + g'.entries * sizeofDirEntry ≤ g.lba * ATA_SECTOR_SIZE

theorem dir_slots_nodup (h : gs.Pairwise Apart) : (dir_slots gs).Nodup := by
  unfold dir_slots
  refine List.nodup_flatMap.mpr ⟨fun g _ => ?_, h.imp fun {g g'} hapart => ?_⟩
  · refine List.Nodup.map (fun i j hij => ?_) List.nodup_range
    unfold Group.slot sizeofDirEntry at hij
    omega
  · intro b hb hb'
    obtain ⟨i, hi, rfl⟩ := List.mem_map.mp hb
    obtain ⟨j, hj, heq⟩ := List.mem_map.mp hb'
    have hi' := List.mem_range.mp hi
    have hj' := List.mem_range.mp hj
    unfold Apart Group.slot sizeofDirEntry at *
    omega

section Place

variable (hdir : DirOk fs inode)
include hdir

theorem DirOk.groups : Groups fs inode (dir_groups fs inode) := by
  rcases hdir.chain with rfl | ⟨hne, l, hl⟩
  · rw [dir_groups_root]
    exact .root
  · have hlen : l.length < maxChain := by
      have hle := hl.length_le
      have hbound := hdir.bound
      unfold maxChain
      omega
    have hg : Groups fs inode (l.map (cluster_group fs)) := .chain hne hl.follows hl.ne_end hlen
    rw [hg.dir_groups_eq]
    exact hg

theorem DirOk.apart (hlay : Layout fs) : (dir_groups fs inode).Pairwise Apart := by
  rcases hdir.chain with rfl | ⟨hne, l, hl⟩
  · rw [dir_groups_root]
    refine List.pairwise_map.mpr (List.pairwise_lt_range.imp fun {s s'} hlt => Or.inl ?_)
    rw [hlay.root_entries]
    simp only [root_group, ATA_SECTOR_SIZE, sizeofDirEntry]
    omega
  · have hg := hdir.groups
    unfold dir_groups
    rw [if_neg hne, chain_list_eq hl.follows hl.ne_end (follows_length_lt hl.follows)]
    refine List.pairwise_map.mpr (List.Pairwise.imp_of_mem (fun {c d} hc hd hcd => ?_) hl.follows.nodup)
    have hapart := hlay.clusters_apart (hl.range c hc) (hl.range d hd) hcd
    unfold Apart
    rw [hlay.cluster_entries, hlay.cluster_entries]
    simp only [cluster_group, ATA_SECTOR_SIZE, sizeofDirEntry]
    omega

end Place

/-- 根のほかのディレクトリの鎖の先頭。 -/
def heads (inode : Nat) : Set Nat := { d | d = inode ∧ inode ≠ FAT12_ROOT_INODE }

theorem isDir_heads (inode : Nat) : IsDir (heads inode) inode := by
  by_cases h : inode = FAT12_ROOT_INODE
  · exact Or.inl h
  · exact Or.inr ⟨rfl, h⟩

theorem DirOk.chainSet (hdir : DirOk fs inode) : ChainSet (fatNext fs) (heads inode) (InRange fs) := by
  refine ⟨fun h hh => ?_, fun h hh h' hh' _ _ _ _ _ _ _ => hh.1.trans hh'.1.symm⟩
  obtain ⟨rfl, hne⟩ := hh
  obtain ⟨-, l, hl⟩ := hdir.chain.resolve_left hne
  exact ⟨l, hl.follows, hl.range⟩

theorem DirOk.not_owned (hdir : DirOk fs inode) (hfree : fat_entry_raw fs c = 0) : ¬ Owned (fatNext fs) (heads inode) c := by
  rintro ⟨h, ⟨rfl, hne⟩, l', hl', hc⟩
  obtain ⟨-, l, hl⟩ := hdir.chain.resolve_left hne
  rw [hl'.unique hl.follows] at hc
  exact hl.entry_ne_zero hc hfree

theorem DirOk.isSlot (hdir : DirOk fs inode) (hb : b ∈ slots fs inode) : IsSlot fs (heads inode) b := by
  obtain ⟨g, hg, hb⟩ := List.mem_flatMap.mp hb
  obtain ⟨i, hi, rfl⟩ := List.mem_map.mp hb
  exact hdir.groups.isSlot (isDir_heads inode) hg (List.mem_range.mp hi)

/-- 項目 `a` への書き込みは、ほかの項目を変えない。 -/
theorem SameSlot.of_outside (ha : a % 32 = 0) (hb : b % 32 = 0) (hne : b ≠ a)
    (h : ∀ x, (x < a ∨ a + 32 ≤ x) → m' x = m x) : SameSlot m m' b :=
  fun _ hk => h _ (slot_disjoint ha hb hne hk)

theorem SameSlot.trans {m'' : ByteMem} (h : SameSlot m m' b) (h' : SameSlot m' m'' b) : SameSlot m m'' b :=
  fun k hk => (h' k hk).trans (h k hk)

theorem SameSlot.symm (h : SameSlot m m' b) : SameSlot m' m b := fun k hk => (h k hk).symm

/-! ## ディレクトリの有効な項目 -/

section Live

variable {g : Group} {i : Nat} (hlay : Layout fs) (hdir : DirOk fs inode) (he : Ended fs inode)
  (hg' : Groups fs' inode (dir_groups fs inode))
include hlay hdir he hg'

/-- 最初の空き項目だけが使われると、有効な項目が一つ加わる。 -/
theorem live_added (hroom : room fs.disk (dir_groups fs inode) = some (g, i))
    (hother : ∀ b ∈ slots fs inode, b ≠ g.slot i → SameSlot fs.disk fs'.disk b) (hu : Used fs'.disk (g.slot i)) :
    ∃ L R, live fs inode = L ++ R ∧ live fs' inode = L ++ g.slot i :: R ∧
      (∀ b ∈ L ++ R, SameSlot fs.disk fs'.disk b) ∧ Ended fs' inode := by
  obtain ⟨-, -, hfree⟩ := room_some hroom
  obtain ⟨pre, post, hsplit, hpre⟩ := room_split hroom
  generalize g.slot i = a at *
  have hslots : slots fs' inode = slots fs inode := by
    unfold slots
    rw [hg'.dir_groups_eq]
  have hsplit' : slots fs inode = pre ++ a :: post := hsplit
  have hnd : (slots fs inode).Nodup := dir_slots_nodup (hdir.apart hlay)
  unfold Ended at he
  unfold live Ended
  rw [hsplit'] at he hnd hother
  rw [hslots, hsplit']
  have hsame : ∀ b ∈ pre ++ post, SameSlot fs.disk fs'.disk b := fun b hb => by
    obtain ⟨hmem, hne⟩ := mem_split_ne hnd hb
    exact hother b hmem hne
  have hfree' : fs.disk a = 0xE5 ∨ fs.disk a = 0 ∧ ∀ b ∈ post, fs.disk b = 0 := by
    rcases hfree with h0 | hdel
    · refine Or.inr ⟨h0, fun b hb => he b ?_⟩
      rw [dropWhile_used fun b hb => (hpre b hb).1, List.dropWhile_cons_of_neg (by simp [h0])]
      simp [hb]
    · exact Or.inl hdel
  obtain ⟨hlive, hlive'⟩ := live_insert hsame (fun b hb => (hpre b hb).1) hu hfree'
  exact ⟨_, _, hlive, hlive', fun b hb => hsame b (live_append_subset hb),
    ended_change hsame (fun b hb => (hpre b hb).1) hu.1 he⟩

/-- 有効な項目 `a` だけが 0xE5 になると、有効な項目が一つ減る。 -/
theorem live_removed (ha : a ∈ live fs inode) (hother : ∀ b ∈ slots fs inode, b ≠ a → SameSlot fs.disk fs'.disk b)
    (hdel : fs'.disk a = 0xE5) :
    ∃ L R, live fs inode = L ++ a :: R ∧ live fs' inode = L ++ R ∧
      (∀ b ∈ L ++ R, SameSlot fs.disk fs'.disk b) ∧ Ended fs' inode := by
  obtain ⟨pre, post, hsplit, hpre, hu⟩ := mem_live_split ha
  have hslots : slots fs' inode = slots fs inode := by
    unfold slots
    rw [hg'.dir_groups_eq]
  have hnd : (slots fs inode).Nodup := dir_slots_nodup (hdir.apart hlay)
  unfold Ended at he
  unfold live Ended
  rw [hsplit] at he hnd hother
  rw [hslots, hsplit]
  have hsame : ∀ b ∈ pre ++ post, SameSlot fs.disk fs'.disk b := fun b hb => by
    obtain ⟨hmem, hne⟩ := mem_split_ne hnd hb
    exact hother b hmem hne
  have hpre' : ∀ b ∈ pre, fs'.disk b ≠ 0 := fun b hb => by
    rw [(hsame b (List.mem_append_left _ hb)).first]
    exact hpre b hb
  obtain ⟨hlive', hlive⟩ := live_insert (fun b hb => (hsame b hb).symm) hpre' hu (Or.inl hdel)
  exact ⟨_, _, hlive, hlive', fun b hb => hsame b (live_append_subset hb),
    ended_change hsame hpre (by rw [hdel]; decide) he⟩

end Live

end MyOS.Fat
