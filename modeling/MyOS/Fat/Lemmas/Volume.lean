import MyOS.Fat.Lemmas.Mkdir

/-!
# ボリュームの操作

作成、書き込み、削除が、項目と持ち主の対応を保つ。書き込みは、更新する項目がノード自身の項目であることを条件とする。
-/

namespace MyOS.Fat
open MyOS.Lib ByteMem

variable {fs fs' : Fs} {H H' D : Set Nat} {own : Nat → Nat} {hs : Set Handle} {a b c i k inode : Nat}
  {h : Handle} {g : Group} {gs : List Group} {name : List UInt8} {l ext log : List Nat} {node node' : Node}
  {n total : Nat} {v v' : Vol} {op : VolOp}

/-! ## 探す、作る -/

theorem finddir_dir_node (fs : Fs) (inode : Nat) (name : List UInt8) :
    fat12_finddir_fs fs (dir_node inode) name = find_entry fs inode name :=
  if_neg (show FS_DIRECTORY &&& FS_DIRECTORY ≠ 0 by decide)

theorem used_of_live (ha : a ∈ live_slots fs.disk g) : Used fs.disk a := by
  obtain ⟨i, -, rfl, hall, hne, hattr⟩ := mem_live_slots.mp ha
  exact ⟨hall i (Nat.le_refl i), hne, hattr⟩

/-- 見つかったノードは、見える同名の項目から作られる。 -/
theorem find_entry_some (hg : Groups fs inode gs) (hdir : IsDir D inode)
    (hf : find_entry fs inode name = some (some (node, a))) :
    node = fat12_make_node fs.disk a ∧ IsSlot fs D a ∧ Used fs.disk a ∧
      (visible fs.disk gs).find? (matches_name fs.disk name) = some a := by
  rw [find_entry_eq hg] at hf
  obtain ⟨b, hb, heq⟩ := Option.map_eq_some_iff.mp (Option.some.inj hf)
  cases heq
  have hmem := List.mem_of_find?_eq_some hb
  obtain ⟨g, -, hlive⟩ := mem_visible hmem
  exact ⟨rfl, visible_isSlot hg hdir hmem, used_of_live hlive, hb⟩

theorem Tracked.found (hT : Tracked fs H D own hs) (hg : Groups fs inode gs) (hdir : IsDir D inode)
    (hf : find_entry fs inode name = some (some (node, a))) (hfile : node.flags = FS_FILE) (u : Bool) :
    HandleOk fs H D own ⟨node, a, u⟩ := by
  obtain ⟨rfl, hslot, hu, -⟩ := find_entry_some hg hdir hf
  exact hT.opened ⟨hslot, hu, make_node_file _ hfile⟩ u

theorem not_used_of_free (h : fs.disk a = 0 ∨ fs.disk a = 0xE5) : ¬ Used fs.disk a := by
  rintro ⟨h0, h1, -⟩
  exact h.elim h0 h1

/-- ファイルを作った後の状態。 -/
def created_fs (fs : Fs) (name : List UInt8) (a : Nat) : Fs :=
  { (fat12_allocate_cluster fs).1 with disk := created_disk fs name a }

theorem Tracked.create (hT : Tracked fs H D own hs) (ha : IsSlot fs D a) (hfree : fs.disk a = 0 ∨ fs.disk a = 0xE5)
    (name : List UInt8) : ∃ H' own', Tracked (created_fs fs name a) H' D own' hs ∧
      Changes fs (created_fs fs name a) H H' D {a} := by
  have hnot := not_used_of_free hfree
  have hbound := hT.fat.bound
  unfold created_fs created_disk
  rcases allocate_cluster_cases fs with ⟨c, halloc, hr, hz⟩ | ⟨halloc, -⟩
  · rw [halloc]
    obtain ⟨hT₁, hhead, -⟩ := hT.allocate hr hz a
    have hch := Changes.allocate hT.fat hT.dirs hr hz
    have hslot : IsSlot (fat12_set_fat_entry fs c 0xFFF) D a := (hch.shape.isSlot hch.owned).mpr ha
    have hlt : c < 65536 := by
      have := hr.2
      omega
    refine ⟨_, _, hT₁.add_entry hslot hnot hlt (fun _ => Or.inr ⟨hhead, Function.update_self ..⟩)
      (fun h => absurd (by decide) h), (hch.mono (Set.empty_subset _)).trans ?_⟩
    exact Changes.entry hT₁.fat hT₁.dirs hslot (fun x hx => entry_write_outside _ hx)
  · rw [halloc]
    refine ⟨H, own, hT.add_entry ha hnot (Nat.zero_lt_succ _) (fun _ => Or.inl rfl) (fun h => absurd (by decide) h), ?_⟩
    exact Changes.entry hT.fat hT.dirs ha (fun x hx => entry_write_outside _ hx)

/-- `fat12_create_file` は、同名の項目を返すか、最初の空き項目に作るか、NULL を返す。 -/
theorem create_file_cases (hT : Tracked fs H D own hs) (hg : Groups fs inode gs) (hdir : IsDir D inode)
    (name : List UInt8) :
    (∃ found, find_entry fs inode name = some (some found) ∧
      fat12_create_file fs (dir_node inode) name = some (fs, some found)) ∨
    find_entry fs inode name = some none ∧
      (room fs.disk gs = none ∧ fat12_create_file fs (dir_node inode) name = some (fs, none) ∨
        ∃ g i, room fs.disk gs = some (g, i) ∧ fat12_create_file fs (dir_node inode) name =
          some (created_fs fs name (g.slot i),
            some (fat12_make_node (created_disk fs name (g.slot i)) (g.slot i), g.slot i))) := by
  unfold fat12_create_file
  rw [show (dir_node inode).inode = inode from rfl]
  have hfind : find_entry fs inode name = _ := find_entry_eq hg
  rw [hfind]
  cases (visible fs.disk gs).find? (matches_name fs.disk name) with
  | some a => exact Or.inl ⟨_, rfl, rfl⟩
  | none =>
      refine Or.inr ⟨rfl, ?_⟩
      simp only [Option.map_none, Option.bind_some]
      rw [create_in_dir_eq hT.fat hT.dirs hdir hg]
      cases hroom : room fs.disk gs with
      | none => exact Or.inl ⟨rfl, rfl⟩
      | some r =>
          obtain ⟨hmem, hi, -⟩ := room_some hroom
          refine Or.inr ⟨r.1, r.2, rfl, ?_⟩
          dsimp only
          rw [created_eq hi (hg.fits hT.layout hmem)]
          rfl

/-! ## 書き込み -/

theorem root_target_slot (hlay : Layout fs) (ht : root_target fs name = some a) : a % 32 = 0 := by
  obtain ⟨⟨s, -, i, -, rfl, -⟩, -⟩ := (root_target_eq_some hlay).mp ht
  exact slot_mod _ _

/-- 書き込みは、項目の名前と属性を変えない。 -/
theorem Wrote.head (hlay : Layout fs) (hw : Wrote fs fs' H H' D node node' total n l ext log)
    (hb : IsSlot fs D b) : ∀ k < 12, fs'.disk (b + k) = fs.disk (b + k) := by
  intro k hk
  rw [hw.slots b hb k (by unfold sizeofDirEntry; omega)]
  unfold slotsAfter
  cases ht : root_target fs node.name with
  | none => rfl
  | some t =>
      refine updated_of_outside ?_
      by_cases hbt : b = t
      · omega
      · have := slot_disjoint (root_target_slot hlay ht) hb.mod hbt (k := k) (by unfold sizeofDirEntry; omega)
        omega

theorem Wrote.not_owned (hT : Tracked fs H D own hs) (hin : node.inode = 0 ∨ node.inode ∈ H \ D)
    (hw : Wrote fs fs' H H' D node node' total n l ext log) (hc : Owned (fatNext fs) D c) : c ∉ l ++ ext := by
  intro hmem
  rcases List.mem_append.mp hmem with hmem | hmem
  · rcases hw.before with ⟨-, rfl⟩ | ⟨hne, hl⟩
    · cases hmem
    · exact not_owned_dir hT (hin.resolve_left hne) hl hmem hc
  · exact hT.fat.not_owned_of_free (hw.free c hmem).2 (hc.mono hT.dirs)

theorem Wrote.changes (hT : Tracked fs H D own hs) (hin : node.inode = 0 ∨ node.inode ∈ H \ D)
    (hw : Wrote fs fs' H H' D node node' total n l ext log)
    (ht : root_target fs node.name = some a ∨ root_target fs node.name = none) : Changes fs fs' H H' D {a} := by
  have hnext : ∀ c, Owned (fatNext fs) D c → fatNext fs' c = fatNext fs c :=
    fun c hc => fatNext_congr (hw.entry c (hw.not_owned hT hin hc))
  refine ⟨hw.shape, hw.fat, hT.dirs.trans hw.heads, hnext,
    fun c => (hT.fat.chains.mono hT.dirs).owned_congr hnext, fun b hb hX k hk => ?_⟩
  rw [hw.slots b hb k hk]
  unfold slotsAfter
  rcases ht with ht | ht
  · rw [ht]
    have := slot_disjoint (root_target_slot hT.layout ht) hb.mod hX hk
    exact updated_of_outside (by omega)
  · rw [ht]

/-- 更新された項目の最初のクラスタ。 -/
theorem Wrote.first_cluster (hw : Wrote fs fs' H H' D node node' total n l ext log) (ha : IsSlot fs D a)
    (ht : root_target fs node.name = some a) : Entry.first_cluster fs'.disk a = node'.inode := by
  have hbytes := hw.slots a ha
  unfold slotsAfter at hbytes
  rw [ht] at hbytes
  rw [Entry.first_cluster_congr hbytes]
  exact first_cluster_updated hw.inode_lt

/-- 更新されない項目の最初のクラスタ。 -/
theorem Wrote.first_cluster_old (hw : Wrote fs fs' H H' D node node' total n l ext log) (ha : IsSlot fs D a)
    (ht : root_target fs node.name = none) : Entry.first_cluster fs'.disk a = Entry.first_cluster fs.disk a := by
  have hbytes := hw.slots a ha
  unfold slotsAfter at hbytes
  rw [ht] at hbytes
  exact Entry.first_cluster_congr hbytes

/-- 書き込みの後、前からある鎖は伸びることしかない。 -/
theorem Wrote.follows (hok : FatOk fs H) (hin : node.inode = 0 ∨ node.inode ∈ H)
    (hw : Wrote fs fs' H H' D node node' total n l ext log) (hc : c ∈ H) {l' : List Nat}
    (hl : Follows (fatNext fs) c l') : ∃ ext', Follows (fatNext fs') c (l' ++ ext') := by
  by_cases hcn : c = node.inode
  · subst hcn
    have h0 : node.inode ≠ 0 := by
      have := (hok.chains.dom_of_mem hc hl hl.mem_head).1
      omega
    have hl₀ := (hw.before.resolve_left (fun h => h0 h.1)).2
    have hafter := hw.after
    rw [hw.old h0, hl₀.unique hl] at hafter
    exact ⟨ext, hafter⟩
  · refine ⟨[], ?_⟩
    rw [List.append_nil]
    refine hl.congr (fun x hx => fatNext_congr (hw.entry x (fun hmem => ?_)))
    rcases List.mem_append.mp hmem with hmem | hmem
    · rcases hw.before with ⟨-, rfl⟩ | ⟨h0, hl₀⟩
      · cases hmem
      · exact hcn (hok.chains.disjoint c hc _ (hin.resolve_left h0) l' l x hl hl₀ hx hmem)
    · exact hok.entry_ne_zero hc hl hx (hw.free x hmem).2

theorem HandleOk.writable (hT : Tracked fs H D own hs) (hok : HandleOk fs H D own h) : Writable fs H D h.node :=
  ⟨hT.fat, hT.layout, hT.dirs, hok.inode.imp_right And.left, hok.seek⟩

theorem Tracked.write (hT : Tracked fs H D own hs) (hok : HandleOk fs H D own h) (hu : UpdatesOwn fs h)
    (hw : Wrote fs fs' H H' D h.node node' total n l ext log) :
    ∃ own', Tracked fs' H' D own' (insert { h with node := node' } hs) := by
  have hin : h.node.inode = 0 ∨ h.node.inode ∈ H \ D := hok.inode.imp_right And.left
  have hch := hw.changes hT hin hu.2
  have hkeep : ∀ x b, x ∈ H \ D → own x = b → x ∈ H' ∧ Function.update own node'.inode h.slot x = b := by
    intro x b hx ho
    refine ⟨hw.heads hx.1, ?_⟩
    by_cases hxn : x = node'.inode
    · -- 前からある先頭なら、持ち主はもともと `h.slot` である。
      have hne : h.node.inode ≠ 0 := fun h0 => hw.fresh h0 (hxn ▸ hx.1)
      rw [hxn, Function.update_self, ← ho, hxn, hw.old hne, (hok.inode.resolve_left hne).2]
    · rw [Function.update_of_ne hxn]
      exact ho
  have hhead := hw.head hT.layout hok.entry.1
  have hfile : FileAt fs' D h.slot := (fileAt_congr (hch.shape.isSlot hch.owned) hhead).mpr hok.entry
  refine ⟨Function.update own node'.inode h.slot,
    hT.change hch (fun b _ _ hmem ho => hkeep _ _ hmem ho) ?_ ?_ (fun h' hh => ?_)⟩
  · rintro a rfl -
    rcases hu.2 with ht | ht
    · rw [hw.first_cluster hok.entry.1 ht]
      exact Or.inr ⟨hw.inode, Function.update_self ..⟩
    · rw [hw.first_cluster_old hok.entry.1 ht]
      refine (hT.file _ hok.entry).imp_right (fun ⟨hmem, ho⟩ => ?_)
      obtain ⟨hmem', ho'⟩ := hkeep _ _ hmem ho
      exact ⟨⟨hmem', hmem.2⟩, ho'⟩
  · rintro a rfl hdir
    exact absurd hfile.2.2 hdir.2.2
  · rcases hh with rfl | hh
    · have hpos := hw.position
      have hsize := hok.size
      have hname : node'.name = h.node.name := by rw [hw.node_eq]
      refine ⟨hfile, ((name_congr hhead).trans hok.name).trans hname.symm,
        Or.inr ⟨hw.inode, Function.update_self ..⟩, ?_, ?_⟩
      · rw [hw.node_eq]
        exact hpos
      · rw [hw.node_eq]
        exact Nat.max_lt.mpr ⟨hsize, hpos⟩
    · have hok' := hT.handle h' hh
      exact hok'.keep hch.shape hch.owned (hw.head hT.layout hok'.entry.1) (fun hmem ho => hkeep _ _ hmem ho)

/-! ## 操作の一歩 -/

/-- 開いたノードのほかに、新しく追うノードはない。 -/
theorem live_open_node {found : Option (Node × Nat)} (hh : h ∈ (v.open_node k found).live) :
    h ∈ v.live ∨ ∃ node a, found = some (node, a) ∧ h = ⟨node, a, false⟩ ∧ node.flags = FS_FILE ∧
      v.fs.disk a ≠ 0xE5 := by
  cases found with
  | none => exact Or.inl hh
  | some r =>
      obtain ⟨⟨j, hj⟩, hfile, hun⟩ := hh
      simp only [Vol.open_node] at hj
      split at hj
      · cases hj
        have hne : v.fs.disk r.2 ≠ 0xE5 := by simpa using hun
        exact Or.inr ⟨r.1, r.2, rfl, congrArg (Handle.mk r.1 r.2) hun, hfile, hne⟩
      · exact Or.inl ⟨⟨j, hj⟩, hfile, hun⟩

theorem live_set_node {h' : Handle} (hh : h' ∈ (v.set_node k h node).live) :
    h' ∈ v.live ∨ h' = { h with node := node } ∧ node.flags = FS_FILE ∧ h.unlinked = false := by
  obtain ⟨⟨j, hj⟩, hfile, hun⟩ := hh
  simp only [Vol.set_node] at hj
  split at hj
  · cases hj
    exact Or.inr ⟨rfl, hfile, hun⟩
  · exact Or.inl ⟨⟨j, hj⟩, hfile, hun⟩

theorem live_unlink_slot (hh : h ∈ (v.unlink_slot (some a)).live) : h ∈ v.live ∧ h.slot ≠ a := by
  obtain ⟨⟨j, hj⟩, hfile, hun⟩ := hh
  obtain ⟨h₀, hj₀, rfl⟩ := Option.map_eq_some_iff.mp hj
  obtain ⟨hun₀, hne⟩ := Bool.or_eq_false_iff.mp hun
  have hmark : Handle.mark a h₀ = h₀ := congrArg (Handle.mk h₀.node h₀.slot) (hun.trans hun₀.symm)
  rw [hmark] at hfile hun ⊢
  exact ⟨⟨⟨j, hj₀⟩, hfile, hun⟩, by simpa using hne⟩

theorem used_created (hne : name ≠ []) (h0 : 0 ∉ name) (h : created_disk fs name a a ≠ 0xE5) :
    Used (created_disk fs name a) a := by
  refine ⟨?_, h, ?_⟩
  · unfold created_disk
    rw [write_first]
    exact new_entry_first hne h0
  · unfold created_disk
    rw [attributes_new]
    decide

theorem isFile_created (fs : Fs) (name : List UInt8) (a : Nat) : IsFile (created_disk fs name a) a := by
  unfold IsFile created_disk
  rw [attributes_new]
  decide

theorem seek_fs_lt {offset : Nat} {type : UInt8} (ho : offset < 2 ^ 32) :
    (fat12_seek_fs node offset type).seek_offset < 2 ^ 32 := by
  unfold fat12_seek_fs
  split
  · exact ho
  · split
    · exact add32_lt
    · exact Nat.mod_lt _ (by decide)

theorem seek_fs_eq (node : Node) (offset : Nat) (type : UInt8) : fat12_seek_fs node offset type =
    { node with seek_offset := (fat12_seek_fs node offset type).seek_offset } := by
  unfold fat12_seek_fs
  split
  · rfl
  · split <;> rfl

/-- 位置だけを変えたノード。 -/
theorem HandleOk.seek_to {s : Nat} (hok : HandleOk fs H D own h) (hs : s < 2 ^ 32) :
    HandleOk fs H D own { h with node := { h.node with seek_offset := s } } :=
  ⟨hok.entry, hok.name, hok.inode, hs, hok.size⟩

theorem Tracked.mono_of (hT : Tracked fs H D own hs) {hs' : Set Handle}
    (hh : ∀ h ∈ hs', h ∈ hs ∨ HandleOk fs H D own h) : Tracked fs H D own hs' :=
  { hT with handle := fun h hmem => (hh h hmem).elim (hT.handle h) id }

/-- `fat12_unlink` は、何も変えずに失敗するか、見つかったファイルの項目を消す。 -/
theorem unlink_cases (hT : Tracked fs H D own hs) (hg : Groups fs inode gs) (hdir : IsDir D inode)
    (hne : name ≠ []) :
    fat12_unlink fs (dir_node inode) name = some (fs, none) ∨
    ∃ a fs' H', (visible fs.disk gs).find? (matches_name fs.disk name) = some a ∧
      Unlinked fs fs' H H' D own hs a ∧ fat12_unlink fs (dir_node inode) name = some (fat12_flush_fat fs', some a) := by
  unfold fat12_unlink
  rw [if_neg hne, show (dir_node inode).inode = inode from rfl]
  cases hf : find_entry fs inode name with
  | none =>
      rw [find_entry_eq hg] at hf
      cases hf
  | some found =>
      rw [Option.bind_some]
      cases found with
      | none => exact Or.inl rfl
      | some r =>
          obtain ⟨node, a⟩ := r
          obtain ⟨rfl, hslot, hu, hfind⟩ := find_entry_some hg hdir hf
          dsimp only
          by_cases hfl : (fat12_make_node fs.disk a).flags &&& FS_DIRECTORY ≠ 0
          · rw [if_pos hfl]
            exact Or.inl rfl
          · right
            have hfile : IsFile fs.disk a := by
              by_contra hnot
              refine hfl ?_
              unfold IsFile at hnot
              simp only [fat12_make_node, ne_eq, hnot, not_false_eq_true, if_true]
              decide
            obtain ⟨fs', H', hrun, hgone⟩ := hT.unlink ⟨hslot, hu, hfile⟩
            refine ⟨a, fs', H', hfind, hgone, ?_⟩
            rw [if_neg hfl, unlink_in_dir_eq hT.layout hg, unlink_target_of_visible hfind]
            simp only [Option.map_some, Option.bind_some]
            rw [show (fat12_make_node fs.disk a).inode = Entry.first_cluster fs.disk a from rfl, hrun]
            rfl

end MyOS.Fat
