import MyOS.Fat.Lemmas.Volume

/-!
# ボリュームの一歩

操作の一歩は、ファイルシステムを変えないか、作成、確保の取り消し、ディレクトリの作成、削除、書き込みのどれかである。
-/

namespace MyOS.Fat
open MyOS.Lib ByteMem

variable {fs fs' : Fs} {H H' D : Set Nat} {own : Nat → Nat} {hs : Set Handle} {a b c i k inode dir : Nat}
  {h : Handle} {g : Group} {gs : List Group} {name : List UInt8} {l ext log : List Nat} {node node' : Node}
  {n total size units : Nat} {v v' : Vol} {op : VolOp} {buffer : Option ByteMem}

/-- 有効な項目から得たノードか、前からあるノードの位置だけを変えたもの。 -/
def Held (v : Vol) (h : Handle) : Prop :=
  FileAt v.fs v.dir_set h.slot ∧ h.node = fat12_make_node v.fs.disk h.slot ∨
    ∃ h₀ ∈ v.live, ∃ s < 2 ^ 32, h = { h₀ with node := { h₀.node with seek_offset := s } }

theorem Held.ok (hT : Tracked v.fs H v.dir_set own v.live) (hh : Held v h) :
    HandleOk v.fs H v.dir_set own h := by
  rcases hh with ⟨hat, hnode⟩ | ⟨h₀, hlive, s, hs, rfl⟩
  · have hok := hT.opened hat h.unlinked
    rw [← hnode] at hok
    exact hok
  · exact (hT.handle h₀ hlive).seek_to hs

/-- 一歩で起こること。 -/
inductive Moved (v : Vol) (H : Set Nat) (own : Nat → Nat) : VolOp → Vol → Prop
  | still {op : VolOp} {v' : Vol} : v'.fs = v.fs → v'.dirs = v.dirs →
      (∀ h ∈ v'.live, h ∈ v.live ∨ Held v h) → Moved v H own op v'
  | created {k dir i : Nat} {name : List UInt8} {gs : List Group} {g : Group} : v.names dir name →
      Groups v.fs dir gs → find_entry v.fs dir name = some none → room v.fs.disk gs = some (g, i) →
      Moved v H own (.create k dir name)
        (({ v with fs := created_fs v.fs name (g.slot i) } : Vol).open_node k
          (some (fat12_make_node (created_disk v.fs name (g.slot i)) (g.slot i), g.slot i)))
  | returned {dir c : Nat} {own' : Nat → Nat} {name : List UInt8} {gs : List Group} {fs' : Fs} : v.names dir name →
      Groups v.fs dir gs → room v.fs.disk gs = none → InRange v.fs c → fat_entry_raw v.fs c = 0 →
      Prepared v.fs H v.dir_set own' v.live c dir → fs'.disk = (mkdir_fs v.fs c dir).disk →
      cacheByte fs' = cacheByte v.fs →
      Changes (mkdir_fs v.fs c dir) fs' (insert c H) (insert c H \ {c}) v.dir_set ∅ →
      Moved v H own (.mkdir dir name) { v with fs := fs' }
  | made {dir c i : Nat} {own' : Nat → Nat} {name : List UInt8} {gs : List Group} {g : Group} : v.names dir name →
      Groups v.fs dir gs → find_entry v.fs dir name = some none → room v.fs.disk gs = some (g, i) →
      InRange v.fs c → fat_entry_raw v.fs c = 0 → Prepared v.fs H v.dir_set own' v.live c dir →
      Moved v H own (.mkdir dir name) { v with fs := made_dir v.fs c dir name (g.slot i), dirs := c :: v.dirs }
  | unlinked {dir a : Nat} {name : List UInt8} {gs : List Group} {fs' : Fs} {H' : Set Nat} : v.names dir name →
      Groups v.fs dir gs → (visible v.fs.disk gs).find? (matches_name v.fs.disk name) = some a →
      Unlinked v.fs fs' H H' v.dir_set own v.live a →
      Moved v H own (.unlink dir name) (({ v with fs := fat12_flush_fat fs' } : Vol).unlink_slot (some a))
  | wrote {k size units n : Nat} {buffer : Option ByteMem} {h : Handle} {fs' : Fs} {H' : Set Nat} {node' : Node}
      {l ext : List Nat} : v.handles k = some h → h ∈ v.live → mul32 size units ≠ 0 →
      Wrote v.fs fs' H H' v.dir_set h.node node' (mul32 size units) n l ext
        (fat12_write_log v.fs h.node size units buffer) →
      Moved v H own (.write k size units buffer) (({ v with fs := fs' } : Vol).set_node k h node')

/-! ## どの一歩もこのどれかである -/

theorem open_node_fs (v : Vol) (k : Nat) (found : Option (Node × Nat)) :
    (v.open_node k found).fs = v.fs ∧ (v.open_node k found).dirs = v.dirs := by
  cases found <;> exact ⟨rfl, rfl⟩

theorem found_held (hg : Groups v.fs dir gs) (hdir : IsDir v.dir_set dir)
    (hf : find_entry v.fs dir name = some (some (node, a))) (hfile : node.flags = FS_FILE) :
    Held v ⟨node, a, false⟩ := by
  obtain ⟨rfl, hslot, hu, -⟩ := find_entry_some hg hdir hf
  exact Or.inl ⟨⟨hslot, hu, make_node_file _ hfile⟩, rfl⟩

/-- 見つかったノードを開く一歩。 -/
theorem Moved.opened {found : Option (Node × Nat)} (hg : Groups v.fs dir gs) (hdir : IsDir v.dir_set dir)
    (hf : find_entry v.fs dir name = some found) : Moved v H own op (v.open_node k found) := by
  obtain ⟨hfs, hdirs⟩ := open_node_fs v k found
  refine .still hfs hdirs (fun h hh => (live_open_node hh).imp_right ?_)
  rintro ⟨node, a, rfl, rfl, hfile, -⟩
  exact found_held hg hdir hf hfile

theorem moved_seek {offset : Nat} {type : UInt8} (hstep : v.step (.seek k offset type) = some v') :
    Moved v H own (.seek k offset type) v' := by
  simp only [Vol.step] at hstep
  obtain ⟨h, hk, hstep⟩ := Option.bind_eq_some_iff.mp hstep
  split at hstep
  next hg =>
    cases hstep
    refine .still rfl rfl (fun h' hh => ?_)
    rcases live_set_node hh with hh | ⟨rfl, -, hun⟩
    · exact Or.inl hh
    · have hlt : (fat12_seek_fs h.node offset type).seek_offset < 2 ^ 32 := seek_fs_lt hg.2
      refine Or.inr (Or.inr ⟨h, ⟨⟨k, hk⟩, hg.1, hun⟩, _, hlt, ?_⟩)
      rw [← seek_fs_eq]
  · cases hstep

section Steps

variable (hT : Tracked v.fs H v.dir_set own v.live)
include hT

theorem moved_find (hstep : v.step (.find k dir name) = some v') : Moved v H own (.find k dir name) v' := by
  simp only [Vol.step] at hstep
  split at hstep
  next hn =>
    obtain ⟨found, hf, rfl⟩ := Option.map_eq_some_iff.mp hstep
    obtain ⟨gs, hg⟩ := hT.fat.groups hT.dirs hn.1
    rw [finddir_dir_node] at hf
    exact Moved.opened hg hn.1 hf
  · cases hstep

theorem moved_create (hstep : v.step (.create k dir name) = some v') : Moved v H own (.create k dir name) v' := by
  simp only [Vol.step] at hstep
  split at hstep
  next hn =>
    obtain ⟨⟨fs', made⟩, hc, rfl⟩ := Option.map_eq_some_iff.mp hstep
    obtain ⟨gs, hg⟩ := hT.fat.groups hT.dirs hn.1
    rcases create_file_cases hT hg hn.1 name with ⟨found, hf, heq⟩ | ⟨hf, ⟨-, heq⟩ | ⟨g, i, hroom, heq⟩⟩
    · rw [heq] at hc
      cases hc
      exact Moved.opened hg hn.1 hf
    · rw [heq] at hc
      cases hc
      exact .still rfl rfl (fun h hh => Or.inl hh)
    · rw [heq] at hc
      cases hc
      exact .created hn hg hf hroom
  · cases hstep

theorem moved_mkdir (hstep : v.step (.mkdir dir name) = some v') : Moved v H own (.mkdir dir name) v' := by
  simp only [Vol.step] at hstep
  split at hstep
  next hn =>
    obtain ⟨⟨fs', made⟩, hc, rfl⟩ := Option.map_eq_some_iff.mp hstep
    obtain ⟨gs, hg⟩ := hT.fat.groups hT.dirs hn.1
    rcases mkdir_cases hT hg hn.1 hn.2.1 with heq | ⟨c, hr, hz, hf, own', hp,
      ⟨hroom, fs₁, hdisk, hcache, hch, heq⟩ | ⟨g, i, hroom, heq⟩⟩
    · rw [heq] at hc
      cases hc
      exact .still rfl rfl (fun h hh => Or.inl hh)
    · rw [heq] at hc
      cases hc
      exact .returned hn hg hroom hr hz hp hdisk hcache hch
    · rw [heq] at hc
      cases hc
      exact .made hn hg hf hroom hr hz hp
  · cases hstep

theorem moved_unlink (hstep : v.step (.unlink dir name) = some v') : Moved v H own (.unlink dir name) v' := by
  simp only [Vol.step] at hstep
  split at hstep
  next hn =>
    obtain ⟨⟨fs', gone⟩, hc, rfl⟩ := Option.map_eq_some_iff.mp hstep
    obtain ⟨gs, hg⟩ := hT.fat.groups hT.dirs hn.1
    rcases unlink_cases hT hg hn.1 hn.2.1 with heq | ⟨a, fs₁, H', hf, hgone, heq⟩
    · rw [heq] at hc
      cases hc
      exact .still rfl rfl (fun h hh => Or.inl hh)
    · rw [heq] at hc
      cases hc
      exact .unlinked hn hg hf hgone
  · cases hstep

/-- 書き込みの一歩。何も変わらないか、`Wrote` のとおりに進む。 -/
theorem write_step (hk : v.handles k = some h) (hun : h.unlinked = false)
    (hstep : v.step (.write k size units buffer) = some v') :
    h ∈ v.live ∧ (fat12_write_fs v.fs h.node size units buffer = some (v.fs, h.node, 0) ∧
        fat12_write_log v.fs h.node size units buffer = [] ∧ v' = v.set_node k h h.node ∨
      mul32 size units ≠ 0 ∧ ∃ fs' H' node' n l ext,
        fat12_write_fs v.fs h.node size units buffer = some (fs', node', n) ∧
        v' = ({ v with fs := fs' } : Vol).set_node k h node' ∧
        Wrote v.fs fs' H H' v.dir_set h.node node' (mul32 size units) n l ext
          (fat12_write_log v.fs h.node size units buffer)) := by
  simp only [Vol.step, hk, Option.bind_some] at hstep
  split at hstep
  next hg =>
    have hlive : h ∈ v.live := ⟨⟨k, hk⟩, hg.1, hun⟩
    refine ⟨hlive, ?_⟩
    obtain ⟨⟨fs', node', n⟩, hw, rfl⟩ := Option.map_eq_some_iff.mp hstep
    rcases write_fs_spec ((hT.handle h hlive).writable hT) size units buffer hg.2 with
      ⟨heq, hlog, -⟩ | ⟨hne, -, fs₁, H', node₁, n₁, l, ext, heq, hwr⟩
    · rw [heq] at hw
      cases hw
      exact Or.inl ⟨heq, hlog, rfl⟩
    · rw [heq] at hw
      cases hw
      exact Or.inr ⟨hne, _, H', _, _, l, ext, heq, rfl, hwr⟩
  · cases hstep

theorem moved_write (hun : ∀ h, v.handles k = some h → h.unlinked = false)
    (hstep : v.step (.write k size units buffer) = some v') :
    Moved v H own (.write k size units buffer) v' := by
  cases hk : v.handles k with
  | none =>
      simp only [Vol.step, hk, Option.bind_none] at hstep
      cases hstep
  | some h =>
      obtain ⟨hlive, ⟨-, -, rfl⟩ | ⟨hne, fs', H', node', n, l, ext, -, rfl, hw⟩⟩ :=
        write_step hT hk (hun h hk) hstep
      · refine .still rfl rfl (fun h' hh => ?_)
        rcases live_set_node hh with hh | ⟨rfl, -⟩
        · exact Or.inl hh
        · exact Or.inl hlive
      · exact .wrote hk hlive hne hw

theorem step_moved (hun : WritesMeet (fun _ h _ => h.unlinked = false) v op) (hstep : v.step op = some v') :
    Moved v H own op v' := by
  cases op with
  | find => exact moved_find hT hstep
  | create => exact moved_create hT hstep
  | mkdir => exact moved_mkdir hT hstep
  | unlink => exact moved_unlink hT hstep
  | write => exact moved_write hT hun hstep
  | seek => exact moved_seek hstep

end Steps

/-! ## 不変条件 -/

/-- 不変条件は残り、`X` の外のファイルの項目は変わらず、残る先頭の鎖は伸びることしかない。 -/
def Carried (v v' : Vol) (H X : Set Nat) : Prop :=
  ∃ H' own', Tracked v'.fs H' v'.dir_set own' v'.live ∧ SameShape v.fs v'.fs ∧
    (∀ x ∈ H, x ∈ H' → ∀ l, Follows (fatNext v.fs) x l → ∃ ext, Follows (fatNext v'.fs) x (l ++ ext)) ∧
    ∀ b, FileAt v'.fs v'.dir_set b → b ∉ X → FileAt v.fs v.dir_set b ∧
      ∀ k < sizeofDirEntry, v'.fs.disk (b + k) = v.fs.disk (b + k)

theorem Carried.ok {X : Set Nat} (hc : Carried v v' H X) : v'.Ok := by
  obtain ⟨H', own', hT, -⟩ := hc
  exact ⟨H', own', hT⟩

/-- 空きクラスタの項目だけが変わるなら、どの鎖も残る。 -/
theorem FatOk.follows_free (hok : FatOk fs H) (hsame : SameOutside fs fs' l)
    (hfree : ∀ x ∈ l, fat_entry_raw fs x = 0) (hc : c ∈ H) (hl : Follows (fatNext fs) c ext) :
    Follows (fatNext fs') c ext :=
  hl.congr (fun x hx => hsame.fatNext (fun hmem => hok.entry_ne_zero hc hl hx (hfree x hmem)))

/-- 変わる項目が `X` だけの操作は、その外のファイルの項目を残す。 -/
theorem Changes.file {X : Set Nat} (hch : Changes fs fs' H H' D X) (hb : FileAt fs' D b) (hX : b ∉ X) :
    FileAt fs D b ∧ ∀ k < sizeofDirEntry, fs'.disk (b + k) = fs.disk (b + k) := by
  have hslot := (hch.shape.isSlot hch.owned).mp hb.1
  exact ⟨(fileAt_congr (hch.shape.isSlot hch.owned) (hch.head hslot hX)).mp hb, hch.kept b hslot hX⟩

section Carry

variable (hT : Tracked v.fs H v.dir_set own v.live)
include hT

theorem carried_still (hfs : v'.fs = v.fs) (hdirs : v'.dirs = v.dirs)
    (hlive : ∀ h ∈ v'.live, h ∈ v.live ∨ Held v h) : Carried v v' H ∅ := by
  have hset : v'.dir_set = v.dir_set := by
    unfold Vol.dir_set
    rw [hdirs]
  have hT' := hT.mono_of (fun h hh => (hlive h hh).imp_right (fun hheld => hheld.ok hT))
  unfold Carried
  rw [hfs, hset]
  exact ⟨H, own, hT', .refl _, fun x _ _ l hl => ⟨[], by rwa [List.append_nil]⟩, fun b hb _ => ⟨hb, fun _ _ => rfl⟩⟩

theorem created_follows_free (hc : c ∈ H) (hl : Follows (fatNext v.fs) c l) :
    Follows (fatNext (created_fs v.fs name a)) c l := by
  obtain ⟨fs₁, c', H₁, halloc, -, -, -, ⟨l', hsame, hfree⟩, -⟩ := allocate_cluster_spec hT.fat
  refine (hT.fat.follows_free hsame hfree hc hl).congr (fun x _ => ?_)
  unfold created_fs
  rw [halloc]
  exact fatNext_cache rfl x

theorem carried_created (hn : v.names dir name) (hg : Groups v.fs dir gs)
    (hroom : room v.fs.disk gs = some (g, i)) :
    Carried v (({ v with fs := created_fs v.fs name (g.slot i) } : Vol).open_node k
      (some (fat12_make_node (created_disk v.fs name (g.slot i)) (g.slot i), g.slot i))) H {g.slot i} := by
  have hdir : IsDir v.dir_set dir := hn.1
  obtain ⟨hmem, hi, hfree⟩ := room_some hroom
  have hslot := hg.isSlot hdir hmem hi
  obtain ⟨H', own', hT', hch⟩ := hT.create hslot hfree name
  refine ⟨H', own', hT'.mono_of (fun h hh => (live_open_node hh).imp_right ?_), hch.shape,
    fun x hx _ l hl => ⟨[], ?_⟩, fun b hb hX => hch.file hb hX⟩
  · rintro ⟨node, a, ha, rfl, hfile, hE5⟩
    cases ha
    exact hT'.opened ⟨(hch.shape.isSlot hch.owned).mpr hslot, used_created hn.2.1 hn.2.2 hE5, isFile_created ..⟩
      false
  · rw [List.append_nil]
    exact created_follows_free hT hx hl

theorem carried_unlinked (hgone : Unlinked v.fs fs' H H' v.dir_set own v.live a) :
    Carried v (({ v with fs := fat12_flush_fat fs' } : Vol).unlink_slot (some a)) H ∅ := by
  have hlay := hgone.changes.shape.layout hT.layout
  have hch := hgone.changes.flush hT.layout (hT.fat.chains.mono hT.dirs)
  obtain ⟨disk, heq, hdisk⟩ := flush_fat_eq hlay
  refine ⟨H', own, hgone.tracked.flush.mono (fun h hh => live_unlink_slot hh), hch.shape,
    fun x _ hx l hl => ⟨[], ?_⟩, fun b hb _ => hch.file hb ?_⟩
  · rw [List.append_nil]
    refine (hgone.chains x hx l hl).congr (fun y _ => ?_)
    change fatNext (fat12_flush_fat fs') y = _
    rw [heq]
    exact fatNext_cache rfl y
  · rintro rfl
    have hslot := (hch.shape.isSlot hch.owned).mp hb.1
    have hafter := hslot.after_fat hT.layout (hT.fat.chains.mono hT.dirs)
    rw [← hgone.changes.shape.root_lba] at hafter
    refine hb.2.1.2.1 ?_
    change (fat12_flush_fat fs').disk b = 0xE5
    rw [heq]
    exact (hdisk b hafter).trans (by rw [hgone.disk]; exact store8_self)

theorem carried_wrote (hlive : h ∈ v.live) (hu : UpdatesOwn v.fs h)
    (hw : Wrote v.fs fs' H H' v.dir_set h.node node' total n l ext log) :
    Carried v (({ v with fs := fs' } : Vol).set_node k h node') H {h.slot} := by
  have hok := hT.handle h hlive
  have hin : h.node.inode = 0 ∨ h.node.inode ∈ H \ v.dir_set := hok.inode.imp_right And.left
  obtain ⟨own', hT'⟩ := hT.write hok hu hw
  refine ⟨H', own', hT'.mono (fun h' hh => ?_), hw.shape,
    fun x hx _ l hl => hw.follows hT.fat (hin.imp_right And.left) hx hl,
    fun b hb hX => (hw.changes hT hin hu.2).file hb hX⟩
  rcases live_set_node hh with hh | ⟨rfl, -⟩
  · exact Or.inr hh
  · exact Or.inl rfl

theorem carried_made {own' : Nat → Nat} (hn : v.names dir name) (hg : Groups v.fs dir gs)
    (hroom : room v.fs.disk gs = some (g, i)) (hr : InRange v.fs c) (hz : fat_entry_raw v.fs c = 0)
    (hp : Prepared v.fs H v.dir_set own' v.live c dir) :
    Carried v { v with fs := made_dir v.fs c dir name (g.slot i), dirs := c :: v.dirs } H {g.slot i} := by
  have hdir : IsDir v.dir_set dir := hn.1
  obtain ⟨hmem, hi, hfree⟩ := room_some hroom
  have hslot := hg.isSlot hdir hmem hi
  have hdirs : ({ v with fs := made_dir v.fs c dir name (g.slot i), dirs := c :: v.dirs } : Vol).dir_set =
      insert c v.dir_set := by
    ext d
    simp [Vol.dir_set]
  have hch := hp.made_changes hslot name
  unfold Carried
  rw [hdirs]
  refine ⟨insert c H, own', hp.made hr hT.fat.bound hslot (not_used_of_free hfree) name,
    hp.changes.shape.trans hch.shape, fun x hx _ l hl => ⟨[], ?_⟩, fun b hb hX => ?_⟩
  · rw [List.append_nil]
    have hsame : SameOutside v.fs (fat12_set_fat_entry v.fs c 0xFFF) [c] := SameOutside.set (hT.fat.in_cache hr)
    have hset := hT.fat.follows_free hsame (by simpa using hz) hx hl
    exact hset.congr (fun y _ => made_dir_next (hp.changes.shape.layout hT.layout) y)
  · obtain ⟨hb₁, hk₁⟩ := hch.file hb hX
    rcases (isSlot_insert hp.chain).mp hb₁.1 with hold | ⟨j, hj, rfl⟩
    · obtain ⟨hb₂, hk₂⟩ := hp.changes.file ⟨hold, hb₁.2⟩ (Set.notMem_empty b)
      exact ⟨hb₂, fun k hk => (hk₁ k hk).trans (hk₂ k hk)⟩
    · -- 新しいクラスタの有効な項目は、ディレクトリの項目だけである。
      rw [hp.changes.shape.cluster_group] at hj hb₁
      exact absurd hb₁.2.2 (hp.slots j hj hb₁.2.1).2

end Carry

theorem carried_returned {own' : Nat → Nat} (hp : Prepared v.fs H v.dir_set own' v.live c dir)
    (hcache : cacheByte fs' = cacheByte v.fs)
    (hch : Changes (mkdir_fs v.fs c dir) fs' (insert c H) (insert c H \ {c}) v.dir_set ∅) :
    Carried v { v with fs := fs' } H ∅ := by
  refine ⟨_, own', hp.tracked.free_unused hch hp.unused_file hp.unused_node, hp.changes.shape.trans hch.shape,
    fun x _ _ l hl => ⟨[], ?_⟩, fun b hb hX => ?_⟩
  · rw [List.append_nil]
    refine hl.congr (fun y _ => fatNext_congr ?_)
    simp only [fat_entry_raw, hcache]
  · obtain ⟨hb₁, hk₁⟩ := hch.file hb hX
    obtain ⟨hb₂, hk₂⟩ := hp.changes.file hb₁ hX
    exact ⟨hb₂, fun k hk => (hk₁ k hk).trans (hk₂ k hk)⟩

theorem Moved.ok (hm : Moved v H own op v') (hT : Tracked v.fs H v.dir_set own v.live)
    (hw : WritesMeet (fun fs h _ => UpdatesOwn fs h) v op) : v'.Ok := by
  cases hm with
  | still hfs hdirs hlive => exact (carried_still hT hfs hdirs hlive).ok
  | created hn hg _ hroom => exact (carried_created hT hn hg hroom).ok
  | returned _ _ _ _ _ hp _ hcache hch => exact (carried_returned hp hcache hch).ok
  | made hn hg _ hroom hr hz hp => exact (carried_made hT hn hg hroom hr hz hp).ok
  | unlinked _ _ _ hgone => exact (carried_unlinked hT hgone).ok
  | wrote hk hlive _ hwr => exact (carried_wrote hT hlive (hw _ hk) hwr).ok

theorem UpdatesOwn.unlinked (hw : WritesMeet (fun fs h _ => UpdatesOwn fs h) v op) :
    WritesMeet (fun _ h _ => h.unlinked = false) v op := by
  cases op with
  | write => exact fun h hk => (hw h hk).1
  | _ => trivial

/-- どの操作も不変条件を保つ。 -/
theorem Vol.Ok.step (hok : v.Ok) (hw : WritesMeet (fun fs h _ => UpdatesOwn fs h) v op)
    (hstep : v.step op = some v') : v'.Ok := by
  obtain ⟨H, own, hT⟩ := hok
  exact (step_moved hT (UpdatesOwn.unlinked hw) hstep).ok hT hw

end MyOS.Fat
