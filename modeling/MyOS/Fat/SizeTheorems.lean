import MyOS.Fat.Lemmas.Size
import MyOS.Fat.OpenTheorems

/-!
# 大きさの定理

大きさは、書いた量ではなく書いた後の位置から決まる。空きが尽きて一つも書けなくても、位置が鎖の先にあれば、
大きさは容量を超える。
-/

namespace MyOS.Fat
open MyOS.Lib

variable {fs fs' : Fs} {H : Set Nat} {own : Nat → Nat} {a k : Nat} {h : Handle} {v v' v₀ : Vol} {op : VolOp}

/-- 届く位置への書き込み。 -/
def InReach (fs : Fs) (h : Handle) (total : Nat) : Prop := UpdatesOwn fs h ∧ Reachable fs h total

instance (fs : Fs) (h : Handle) (total : Nat) : Decidable (InReach fs h total) :=
  inferInstanceAs (Decidable (_ ∧ _))

theorem InReach.updates (hw : WritesMeet InReach v op) : WritesMeet (fun fs h _ => UpdatesOwn fs h) v op := by
  cases op with
  | write => exact fun h hk => (hw h hk).1
  | _ => trivial

theorem Sized.step (hS : v.Ok ∧ Sized v) (hw : WritesMeet InReach v op) (hstep : v.step op = some v') :
    v'.Ok ∧ Sized v' := by
  obtain ⟨⟨H, own, hT⟩, hS⟩ := hS
  have hm := step_moved hT (UpdatesOwn.unlinked (InReach.updates hw)) hstep
  exact ⟨hm.ok hT (InReach.updates hw), hm.sized hT hS hw⟩

/-- 届く位置への書き込みだけの実行では、空きが尽きても、どの項目とノードの大きさも鎖の容量を超えない。 -/
theorem sizes_fit (hv : Volume v₀.fs H v₀.dir_set) (hnone : ∀ k, v₀.handles k = none)
    (hfit : ∀ a, FileAt v₀.fs v₀.dir_set a →
      Fits v₀.fs (Entry.first_cluster v₀.fs.disk a) (Entry.file_size v₀.fs.disk a))
    (hrun : Steps Vol.step (WritesMeet InReach) v₀ v) :
    (∀ a, FileAt v.fs v.dir_set a →
      Fits v.fs (Entry.first_cluster v.fs.disk a) (Entry.file_size v.fs.disk a)) ∧
    ∀ k h, v.handles k = some h → h.node.flags = FS_FILE → h.unlinked = false →
      Fits v.fs h.node.inode h.node.size := by
  have hstart : Sized v₀ := by
    refine ⟨hfit, ?_⟩
    rintro h ⟨⟨k, hk⟩, -⟩
    rw [hnone k] at hk
    cases hk
  have hS := hrun.inv (fun s e t hs hcond hstep => Sized.step hs hcond hstep) ⟨hv.ok hnone, hstart⟩
  exact ⟨hS.2.entry, fun k h hk hfile hun => hS.2.node h ⟨⟨k, hk⟩, hfile, hun⟩⟩

/-! ## 空きの尽きるボリューム -/

theorem blank_no_file (ha : FileAt blank.fs blank.dir_set a) : False := by
  rcases ha.1 with ⟨s, hs, i, hi, rfl⟩ | ⟨c, ⟨d, hd, -⟩, -⟩
  · have hge : 1536 ≤ (root_group blank.fs s).slot i := by
      simp only [Group.slot, root_group, blank, blankFs, ATA_SECTOR_SIZE, sizeofDirEntry]
      omega
    exact ha.2.1.1 (if_neg (by omega))
  · cases hd

/-- 600 バイト書いた後、残る容量より多く書く。 -/
def fill_ops : Trace (checked Vol.step (fun v op => decide (WritesMeet InReach v op)) blank)
    (fun v => free_clusters v.fs = 0 ∧ ∃ h ∈ v.handles 0, h.node.flags = FS_FILE ∧ h.unlinked = false ∧
      h.node.size = 1536 ∧ node_clusters v.fs h.node.inode = 4) :=
  ⟨[.create 0 FAT12_ROOT_INODE letterA, .write 0 600 1 letterX, .write 0 2000 1 letterX], by decide +kernel⟩

theorem sizes_fit_full : ∃ v h, Steps Vol.step (WritesMeet InReach) blank v ∧ free_clusters v.fs = 0 ∧
    v.handles 0 = some h ∧ h.node.size = 1536 ∧ Fits v.fs h.node.inode h.node.size := by
  obtain ⟨v, hrun, hfull, h, hk, hfile, hun, hsize, -⟩ :=
    fill_ops.steps_checked (fun _ _ hc => of_decide_eq_true hc)
  have hfit := sizes_fit blank_volume (fun _ => rfl) (fun a ha => (blank_no_file ha).elim) hrun
  exact ⟨v, h, hrun, hfull, hk, hsize, hfit.2 0 h hk hfile hun⟩

/-- 5000 バイト目に 1 バイト書こうとする。 -/
def past_end_ops : Trace (exec Vol.step blank)
    (fun v => ∃ h ∈ v.handles 0, h.node.flags = FS_FILE ∧ h.unlinked = false ∧ h.node.size = 5000 ∧
      node_clusters v.fs h.node.inode = 4 ∧ ¬ Fits v.fs h.node.inode h.node.size ∧ h.slot = 1536 ∧
      Used v.fs.disk 1536 ∧ Entry.file_size v.fs.disk 1536 = 5000 ∧
      ¬ Fits v.fs (Entry.first_cluster v.fs.disk 1536) (Entry.file_size v.fs.disk 1536)) :=
  ⟨[.create 0 FAT12_ROOT_INODE letterA, .seek 0 5000 0, .write 0 1 1 letterX], by decide +kernel⟩

/-- 四つのクラスタを使い切って何も書けないのに、ノードと項目の大きさは 5000 になる。 -/
theorem size_past_capacity : ∃ v h, Steps Vol.step (fun _ _ => True) blank v ∧ v.handles 0 = some h ∧
    h.node.flags = FS_FILE ∧ h.unlinked = false ∧ h.node.size = 5000 ∧ node_clusters v.fs h.node.inode = 4 ∧
    ¬ Fits v.fs h.node.inode h.node.size ∧ Used v.fs.disk h.slot ∧ Entry.file_size v.fs.disk h.slot = 5000 ∧
    ¬ Fits v.fs (Entry.first_cluster v.fs.disk h.slot) (Entry.file_size v.fs.disk h.slot) := by
  obtain ⟨v, hrun, h, hk, hfile, hun, hsize, hlen, hnot, hslot, hused, hentry, hnot'⟩ := past_end_ops.steps
  rw [← hslot] at hused hentry hnot'
  exact ⟨v, h, hrun, hk, hfile, hun, hsize, hlen, hnot, hused, hentry, hnot'⟩

/-! ## 同じファイルの二つのノード -/

/-- 書き込みの後の、項目 `a` の大きさ。 -/
theorem Wrote.entry_size {H' : Set Nat} {node' : Node} {total n : Nat} {l ext log : List Nat}
    (hT : Tracked v.fs H v.dir_set own v.live) (hlive : h ∈ v.live) (hu : UpdatesOwn v.fs h) (htotal : total ≠ 0)
    (hw : Wrote v.fs fs' H H' v.dir_set h.node node' total n l ext log) (ha : FileAt v.fs v.dir_set a)
    (hc : h.slot = a → Covers v.fs h total) :
    Entry.file_size v.fs.disk a ≤ Entry.file_size fs'.disk a ∧
      (h.slot = a → n ≠ 0 → h.node.seek_offset + n ≤ Entry.file_size fs'.disk a) := by
  have hok := hT.handle h hlive
  have hin : h.node.inode = 0 ∨ h.node.inode ∈ H := hok.inode.imp_right (fun h => h.1.1)
  by_cases hslot : h.slot = a
  · subst hslot
    rcases hu.2 with ht | ht
    · have hsize := hw.file_size hok.size hok.entry.1 ht
      have hnode : node'.size = max h.node.size (h.node.seek_offset + n) := by rw [hw.node_eq]
      rw [hsize]
      refine ⟨hw.covers hT.fat hin htotal (hc rfl) ht, fun _ _ => ?_⟩
      omega
    · have hbytes := hw.slots h.slot hok.entry.1
      unfold slotsAfter at hbytes
      rw [ht] at hbytes
      rw [Entry.file_size_congr hbytes]
      exact ⟨Nat.le_refl _, fun _ hn => hw.within htotal (hc rfl) ht hn⟩
  · have hch := hw.changes hT (hok.inode.imp_right And.left) hu.2
    have hkept := hch.kept a ha.1 (fun h => hslot h.symm)
    rw [Entry.file_size_congr hkept]
    exact ⟨Nat.le_refl _, fun h => absurd h hslot⟩

/-- 項目 `a` は残り、書かれた範囲は項目の大きさの中にある。 -/
def Covered (a : Nat) (w : Watch) : Prop :=
  w.vol.Ok ∧ FileAt w.vol.fs w.vol.dir_set a ∧ w.top ≤ Entry.file_size w.vol.fs.disk a

theorem Watch.step_eq {w w' : Watch} (hstep : w.step a op = some w') :
    w.vol.step op = some w'.vol ∧ w'.top = max w.top (write_end a w.vol op) := by
  obtain ⟨v, hv, rfl⟩ := Option.map_eq_some_iff.mp hstep
  exact ⟨hv, rfl⟩

theorem Shares.updates {w : Watch} (hs : Shares a w op) : WritesMeet (fun fs h _ => UpdatesOwn fs h) w.vol op := by
  cases op with
  | write => exact fun h hk => (hs h hk).1
  | _ => trivial

theorem Covered.same {w w' : Watch} (hw : Covered a w) (hok : w'.vol.Ok) (hfs : w'.vol.fs = w.vol.fs)
    (hdirs : w'.vol.dirs = w.vol.dirs) (htop : w'.top = w.top) :
    Covered a w' ∧ Entry.file_size w.vol.fs.disk a ≤ Entry.file_size w'.vol.fs.disk a := by
  have hset : w'.vol.dir_set = w.vol.dir_set := by
    unfold Vol.dir_set
    rw [hdirs]
  unfold Covered
  rw [hfs, hset, htop]
  exact ⟨⟨hok, hw.2⟩, Nat.le_refl _⟩

/-- 一歩で、項目 `a` の大きさは減らない。 -/
theorem Covered.step {w w' : Watch} (hw : Covered a w) (hs : Shares a w op) (hstep : w.step a op = some w') :
    Covered a w' ∧ Entry.file_size w.vol.fs.disk a ≤ Entry.file_size w'.vol.fs.disk a := by
  obtain ⟨hvol, htop⟩ := Watch.step_eq hstep
  have hok := Vol.Ok.step hw.1 hs.updates hvol
  obtain ⟨H, own, hT⟩ := hw.1
  cases op with
  | find k dir name =>
      simp only [Vol.step] at hvol
      split at hvol
      · obtain ⟨found, -, heq⟩ := Option.map_eq_some_iff.mp hvol
        obtain ⟨hfs, hdirs⟩ := open_node_fs w.vol k found
        rw [heq] at hfs hdirs
        exact hw.same hok hfs hdirs (by rw [htop]; exact Nat.max_zero _)
      · cases hvol
  | seek k offset type =>
      simp only [Vol.step] at hvol
      obtain ⟨h, -, hvol⟩ := Option.bind_eq_some_iff.mp hvol
      split at hvol
      · have heq := Option.some.inj hvol
        exact hw.same hok (by rw [← heq]; rfl) (by rw [← heq]; rfl) (by rw [htop]; exact Nat.max_zero _)
      · cases hvol
  | write k size units buffer =>
      cases hk : w.vol.handles k with
      | none =>
          simp only [Vol.step, hk, Option.bind_none] at hvol
          cases hvol
      | some h =>
          obtain ⟨hu, hcover⟩ := hs h hk
          obtain ⟨hlive, ⟨hrun, -, heq⟩ | ⟨hne, fs', H', node', n, l, ext, hrun, heq, hwr⟩⟩ :=
            write_step hT hk hu.1 hvol
          · have hend : write_end a w.vol (.write k size units buffer) = 0 := by
              simp [write_end, hk, hrun]
            exact hw.same hok (by rw [heq]; rfl) (by rw [heq]; rfl) (by rw [htop, hend]; exact Nat.max_zero _)
          · obtain ⟨hgrow, hcov⟩ := hwr.entry_size hT hlive hu hne hw.2.1 hcover
            have hhead := hwr.head hT.layout hw.2.1.1
            have hch := hwr.changes hT ((hT.handle h hlive).inode.imp_right And.left) hu.2
            have hat := (fileAt_congr (hch.shape.isSlot hch.owned) hhead).mpr hw.2.1
            have hfs : w'.vol.fs = fs' := by
              rw [heq]
              rfl
            have hset : w'.vol.dir_set = w.vol.dir_set := by
              rw [heq]
              rfl
            have hle : write_end a w.vol (.write k size units buffer) ≤ Entry.file_size fs'.disk a := by
              simp only [write_end, hk, hrun]
              split
              · next hslot =>
                  split
                  · exact Nat.zero_le _
                  · next hn => exact hcov hslot hn
              · exact Nat.zero_le _
            unfold Covered
            rw [hfs, hset, htop]
            exact ⟨⟨hok, hat, Nat.max_le.mpr ⟨hw.2.2.trans hgrow, hle⟩⟩, hgrow⟩
  | create => cases hs
  | mkdir => cases hs
  | unlink => cases hs

/-- 同じファイルを何度開いても、項目の大きさを覆う書き込みだけの実行では、項目の大きさは減らず、どのノードを
通して書いた範囲も項目の大きさの中にある。 -/
theorem shared_size_grows {w₁ w₂ : Watch} (hv : Volume v₀.fs H v₀.dir_set) (hnone : ∀ k, v₀.handles k = none)
    (hrun : Steps Vol.step (WritesMeet fun fs h _ => UpdatesOwn fs h) v₀ v) (ha : FileAt v.fs v.dir_set a)
    (h₁ : Steps (Watch.step a) (Shares a) ⟨v, 0⟩ w₁) (h₂ : Steps (Watch.step a) (Shares a) w₁ w₂) :
    Entry.file_size w₁.vol.fs.disk a ≤ Entry.file_size w₂.vol.fs.disk a ∧
      w₂.top ≤ Entry.file_size w₂.vol.fs.disk a := by
  have hstart : Covered a ⟨v, 0⟩ := ⟨(hv.ok hnone).run (fun _ _ _ hs => hs) hrun, ha, Nat.zero_le _⟩
  have hc₁ : Covered a w₁ := h₁.inv (fun s e t hc hs hstep => (hc.step hs hstep).1) hstart
  have hc₂ := h₂.inv (P := fun w => Covered a w ∧ Entry.file_size w₁.vol.fs.disk a ≤ Entry.file_size w.vol.fs.disk a)
    (fun s e t hc hs hstep => ⟨(hc.1.step hs hstep).1, hc.2.trans (hc.1.step hs hstep).2⟩) ⟨hc₁, Nat.le_refl _⟩
  exact ⟨hc₂.2, hc₂.1.2.2⟩

/-- もう一度開き、先のノードから 100 バイト、後のノードから 200 バイト書く。 -/
def shared_ops : List VolOp :=
  [.find 1 FAT12_ROOT_INODE letterA, .write 0 100 1 letterX, .write 1 200 1 letterX]

/-- もう一度開き、先のノードから 100 バイト書く。 -/
def stale_ops : List VolOp := [.find 1 FAT12_ROOT_INODE letterA, .write 0 100 1 letterX]

def shared_trace : Trace (checked Vol.step (fun v op => decide (WritesMeet (fun fs h _ => UpdatesOwn fs h) v op)) blank)
    (fun v => (∃ h ∈ v.handles 0, h.node.flags = FS_FILE ∧ h.unlinked = false ∧ h.slot = 1536) ∧
      (∃ w ∈ checked (Watch.step 1536) (fun w op => decide (Shares 1536 w op)) ⟨v, 0⟩ shared_ops, w.top = 200) ∧
      ∃ w ∈ exec (Watch.step 1536) ⟨v, 0⟩ stale_ops, Entry.file_size w.vol.fs.disk 1536 = 100 ∧
        ∃ w' ∈ w.step 1536 (.write 1 1 1 letterX), w'.top = 100 ∧ Entry.file_size w'.vol.fs.disk 1536 = 1) :=
  ⟨[.create 0 FAT12_ROOT_INODE letterA], by decide +kernel⟩

theorem shared_size_grows_two : ∃ v w, Steps Vol.step (WritesMeet fun fs h _ => UpdatesOwn fs h) blank v ∧
    FileAt v.fs v.dir_set 1536 ∧ Steps (Watch.step 1536) (Shares 1536) ⟨v, 0⟩ w ∧ w.top = 200 ∧
    200 ≤ Entry.file_size w.vol.fs.disk 1536 := by
  obtain ⟨v, hrun, ⟨h, hk, hfile, hun, hslot⟩, ⟨w, hw, htop⟩, -⟩ :=
    shared_trace.steps_checked (fun _ _ hc => of_decide_eq_true hc)
  obtain ⟨H, own, hT⟩ := (blank_volume.ok (fun _ => rfl)).run (fun _ _ _ hs => hs) hrun
  have hat : FileAt v.fs v.dir_set 1536 := hslot ▸ (hT.handle h ⟨⟨0, hk⟩, hfile, hun⟩).entry
  have hshared := Steps.of_checked (fun _ _ hc => of_decide_eq_true hc) hw
  have hle := (shared_size_grows blank_volume (fun _ => rfl) hrun hat hshared (.refl w)).2
  exact ⟨v, w, hrun, hat, hshared, htop, htop ▸ hle⟩

/-- 古いノードから 1 バイト書くと、項目の大きさは 100 から 1 に減る。 -/
theorem stale_node_shrinks : ∃ v w w', Steps Vol.step (WritesMeet fun fs h _ => UpdatesOwn fs h) blank v ∧
    Steps (Watch.step 1536) (fun _ _ => True) ⟨v, 0⟩ w ∧ w.step 1536 (.write 1 1 1 letterX) = some w' ∧
    Entry.file_size w.vol.fs.disk 1536 = 100 ∧ Entry.file_size w'.vol.fs.disk 1536 = 1 ∧ w'.top = 100 := by
  obtain ⟨v, hrun, -, -, w, hw, hbefore, w', hstep, htop, hafter⟩ :=
    shared_trace.steps_checked (fun _ _ hc => of_decide_eq_true hc)
  exact ⟨v, w, w', hrun, .of_exec hw, hstep, hbefore, hafter, htop⟩

end MyOS.Fat
