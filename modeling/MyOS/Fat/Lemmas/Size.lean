import MyOS.Fat.Tracked
import MyOS.Fat.Lemmas.Moves

/-!
# 容量の不変性

どの操作も、残る鎖を短くしない。書き込みだけが大きさを変える。
-/

namespace MyOS.Fat
open MyOS.Lib ByteMem

variable {fs fs' : Fs} {H H' D : Set Nat} {own : Nat → Nat} {a b c i k inode dir size : Nat}
  {h : Handle} {l ext log : List Nat} {node node' : Node} {n total : Nat} {v v' : Vol} {op : VolOp}

/-! ## 鎖の長さ -/

theorem chain_length_eq (hl : Follows (fatNext fs) c l) {fuel : Nat} (hf : l.length ≤ fuel) :
    chain_length fs fuel c = l.length := by
  induction hl generalizing fuel with
  | last hn =>
      obtain ⟨fuel, rfl⟩ := Nat.exists_eq_add_one_of_ne_zero (Nat.pos_iff_ne_zero.mp hf)
      simp [chain_length, hn]
  | step hs _ ih =>
      rw [List.length_cons] at hf
      obtain ⟨fuel, rfl⟩ := Nat.exists_eq_add_one_of_ne_zero (Nat.ne_of_gt (Nat.lt_of_lt_of_le (Nat.succ_pos _) hf))
      simp [chain_length, hs, ih (Nat.le_of_succ_le_succ hf)]

theorem FatOk.node_clusters (hok : FatOk fs H) (hc : c ∈ H) (hl : Follows (fatNext fs) c l) :
    node_clusters fs c = l.length := by
  have h2 := (hok.chains.dom_of_mem hc hl hl.mem_head).1
  have hlen := hok.length_le hc hl
  have hmax := hok.total_lt_maxChain
  unfold MyOS.Fat.node_clusters
  rw [if_neg (by omega)]
  exact chain_length_eq hl (by omega)

theorem node_clusters_zero (fs : Fs) : node_clusters fs 0 = 0 := if_pos rfl

/-- 残る鎖は短くならない。 -/
theorem node_clusters_le (hok : FatOk fs H) (hok' : FatOk fs' H') (hc : c ∈ H) (hc' : c ∈ H')
    (hkeep : ∀ l, Follows (fatNext fs) c l → ∃ ext, Follows (fatNext fs') c (l ++ ext)) :
    node_clusters fs c ≤ node_clusters fs' c := by
  obtain ⟨l, hl, -⟩ := hok.chains.chain c hc
  obtain ⟨ext, hl'⟩ := hkeep l hl
  rw [hok.node_clusters hc hl, hok'.node_clusters hc' hl', List.length_append]
  exact Nat.le_add_right _ _

theorem Fits.mono (hf : Fits fs inode size) (hsh : SameShape fs fs')
    (hle : node_clusters fs inode ≤ node_clusters fs' inode) : Fits fs' inode size := by
  unfold Fits at *
  rw [hsh.bytes_per_cluster]
  exact hf.trans (Nat.mul_le_mul_right _ hle)

/-! ## 空きクラスタ -/

/-- 空きがなくなるまで書けば、空いていたクラスタはすべて鎖につながる。 -/
theorem Wrote.free_le (hok : FatOk fs H) (hin : node.inode = 0 ∨ node.inode ∈ H)
    (hw : Wrote fs fs' H H' D node node' total n l ext log) (hfull : Full fs') :
    free_clusters fs ≤ ext.length := by
  have hsub : (List.range' 2 fs.total_clusters).filter (fun c => fat_entry_raw fs c = 0) ⊆ ext := by
    intro c hc
    obtain ⟨hmem, hz⟩ := List.mem_filter.mp hc
    obtain ⟨h2, hlt⟩ := List.mem_range'_1.mp hmem
    have hz : fat_entry_raw fs c = 0 := of_decide_eq_true hz
    have hr : InRange fs c := ⟨h2, by omega⟩
    by_contra hnot
    have hmem : c ∈ l ++ ext := by
      by_contra hout
      exact hfull c (hw.shape.inRange.mpr hr) ((hw.entry c hout).trans hz)
    rcases List.mem_append.mp hmem with hl | hext
    · rcases hw.before with ⟨-, rfl⟩ | ⟨h0, hfol⟩
      · cases hl
      · exact hok.entry_ne_zero (hin.resolve_left h0) hfol hl hz
    · exact hnot hext
  unfold free_clusters
  rw [List.countP_eq_length_filter]
  exact (((List.nodup_range' 1).filter _).subperm hsub).length_le

/-! ## 書き込み -/

theorem OldChain.clusters (hok : FatOk fs H) (hin : node.inode = 0 ∨ node.inode ∈ H) (ho : OldChain fs node l) :
    node_clusters fs node.inode = l.length := by
  rcases ho with ⟨h0, rfl⟩ | ⟨h0, hl⟩
  · rw [h0]
    exact node_clusters_zero fs
  · exact hok.node_clusters (hin.resolve_left h0) hl

theorem Wrote.free_pos (hw : Wrote fs fs' H H' D node node' total n l ext log) (h0 : node.inode = 0) :
    free_clusters fs ≠ 0 := by
  obtain ⟨-, rfl⟩ := hw.before.resolve_right (fun h => h.1 h0)
  have hafter := hw.after
  rw [List.nil_append] at hafter
  obtain ⟨hr, hz⟩ := hw.free _ hafter.mem_head
  refine Nat.pos_iff_ne_zero.mp (List.countP_pos_iff.mpr ⟨node'.inode, ?_, decide_eq_true hz⟩)
  have := hr.2
  exact List.mem_range'_1.mpr ⟨hr.1, by omega⟩

/-- 一つも書けなかったとき、届く位置は、書いた後の鎖の容量に収まる。 -/
theorem Wrote.seek_le (hok : FatOk fs H) (hin : h.node.inode = 0 ∨ h.node.inode ∈ H)
    (hw : Wrote fs fs' H H' D h.node node' total n l ext log) (htotal : total ≠ 0)
    (hreach : Reachable fs h total) (hstop : Full fs' ∨ 2 ^ 32 ≤ h.node.seek_offset + total) :
    h.node.seek_offset ≤ (l.length + ext.length) * bytes_per_cluster fs := by
  have hold := hw.before.clusters hok hin
  unfold Reachable at hreach
  rw [hold] at hreach
  rcases hreach with h0 | ⟨h0, hfree⟩ | hle | ⟨hlt, hle⟩
  · exact absurd h0 htotal
  · exact absurd hfree (hw.free_pos h0)
  · exact hle.trans (Nat.mul_le_mul_right _ (Nat.le_add_right _ _))
  · have hfull := hstop.resolve_right (by omega)
    exact hle.trans (Nat.mul_le_mul_right _ (Nat.add_le_add_left (hw.free_le hok hin hfull) _))

/-- 届く位置への書き込みの後、ノードの大きさは鎖の容量に収まる。 -/
theorem Wrote.fits (hok : FatOk fs H) (hin : h.node.inode = 0 ∨ h.node.inode ∈ H)
    (hw : Wrote fs fs' H H' D h.node node' total n l ext log) (htotal : total ≠ 0)
    (hsize : Fits fs h.node.inode h.node.size) (hreach : Reachable fs h total) :
    Fits fs' node'.inode node'.size := by
  have hold := hw.before.clusters hok hin
  have hnew : node_clusters fs' node'.inode = l.length + ext.length := by
    rw [hw.fat.node_clusters hw.inode.1 hw.after, List.length_append]
  have hmono : l.length * bytes_per_cluster fs ≤ (l.length + ext.length) * bytes_per_cluster fs :=
    Nat.mul_le_mul_right _ (Nat.le_add_right _ _)
  have hbpc := hw.shape.bytes_per_cluster
  unfold Fits at *
  rw [hnew, hbpc, hw.node_eq]
  rw [hold] at hsize
  refine Nat.max_le.mpr ⟨hsize.trans hmono, ?_⟩
  by_cases hwrap : 2 ^ 32 ≤ h.node.seek_offset + total
  · rw [hw.advanced.2 hwrap]
    exact hw.seek_le hok hin htotal hreach (Or.inr hwrap)
  · have hstored := hw.stored (Nat.lt_of_not_le hwrap)
    unfold Stored at hstored
    rw [hbpc, List.length_append] at hstored
    rcases hstored with ⟨rfl, hle⟩ | ⟨hfull, -, -, -, hle⟩
    · exact hle
    · by_cases hn : n = 0
      · rw [hn]
        exact hw.seek_le hok hin htotal hreach (Or.inl hfull)
      · exact hle hn

/-! ## 操作の一歩 -/

/-- 更新された項目の大きさ。 -/
theorem Wrote.file_size (hw : Wrote fs fs' H H' D node node' total n l ext log) (hsize : node.size < 2 ^ 32)
    (ha : IsSlot fs D a) (ht : root_target fs node.name = some a) :
    Entry.file_size fs'.disk a = node'.size := by
  have hbytes := hw.slots a ha
  unfold slotsAfter at hbytes
  rw [ht] at hbytes
  rw [Entry.file_size_congr hbytes]
  refine file_size_updated ?_
  rw [hw.node_eq]
  exact Nat.max_lt.mpr ⟨hsize, hw.position⟩

/-- 変わらない項目とノードの大きさは、容量に収まったままである。 -/
theorem Sized.carry {X : Set Nat} (hS : Sized v) (hT : Tracked v.fs H v.dir_set own v.live)
    (hc : Carried v v' H X)
    (hX : ∀ b ∈ X, FileAt v'.fs v'.dir_set b → FileAt v.fs v.dir_set b ∧
        Entry.first_cluster v'.fs.disk b = Entry.first_cluster v.fs.disk b ∧
        Entry.file_size v'.fs.disk b = Entry.file_size v.fs.disk b ∨
      Fits v'.fs (Entry.first_cluster v'.fs.disk b) (Entry.file_size v'.fs.disk b))
    (hnode : ∀ h ∈ v'.live, (∃ h₀ ∈ v.live, h.node.inode = h₀.node.inode ∧ h.node.size = h₀.node.size) ∨
      (∃ b, FileAt v'.fs v'.dir_set b ∧ h.node = fat12_make_node v'.fs.disk b) ∨
      Fits v'.fs h.node.inode h.node.size) : Sized v' := by
  obtain ⟨H', own', hT', hsh, hchains, hfile⟩ := hc
  have hle : ∀ x, x = 0 ∨ x ∈ H → x = 0 ∨ x ∈ H' → node_clusters v.fs x ≤ node_clusters v'.fs x := by
    intro x hx hx'
    by_cases h0 : x = 0
    · rw [h0, node_clusters_zero, node_clusters_zero]
    · exact node_clusters_le hT.fat hT'.fat (hx.resolve_left h0) (hx'.resolve_left h0)
        (hchains x (hx.resolve_left h0) (hx'.resolve_left h0))
  have hentry : ∀ b, FileAt v'.fs v'.dir_set b →
      Fits v'.fs (Entry.first_cluster v'.fs.disk b) (Entry.file_size v'.fs.disk b) := by
    intro b hb
    have hold : FileAt v.fs v.dir_set b ∧ Entry.first_cluster v'.fs.disk b = Entry.first_cluster v.fs.disk b ∧
        Entry.file_size v'.fs.disk b = Entry.file_size v.fs.disk b ∨
        Fits v'.fs (Entry.first_cluster v'.fs.disk b) (Entry.file_size v'.fs.disk b) := by
      by_cases hbX : b ∈ X
      · exact hX b hbX hb
      · obtain ⟨hb₀, hk⟩ := hfile b hb hbX
        exact Or.inl ⟨hb₀, Entry.first_cluster_congr hk, Entry.file_size_congr hk⟩
    rcases hold with ⟨hb₀, hfc, hfs⟩ | hfits
    · have hin' := (hT'.file b hb).imp_right (fun h => h.1.1)
      rw [hfs]
      rw [hfc] at hin' ⊢
      exact (hS.entry b hb₀).mono hsh (hle _ ((hT.file b hb₀).imp_right (fun h => h.1.1)) hin')
    · exact hfits
  refine ⟨hentry, fun h hh => ?_⟩
  rcases hnode h hh with ⟨h₀, hh₀, hi, hs⟩ | ⟨b, hb, heq⟩ | hfits
  · have hin' := ((hT'.handle h hh).inode).imp_right (fun h => h.1.1)
    rw [hs]
    rw [hi] at hin' ⊢
    exact (hS.node h₀ hh₀).mono hsh (hle _ ((hT.handle h₀ hh₀).inode.imp_right (fun h => h.1.1)) hin')
  · rw [heq]
    exact hentry b hb
  · exact hfits

theorem Fits.zero (fs : Fs) (inode : Nat) : Fits fs inode 0 := Nat.zero_le _

section Steps

variable (hT : Tracked v.fs H v.dir_set own v.live) (hS : Sized v)
include hT hS

theorem Sized.still (hfs : v'.fs = v.fs) (hdirs : v'.dirs = v.dirs)
    (hlive : ∀ h ∈ v'.live, h ∈ v.live ∨ Held v h) : Sized v' := by
  refine hS.carry hT (carried_still hT hfs hdirs hlive) (fun b hb => absurd hb (Set.notMem_empty b)) (fun h hh => ?_)
  rcases hlive h hh with hh | ⟨hat, hnode⟩ | ⟨h₀, hh₀, s, -, rfl⟩
  · exact Or.inl ⟨h, hh, rfl, rfl⟩
  · refine Or.inr (Or.inr ?_)
    rw [hfs, hnode]
    exact hS.entry _ hat
  · exact Or.inl ⟨h₀, hh₀, rfl, rfl⟩

theorem Sized.created {name : List UInt8} {gs : List Group} {g : Group} (hn : v.names dir name)
    (hg : Groups v.fs dir gs) (hroom : room v.fs.disk gs = some (g, i)) :
    Sized (({ v with fs := created_fs v.fs name (g.slot i) } : Vol).open_node k
      (some (fat12_make_node (created_disk v.fs name (g.slot i)) (g.slot i), g.slot i))) := by
  have hsize : Entry.file_size (created_disk v.fs name (g.slot i)) (g.slot i) = 0 := file_size_new 0x20
  refine hS.carry hT (carried_created hT hn hg hroom) ?_ (fun h hh => ?_)
  · rintro b rfl -
    refine Or.inr ?_
    change Fits _ _ (Entry.file_size (created_disk v.fs name (g.slot i)) (g.slot i))
    rw [hsize]
    exact .zero _ _
  · rcases live_open_node hh with hh | ⟨node, a, ha, rfl, -⟩
    · exact Or.inl ⟨h, hh, rfl, rfl⟩
    · cases ha
      refine Or.inr (Or.inr ?_)
      change Fits _ _ (Entry.file_size (created_disk v.fs name (g.slot i)) (g.slot i))
      rw [hsize]
      exact .zero _ _

theorem Sized.wrote (hlive : h ∈ v.live) (hu : UpdatesOwn v.fs h) (htotal : total ≠ 0)
    (hreach : Reachable v.fs h total)
    (hw : Wrote v.fs fs' H H' v.dir_set h.node node' total n l ext log) :
    Sized (({ v with fs := fs' } : Vol).set_node k h node') := by
  have hok := hT.handle h hlive
  have hfits := hw.fits hT.fat (hok.inode.imp_right (fun h => h.1.1)) htotal (hS.node h hlive) hreach
  refine hS.carry hT (carried_wrote hT hlive hu hw) ?_ (fun h' hh => ?_)
  · rintro b rfl -
    rcases hu.2 with ht | ht
    · refine Or.inr ?_
      change Fits fs' (Entry.first_cluster fs'.disk h.slot) (Entry.file_size fs'.disk h.slot)
      rw [hw.first_cluster hok.entry.1 ht, hw.file_size hok.size hok.entry.1 ht]
      exact hfits
    · have hbytes := hw.slots h.slot hok.entry.1
      unfold slotsAfter at hbytes
      rw [ht] at hbytes
      exact Or.inl ⟨hok.entry, Entry.first_cluster_congr hbytes, Entry.file_size_congr hbytes⟩
  · rcases live_set_node hh with hh | ⟨rfl, -⟩
    · exact Or.inl ⟨h', hh, rfl, rfl⟩
    · exact Or.inr (Or.inr hfits)

end Steps

/-- 届く位置への書き込みだけなら、どの操作も大きさを容量の中に保つ。 -/
theorem Moved.sized (hm : Moved v H own op v') (hT : Tracked v.fs H v.dir_set own v.live) (hS : Sized v)
    (hw : WritesMeet (fun fs h total => UpdatesOwn fs h ∧ Reachable fs h total) v op) : Sized v' := by
  cases hm with
  | still hfs hdirs hlive => exact hS.still hT hfs hdirs hlive
  | created hn hg _ hroom => exact hS.created hT hn hg hroom
  | returned _ _ _ _ _ hp _ hcache hch =>
      exact hS.carry hT (carried_returned hp hcache hch) (fun b hb => absurd hb (Set.notMem_empty b))
        (fun h hh => Or.inl ⟨h, hh, rfl, rfl⟩)
  | made hn hg _ hroom hr hz hp =>
      refine hS.carry hT (carried_made hT hn hg hroom hr hz hp) ?_ (fun h hh => Or.inl ⟨h, hh, rfl, rfl⟩)
      rintro b rfl hb
      have hdir : IsDir v.dir_set _ := hn.1
      obtain ⟨hmem, hi, -⟩ := room_some hroom
      exact absurd hb.2.2 (hp.made_not_file (hg.isSlot hdir hmem hi) _)
  | unlinked _ _ _ hgone =>
      exact hS.carry hT (carried_unlinked hT hgone) (fun b hb => absurd hb (Set.notMem_empty b))
        (fun h hh => Or.inl ⟨h, (live_unlink_slot hh).1, rfl, rfl⟩)
  | wrote hk hlive htotal hwr =>
      obtain ⟨hu, hreach⟩ := hw _ hk
      exact hS.wrote hT hlive hu htotal hreach hwr

/-! ## 項目の大きさ -/

theorem Wrote.capacity_le (hok : FatOk fs H) (hin : node.inode = 0 ∨ node.inode ∈ H)
    (hw : Wrote fs fs' H H' D node node' total n l ext log) (hfull : Full fs') :
    capacity fs node.inode ≤ (l ++ ext).length * bytes_per_cluster fs' := by
  unfold capacity
  rw [hw.before.clusters hok hin, hw.shape.bytes_per_cluster, List.length_append]
  exact Nat.mul_le_mul_right _ (Nat.add_le_add_left (hw.free_le hok hin hfull) _)

/-- 項目を覆う書き込みの後、ノードの大きさは、前の項目の大きさより小さくならない。 -/
theorem Wrote.covers (hok : FatOk fs H) (hin : h.node.inode = 0 ∨ h.node.inode ∈ H)
    (hw : Wrote fs fs' H H' D h.node node' total n l ext log) (htotal : total ≠ 0)
    (hc : Covers fs h total) (ht : root_target fs h.node.name = some h.slot) :
    Entry.file_size fs.disk h.slot ≤ node'.size := by
  have hsize : node'.size = max h.node.size (h.node.seek_offset + n) := by rw [hw.node_eq]
  rcases hc with h0 | ⟨h0, hfree⟩ | ⟨-, hle | hle | ⟨hlt, hle, hroom⟩⟩ | ⟨hnone, -⟩
  · exact absurd h0 htotal
  · exact absurd hfree (hw.free_pos h0)
  · omega
  · omega
  · have hstored := hw.stored hlt
    unfold Stored at hstored
    rcases hstored with ⟨rfl, -⟩ | ⟨hfull, -, hshort, hlast, -⟩
    · omega
    · have hcap := hw.capacity_le hok hin hfull
      rw [hw.shape.bytes_per_cluster] at hcap hshort hlast
      omega
  · rw [ht] at hnone
    cases hnone

/-- 更新されない項目の大きさの中への書き込み。 -/
theorem Wrote.within (hw : Wrote fs fs' H H' D h.node node' total n l ext log) (htotal : total ≠ 0)
    (hc : Covers fs h total) (ht : root_target fs h.node.name = none) (hn : n ≠ 0) :
    h.node.seek_offset + n ≤ Entry.file_size fs.disk h.slot := by
  rcases hc with h0 | ⟨h0, hfree⟩ | ⟨hsome, -⟩ | ⟨-, hwrap | hle⟩
  · exact absurd h0 htotal
  · exact absurd hfree (hw.free_pos h0)
  · rw [ht] at hsome
    cases hsome
  · exact absurd (hw.advanced.2 hwrap) hn
  · have hlt : h.node.seek_offset + total < 2 ^ 32 := Nat.lt_of_le_of_lt hle (load32_lt _ _)
    have hstored := hw.stored hlt
    unfold Stored at hstored
    omega

end MyOS.Fat
