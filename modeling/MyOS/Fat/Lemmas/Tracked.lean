import MyOS.Fat.Tracked

/-!
# 操作ごとの不変性

どの操作も、高々一つの項目を書き換え、鎖の先頭を高々一つ増やすか減らす。
-/

namespace MyOS.Fat
open MyOS.Lib ByteMem

variable {fs fs' : Fs} {H H' D : Set Nat} {own own' : Nat → Nat} {hs hs' : Set Handle} {a b c i inode : Nat}
  {m m' : ByteMem} {h : Handle} {g : Group} {gs : List Group} {name : List UInt8} {l ext log : List Nat}
  {node node' : Node} {n total : Nat}

/-! ## 項目の見かけ -/

section Head

variable (hm : ∀ k < 12, m' (b + k) = m (b + k))
include hm

theorem used_congr : Used m' b ↔ Used m b := by
  unfold Used Entry.attributes
  have h0 := hm 0 (by decide)
  rw [Nat.add_zero] at h0
  rw [h0, hm 11 (by decide)]

theorem isFile_congr : IsFile m' b ↔ IsFile m b := by
  unfold IsFile Entry.attributes
  rw [hm 11 (by decide)]

theorem name_congr : fat12_entry_to_name m' b = fat12_entry_to_name m b := by
  have hname : Entry.name m' b = Entry.name m b := by
    refine List.map_congr_left (fun k hk => hm k ?_)
    have := List.mem_range.mp hk
    omega
  have hext : Entry.ext m' b = Entry.ext m b := by
    refine List.map_congr_left (fun k hk => ?_)
    have := List.mem_range.mp hk
    rw [Nat.add_assoc]
    exact hm (8 + k) (by omega)
  unfold fat12_entry_to_name
  rw [hname, hext]

end Head

theorem fileAt_congr (hslot : IsSlot fs' D b ↔ IsSlot fs D b)
    (hm : ∀ k < 12, fs'.disk (b + k) = fs.disk (b + k)) : FileAt fs' D b ↔ FileAt fs D b := by
  unfold FileAt
  rw [hslot, used_congr hm, isFile_congr hm]

theorem dirAt_congr (hslot : IsSlot fs' D b ↔ IsSlot fs D b)
    (hm : ∀ k < 12, fs'.disk (b + k) = fs.disk (b + k)) : DirAt fs' D b ↔ DirAt fs D b := by
  unfold DirAt
  rw [hslot, used_congr hm, isFile_congr hm]

/-! ## 変化の組み立て -/

theorem HandleOk.keep (hok : HandleOk fs H D own h) (hsh : SameShape fs fs')
    (hown : ∀ c, Owned (fatNext fs') D c ↔ Owned (fatNext fs) D c)
    (hm : ∀ k < 12, fs'.disk (h.slot + k) = fs.disk (h.slot + k))
    (hin : h.node.inode ∈ H \ D → own h.node.inode = h.slot →
      h.node.inode ∈ H' ∧ own' h.node.inode = h.slot) : HandleOk fs' H' D own' h := by
  refine ⟨(fileAt_congr (hsh.isSlot hown) hm).mpr hok.entry, (name_congr hm).trans hok.name, ?_, hok.seek,
    hok.size⟩
  refine hok.inode.imp_right (fun ⟨hmem, ho⟩ => ?_)
  obtain ⟨hmem', ho'⟩ := hin hmem ho
  exact ⟨⟨hmem', hmem.2⟩, ho'⟩

/-- `X` の項目だけが変わる操作。 -/
structure Changes (fs fs' : Fs) (H H' D : Set Nat) (X : Set Nat) : Prop where
  shape : SameShape fs fs'
  fat : FatOk fs' H'
  dirs : D ⊆ H'
  next : ∀ c, Owned (fatNext fs) D c → fatNext fs' c = fatNext fs c
  owned : ∀ c, Owned (fatNext fs') D c ↔ Owned (fatNext fs) D c
  kept : ∀ b, IsSlot fs D b → b ∉ X → ∀ k < sizeofDirEntry, fs'.disk (b + k) = fs.disk (b + k)

theorem Changes.head {X : Set Nat} (hc : Changes fs fs' H H' D X) (hb : IsSlot fs D b) (hX : b ∉ X) :
    ∀ k < 12, fs'.disk (b + k) = fs.disk (b + k) :=
  fun k hk => hc.kept b hb hX k (by unfold sizeofDirEntry; omega)

theorem Tracked.change {X : Set Nat} (hT : Tracked fs H D own hs) (hc : Changes fs fs' H H' D X)
    (hfile : ∀ b, b ∉ X → FileAt fs D b → Entry.first_cluster fs.disk b ∈ H \ D →
      own (Entry.first_cluster fs.disk b) = b →
      Entry.first_cluster fs.disk b ∈ H' ∧ own' (Entry.first_cluster fs.disk b) = b)
    (hXf : ∀ a ∈ X, FileAt fs' D a → Entry.first_cluster fs'.disk a = 0 ∨
      Entry.first_cluster fs'.disk a ∈ H' \ D ∧ own' (Entry.first_cluster fs'.disk a) = a)
    (hXd : ∀ a ∈ X, DirAt fs' D a → Entry.first_cluster fs'.disk a = 0 ∨ Entry.first_cluster fs'.disk a ∈ D)
    (hh : ∀ h ∈ hs', HandleOk fs' H' D own' h) : Tracked fs' H' D own' hs' := by
  refine ⟨hc.fat, hc.shape.layout hT.layout, hc.dirs, fun b hb => ?_, fun b hb => ?_, hh⟩
  · by_cases hX : b ∈ X
    · exact hXf b hX hb
    · have hslot := (hc.shape.isSlot hc.owned).mp hb.1
      have hb' := (fileAt_congr (hc.shape.isSlot hc.owned) (hc.head hslot hX)).mp hb
      rw [Entry.first_cluster_congr (hc.kept b hslot hX)]
      refine (hT.file b hb').imp_right (fun ⟨hmem, ho⟩ => ?_)
      obtain ⟨hmem', ho'⟩ := hfile b hX hb' hmem ho
      exact ⟨⟨hmem', hmem.2⟩, ho'⟩
  · by_cases hX : b ∈ X
    · exact hXd b hX hb
    · have hslot := (hc.shape.isSlot hc.owned).mp hb.1
      have hb' := (dirAt_congr (hc.shape.isSlot hc.owned) (hc.head hslot hX)).mp hb
      rw [Entry.first_cluster_congr (hc.kept b hslot hX)]
      exact hT.dir b hb'

/-- 表の書き出しは、項目も表の写しも変えない。 -/
theorem Changes.flush {X : Set Nat} (hlay : Layout fs) (hchains : ChainSet (fatNext fs) D (InRange fs))
    (hc : Changes fs fs' H H' D X) : Changes fs (fat12_flush_fat fs') H H' D X := by
  obtain ⟨disk, heq, hdisk⟩ := flush_fat_eq (hc.shape.layout hlay)
  rw [heq]
  refine ⟨hc.shape.trans (.of_disk fs' disk), hc.fat.disk, hc.dirs, hc.next, hc.owned, fun b hb hX k hk => ?_⟩
  rw [← hc.kept b hb hX k hk]
  refine hdisk _ ?_
  rw [hc.shape.root_lba]
  exact (hb.after_fat hlay hchains).trans (Nat.le_add_right _ _)

theorem Changes.trans {X : Set Nat} {fs'' : Fs} {H'' : Set Nat} (hc : Changes fs fs' H H' D X)
    (hc' : Changes fs' fs'' H' H'' D X) : Changes fs fs'' H H'' D X := by
  refine ⟨hc.shape.trans hc'.shape, hc'.fat, hc'.dirs, fun c h => ?_, fun c => (hc'.owned c).trans (hc.owned c),
    fun b hb hX k hk => ?_⟩
  · exact (hc'.next c ((hc.owned c).mpr h)).trans (hc.next c h)
  · exact (hc'.kept b ((hc.shape.isSlot hc.owned).mpr hb) hX k hk).trans (hc.kept b hb hX k hk)

theorem Changes.mono {X Y : Set Nat} (hc : Changes fs fs' H H' D X) (hsub : X ⊆ Y) :
    Changes fs fs' H H' D Y :=
  ⟨hc.shape, hc.fat, hc.dirs, hc.next, hc.owned, fun b hb hY => hc.kept b hb (fun hX => hY (hsub hX))⟩

theorem Changes.follows {X : Set Nat} (hc : Changes fs fs' H H' D X) {d : Nat} (hd : d ∈ D)
    (hl : Follows (fatNext fs) d l) : Follows (fatNext fs') d l :=
  hl.congr (fun x hx => hc.next x ⟨d, hd, l, hl, hx⟩)

/-- 項目一つの書き換え。 -/
theorem Changes.entry {disk : ByteMem} (hfat : FatOk fs H) (hD : D ⊆ H) (ha : IsSlot fs D a)
    (hout : ∀ x, x < a ∨ a + 32 ≤ x → disk x = fs.disk x) :
    Changes fs { fs with disk := disk } H H D {a} := by
  refine ⟨.of_disk fs disk, hfat.disk, hD, fun _ _ => rfl, fun _ => Iff.rfl, fun b hb hX k hk => hout _ ?_⟩
  exact slot_disjoint ha.mod hb.mod hX hk

/-- 空きクラスタの確保。 -/
theorem Changes.allocate (hfat : FatOk fs H) (hD : D ⊆ H) (hr : InRange fs c) (hfree : fat_entry_raw fs c = 0) :
    Changes fs (fat12_set_fat_entry fs c 0xFFF) H (insert c H) D ∅ := by
  have hsame : SameOutside fs (fat12_set_fat_entry fs c 0xFFF) [c] := SameOutside.set (hfat.in_cache hr)
  have hnot : ∀ x ∈ [c], ¬ Owned (fatNext fs) D x := by
    intro x hx ho
    rw [List.mem_singleton.mp hx] at ho
    exact hfat.not_owned_of_free hfree (ho.mono hD)
  exact ⟨hsame.shape, hfat.allocate hr hfree, hD.trans (Set.subset_insert c H),
    fun _ h => FatOk.next_kept hsame hnot h, fun _ => hfat.owned_kept hD hsame hnot, fun _ _ _ _ _ => rfl⟩

/-- ファイルの鎖の解放。ほかの鎖は残る。 -/
theorem Changes.free (hfat : FatOk fs H) (hD : D ⊆ H) (hc : c ∈ H \ D) :
    ∃ fs', fat12_free_cluster_chain fs c = some fs' ∧ fs'.disk = fs.disk ∧
      Changes fs fs' H (H \ {c}) D ∅ ∧
      ∀ x ∈ H \ {c}, ∀ l, Follows (fatNext fs) x l → Follows (fatNext fs') x l := by
  obtain ⟨fs', l, hrun, hl, hok', hsame, -⟩ := free_cluster_chain_spec hfat hc.1
  have hdisk : fs'.disk = fs.disk := free_cluster_loop_disk maxChain c fs hrun
  have hDc : D ⊆ H \ {c} := fun d hd => ⟨hD hd, fun h => hc.2 (h ▸ hd)⟩
  have hrest : ∀ x ∈ l, ¬ Owned (fatNext fs) (H \ {c}) x := fun x hx => hfat.chains.not_owned_diff hc.1 hl hx
  have hnot : ∀ x ∈ l, ¬ Owned (fatNext fs) D x := fun x hx ho => hrest x hx (ho.mono hDc)
  refine ⟨fs', hrun, hdisk, ⟨hsame.shape, hok', hDc, fun _ h => FatOk.next_kept hsame hnot h,
    fun _ => hfat.owned_kept hD hsame hnot, fun _ _ _ _ _ => by rw [hdisk]⟩, fun x hx l' hl' => ?_⟩
  exact hl'.congr (fun y hy => FatOk.next_kept hsame hrest ⟨x, hx, l', hl', hy⟩)

end MyOS.Fat
