import MyOS.Fat.Lemmas.Dir
import Mathlib.Data.List.Find

/-!
# 項目の更新

`fat12_update_dir_entry` は、根の最初の同名の項目の二つの欄だけを書き換える。
-/

namespace MyOS.Fat
open MyOS.Lib ByteMem

variable {fs fs' : Fs} {H D : Set Nat} {a b c h : Nat} {m m' : ByteMem} {l : List Nat}
  {name : List UInt8} {node : Node} {g : Group}

/-! ## 最初の同名の項目 -/

/-- 昇順の列で最初に見つかる要素は、条件を満たす最小の要素である。 -/
theorem find?_eq_some_iff_least {p : Nat → Bool} (hs : l.Pairwise (· < ·)) :
    l.find? p = some a ↔ a ∈ l ∧ p a ∧ ∀ b ∈ l, p b → a ≤ b := by
  induction l with
  | nil => simp
  | cons x l ih =>
      obtain ⟨hx, hl⟩ := List.pairwise_cons.mp hs
      by_cases hp : p x
      · rw [List.find?_cons_of_pos hp]
        constructor
        · rintro h
          cases h
          refine ⟨by simp, hp, fun b hb _ => ?_⟩
          rcases List.mem_cons.mp hb with rfl | hb
          · exact Nat.le_refl b
          · exact Nat.le_of_lt (hx b hb)
        · rintro ⟨hmem, hpa, hmin⟩
          have hle := hmin x (by simp) hp
          rcases List.mem_cons.mp hmem with rfl | hmem
          · rfl
          · have := hx a hmem
            omega
      · rw [List.find?_cons_of_neg hp, ih hl]
        constructor
        · rintro ⟨hmem, hpa, hmin⟩
          refine ⟨by simp [hmem], hpa, fun b hb hpb => ?_⟩
          rcases List.mem_cons.mp hb with rfl | hb
          · exact absurd hpb hp
          · exact hmin b hb hpb
        · rintro ⟨hmem, hpa, hmin⟩
          rcases List.mem_cons.mp hmem with rfl | hmem
          · exact absurd hpa hp
          · exact ⟨hmem, hpa, fun b hb => hmin b (by simp [hb])⟩

theorem mem_takeWhile_iff_of_sorted {p : Nat → Bool} (hs : l.Pairwise (· < ·)) :
    a ∈ l.takeWhile p ↔ a ∈ l ∧ ∀ b ∈ l, b ≤ a → p b := by
  induction l with
  | nil => simp
  | cons x l ih =>
      obtain ⟨hx, hl⟩ := List.pairwise_cons.mp hs
      have hxa : ∀ y ∈ x :: l, x ≤ y := by
        intro y hy
        rcases List.mem_cons.mp hy with rfl | hy
        · exact Nat.le_refl y
        · exact Nat.le_of_lt (hx y hy)
      by_cases hp : p x
      · rw [List.takeWhile_cons_of_pos hp, List.mem_cons, ih hl, List.mem_cons]
        constructor
        · rintro (rfl | ⟨hmem, hall⟩)
          · refine ⟨Or.inl rfl, fun b hb hle => ?_⟩
            rwa [Nat.le_antisymm hle (hxa b hb)]
          · refine ⟨Or.inr hmem, fun b hb hle => ?_⟩
            rcases List.mem_cons.mp hb with rfl | hb
            · exact hp
            · exact hall b hb hle
        · rintro ⟨rfl | hmem, hall⟩
          · exact Or.inl rfl
          · exact Or.inr ⟨hmem, fun b hb => hall b (by simp [hb])⟩
      · rw [List.takeWhile_cons_of_neg hp]
        constructor
        · intro hmem
          cases hmem
        · rintro ⟨hmem, hall⟩
          exact absurd (hall x (by simp) (hxa a hmem)) hp

theorem takeWhile_congr_left {p q : Nat → Bool} (h : ∀ x ∈ l, p x = q x) : l.takeWhile p = l.takeWhile q := by
  induction l with
  | nil => rfl
  | cons x l ih =>
      rw [List.takeWhile_cons, List.takeWhile_cons, h x (by simp), ih (fun y hy => h y (by simp [hy]))]

theorem findSome?_congr_left {f f' : Nat → Option Nat} (h : ∀ x ∈ l, f' x = f x) :
    l.findSome? f' = l.findSome? f := by
  induction l with
  | nil => rfl
  | cons x l ih =>
      rw [List.findSome?_cons, List.findSome?_cons, h x (by simp), ih (fun y hy => h y (by simp [hy]))]

theorem slot_lt_slot {i j : Nat} : g.slot i < g.slot j ↔ i < j := by
  unfold Group.slot sizeofDirEntry
  omega

theorem slot_le_slot {i j : Nat} : g.slot i ≤ g.slot j ↔ i ≤ j := by
  unfold Group.slot sizeofDirEntry
  omega

theorem slots_sorted (g : Group) : ((List.range g.entries).map g.slot).Pairwise (· < ·) := by
  refine List.pairwise_map.mpr (List.pairwise_lt_range.imp ?_)
  exact fun h => slot_lt_slot.mpr h

theorem live_slots_sorted (m : ByteMem) (g : Group) : (live_slots m g).Pairwise (· < ·) :=
  ((slots_sorted g).sublist (List.takeWhile_sublist _)).sublist List.filter_sublist

theorem mem_live_slots : a ∈ live_slots m g ↔ ∃ i < g.entries, a = g.slot i ∧
    (∀ j ≤ i, m (g.slot j) ≠ 0) ∧ m a ≠ 0xE5 ∧ Entry.attributes m a ≠ 0x0F := by
  unfold live_slots
  rw [List.mem_filter, mem_takeWhile_iff_of_sorted (slots_sorted g)]
  simp only [List.mem_map, List.mem_range, decide_eq_true_eq, forall_exists_index, and_imp,
    forall_apply_eq_imp_iff₂]
  constructor
  · rintro ⟨⟨⟨i, hi, rfl⟩, hall⟩, hlive⟩
    exact ⟨i, hi, rfl, fun j hj => hall j (by omega) (slot_le_slot.mpr hj), hlive⟩
  · rintro ⟨i, hi, rfl, hall, hlive⟩
    exact ⟨⟨⟨i, hi, rfl⟩, fun j _ hj => hall j (slot_le_slot.mp hj)⟩, hlive⟩

/-- 更新の対象になる項目。 -/
def root_target (fs : Fs) (name : List UInt8) : Option Nat :=
  (List.range (root_dir_sectors fs)).findSome? fun s => update_slot fs.disk (root_group fs s) name

theorem root_target_eq_some (hlay : Layout fs) : root_target fs name = some a ↔ FirstRootMatch fs name a := by
  have hflat : root_target fs name = ((List.range (root_dir_sectors fs)).flatMap fun s =>
      live_slots fs.disk (root_group fs s)).find? (matches_name fs.disk name) := by
    rw [List.find?_flatMap]
    rfl
  have hsorted : ((List.range (root_dir_sectors fs)).flatMap fun s =>
      live_slots fs.disk (root_group fs s)).Pairwise (· < ·) := by
    refine List.pairwise_flatMap.mpr ⟨fun s _ => live_slots_sorted _ _, List.pairwise_lt_range.imp ?_⟩
    intro s t hst x hx y hy
    obtain ⟨i, hi, rfl, -⟩ := mem_live_slots.mp hx
    obtain ⟨j, hj, rfl, -⟩ := mem_live_slots.mp hy
    rw [hlay.root_entries] at hi hj
    simp only [root_group, Group.slot, ATA_SECTOR_SIZE, sizeofDirEntry]
    omega
  have hmem : ∀ x, (x ∈ ((List.range (root_dir_sectors fs)).flatMap fun s =>
      live_slots fs.disk (root_group fs s)) ∧ matches_name fs.disk name x) ↔ RootMatch fs name x := by
    intro x
    unfold RootMatch matches_name
    simp only [List.mem_flatMap, List.mem_range, mem_live_slots, decide_eq_true_eq]
    constructor
    · rintro ⟨⟨s, hs, i, hi, heq, hall, hne, hattr⟩, hmatch⟩
      exact ⟨s, hs, i, hi, heq, hall, hne, hattr, hmatch⟩
    · rintro ⟨s, hs, i, hi, heq, hall, hne, hattr, hmatch⟩
      exact ⟨⟨s, hs, i, hi, heq, hall, hne, hattr⟩, hmatch⟩
  rw [hflat, find?_eq_some_iff_least hsorted, ← and_assoc, hmem]
  unfold FirstRootMatch
  refine and_congr_right (fun _ => forall_congr' fun b => ?_)
  rw [← hmem b, and_imp]

/-- 探す範囲の項目が同じなら、見つかる項目も同じである。 -/
theorem root_target_congr (hbpb : fs'.bpb = fs.bpb) (hroot : fs'.root_lba = fs.root_lba)
    (hdisk : ∀ b, IsSlot fs D b → ∀ k < sizeofDirEntry, fs'.disk (b + k) = fs.disk (b + k)) :
    root_target fs' name = root_target fs name := by
  have hsec : root_dir_sectors fs' = root_dir_sectors fs := by
    unfold root_dir_sectors
    rw [hbpb]
  have hrg : ∀ s, root_group fs' s = root_group fs s := by
    intro s
    unfold root_group
    rw [hbpb, hroot]
  have hslots : ∀ s < root_dir_sectors fs,
      update_slot fs'.disk (root_group fs s) name = update_slot fs.disk (root_group fs s) name := by
    intro s hs
    have hb : ∀ a ∈ (List.range (root_group fs s).entries).map (root_group fs s).slot,
        ∀ k < sizeofDirEntry, fs'.disk (a + k) = fs.disk (a + k) := by
      intro a ha
      obtain ⟨i, hi, rfl⟩ := List.mem_map.mp ha
      exact hdisk _ (Or.inl ⟨s, hs, i, List.mem_range.mp hi, rfl⟩)
    have htake : ((List.range (root_group fs s).entries).map (root_group fs s).slot).takeWhile
          (fun a => fs'.disk a ≠ 0) =
        ((List.range (root_group fs s).entries).map (root_group fs s).slot).takeWhile
          (fun a => fs.disk a ≠ 0) := by
      refine takeWhile_congr_left (fun a ha => ?_)
      have h0 := hb a ha 0 (by decide)
      rw [Nat.add_zero] at h0
      rw [h0]
    have hlive : live_slots fs'.disk (root_group fs s) = live_slots fs.disk (root_group fs s) := by
      unfold live_slots
      rw [htake]
      refine List.filter_congr (fun a ha => ?_)
      have hab := hb a ((List.takeWhile_sublist _).subset ha)
      have h0 := hab 0 (by decide)
      rw [Nat.add_zero] at h0
      rw [h0, Entry.attributes_congr hab]
    unfold update_slot
    rw [hlive]
    refine List.find?_congr (fun a ha => ?_)
    obtain ⟨i, hi, rfl, -⟩ := mem_live_slots.mp ha
    unfold matches_name
    rw [entry_to_name_congr (hdisk _ (Or.inl ⟨s, hs, i, hi, rfl⟩))]
  unfold root_target
  rw [hsec]
  refine findSome?_congr_left (fun s hs => ?_)
  rw [hrg, hslots s (List.mem_range.mp hs)]

/-! ## 書き換え -/

/-- 項目の二つの欄を書き換えたディスク。 -/
def updated (m : ByteMem) (a : Nat) (node : Node) : ByteMem :=
  Entry.setFileSize (Entry.setFirstCluster m a node.inode) a node.size

theorem updated_of_outside (hx : b < a + 26 ∨ a + 32 ≤ b) : updated m a node b = m b := by
  unfold updated Entry.setFileSize Entry.setFirstCluster
  rw [store32_of_outside (by omega), store8_of_ne (by omega), store8_of_ne (by omega)]

theorem updated_congr (h : m' b = m b) : updated m' a node b = updated m a node b := by
  unfold updated Entry.setFileSize Entry.setFirstCluster store32 store8
  rw [h]

theorem first_cluster_updated (h : node.inode < 65536) :
    Entry.first_cluster (updated m a node) a = node.inode := by
  unfold updated Entry.setFileSize Entry.setFirstCluster Entry.first_cluster
  rw [store32_of_outside (by omega), store32_of_outside (by omega), store8_self,
    store8_of_ne (by omega), store8_self, UInt8.toNat_ofNat', UInt8.toNat_ofNat']
  omega

theorem file_size_updated (h : node.size < 2 ^ 32) :
    Entry.file_size (updated m a node) a = node.size := by
  unfold updated Entry.setFileSize Entry.file_size
  exact load32_store32_self h

theorem updated_shift {d : Nat} (m : ByteMem) (i x : Nat) :
    updated (fun y => m (d + y)) i node x = updated m (d + i) node (d + x) := by
  unfold updated Entry.setFileSize Entry.setFirstCluster store32 store8
  simp only [Nat.add_assoc, Nat.add_left_cancel_iff]

/-- セクタを読み、項目を書き換えて書き戻すと、その項目だけが変わる。 -/
theorem ata_write_updated {i : Nat} (hi : i < g.entries) (hg : g.entries * 32 ≤ g.sectors * 512) :
    ata_write_sectors fs g.lba g.sectors (updated (ata_read_sectors fs g.lba) (i * sizeofDirEntry) node) =
      { fs with disk := updated fs.disk (g.slot i) node } := by
  unfold ata_write_sectors ata_read_sectors
  congr 1
  funext x
  split
  · next hx =>
      rw [updated_shift]
      unfold Group.slot
      congr 1
      omega
  · next hx =>
      rw [updated_of_outside]
      unfold Group.slot
      unfold ATA_SECTOR_SIZE sizeofDirEntry at *
      omega

theorem update_dir_entry_eq (hlay : Layout fs) :
    fat12_update_dir_entry fs node = some (match root_target fs node.name with
      | some a => { fs with disk := updated fs.disk a node }
      | none => fs) := by
  have hgroup : ∀ s, update_in_group fs (root_group fs s) node =
      (update_slot fs.disk (root_group fs s) node.name).map
        fun a => { fs with disk := updated fs.disk a node } := by
    intro s
    unfold update_in_group
    refine Option.map_congr (fun a ha => ?_)
    obtain ⟨i, hi, rfl, -⟩ := mem_live_slots.mp (List.mem_of_find?_eq_some ha)
    have hsub : (root_group fs s).slot i - (root_group fs s).lba * ATA_SECTOR_SIZE =
        i * sizeofDirEntry := by
      unfold Group.slot
      omega
    rw [hsub]
    refine ata_write_updated hi ?_
    rw [hlay.root_entries]
    simp only [root_group]
    decide
  have hmap : ∀ ss : List Nat, (ss.findSome? fun s => update_in_group fs (root_group fs s) node) =
      (ss.findSome? fun s => update_slot fs.disk (root_group fs s) node.name).map
        fun a => { fs with disk := updated fs.disk a node } := by
    intro ss
    induction ss with
    | nil => rfl
    | cons s ss ih =>
        rw [List.findSome?_cons, List.findSome?_cons, hgroup]
        cases update_slot fs.disk (root_group fs s) node.name with
        | none => exact ih
        | some a => rfl
  unfold fat12_update_dir_entry
  rw [if_pos hlay.root_inode, hmap]
  unfold root_target
  cases (List.range (root_dir_sectors fs)).findSome? fun s =>
    update_slot fs.disk (root_group fs s) node.name with
  | none => rfl
  | some a => rfl

end MyOS.Fat
