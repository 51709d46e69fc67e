import MyOS.Fat.Ops
import MyOS.Fat.Lemmas.Update

/-!
# ディレクトリの単位の列

根はセクタの列、ほかのディレクトリはクラスタの鎖を、単位の列として見る。探索、空き項目への書き込み、削除は、
どれも単位の列を先頭からたどる。
-/

namespace MyOS.Fat
open MyOS.Lib ByteMem

variable {fs fs' : Fs} {H D : Set Nat} {a c d inode cur : Nat} {pre rest l : List Nat} {gs : List Group}
  {name : List UInt8} {m : ByteMem} {g : Group} {i : Nat}

inductive Groups (fs : Fs) : Nat → List Group → Prop
  | root : Groups fs FAT12_ROOT_INODE ((List.range (root_dir_sectors fs)).map (root_group fs))
  | chain {inode : Nat} {l : List Nat} : inode ≠ FAT12_ROOT_INODE → Follows (fatNext fs) inode l →
      (∀ c ∈ l, c ≠ 0xFFFF) → l.length < maxChain → Groups fs inode (l.map (cluster_group fs))

theorem FatOk.groups (hok : FatOk fs H) (hD : D ⊆ H) (hdir : IsDir D inode) : ∃ gs, Groups fs inode gs := by
  rcases hdir with rfl | hd
  · exact ⟨_, .root⟩
  · obtain ⟨l, hl, -⟩ := hok.chains.chain inode (hD hd)
    have hlen := Nat.lt_of_le_of_lt (hok.length_le (hD hd) hl) hok.total_lt_maxChain
    have hne : inode ≠ FAT12_ROOT_INODE := by
      have hr := (hok.chains.dom_of_mem (hD hd) hl hl.mem_head).2
      have hb := hok.bound
      unfold FAT12_ROOT_INODE
      omega
    exact ⟨_, .chain hne hl (fun c hc => hok.ne_end (hD hd) hl hc) hlen⟩

/-- 鎖の先頭では、位置は鎖の全体を指す。 -/
theorem Follows.cursor (hl : Follows (fatNext fs) d l) (hne : ∀ c ∈ l, c ≠ 0xFFFF) : Cursor d l := by
  obtain ⟨l', rfl⟩ := hl.exists_cons
  exact Or.inr ⟨l', rfl, hne d (by simp)⟩

theorem Groups.isSlot (hg : Groups fs inode gs) (hdir : IsDir D inode) (hmem : g ∈ gs) (hi : i < g.entries) :
    IsSlot fs D (g.slot i) := by
  cases hg with
  | root =>
      obtain ⟨s, hs, rfl⟩ := List.mem_map.mp hmem
      exact Or.inl ⟨s, List.mem_range.mp hs, i, hi, rfl⟩
  | chain hne hl =>
      obtain ⟨c, hc, rfl⟩ := List.mem_map.mp hmem
      exact Or.inr ⟨c, ⟨inode, hdir.resolve_left hne, _, hl, hc⟩, i, hi, rfl⟩

theorem Groups.fits (hlay : Layout fs) (hg : Groups fs inode gs) (hmem : g ∈ gs) :
    g.entries * 32 ≤ g.sectors * 512 := by
  cases hg with
  | root =>
      obtain ⟨s, -, rfl⟩ := List.mem_map.mp hmem
      rw [hlay.root_entries]
      simp only [root_group]
      decide
  | chain =>
      obtain ⟨c, -, rfl⟩ := List.mem_map.mp hmem
      rw [hlay.cluster_entries]
      simp only [cluster_group]
      omega

/-! ## 探す -/

/-- 0x00 の項目のある単位までの、有効な項目。 -/
def visible (m : ByteMem) : List Group → List Nat
  | [] => []
  | g :: gs => live_slots m g ++ if has_end m g then [] else visible m gs

theorem iterate_root_eq (fs : Fs) (ss : List Nat) :
    iterate_root fs ss = visible fs.disk (ss.map (root_group fs)) := by
  induction ss with
  | nil => rfl
  | cons s ss ih => simp only [iterate_root, List.map_cons, visible, ih]

theorem iterate_chain_eq : ∀ (fuel cur : Nat) (pre rest : List Nat), Follows (fatNext fs) d (pre ++ rest) →
    Cursor cur rest → rest.length < fuel →
    iterate_chain fs fuel cur = some (visible fs.disk (rest.map (cluster_group fs))) := by
  intro fuel
  induction fuel with
  | zero =>
      intro cur pre rest _ _ hfuel
      omega
  | succ fuel ih =>
      intro cur pre rest hl hcur hfuel
      unfold iterate_chain
      rcases hcur with ⟨rfl, rfl⟩ | ⟨post, rfl, hne⟩
      · rfl
      · have hrec := ih (fat12_get_fat_entry fs cur) (pre ++ [cur]) post (by simpa using hl) (cursor_next hl)
          (by simpa using hfuel)
        rw [if_pos hne, hrec]
        simp only [List.map_cons, visible, Option.map_some]
        split
        · rw [List.append_nil]
        · rfl

theorem iterate_dir_eq (hg : Groups fs inode gs) : fat12_iterate_dir fs inode = some (visible fs.disk gs) := by
  unfold fat12_iterate_dir
  cases hg with
  | root => rw [if_pos rfl, iterate_root_eq]
  | chain hne hl hend hlen =>
      rw [if_neg hne]
      exact iterate_chain_eq maxChain inode [] _ hl (Follows.cursor hl hend) hlen

theorem mem_visible (h : a ∈ visible m gs) : ∃ g ∈ gs, a ∈ live_slots m g := by
  induction gs with
  | nil => cases h
  | cons g gs ih =>
      rcases List.mem_append.mp h with h | h
      · exact ⟨g, by simp, h⟩
      · split at h
        · cases h
        · obtain ⟨g', hg', ha⟩ := ih h
          exact ⟨g', by simp [hg'], ha⟩

/-- `find_entry` は、見える項目のうち最初の同名の項目を返す。 -/
theorem find_entry_eq (hg : Groups fs inode gs) : find_entry fs inode name =
    some (((visible fs.disk gs).find? (matches_name fs.disk name)).map fun a => (fat12_make_node fs.disk a, a)) := by
  unfold find_entry
  rw [iterate_dir_eq hg, Option.map_some]

/-! ## 空き項目 -/

/-- 単位の列の最初の空き項目。 -/
def room (m : ByteMem) (gs : List Group) : Option (Group × Nat) :=
  gs.findSome? fun g =>
    ((List.range g.entries).find? fun i => m (g.slot i) = 0 ∨ m (g.slot i) = 0xE5).map fun i => (g, i)

theorem room_some (h : room m gs = some (g, i)) :
    g ∈ gs ∧ i < g.entries ∧ (m (g.slot i) = 0 ∨ m (g.slot i) = 0xE5) := by
  obtain ⟨g', hg', hf⟩ := List.exists_of_findSome?_eq_some h
  obtain ⟨j, hj, heq⟩ := Option.map_eq_some_iff.mp hf
  cases heq
  exact ⟨hg', List.mem_range.mp (List.mem_of_find?_eq_some hj), by simpa using List.find?_some hj⟩

section Iterate

variable {σ : Type} {cb : Callback σ} {ctx : σ}

/-- 単位 `g` の項目 `i` で `callback` を呼び、書き戻した結果。 -/
def write_in_slot (cb : Callback σ) (g : Group) (i : Nat) (fs : Fs) (ctx : σ) : Fs × σ :=
  let r := cb (g.lba * ATA_SECTOR_SIZE) i (ata_read_sectors fs g.lba) fs ctx
  (ata_write_sectors r.1 g.lba g.sectors r.2.1, r.2.2)

theorem write_in_group_eq (cb : Callback σ) (g : Group) (fs : Fs) (ctx : σ) : write_in_group cb g fs ctx =
    match (List.range g.entries).find? fun i => fs.disk (g.slot i) = 0 ∨ fs.disk (g.slot i) = 0xE5 with
    | some i => write_in_slot cb g i fs ctx
    | none => (fs, ctx) := rfl

/-- もう何もしない `ctx`。 -/
def Done (cb : Callback σ) (ctx : σ) : Prop := ∀ base i buf fs, cb base i buf fs ctx = (fs, buf, ctx)

theorem ata_write_read (fs : Fs) (lba n : Nat) : ata_write_sectors fs lba n (ata_read_sectors fs lba) = fs := by
  have hdisk : (fun x => if lba * ATA_SECTOR_SIZE ≤ x ∧ x < (lba + n) * ATA_SECTOR_SIZE then
      ata_read_sectors fs lba (x - lba * ATA_SECTOR_SIZE) else fs.disk x) = fs.disk := by
    funext x
    split
    · next hx =>
        unfold ata_read_sectors
        congr 1
        omega
    · rfl
  unfold ata_write_sectors
  rw [hdisk]

theorem Done.group (h : Done cb ctx) (g : Group) (fs : Fs) : write_in_group cb g fs ctx = (fs, ctx) := by
  rw [write_in_group_eq]
  split
  · unfold write_in_slot
    rw [h]
    simp only [ata_write_read]
  · rfl

theorem Done.root (h : Done cb ctx) : ∀ (ss : List Nat) (fs : Fs),
    ss.foldl (fun (st : Fs × σ) s => write_in_group cb (root_group st.1 s) st.1 st.2) (fs, ctx) = (fs, ctx) := by
  intro ss
  induction ss with
  | nil => exact fun _ => rfl
  | cons s ss ih =>
      intro fs
      rw [List.foldl_cons, h.group]
      exact ih fs

theorem Done.chain (h : Done cb ctx) : ∀ (fuel cur : Nat) (pre rest : List Nat),
    Follows (fatNext fs) d (pre ++ rest) → Cursor cur rest → rest.length < fuel →
    write_in_chain cb fuel cur fs ctx = some (fs, ctx) := by
  intro fuel
  induction fuel with
  | zero =>
      intro cur pre rest _ _ hfuel
      omega
  | succ fuel ih =>
      intro cur pre rest hl hcur hfuel
      unfold write_in_chain
      rcases hcur with ⟨-, rfl⟩ | ⟨post, rfl, hne⟩
      · rfl
      · rw [if_pos hne, h.group]
        exact ih _ (pre ++ [cur]) post (by simpa using hl) (cursor_next hl) (by simpa using hfuel)

/-- 最初の空き項目で一度だけ `callback` を呼んだ結果。 -/
def write_in_room (cb : Callback σ) (gs : List Group) (fs : Fs) (ctx : σ) : Fs × σ :=
  match room fs.disk gs with
  | some (g, i) => write_in_slot cb g i fs ctx
  | none => (fs, ctx)

variable (honce : ∀ base i buf fs, Done cb (cb base i buf fs ctx).2.2)
include honce

theorem write_in_root_eq (fs : Fs) : ∀ ss : List Nat,
    ss.foldl (fun (st : Fs × σ) s => write_in_group cb (root_group st.1 s) st.1 st.2) (fs, ctx) =
      write_in_room cb (ss.map (root_group fs)) fs ctx := by
  intro ss
  induction ss with
  | nil => rfl
  | cons s ss ih =>
      rw [List.foldl_cons, write_in_group_eq]
      unfold write_in_room room
      rw [List.map_cons, List.findSome?_cons]
      dsimp only
      cases hf : (List.range (root_group fs s).entries).find? fun i =>
          fs.disk ((root_group fs s).slot i) = 0 ∨ fs.disk ((root_group fs s).slot i) = 0xE5 with
      | none => exact ih
      | some i => exact Done.root (honce _ _ _ _) ss _

/-- `callback` が表に加える変更は、ディレクトリの鎖を変えない。 -/
theorem write_in_chain_eq
    (hkeep : ∀ g i, Follows (fatNext fs) d l → Follows (fatNext (write_in_slot cb g i fs ctx).1) d l) :
    ∀ (fuel cur : Nat) (pre rest : List Nat), l = pre ++ rest → Follows (fatNext fs) d l → Cursor cur rest →
    rest.length < fuel →
    write_in_chain cb fuel cur fs ctx = some (write_in_room cb (rest.map (cluster_group fs)) fs ctx) := by
  intro fuel
  induction fuel with
  | zero =>
      intro cur pre rest _ _ _ hfuel
      omega
  | succ fuel ih =>
      intro cur pre rest heq hl hcur hfuel
      unfold write_in_chain
      rcases hcur with ⟨rfl, rfl⟩ | ⟨post, rfl, hne⟩
      · rfl
      simp only [List.length_cons] at hfuel
      rw [if_pos hne, write_in_group_eq]
      unfold write_in_room room
      rw [List.map_cons, List.findSome?_cons]
      dsimp only
      cases hf : (List.range (cluster_group fs cur).entries).find? fun i =>
          fs.disk ((cluster_group fs cur).slot i) = 0 ∨ fs.disk ((cluster_group fs cur).slot i) = 0xE5 with
      | none =>
          exact ih (fat12_get_fat_entry fs cur) (pre ++ [cur]) post (by simp [heq]) hl
            (cursor_next (heq ▸ hl)) (by omega)
      | some i =>
          have hl' := heq ▸ hkeep (cluster_group fs cur) i hl
          exact Done.chain (honce _ _ _ _) fuel _ (pre ++ [cur]) post (by simpa using hl')
            (cursor_next hl') (by omega)

theorem iterate_dir_write_eq (hg : Groups fs inode gs)
    (hkeep : inode ≠ FAT12_ROOT_INODE → ∀ g i l, Follows (fatNext fs) inode l →
      Follows (fatNext (write_in_slot cb g i fs ctx).1) inode l) :
    fat12_iterate_dir_write cb fs inode ctx = some (write_in_room cb gs fs ctx) := by
  unfold fat12_iterate_dir_write
  cases hg with
  | root => rw [if_pos rfl, write_in_root_eq honce]
  | @chain _ l hne hl hend hlen =>
      rw [if_neg hne]
      exact write_in_chain_eq honce (hkeep hne · · l) maxChain inode [] l rfl hl (Follows.cursor hl hend) hlen

end Iterate

/-! ## 項目を消す -/

theorem unlink_in_group_eq (hg : g.entries * 32 ≤ g.sectors * 512) : unlink_in_group fs g name =
    (update_slot fs.disk g name).map fun a => ({ fs with disk := store8 fs.disk a 0xE5 }, a) := by
  unfold unlink_in_group
  refine Option.map_congr (fun a ha => ?_)
  obtain ⟨i, hi, rfl, -⟩ := mem_live_slots.mp (List.mem_of_find?_eq_some ha)
  have hsub : g.slot i - g.lba * ATA_SECTOR_SIZE = i * sizeofDirEntry := by
    unfold Group.slot
    omega
  rw [hsub]
  unfold ata_write_sectors ata_read_sectors store8 Group.slot
  congr 2
  funext x
  unfold ATA_SECTOR_SIZE sizeofDirEntry
  split
  · next hx =>
      by_cases hxi : x = g.lba * 512 + i * 32
      · rw [if_pos (by omega), if_pos hxi]
      · rw [if_neg (by omega), if_neg hxi]
        dsimp only
        congr 1
        omega
  · next hx =>
      rw [if_neg]
      omega

/-- 消す項目。単位ごとに、0x00 の手前を探す。 -/
def unlink_target (m : ByteMem) (gs : List Group) (name : List UInt8) : Option Nat :=
  gs.findSome? fun g => update_slot m g name

theorem unlink_in_root_eq (hfit : ∀ g ∈ gs, g.entries * 32 ≤ g.sectors * 512) :
    (gs.findSome? fun g => unlink_in_group fs g name) =
      (unlink_target fs.disk gs name).map fun a => ({ fs with disk := store8 fs.disk a 0xE5 }, a) := by
  induction gs with
  | nil => rfl
  | cons g gs ih =>
      unfold unlink_target
      rw [List.findSome?_cons, List.findSome?_cons, unlink_in_group_eq (hfit g (by simp))]
      cases update_slot fs.disk g name with
      | none => exact ih (fun g hg => hfit g (by simp [hg]))
      | some a => rfl

theorem unlink_in_chain_eq : ∀ (fuel cur : Nat) (pre rest : List Nat), Follows (fatNext fs) d (pre ++ rest) →
    Cursor cur rest → rest.length < fuel → unlink_in_chain fs name fuel cur =
      some ((rest.map (cluster_group fs)).findSome? fun g => unlink_in_group fs g name) := by
  intro fuel
  induction fuel with
  | zero =>
      intro cur pre rest _ _ hfuel
      omega
  | succ fuel ih =>
      intro cur pre rest hl hcur hfuel
      unfold unlink_in_chain
      rcases hcur with ⟨rfl, rfl⟩ | ⟨post, rfl, hne⟩
      · rfl
      · rw [if_pos hne, List.map_cons, List.findSome?_cons]
        cases unlink_in_group fs (cluster_group fs cur) name with
        | none => exact ih _ (pre ++ [cur]) post (by simpa using hl) (cursor_next hl) (by simpa using hfuel)
        | some found => rfl

theorem unlink_in_dir_eq (hlay : Layout fs) (hg : Groups fs inode gs) : unlink_in_dir fs inode name =
    some ((unlink_target fs.disk gs name).map fun a => ({ fs with disk := store8 fs.disk a 0xE5 }, a)) := by
  rw [← unlink_in_root_eq (fun g hmem => hg.fits hlay hmem)]
  unfold unlink_in_dir
  cases hg with
  | root =>
      rw [if_pos rfl, List.findSome?_map]
      rfl
  | chain hne hl hend hlen =>
      rw [if_neg hne]
      exact unlink_in_chain_eq maxChain inode [] _ hl (Follows.cursor hl hend) hlen

/-- 見える同名の項目があれば、消す項目はそれである。 -/
theorem unlink_target_of_visible (h : (visible m gs).find? (matches_name m name) = some a) :
    unlink_target m gs name = some a := by
  induction gs with
  | nil => cases h
  | cons g gs ih =>
      unfold unlink_target
      rw [List.findSome?_cons]
      simp only [visible, List.find?_append] at h
      unfold update_slot
      cases hf : (live_slots m g).find? (matches_name m name) with
      | some b =>
          rw [hf] at h
          exact h
      | none =>
          rw [hf, Option.none_or] at h
          split at h
          · cases h
          · exact ih h

end MyOS.Fat
