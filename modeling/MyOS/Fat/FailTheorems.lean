import MyOS.Fat.Effects
import MyOS.Fat.Lemmas.Data
import MyOS.Fat.Lemmas.Mkdir
import MyOS.Fat.OpenTheorems

/-!
# 失敗の定理

NULL や −1 を返す呼び出しは、空きクラスタの中身のほかには何も変えない。
-/

namespace MyOS.Fat
open MyOS.Lib

variable {fs fs' : Fs} {H : Set Nat} {c d parent : Nat} {l : List Nat} {dir : Node} {name : List UInt8}

/-! ## 空き項目がないとき -/

section Iterate

variable {σ : Type} {cb : Callback (Option σ)} (hset : ∀ base i buf fs ctx, (cb base i buf fs ctx).2.2 ≠ none)
include hset

theorem write_in_group_none {g : Group} {fs : Fs} {ctx : Option σ} (h : (write_in_group cb g fs ctx).2 = none) :
    (write_in_group cb g fs ctx).1 = fs ∧ ctx = none := by
  rw [write_in_group_eq] at h ⊢
  split at h
  · exact absurd h (hset _ _ _ _ _)
  · exact ⟨rfl, h⟩

theorem write_in_chain_none : ∀ (fuel c : Nat) (fs : Fs) (ctx : Option σ), write_in_chain cb fuel c fs ctx = some (fs', none) →
    fs' = fs ∧ ctx = none := by
  intro fuel
  induction fuel with
  | zero =>
      intro c fs ctx h
      cases h
  | succ fuel ih =>
      intro c fs ctx h
      unfold write_in_chain at h
      split at h
      · have hrec : fs' = (write_in_group cb (cluster_group fs c) fs ctx).1 ∧
            (write_in_group cb (cluster_group fs c) fs ctx).2 = none := ih _ _ _ h
        obtain ⟨hfs, hctx⟩ := write_in_group_none hset hrec.2
        exact ⟨hrec.1.trans hfs, hctx⟩
      · cases h
        exact ⟨rfl, rfl⟩

theorem write_in_root_none : ∀ (ss : List Nat) (fs : Fs) (ctx : Option σ),
    ss.foldl (fun (st : Fs × Option σ) s => write_in_group cb (root_group st.1 s) st.1 st.2) (fs, ctx) = (fs', none) →
    fs' = fs ∧ ctx = none := by
  intro ss
  induction ss with
  | nil =>
      intro fs ctx h
      cases h
      exact ⟨rfl, rfl⟩
  | cons s ss ih =>
      intro fs ctx h
      have hrec : fs' = (write_in_group cb (root_group fs s) fs ctx).1 ∧
          (write_in_group cb (root_group fs s) fs ctx).2 = none := ih _ _ h
      obtain ⟨hfs, hctx⟩ := write_in_group_none hset hrec.2
      exact ⟨hrec.1.trans hfs, hctx⟩

/-- 一度も `callback` を呼ばなければ、何も変わらない。 -/
theorem iterate_dir_write_none {inode : Nat} (h : fat12_iterate_dir_write cb fs inode none = some (fs', none)) : fs' = fs := by
  unfold fat12_iterate_dir_write at h
  split at h
  · exact (write_in_root_none hset _ _ _ (Option.some.inj h)).1
  · exact (write_in_chain_none hset _ _ _ _ h).1

end Iterate

theorem create_file_none (h : fat12_create_file fs dir name = some (fs', none)) : fs' = fs := by
  obtain ⟨found, -, h⟩ := Option.bind_eq_some_iff.mp h
  cases found with
  | some x => cases h
  | none =>
      dsimp only [create_in_dir] at h
      refine iterate_dir_write_none (fun base i buf fs ctx => ?_) h
      cases ctx <;> exact Option.some_ne_none _

theorem unlink_none (h : fat12_unlink fs dir name = some (fs', none)) : fs' = fs := by
  unfold fat12_unlink at h
  split at h
  · cases h
    rfl
  · obtain ⟨found, -, h⟩ := Option.bind_eq_some_iff.mp h
    cases found with
    | none =>
        cases h
        rfl
    | some x =>
        simp only at h
        split at h
        · cases h
          rfl
        · obtain ⟨gone, -, h⟩ := Option.bind_eq_some_iff.mp h
          cases gone with
          | none =>
              cases h
              rfl
          | some r =>
              obtain ⟨fs₁, -, heq⟩ := Option.map_eq_some_iff.mp h
              cases heq

/-- 失敗した `fat12_mkdir` は、何もしないか、確保したクラスタに書いて解放する。 -/
theorem mkdir_none (h : fat12_mkdir fs dir name = some (fs', none)) :
    fs' = fs ∨ ∃ c, InRange fs c ∧ fat_entry_raw fs c = 0 ∧
      fat12_free_cluster_chain (mkdir_fs fs c dir.inode) c = some fs' := by
  unfold fat12_mkdir at h
  split at h
  · cases h
    exact Or.inl rfl
  · obtain ⟨found, -, h⟩ := Option.bind_eq_some_iff.mp h
    cases found with
    | some x =>
        cases h
        exact Or.inl rfl
    | none =>
        rcases allocate_cluster_cases fs with ⟨c, halloc, hr, hfree⟩ | ⟨halloc, -⟩
        · right
          have hc0 : c ≠ 0 := by
            have := hr.1
            omega
          simp only [halloc, if_neg hc0] at h
          obtain ⟨⟨fs₁, made⟩, hwrite, h⟩ := Option.bind_eq_some_iff.mp h
          cases made with
          | some slot => cases h
          | none =>
              have hfs : fs₁ = mkdir_fs fs c dir.inode := iterate_dir_write_none (fun base i buf fs ctx => by
                cases ctx <;> exact Option.some_ne_none _) hwrite
              obtain ⟨fs₂, hrun, heq⟩ := Option.map_eq_some_iff.mp h
              cases heq
              exact ⟨c, hr, hfree, hfs ▸ hrun⟩
        · left
          simp only [halloc, if_true] at h
          cases h
          rfl

/-! ## 戻した後の状態 -/

theorem fat_cache_ext (hsize : fs'.fat_cache.size = fs.fat_cache.size) (hbytes : cacheByte fs' = cacheByte fs) :
    fs'.fat_cache = fs.fat_cache := by
  refine Array.ext hsize fun i hi hi' => ?_
  have hbyte := congrFun hbytes i
  unfold cacheByte at hbyte
  rwa [Array.getD_eq_getD_getElem?, Array.getElem?_eq_getElem hi, Array.getD_eq_getD_getElem?,
    Array.getElem?_eq_getElem hi'] at hbyte

theorem VolumeKept.refl (fs : Fs) (H : Set Nat) : VolumeKept fs fs H :=
  ⟨rfl, fun _ _ => rfl, fun _ _ _ => rfl, fun _ _ _ _ _ _ _ _ => rfl⟩

/-- 空きクラスタの中身だけが変わっても、ボリュームは同じである。 -/
theorem VolumeKept.of_free (hok : FatOk fs H) (hlay : Layout fs) (hr : InRange fs c) (hfree : fat_entry_raw fs c = 0)
    (hcache : fs'.fat_cache = fs.fat_cache) (hdisk : ∀ x, ¬ InCluster fs c x → fs'.disk x = fs.disk x) :
    VolumeKept fs fs' H := by
  have hdata : ∀ x, InCluster fs c x → fs.data_lba * ATA_SECTOR_SIZE ≤ x := by
    rintro x ⟨hlo, -⟩
    rw [hlay.cluster_to_lba hr, Nat.add_mul] at hlo
    omega
  have hroot : fs.root_lba * ATA_SECTOR_SIZE ≤ fs.data_lba * ATA_SECTOR_SIZE :=
    Nat.mul_le_mul_right _ (by rw [hlay.data_lba]; omega)
  refine ⟨hcache, fun x hx => hdisk x fun hin => ?_, fun x _ hx => hdisk x fun hin => ?_, fun h hh l hl d hd x hin =>
    hdisk x fun hin' => ?_⟩
  · have := hdata x hin
    omega
  · have := hdata x hin
    omega
  · have heq := hlay.inCluster_unique (hok.chains.dom_of_mem hh hl hd) hr hin hin'
    exact hok.entry_ne_zero hh hl hd (heq ▸ hfree)

/-- 確保して書いたクラスタを解放すると、その中身だけが変わっている。 -/
theorem mkdir_returned (hok : FatOk fs H) (hlay : Layout fs) (hr : InRange fs c) (hfree : fat_entry_raw fs c = 0)
    (hrun : fat12_free_cluster_chain (mkdir_fs fs c parent) c = some fs') : VolumeKept fs fs' H := by
  have hok' : FatOk (mkdir_fs fs c parent) (insert c H) := fat12_write_cluster_ok (hok.allocate hr hfree)
  have hl : Follows (fatNext (mkdir_fs fs c parent)) c [c] := by
    refine .last ?_
    rw [mkdir_fs_next]
    exact fatNext_of_raw_end (fat_entry_raw_set_self (hok.in_cache hr) (by decide))
  obtain ⟨disk, heq, hdisk, -⟩ := mkdir_fs_eq fs c parent
  refine .of_free hok hlay hr hfree (fat_cache_ext ?_ (free_one_cache hl hr hfree hok hok' hrun)) fun x hx => ?_
  · obtain ⟨fs₁, l, hrun', -, -, hsame, -⟩ := free_cluster_chain_spec hok' (Set.mem_insert c H)
    cases hrun.symm.trans hrun'
    have hset : (fat12_set_fat_entry fs c 0xFFF).fat_cache.size = fs.fat_cache.size := fat_cache_size_set
    rw [hsame.size, heq]
    exact hset
  · rw [free_cluster_loop_disk _ _ _ hrun, heq]
    exact hdisk x hx

/-- NULL や −1 を返した呼び出しの後も、表、表の写し、すべてのディレクトリとファイルの内容が同じである。 -/
theorem failed_kept (hok : FatOk fs H) (hlay : Layout fs) (h : Failed fs dir name fs') : VolumeKept fs fs' H := by
  rcases h with h | h | h
  · rw [create_file_none h]
    exact .refl fs H
  · rcases mkdir_none h with rfl | ⟨c, hr, hfree, hrun⟩
    · exact .refl fs' H
    · exact mkdir_returned hok hlay hr hfree hrun
  · rw [unlink_none h]
    exact .refl fs H

/-- 根に空き項目のないボリューム。 -/
def crowded : Fs := { blankFs with disk := fun _ => 0x41 }

theorem failed_kept_crowded : ∃ fs', Failed crowded (dir_node FAT12_ROOT_INODE) [0x58] fs' ∧ VolumeKept crowded fs' ∅ := by
  have hrun : (fat12_mkdir crowded (dir_node FAT12_ROOT_INODE) [0x58]).map Prod.snd = some none := by decide +kernel
  obtain ⟨⟨fs', made⟩, hmk, hnone⟩ := Option.map_eq_some_iff.mp hrun
  cases hnone
  have hfail : Failed crowded (dir_node FAT12_ROOT_INODE) [0x58] fs' := Or.inr (Or.inl hmk)
  have hfat : FatOk blankFs ∅ := blank_volume.fat
  have hlay : Layout blankFs := blank_volume.layout
  have hok : FatOk crowded ∅ := hfat.disk
  have hlay' : Layout crowded := hlay.disk _
  exact ⟨fs', hfail, failed_kept hok hlay' hfail⟩

end MyOS.Fat
