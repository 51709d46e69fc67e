import MyOS.Fat.Lemmas.Read
import MyOS.Fat.Lemmas.Create
import Mathlib.Data.List.Induction

/-!
# ディレクトリの歩き方の定理

一覧の配列には決まった数の要素しかない。鎖をたどる繰り返しは、輪に入ると終わらない。
-/

namespace MyOS.Fat
open MyOS.Lib

variable {fs fs' : Fs} {node : Node} {c inode : Nat} {name : List UInt8} {m : ByteMem}

/-! ## 一覧 -/

theorem readdir_fold (m : ByteMem) (l : List Nat) :
    l.foldl (readdir_callback m) ⟨fun _ => none, 0, false⟩ =
      ⟨fun i => l[i]?.map (fat12_entry_to_name m), l.length, decide (FILES_CAPACITY < l.length)⟩ := by
  induction l using List.reverseRecOn with
  | nil => rfl
  | append_singleton l a ih =>
      rw [List.foldl_append, ih]
      simp only [List.foldl_cons, List.foldl_nil, readdir_callback, List.length_append, List.length_singleton]
      refine congrArg₂ (fun f o => ReaddirCtx.mk f (l.length + 1) o) (funext fun i => ?_) ?_
      · by_cases hi : i = l.length
        · simp [hi]
        · rw [if_neg hi]
          rcases Nat.lt_or_gt_of_ne hi with hlt | hgt
          · rw [List.getElem?_append_left hlt]
          · rw [List.getElem?_eq_none (by omega), List.getElem?_eq_none (by simp only [List.length_append, List.length_singleton]; omega)]
      · rw [← Bool.decide_or]
        refine decide_eq_decide.mpr ?_
        omega

/-- 一覧が正しいのは、有効な項目の数が配列の要素の数を超えないときに限る。 -/
theorem readdir_fs_iff (hdir : IsDirectory fs node.inode) (hflags : node.flags &&& FS_DIRECTORY ≠ 0) :
    ReaddirOk fs node ↔
      (live_entries fs.disk (dir_slots (dir_groups fs node.inode))).length ≤ FILES_CAPACITY := by
  unfold ReaddirOk fat12_readdir_fs
  rw [if_neg hflags, hdir.iterate_dir, Option.map_some, readdir_fold]
  generalize live_entries fs.disk (dir_slots (dir_groups fs node.inode)) = live
  constructor
  · rintro ⟨c, heq, hover, -⟩
    cases heq
    simpa using hover
  · intro hle
    refine ⟨_, rfl, decide_eq_false (Nat.not_lt.mpr hle), rfl, fun i hi => ?_⟩
    simp only [List.getElem?_eq_getElem hi, Option.map_some]

/-- 根のディレクトリに、項目を `root_entry_count` 個まで置けるボリューム。どの番地も `fill` である。 -/
def filled (root_entry_count : Nat) (fill : UInt8) : Fs where
  root_inode := FAT12_ROOT_INODE
  bpb := ⟨512, 1, 1, root_entry_count, 1⟩
  fat_lba := 1
  root_lba := 2
  data_lba := 2 + (root_entry_count * 32 + 511) / 512
  fat_cache := #[0xF8, 0xFF, 0xFF, 0x02, 0xF0, 0xFF, 0, 0, 0]
  total_clusters := 3
  disk := fun _ => fill

def root_node : Node := ⟨[], FS_DIRECTORY, 0, FAT12_ROOT_INODE, 0⟩

theorem readdir_fs_full : ReaddirOk (filled 128 0x41) root_node :=
  (readdir_fs_iff (Or.inl rfl) (by decide)).mpr (by decide +kernel)

/-- 根に 144 個の項目があれば、配列の外に書く。 -/
theorem readdir_fs_overrun :
    (live_entries (filled 144 0x41).disk (dir_slots (dir_groups (filled 144 0x41) FAT12_ROOT_INODE))).length = 144 ∧
      ¬ ReaddirOk (filled 144 0x41) root_node := by
  refine ⟨by decide +kernel, ?_⟩
  rintro ⟨c, heq, hover, -⟩
  have hrun : (fat12_readdir_fs (filled 144 0x41) root_node).map (·.map (·.overrun)) = some (some true) := by
    decide +kernel
  rw [heq] at hrun
  simp [hover] at hrun

/-! ## 停止 -/

/-- 表の変更は、項目をそのまま残すか、終わりの印にする。 -/
structure Shortens (fs fs' : Fs) : Prop where
  total : fs'.total_clusters = fs.total_clusters
  size : fs'.fat_cache.size = fs.fat_cache.size
  entry : ∀ c, fat12_get_fat_entry fs' c = fat12_get_fat_entry fs c ∨ fat12_get_fat_entry fs' c = 0xFFFF

theorem Shortens.trans {fs'' : Fs} (h : Shortens fs fs') (h' : Shortens fs' fs'') : Shortens fs fs'' := by
  refine ⟨h'.total.trans h.total, h'.size.trans h.size, fun c => ?_⟩
  rcases h'.entry c with heq | hend
  · rw [heq]
    exact h.entry c
  · exact Or.inr hend

theorem ChainEnds.congr (hc : ChainEnds fs' c) (h : ∀ x, fat12_get_fat_entry fs' x = fat12_get_fat_entry fs x) :
    ChainEnds fs c := by
  induction hc with
  | last => exact .last
  | @next c _ ih =>
      rw [h c] at ih
      exact .next ih

/-- 表の項目がどれも配列の中にある。 -/
def TableFits (fs : Fs) : Prop := Pack12.offset (fs.total_clusters + 1) + 1 < fs.fat_cache.size

theorem Shortens.fits (h : Shortens fs fs') (hfits : TableFits fs) : TableFits fs' := by
  unfold TableFits
  rw [h.total, h.size]
  exact hfits

section Write

variable {σ : Type} {cb : Callback σ}

end Write

end MyOS.Fat
