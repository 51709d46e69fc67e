import MyOS.Fat.Lemmas.Moves
import MyOS.Fat.Theorems

/-!
# 開いているノードへの書き込みの定理

ノードの項目が残り、ノードと一致していれば、書き込みはその項目の鎖の中に収まる。`fat12_unlink` は開いている
ノードを知らないので、消された後のノードへの書き込みは、空きクラスタやデータ領域の外に及ぶ。
-/

namespace MyOS.Fat
open MyOS.Lib

variable {fs fs' : Fs} {H H' D : Set Nat} {own : Nat → Nat} {hs : Set Handle} {a b c k size units total n : Nat}
  {h : Handle} {node node' : Node} {l ext log : List Nat} {v v' v₀ : Vol} {op : VolOp} {buffer : Option ByteMem}

/-! ## はじめのボリューム -/

/-- 整ったボリュームでは、ファイルの鎖の先頭にその項目が定まる。 -/
theorem Volume.ok (hv : Volume v.fs H v.dir_set) (hnone : ∀ k, v.handles k = none) : v.Ok := by
  classical
  let own : Nat → Nat := fun c =>
    if hex : ∃ a, FileAt v.fs v.dir_set a ∧ Entry.first_cluster v.fs.disk a = c then hex.choose else 0
  have hown : ∀ a, FileAt v.fs v.dir_set a → Entry.first_cluster v.fs.disk a ≠ 0 →
      own (Entry.first_cluster v.fs.disk a) = a := by
    intro a ha hne
    have hex : ∃ b, FileAt v.fs v.dir_set b ∧
        Entry.first_cluster v.fs.disk b = Entry.first_cluster v.fs.disk a := ⟨a, ha, rfl⟩
    have heq : own (Entry.first_cluster v.fs.disk a) = hex.choose := dif_pos hex
    obtain ⟨hb, hfc⟩ := hex.choose_spec
    rw [heq]
    exact hv.apart _ _ hb ha hfc (by rw [hfc]; exact hne)
  refine ⟨H, own, hv.fat, hv.layout, hv.dirs, fun a ha => ?_, hv.dir, ?_⟩
  · by_cases h0 : Entry.first_cluster v.fs.disk a = 0
    · exact Or.inl h0
    · exact Or.inr ⟨(hv.file a ha).resolve_left h0, hown a ha h0⟩
  · rintro h ⟨⟨k, hk⟩, -⟩
    rw [hnone k] at hk
    cases hk

/-- 書き込みが自身の項目だけを更新する実行では、不変条件が保たれる。 -/
theorem Vol.Ok.run {P : Fs → Handle → Nat → Prop} (hP : ∀ fs h n, P fs h n → UpdatesOwn fs h)
    (hrun : Steps Vol.step (WritesMeet P) v₀ v) (hok : v₀.Ok) : v.Ok := by
  refine hrun.inv (fun s e t hs hcond hstep => Vol.Ok.step hs ?_ hstep) hok
  cases e with
  | write k size units buffer => exact fun h hk => hP _ _ _ (hcond h hk)
  | _ => trivial

/-! ## 書いたクラスタ -/

/-- クラスタ `c` は項目 `a` の鎖にあり、空きでも、データ領域の外でも、ほかのファイルやディレクトリのものでもない。 -/
structure OwnCluster (v : Vol) (a c : Nat) : Prop where
  entry : FileAt v.fs v.dir_set a
  chain : ∃ l, Follows (fatNext v.fs) (Entry.first_cluster v.fs.disk a) l ∧ c ∈ l
  inRange : InRange v.fs c
  used : fat_entry_raw v.fs c ≠ 0
  file : ∀ b, FileAt v.fs v.dir_set b → b ≠ a → Entry.first_cluster v.fs.disk b ≠ 0 →
    ∀ l, Follows (fatNext v.fs) (Entry.first_cluster v.fs.disk b) l → c ∉ l
  dir : ∀ d ∈ v.dirs, ∀ l, Follows (fatNext v.fs) d l → c ∉ l

/-- 鎖の中のクラスタは、その持ち主の項目だけのものである。 -/
theorem Tracked.ownCluster (hT : Tracked v.fs H v.dir_set own hs) (ha : FileAt v.fs v.dir_set a)
    (hne : Entry.first_cluster v.fs.disk a ≠ 0) (hl : Follows (fatNext v.fs) (Entry.first_cluster v.fs.disk a) l)
    (hc : c ∈ l) : OwnCluster v a c := by
  obtain ⟨hmem, hown⟩ := (hT.file a ha).resolve_left hne
  refine ⟨ha, ⟨l, hl, hc⟩, hT.fat.chains.dom_of_mem hmem.1 hl hc, hT.fat.entry_ne_zero hmem.1 hl hc,
    fun b hb hba hb0 l' hl' hc' => ?_, fun d hd l' hl' hc' => ?_⟩
  · obtain ⟨hmem', hown'⟩ := (hT.file b hb).resolve_left hb0
    have heq := hT.fat.chains.disjoint _ hmem'.1 _ hmem.1 l' l c hl' hl hc' hc
    exact hba (hown'.symm.trans (heq ▸ hown))
  · have heq := hT.fat.chains.disjoint d (hT.dirs hd) _ hmem.1 l' l c hl' hl hc' hc
    exact hmem.2 (heq ▸ hd)

/-- 書いた後の項目は、書いたノードの鎖を指す。 -/
theorem Wrote.synced (hw : Wrote fs fs' H H' D h.node node' total n l ext log) (ha : IsSlot fs D h.slot)
    (hs : InSync fs h) : Entry.first_cluster fs'.disk h.slot = node'.inode := by
  obtain ⟨⟨-, ht | ht⟩, hin⟩ := hs
  · exact hw.first_cluster ha ht
  · rcases hin with ⟨-, ht'⟩ | ⟨hne, hfc⟩
    · rw [ht] at ht'
      cases ht'
    · rw [hw.first_cluster_old ha ht, hfc, hw.old hne]

/-- 自身の項目と一致するノードへの書き込みだけの実行では、どの書き込みも、書くクラスタのすべてが、
そのファイルの有効な項目の鎖にある。 -/
theorem write_own_clusters (hv : Volume v₀.fs H v₀.dir_set) (hnone : ∀ k, v₀.handles k = none)
    (hrun : Steps Vol.step (WritesMeet fun fs h _ => InSync fs h) v₀ v)
    (hsync : WritesMeet (fun fs h _ => InSync fs h) v (.write k size units buffer)) (hk : v.handles k = some h)
    (hstep : v.step (.write k size units buffer) = some v') :
    ∀ c ∈ fat12_write_log v.fs h.node size units buffer, OwnCluster v' h.slot c := by
  obtain ⟨H, own, hT⟩ := (hv.ok hnone).run (fun _ _ _ hs => hs.1) hrun
  have hs := hsync h hk
  intro c hc
  obtain ⟨hlive, ⟨-, hnil, -⟩ | ⟨-, fs', H', node', n, l, ext, -, rfl, hw⟩⟩ := write_step hT hk hs.1.1 hstep
  · rw [hnil] at hc
    cases hc
  · have hok := hT.handle h hlive
    obtain ⟨own', hT'⟩ := hT.write hok hs.1 hw
    have hfc := hw.synced hok.entry.1 hs
    have hne : node'.inode ≠ 0 := by
      have := (hw.fat.chains.dom_of_mem hw.inode.1 hw.after hw.after.mem_head).1
      omega
    have hat : FileAt fs' v.dir_set h.slot := (hT'.handle _ (Set.mem_insert _ _)).entry
    exact Tracked.ownCluster (v := ({ v with fs := fs' } : Vol).set_node k h node') hT' hat
      (fun h0 => hne (hfc.symm.trans h0)) (hfc.symm ▸ hw.after) (hw.log c hc)

/-! ## 空のボリューム -/

/-- 空きクラスタだけで、項目のないボリューム。 -/
theorem Volume.of_free (hlay : Layout fs) (hb : fs.total_clusters + 2 ≤ 0xFF7)
    (hc : Pack12.offset (fs.total_clusters + 1) + 1 < fs.fat_cache.size)
    (hfree : ∀ c, InRange fs c → fat12_get_fat_entry fs c = 0) (hroot : ∀ a, IsSlot fs ∅ a → fs.disk a = 0) :
    Volume fs ∅ ∅ := by
  refine ⟨⟨hb, hc, ⟨fun c hc => absurd hc (Set.notMem_empty c), fun c hc => absurd hc (Set.notMem_empty c)⟩,
    fun c hc hne => absurd (hfree c hc) hne⟩, hlay, Set.Subset.rfl, fun a ha => ?_, fun a ha => ?_,
    fun a _ ha => ?_⟩
  · exact absurd (hroot a ha.1) ha.2.1.1
  · exact absurd (hroot a ha.1) ha.2.1.1
  · exact absurd (hroot a ha.1) ha.2.1.1

/-- 四つのクラスタと二つの表を持つ空のディスク。 -/
def blankFs : Fs where
  root_inode := FAT12_ROOT_INODE
  bpb := ⟨512, 1, 2, 16, 1⟩
  fat_lba := 1
  root_lba := 3
  data_lba := 4
  fat_cache := #[0xF0, 0xFF, 0xFF, 0, 0, 0, 0, 0, 0]
  total_clusters := 4
  disk := fun x => if 512 ≤ x ∧ x < 1536 then #[0xF0, 0xFF, 0xFF].getD (x % 512) 0 else 0

def blank : Vol := ⟨blankFs, [], fun _ => none⟩

theorem blank_volume : Volume blank.fs ∅ blank.dir_set := by
  have hdirs : blank.dir_set = ∅ := by
    ext d
    simp [Vol.dir_set, blank]
  have hfree : ∀ c < 6, 2 ≤ c → fat12_get_fat_entry blankFs c = 0 := by decide +kernel
  rw [hdirs]
  refine .of_free ⟨rfl, rfl, by decide, rfl, rfl, by decide⟩ (by decide) (by decide)
    (fun c hc => hfree c hc.2 hc.1) ?_
  rintro a (⟨s, hs, i, hi, rfl⟩ | ⟨c, ⟨d, hd, -⟩, -⟩)
  · have hge : 1536 ≤ (root_group blank.fs s).slot i := by
      simp only [Group.slot, root_group, blank, blankFs, ATA_SECTOR_SIZE, sizeofDirEntry]
      omega
    exact if_neg (by omega)
  · exact absurd hd (Set.notMem_empty d)

/-! ## 消されたファイルへの書き込み -/

def letterA : List UInt8 := [0x41]
def letterX : Option ByteMem := some fun _ => 0x58

/-- 番号 0 のノードへの 600 バイトの書き込みは、`log` のクラスタに書く。 -/
def WritesTo (v : Vol) (unlinked : Bool) (log : List Nat) : Prop :=
  ∃ h ∈ v.handles 0, h.unlinked = unlinked ∧ fat12_write_log v.fs h.node 600 1 letterX = log ∧
    ∃ v' ∈ v.step (.write 0 600 1 letterX), fat_entry_raw v'.fs 2 = if unlinked then 0 else 3

instance (v : Vol) (unlinked : Bool) (log : List Nat) : Decidable (WritesTo v unlinked log) :=
  inferInstanceAs (Decidable (∃ h ∈ v.handles 0, _))

/-- ファイルを作って 600 バイト書き、先頭に戻す。 -/
def written_ops : Trace (checked Vol.step (fun v op => decide (WritesMeet (fun fs h _ => InSync fs h) v op)) blank)
    (fun v => WritesTo v false [2, 3] ∧ ∀ h ∈ v.handles 0, InSync v.fs h) :=
  ⟨[.create 0 FAT12_ROOT_INODE letterA, .write 0 600 1 letterX, .seek 0 0 0], by decide +kernel⟩

/-- 書いた後で消し、先頭に戻す。 -/
def unlinked_ops : Trace (exec Vol.step blank) (fun v => WritesTo v true [2, 0]) :=
  ⟨[.create 0 FAT12_ROOT_INODE letterA, .write 0 600 1 letterX, .unlink FAT12_ROOT_INODE letterA, .seek 0 0 0],
    by decide +kernel⟩

theorem write_own_clusters_blank : ∃ v v' h, Steps Vol.step (WritesMeet fun fs h _ => InSync fs h) blank v ∧
    v.handles 0 = some h ∧ fat12_write_log v.fs h.node 600 1 letterX = [2, 3] ∧
    v.step (.write 0 600 1 letterX) = some v' ∧ OwnCluster v' h.slot 2 ∧ OwnCluster v' h.slot 3 := by
  obtain ⟨v, hrun, ⟨h, hk, -, hlog, v', hstep, -⟩, hsync⟩ :=
    written_ops.steps_checked (fun _ _ hc => of_decide_eq_true hc)
  have hown := write_own_clusters blank_volume (fun _ => rfl) hrun hsync hk hstep
  rw [hlog] at hown
  exact ⟨v, v', h, hrun, hk, hlog, hstep, hown 2 (by simp), hown 3 (by simp)⟩

/-- 消されたファイルのノードへの書き込みは、空きクラスタ 2 と、データ領域の外のクラスタ 0 に及ぶ。 -/
theorem write_unlinked_escapes : ∃ v v' h, Steps Vol.step (fun _ _ => True) blank v ∧
    v.handles 0 = some h ∧ h.unlinked = true ∧ fat12_write_log v.fs h.node 600 1 letterX = [2, 0] ∧
    v.step (.write 0 600 1 letterX) = some v' ∧ fat_entry_raw v'.fs 2 = 0 ∧ ¬ InRange v'.fs 0 ∧
    ¬ ∀ c ∈ fat12_write_log v.fs h.node 600 1 letterX, OwnCluster v' h.slot c := by
  obtain ⟨v, hrun, h, hk, hun, hlog, v', hstep, hz⟩ := unlinked_ops.steps
  have hout : ¬ InRange v'.fs 0 := fun hr => absurd hr.1 (by decide)
  refine ⟨v, v', h, hrun, hk, hun, hlog, hstep, hz, hout, fun hall => ?_⟩
  exact hout (hall 0 (by rw [hlog]; simp)).inRange

end MyOS.Fat
