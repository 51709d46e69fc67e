import MyOS.Fat.Invariant
import MyOS.Fat.Lemmas.Table

/-!
# 鎖の確保、延長、解放
-/

namespace MyOS.Fat
open MyOS.Lib Pack12

variable {fs fs' fs'' : Fs} {H : Set Nat} {c d h cur : Nat} {l l' pre post ext : List Nat}

/-! ## 次のクラスタ -/

theorem fatNext_eq_none : fatNext fs c = none ↔ fat12_get_fat_entry fs c = 0xFFFF := by
  simp [fatNext]

theorem fatNext_eq_some : fatNext fs c = some d ↔ fat12_get_fat_entry fs c = d ∧ d ≠ 0xFFFF := by
  unfold fatNext
  split
  · next h =>
      simp only [reduceCtorEq, false_iff]
      rintro ⟨rfl, hne⟩
      exact hne h
  · next h =>
      simp only [Option.some.injEq]
      constructor
      · rintro rfl
        exact ⟨rfl, h⟩
      · exact fun h' => h'.1

theorem fatNext_congr (h : fat_entry_raw fs' c = fat_entry_raw fs c) : fatNext fs' c = fatNext fs c := by
  unfold fatNext
  rw [get_fat_entry_congr h]

theorem fatNext_of_raw_end (h : fat_entry_raw fs c = 0xFFF) : fatNext fs c = none := by
  rw [fatNext_eq_none, get_fat_entry_eq, h]
  rfl

theorem fatNext_of_raw_link (h : fat_entry_raw fs c = UInt16.ofNat d) (hd : d < 0xFF7) :
    fatNext fs c = some d := by
  have hto : (UInt16.ofNat d).toNat = d := by
    rw [UInt16.toNat_ofNat']
    omega
  rw [fatNext_eq_some, get_fat_entry_eq, h, hto]
  exact ⟨if_neg (by omega), by omega⟩

/-- 鎖の中の項目は 0 ではない。 -/
theorem ChainOk.entry_ne_zero (hok : ChainOk fs h l) (hc : c ∈ l) : fat_entry_raw fs c ≠ 0 := by
  intro hzero
  have hget := get_fat_entry_eq_zero.mpr hzero
  have hl := hok.follows
  obtain ⟨l₁, l₂, rfl⟩ := List.append_of_mem hc
  cases l₂ with
  | nil =>
      have hnone := fatNext_eq_none.mp (hl.next_eq_none_iff.mpr rfl)
      omega
  | cons d l₂ =>
      have hsome := fatNext_eq_some.mp hl.next_eq_some
      have hd := hok.range d (by simp)
      have := hd.1
      omega

theorem FatOk.chainOk (hok : FatOk fs H) (hh : h ∈ H) (hl : Follows (fatNext fs) h l) : ChainOk fs h l :=
  ⟨hok.bound, hok.cache, hl, fun _ hc => hok.chains.dom_of_mem hh hl hc⟩

theorem FatOk.entry_ne_zero (hok : FatOk fs H) (hh : h ∈ H) (hl : Follows (fatNext fs) h l)
    (hc : c ∈ l) : fat_entry_raw fs c ≠ 0 :=
  (hok.chainOk hh hl).entry_ne_zero hc

theorem FatOk.not_owned_of_free (hok : FatOk fs H) (hc : fat_entry_raw fs c = 0) :
    ¬ Owned (fatNext fs) H c := by
  rintro ⟨h, hh, l, hl, hmem⟩
  exact hok.entry_ne_zero hh hl hmem hc

theorem InRange.in_cache (hc : InRange fs c) (hcache : offset (fs.total_clusters + 1) + 1 < fs.fat_cache.size) :
    offset c + 1 < fs.fat_cache.size := by
  have h2 := hc.2
  unfold offset at hcache ⊢
  omega

theorem FatOk.in_cache (hok : FatOk fs H) (hc : InRange fs c) : offset c + 1 < fs.fat_cache.size :=
  hc.in_cache hok.cache

theorem FatOk.total_lt_maxChain (hok : FatOk fs H) : fs.total_clusters < maxChain := by
  have := hok.bound
  unfold maxChain
  omega

theorem FatOk.length_le (hok : FatOk fs H) (hh : h ∈ H) (hl : Follows (fatNext fs) h l) :
    l.length ≤ fs.total_clusters := by
  refine hl.length_le (k := 2) (fun x hx => ?_)
  have := hok.chains.dom_of_mem hh hl hx
  exact ⟨this.1, by have := this.2; omega⟩

theorem FatOk.disk {disk : ByteMem} (hok : FatOk fs H) : FatOk { fs with disk := disk } H :=
  ⟨hok.bound, hok.cache, hok.chains, hok.owned⟩

/-! ## 項目の外の不変性 -/

theorem SameOutside.refl (fs : Fs) (l : List Nat) : SameOutside fs fs l :=
  ⟨rfl, rfl, rfl, rfl, rfl, rfl, rfl, fun _ _ => rfl, fun _ _ => rfl⟩

theorem SameOutside.inRange (h : SameOutside fs fs' l) : InRange fs' c ↔ InRange fs c := by
  unfold InRange
  rw [h.total_clusters]

theorem SameOutside.cluster_to_lba (h : SameOutside fs fs' l) :
    fat12_cluster_to_lba fs' c = fat12_cluster_to_lba fs c := by
  unfold fat12_cluster_to_lba
  rw [h.data_lba, h.bpb]

theorem SameOutside.inCluster {x : Nat} (h : SameOutside fs fs' l) : InCluster fs' c x ↔ InCluster fs c x := by
  unfold InCluster
  rw [h.cluster_to_lba, h.bpb]

theorem SameOutside.bytes_per_cluster (h : SameOutside fs fs' l) :
    bytes_per_cluster fs' = bytes_per_cluster fs := by
  unfold MyOS.Fat.bytes_per_cluster
  rw [h.bpb]

theorem SameOutside.trans (h : SameOutside fs fs' l) (h' : SameOutside fs' fs'' l) :
    SameOutside fs fs'' l where
  root_inode := h'.root_inode.trans h.root_inode
  bpb := h'.bpb.trans h.bpb
  fat_lba := h'.fat_lba.trans h.fat_lba
  root_lba := h'.root_lba.trans h.root_lba
  total_clusters := h'.total_clusters.trans h.total_clusters
  data_lba := h'.data_lba.trans h.data_lba
  size := h'.size.trans h.size
  entry c hc := (h'.entry c hc).trans (h.entry c hc)
  disk x hx := (h'.disk x fun c hc => mt h.inCluster.mp (hx c hc)).trans (h.disk x hx)

theorem SameOutside.mono (h : SameOutside fs fs' l) (hsub : l ⊆ l') : SameOutside fs fs' l' :=
  { h with
    entry := fun c hc => h.entry c (fun hc' => hc (hsub hc'))
    disk := fun x hx => h.disk x (fun c hc => hx c (hsub hc)) }

theorem SameOutside.set {v : UInt16} (hc : offset c + 1 < fs.fat_cache.size) :
    SameOutside fs (fat12_set_fat_entry fs c v) [c] :=
  { SameOutside.refl fs [] with
    size := fat_cache_size_set
    entry := fun _ hd => fat_entry_raw_set_of_ne hc (by simpa using hd)
    disk := fun _ _ => rfl }

theorem SameOutside.of_disk {disk : ByteMem}
    (h : ∀ x, (∀ c ∈ l, ¬ InCluster fs c x) → disk x = fs.disk x) : SameOutside fs { fs with disk := disk } l :=
  ⟨rfl, rfl, rfl, rfl, rfl, rfl, rfl, fun _ _ => rfl, h⟩

theorem SameOutside.fatNext (h : SameOutside fs fs' l) (hc : c ∉ l) : fatNext fs' c = fatNext fs c :=
  fatNext_congr (h.entry c hc)

/-! ## 不変条件の組み立て

残る始点の集合を `K` とし、`K` の鎖の外の項目 `l` だけが変わったとする。 -/

section Rebuild

variable {K : Set Nat} (hok : FatOk fs H) (hK : K ⊆ H) (hsame : SameOutside fs fs' l)
  (hl : ∀ c ∈ l, ¬ Owned (fatNext fs) K c)
include hok hK hsame hl

omit hok hK in
theorem FatOk.next_kept (hc : Owned (fatNext fs) K c) : fatNext fs' c = fatNext fs c :=
  hsame.fatNext (fun hmem => hl c hmem hc)

theorem FatOk.chains_kept : ChainSet (fatNext fs') K (InRange fs') := by
  have hr : InRange fs' = InRange fs := funext fun c => propext hsame.inRange
  rw [hr]
  exact (hok.chains.mono hK).congr (fun c hc => FatOk.next_kept hsame hl hc)

theorem FatOk.owned_kept : Owned (fatNext fs') K c ↔ Owned (fatNext fs) K c :=
  (hok.chains.mono hK).owned_congr (fun _ hc => FatOk.next_kept hsame hl hc)

theorem FatOk.owned_outside (hold : ∀ c, c ∉ l → Owned (fatNext fs) H c → Owned (fatNext fs) K c)
    (hr : InRange fs' c) (hc : c ∉ l) (hne : fat12_get_fat_entry fs' c ≠ 0) :
    Owned (fatNext fs') K c ∨ fat_entry_raw fs' c = 0xFF7 := by
  have hent := hsame.entry c hc
  rw [get_fat_entry_congr hent] at hne
  rw [hent, hok.owned_kept hK hsame hl]
  rcases hok.owned c (hsame.inRange.mp hr) hne with ho | hbad
  · exact Or.inl (hold c hc ho)
  · exact Or.inr hbad

theorem FatOk.erase (hold : ∀ c, c ∉ l → Owned (fatNext fs) H c → Owned (fatNext fs) K c)
    (hzero : ∀ c ∈ l, fat_entry_raw fs' c = 0) : FatOk fs' K := by
  refine ⟨?_, ?_, hok.chains_kept hK hsame hl, fun c hr hne => ?_⟩
  · rw [hsame.total_clusters]
    exact hok.bound
  · rw [hsame.total_clusters, hsame.size]
    exact hok.cache
  · by_cases hc : c ∈ l
    · exact absurd (get_fat_entry_eq_zero.mpr (hzero c hc)) hne
    · exact hok.owned_outside hK hsame hl hold hr hc hne

theorem FatOk.insert (hold : ∀ c, c ∉ l → Owned (fatNext fs) H c → Owned (fatNext fs) K c)
    (hfol : Follows (fatNext fs') h l) (hd : ∀ c ∈ l, InRange fs c) : FatOk fs' (insert h K) := by
  refine ⟨?_, ?_, ?_, fun c hr hne => ?_⟩
  · rw [hsame.total_clusters]
    exact hok.bound
  · rw [hsame.total_clusters, hsame.size]
    exact hok.cache
  · refine (hok.chains_kept hK hsame hl).insert hfol (fun c hc => hsame.inRange.mpr (hd c hc)) ?_
    intro c hc ho
    exact hl c hc ((hok.owned_kept hK hsame hl).mp ho)
  · rw [Owned.insert_iff hfol]
    by_cases hc : c ∈ l
    · exact Or.inl (Or.inl hc)
    · rcases hok.owned_outside hK hsame hl hold hr hc hne with ho | hbad
      · exact Or.inl (Or.inr ho)
      · exact Or.inr hbad

end Rebuild

/-! ## 確保 -/

theorem allocate_cluster_cases (fs : Fs) :
    (∃ c, fat12_allocate_cluster fs = (fat12_set_fat_entry fs c 0xFFF, c) ∧ InRange fs c ∧
      fat_entry_raw fs c = 0) ∨
    fat12_allocate_cluster fs = (fs, 0) ∧ ∀ c, InRange fs c → fat_entry_raw fs c ≠ 0 := by
  unfold fat12_allocate_cluster
  split
  · next c hc =>
      refine Or.inl ⟨c, rfl, ?_, ?_⟩
      · have hmem := List.mem_range'_1.mp (List.mem_of_find?_eq_some hc)
        exact ⟨hmem.1, by omega⟩
      · have := List.find?_some hc
        exact get_fat_entry_eq_zero.mp (by simpa using this)
  · next hnone =>
      refine Or.inr ⟨rfl, fun c hc hzero => ?_⟩
      rw [List.find?_eq_none] at hnone
      refine hnone c (List.mem_range'_1.mpr ⟨hc.1, by have := hc.2; omega⟩) ?_
      simpa using get_fat_entry_eq_zero.mpr hzero

theorem FatOk.allocate (hok : FatOk fs H) (hc : InRange fs c) (hfree : fat_entry_raw fs c = 0) :
    FatOk (fat12_set_fat_entry fs c 0xFFF) (Insert.insert c H) := by
  have hcache := hok.in_cache hc
  refine hok.insert (subset_refl H) (SameOutside.set hcache) ?_ (fun _ _ ho => ho) (.last ?_) ?_
  · intro d hd
    rw [List.mem_singleton.mp hd]
    exact hok.not_owned_of_free hfree
  · exact fatNext_of_raw_end (fat_entry_raw_set_self hcache (by decide))
  · intro d hd
    rw [List.mem_singleton.mp hd]
    exact hc

/-- 鎖の末尾に空きクラスタを一つつなぐか、空きがなく何も変わらない。 -/
theorem ChainOk.append_cluster (hok : ChainOk fs h (pre ++ [cur])) :
    append_cluster fs cur = (fs, 0) ∧ Full fs ∨
      ∃ fs' c, append_cluster fs cur = (fs', c) ∧ InRange fs c ∧ fat_entry_raw fs c = 0 ∧
        ChainOk fs' h (pre ++ [cur] ++ [c]) ∧ SameOutside fs fs' [cur, c] ∧ fs'.disk = fs.disk := by
  rcases allocate_cluster_cases fs with ⟨c, halloc, hc, hfree⟩ | ⟨halloc, hfull⟩
  · right
    have hc2 := hc.1
    have hclt := hc.2
    have hbound := hok.bound
    have hl := hok.follows
    have hcur : InRange fs cur := hok.range cur (by simp)
    have hnot : c ∉ pre ++ [cur] := fun hmem => hok.entry_ne_zero hmem hfree
    have hne : cur ≠ c := by
      rintro rfl
      exact hnot (by simp)
    have hcache := hc.in_cache hok.cache
    have hcache' : offset cur + 1 < (fat12_set_fat_entry fs c 0xFFF).fat_cache.size := by
      rw [fat_cache_size_set]
      exact hcur.in_cache hok.cache
    have hsame : SameOutside fs
        (fat12_set_fat_entry (fat12_set_fat_entry fs c 0xFFF) cur (UInt16.ofNat c)) [cur, c] :=
      ((SameOutside.set hcache).mono (by simp)).trans ((SameOutside.set hcache').mono (by simp))
    have hfol : Follows (fatNext
        (fat12_set_fat_entry (fat12_set_fat_entry fs c 0xFFF) cur (UInt16.ofNat c))) h
        (pre ++ [cur, c]) := by
      refine hl.snoc (fun x hx => hsame.fatNext ?_) ?_ ?_
      · have hnd := hl.nodup
        simp only [List.mem_cons, List.not_mem_nil, or_false, not_or]
        constructor
        · rintro rfl
          exact (List.nodup_append.mp hnd).2.2 x hx x (by simp) rfl
        · rintro rfl
          exact hnot (by simp [hx])
      · refine fatNext_of_raw_link (fat_entry_raw_set_self hcache' ?_) (by omega)
        rw [UInt16.toNat_ofNat']
        omega
      · refine fatNext_of_raw_end ?_
        rw [fat_entry_raw_set_of_ne hcache' hne.symm, fat_entry_raw_set_self hcache (by decide)]
    refine ⟨_, c, ?_, hc, hfree, ⟨?_, ?_, by simpa using hfol, fun d hd => hsame.inRange.mpr ?_⟩, hsame, rfl⟩
    · simp only [MyOS.Fat.append_cluster, halloc]
      rw [if_neg (by omega)]
    · rw [hsame.total_clusters]
      exact hbound
    · rw [hsame.total_clusters, hsame.size]
      exact hok.cache
    · rcases List.mem_append.mp hd with hd | hd
      · exact hok.range d hd
      · rw [List.mem_singleton.mp hd]
        exact hc
  · left
    exact ⟨by simp [MyOS.Fat.append_cluster, halloc], hfull⟩

theorem append_cluster_spec (hok : FatOk fs H) (hh : h ∈ H)
    (hl : Follows (fatNext fs) h (pre ++ [cur])) :
    append_cluster fs cur = (fs, 0) ∧ Full fs ∨
      ∃ fs' c, append_cluster fs cur = (fs', c) ∧ c ≠ 0 ∧ c ≠ 0xFFFF ∧ FatOk fs' H ∧
        Appended fs fs' h (pre ++ [cur]) [c] := by
  rcases (hok.chainOk hh hl).append_cluster with hnone | ⟨fs', c, happ, hc, hfree, hchain, hsame, -⟩
  · exact Or.inl hnone
  · right
    have hsame' : SameOutside fs fs' (pre ++ [cur] ++ [c]) := hsame.mono (by simp)
    have hbound := hok.bound
    have hc2 := hc.1
    have hclt := hc.2
    have hd : ∀ d ∈ pre ++ [cur] ++ [c], InRange fs d := fun d hd => hsame.inRange.mp (hchain.range d hd)
    refine ⟨fs', c, happ, by omega, by omega, ?_, ⟨hl, hchain.follows, ?_, hsame'⟩⟩
    · have hins := hok.insert (h := h) (Set.sdiff_subset (s := H) (t := {h})) hsame' ?_ ?_ hchain.follows hd
      · rwa [Set.insert_sdiff_singleton, Set.insert_eq_of_mem hh] at hins
      · intro d hd
        rcases List.mem_append.mp hd with hd | hd
        · exact hok.chains.not_owned_diff hh hl hd
        · rw [List.mem_singleton.mp hd]
          exact fun ho => hok.not_owned_of_free hfree (ho.mono Set.sdiff_subset)
      · intro d hd ho
        exact ChainSet.owned_diff hl ho (fun hd' => hd (List.mem_append_left _ hd'))
    · intro d hd
      rw [List.mem_singleton.mp hd]
      exact ⟨hc, hfree⟩

end MyOS.Fat
