import MyOS.Fat.Lemmas.Write
import MyOS.Lib.Count

/-!
# 表の定理

項目の読み書きは互いに影響しない。確保、書き込み、解放をどう並べても、使用中の鎖は互いに交わらない列のまま保たれる。
解放は、壊れた表でも終わる。
-/

namespace MyOS.Fat
open MyOS.Lib Pack12

/-- 四つのクラスタがすべて空いている表。 -/
def emptyFat : Fs where
  root_inode := FAT12_ROOT_INODE
  bpb := ⟨512, 1, 2, 16, 1⟩
  fat_lba := 1
  root_lba := 3
  data_lba := 4
  fat_cache := Array.replicate 16 0
  total_clusters := 4
  disk := fun _ => 0

/-! ## 項目の読み書き -/

/-- 項目 `c` の二つのバイトは表の中にあるので、番地の計算は桁あふれしない。 -/
theorem set_fat_entry_law (fs : Fs) (c : Nat) (v : UInt16) (hc : offset c + 1 < fs.fat_cache.size) :
    fat12_get_fat_entry (fat12_set_fat_entry fs c v) c =
        (if 0xFF7 ≤ v.toNat % 4096 then 0xFFFF else v.toNat % 4096) ∧
      (∀ c', c' ≠ c → fat12_get_fat_entry (fat12_set_fat_entry fs c v) c' = fat12_get_fat_entry fs c') ∧
      (∀ i, i ≠ offset c → i ≠ offset c + 1 →
        (fat12_set_fat_entry fs c v).fat_cache[i]? = fs.fat_cache[i]?) ∧
      (fat12_set_fat_entry fs c v).fat_cache.size = fs.fat_cache.size ∧
      fat12_set_fat_entry fs c v = { fs with fat_cache := (fat12_set_fat_entry fs c v).fat_cache } := by
  refine ⟨?_, fun c' hne => ?_, fun i h0 h1 => fat_cache_set_of_ne h0 h1, fat_cache_size_set, rfl⟩
  · rw [get_fat_entry_eq, fat_entry_raw_set hc]
  · exact get_fat_entry_congr (fat_entry_raw_set_of_ne hc hne)

theorem set_fat_entry_law_empty : fat12_get_fat_entry (fat12_set_fat_entry emptyFat 3 0xFFF8) 3 = 0xFFFF :=
  (set_fat_entry_law emptyFat 3 0xFFF8 (by decide)).1

/-! ## 使用中の鎖 -/

/-- 表への操作と、それに伴う先頭の集合の変化。 -/
inductive FatStep : Fs × Set Nat → Fs × Set Nat → Prop
  | allocate {fs fs' : Fs} {H : Set Nat} {c : Nat} : fat12_allocate_cluster fs = (fs', c) → c ≠ 0 →
      FatStep (fs, H) (fs', insert c H)
  | allocate_full {fs fs' : Fs} {H : Set Nat} : fat12_allocate_cluster fs = (fs', 0) →
      FatStep (fs, H) (fs', H)
  | write {fs fs' : Fs} {H : Set Nat} {h offset size n : Nat} {buffer : Option ByteMem} : h ∈ H →
      offset + size + bytes_per_cluster fs < 2 ^ 32 →
      fat12_write_chain fs h offset size buffer = some (fs', n) → FatStep (fs, H) (fs', H)
  | free {fs fs' : Fs} {H : Set Nat} {h : Nat} : h ∈ H → fat12_free_cluster_chain fs h = some fs' →
      FatStep (fs, H) (fs', H \ {h})

/-- `s₀` から操作の列で届く。 -/
def FatRun (s₀ s : Fs × Set Nat) : Prop := Relation.ReflTransGen FatStep s₀ s

variable {fs fs' : Fs} {H : Set Nat} {h : Nat} {l ext : List Nat} {s s' s₀ : Fs × Set Nat}

theorem FatStep.ok (hstep : FatStep s s') (hok : FatOk s.1 s.2) : FatOk s'.1 s'.2 := by
  cases hstep with
  | @allocate fs fs' H c ha hc =>
      rcases allocate_cluster_cases fs with ⟨d, hd, hr, hfree⟩ | ⟨hfull, -⟩
      · rw [hd] at ha
        cases ha
        exact FatOk.allocate hok hr hfree
      · rw [hfull] at ha
        cases ha
        exact absurd rfl hc
  | @allocate_full fs fs' H ha =>
      rcases allocate_cluster_cases fs with ⟨d, hd, hr, -⟩ | ⟨hfull, -⟩
      · rw [hd] at ha
        cases ha
        exact absurd hr.1 (by decide)
      · rw [hfull] at ha
        cases ha
        exact hok
  | @write fs fs' H h offset size n buffer hh hb hw =>
      obtain ⟨fs'', n, l, ext, hw', hok', -⟩ := write_chain_spec offset size buffer hok hh
        (by omega) (by dsimp only at hb ⊢; omega)
      rw [hw] at hw'
      cases hw'
      exact hok'
  | free hh hf =>
      obtain ⟨fs'', l, hf', -, hok', -⟩ := free_cluster_chain_spec hok hh
      rw [hf] at hf'
      cases hf'
      exact hok'

theorem FatRun.ok (hrun : FatRun s₀ s) (hok : FatOk s₀.1 s₀.2) : FatOk s.1 s.2 := by
  induction hrun with
  | refl => exact hok
  | tail _ hstep ih => exact hstep.ok ih

/-- ほかの鎖は、項目も列もそのまま残る。 -/
theorem Appended.others (hok : FatOk fs H) (hh : h ∈ H) (ha : Appended fs fs' h l ext) {h' : Nat}
    {l' : List Nat} (hh' : h' ∈ H) (hne : h' ≠ h) (hl' : Follows (fatNext fs) h' l') :
    Follows (fatNext fs') h' l' ∧ ∀ c ∈ l', fat_entry_raw fs' c = fat_entry_raw fs c := by
  have hkeep : ∀ c ∈ l', fat_entry_raw fs' c = fat_entry_raw fs c := by
    refine fun c hc => ha.same.entry c (fun hmem => ?_)
    rcases List.mem_append.mp hmem with hmem | hmem
    · exact hne (hok.chains.disjoint h' hh' h hh l' l c hl' ha.before hc hmem)
    · exact hok.entry_ne_zero hh' hl' hc (ha.free c hmem).2
  exact ⟨hl'.congr (fun c hc => fatNext_congr (hkeep c hc)), hkeep⟩

/-- 不変条件はどの操作の列でも保たれる。届いた状態からの `fat12_write_chain` は、空いていたクラスタを
`h` の鎖につなぐだけで、`fat12_free_cluster_chain` は `h` の鎖の項目だけを 0 にする。 -/
theorem fat_run_chains (hok : FatOk s₀.1 s₀.2) (hrun : FatRun s₀ (fs, H)) :
    FatOk fs H ∧
    (∀ h ∈ H, ∀ offset size buffer, offset + size + bytes_per_cluster fs < 2 ^ 32 →
      ∃ fs' n l ext, fat12_write_chain fs h offset size buffer = some (fs', n) ∧
        Appended fs fs' h l ext ∧
        ∀ h' ∈ H, h' ≠ h → ∀ l', Follows (fatNext fs) h' l' →
          Follows (fatNext fs') h' l' ∧ ∀ c ∈ l', fat_entry_raw fs' c = fat_entry_raw fs c) ∧
    (∀ h ∈ H, ∃ fs' l, fat12_free_cluster_chain fs h = some fs' ∧ Follows (fatNext fs) h l ∧
      ∀ c, fat_entry_raw fs' c = if c ∈ l then 0 else fat_entry_raw fs c) := by
  have hok : FatOk fs H := hrun.ok hok
  refine ⟨hok, fun h hh offset size buffer hb => ?_, fun h hh => ?_⟩
  · obtain ⟨fs', n, l, ext, hw, -, ha, -⟩ := write_chain_spec offset size buffer hok hh
      (by omega) (by omega)
    exact ⟨fs', n, l, ext, hw, ha, fun h' hh' hne l' hl' => ha.others hok hh hh' hne hl'⟩
  · obtain ⟨fs', l, hf, hl, -, hsame, hz⟩ := free_cluster_chain_spec hok hh
    refine ⟨fs', l, hf, hl, fun c => ?_⟩
    split
    · next hc => exact hz c hc
    · next hc => exact hsame.entry c hc

/-- 二つの鎖の先頭を確保した表。 -/
def two_heads : Fs := fat12_set_fat_entry (fat12_set_fat_entry emptyFat 2 0xFFF) 3 0xFFF

/-- 鎖を二つ確保し、一つ目に 600 バイトを書き、二つ目を解放する。 -/
theorem fat_run_chains_grown : ∃ fs, FatRun (emptyFat, ∅) (fs, insert 3 (insert 2 ∅) \ {3}) ∧
    FatOk fs (insert 3 (insert 2 ∅) \ {3}) ∧ fatNext fs 2 = some 4 ∧ fat12_get_fat_entry fs 3 = 0 := by
  have hempty : FatOk emptyFat ∅ := by
    refine ⟨by decide, by decide, ⟨by simp, by simp⟩, fun c hc hne => absurd ?_ hne⟩
    have hall : ∀ c < 6, fat12_get_fat_entry emptyFat c = 0 := by decide
    exact hall c hc.2
  have hstart : FatOk (emptyFat, (∅ : Set Nat)).1 (emptyFat, (∅ : Set Nat)).2 := hempty
  have hrun : (fat12_write_chain two_heads 2 0 600 (some fun _ => 7)).any (fun x =>
      (fat12_free_cluster_chain x.1 3).any fun fs => fatNext fs 2 == some 4 && fat12_get_fat_entry fs 3 == 0) = true := by
    decide +kernel
  obtain ⟨⟨fs', n⟩, hwrite, hrun⟩ := (Option.any_eq_true _ _).mp hrun
  obtain ⟨fs, hfree, hrun⟩ := (Option.any_eq_true _ _).mp hrun
  obtain ⟨hnext, hzero⟩ := Bool.and_eq_true_iff.mp hrun
  have hfirst : FatStep (emptyFat, ∅) (_, insert 2 ∅) :=
    .allocate (show fat12_allocate_cluster emptyFat = (fat12_set_fat_entry emptyFat 2 0xFFF, 2) by rfl) (by decide)
  have hsecond : FatStep (_, insert 2 ∅) (two_heads, insert 3 (insert 2 ∅)) :=
    .allocate (show fat12_allocate_cluster (fat12_set_fat_entry emptyFat 2 0xFFF) = (two_heads, 3) by rfl) (by decide)
  have hthird : FatStep (two_heads, insert 3 (insert 2 ∅)) (fs', insert 3 (insert 2 ∅)) :=
    .write (by simp) (by decide) hwrite
  have hsteps : FatRun (emptyFat, ∅) (fs, insert 3 (insert 2 ∅) \ {3}) :=
    (((Relation.ReflTransGen.single hfirst).tail hsecond).tail hthird).tail (.free (by simp) hfree)
  exact ⟨fs, hsteps, (fat_run_chains hstart hsteps).1, beq_iff_eq.mp hnext, beq_iff_eq.mp hzero⟩

/-! ## 壊れた表の解放

輪になった鎖でも、戻った所の項目は 0 になっているので、そこで終わる。 -/

/-- `while (cluster != 0xFFFF && cluster >= 2)` が続く次のクラスタ。 -/
def free_next (fs : Fs) (cluster : Nat) : Option Nat :=
  if fat12_get_fat_entry fs cluster ≠ 0xFFFF ∧ fat12_get_fat_entry fs cluster ≥ 2 then
    some (fat12_get_fat_entry fs cluster)
  else none

/-- `free_cluster_loop` が項目を 0 にするクラスタを、順に並べたもの。 -/
def free_log : Nat → Nat → Fs → List Nat
  | 0, _, _ => []
  | fuel + 1, cluster, fs =>
      if cluster ≠ 0xFFFF ∧ cluster ≥ 2 then
        cluster :: free_log fuel (fat12_get_fat_entry fs cluster) (fat12_set_fat_entry fs cluster 0)
      else []

/-- 元の表で、`cluster` からの鎖が通るクラスタ。 -/
def OnChain (fs : Fs) (cluster d : Nat) : Prop :=
  cluster ≠ 0xFFFF ∧ cluster ≥ 2 ∧ Leads (free_next fs) cluster d

/-- 鎖の続くクラスタの数。 -/
def links (fs : Fs) : Nat := (List.range 0xFF7).countP fun d => (free_next fs d).isSome

/-- 解放は、`log` のクラスタの項目だけを 0 にする。 -/
structure Cleared (fs fs' : Fs) (cluster : Nat) (log : List Nat) : Prop where
  mem : ∀ d, d ∈ log ↔ Leads (free_next fs) cluster d
  zero : ∀ d ∈ log, fat_entry_raw fs' d = 0
  same : SameOutside fs fs' log

section Free

variable {c b n : Nat} {log : List Nat}

theorem free_next_eq_some (h : free_next fs c = some b) :
    fat12_get_fat_entry fs c = b ∧ b ≠ 0xFFFF ∧ 2 ≤ b ∧ b < 0xFF7 := by
  unfold free_next at h
  split at h
  next hlive =>
    cases h
    refine ⟨rfl, hlive.1, hlive.2, ?_⟩
    have := hlive.1
    rw [get_fat_entry_eq] at this ⊢
    split_ifs at this ⊢ <;> omega
  next => cases h

theorem free_next_eq_none (h : free_next fs c = none) :
    ¬ (fat12_get_fat_entry fs c ≠ 0xFFFF ∧ fat12_get_fat_entry fs c ≥ 2) := by
  unfold free_next at h
  split at h
  next => cases h
  next hend => exact hend

theorem free_next_set_self (hc : offset c + 1 < fs.fat_cache.size) :
    free_next (fat12_set_fat_entry fs c 0) c = none := by
  have hzero : fat12_get_fat_entry (fat12_set_fat_entry fs c 0) c = 0 :=
    get_fat_entry_eq_zero.mpr (fat_entry_raw_set_self hc (by decide))
  unfold free_next
  rw [hzero]
  rfl

theorem free_next_set_of_ne (hc : offset c + 1 < fs.fat_cache.size) {d : Nat} (hne : d ≠ c) :
    free_next (fat12_set_fat_entry fs c 0) d = free_next fs d := by
  unfold free_next
  rw [get_fat_entry_congr (fat_entry_raw_set_of_ne hc hne)]

/-- 続くクラスタを消すと、鎖の続くクラスタは減る。 -/
theorem links_set (hc : offset c + 1 < fs.fat_cache.size) (hnext : free_next fs c = some b) (hlt : c < 0xFF7) :
    links (fat12_set_fat_entry fs c 0) < links fs := by
  refine countP_lt_of_mem (a := c) (fun d _ hd => ?_) (List.mem_range.mpr hlt) ?_ ?_
  · by_cases hdc : d = c
    · subst hdc
      rw [free_next_set_self hc] at hd
      cases hd
    · rwa [free_next_set_of_ne hc hdc] at hd
  · rw [hnext]
    rfl
  · rw [free_next_set_self hc]
    rfl

theorem Cleared.last (hc : offset c + 1 < fs.fat_cache.size) (hend : free_next fs c = none) :
    Cleared fs (fat12_set_fat_entry fs c 0) c [c] := by
  refine ⟨fun d => ?_, fun d hd => ?_, SameOutside.set hc⟩
  · rw [Leads.last_iff hend, List.mem_singleton]
  · rw [List.mem_singleton.mp hd]
    exact fat_entry_raw_set_self hc (by decide)

theorem Cleared.cons (hc : offset c + 1 < fs.fat_cache.size) (hnext : free_next fs c = some b)
    (h : Cleared (fat12_set_fat_entry fs c 0) fs' b log) : Cleared fs fs' c (c :: log) := by
  have hset : SameOutside fs (fat12_set_fat_entry fs c 0) [c] := SameOutside.set hc
  refine ⟨fun d => ?_, fun d hd => ?_, (hset.mono (by simp)).trans (h.same.mono (by simp))⟩
  · rw [List.mem_cons, h.mem,
      Leads.cut_iff hnext (free_next_set_self hc) fun _ => free_next_set_of_ne hc]
  · by_cases hlog : d ∈ log
    · exact h.zero d hlog
    · obtain rfl := (List.mem_cons.mp hd).resolve_right hlog
      rw [h.same.entry d hlog]
      exact fat_entry_raw_set_self hc (by decide)

/-- 次のクラスタからの解放が終われば、このクラスタからの解放も終わる。 -/
theorem free_loop_step (hlive : c ≠ 0xFFFF ∧ c ≥ 2)
    (hin : ∀ d, Leads (free_next fs) c d → offset d + 1 < fs.fat_cache.size) (hn : 0 < n)
    (hrest : ∀ b, free_next fs c = some b →
      (∀ d, Leads (free_next (fat12_set_fat_entry fs c 0)) b d →
        offset d + 1 < (fat12_set_fat_entry fs c 0).fat_cache.size) →
      ∃ fs', free_cluster_loop n b (fat12_set_fat_entry fs c 0) = some fs' ∧
        Cleared (fat12_set_fat_entry fs c 0) fs' b (free_log n b (fat12_set_fat_entry fs c 0))) :
    ∃ fs', free_cluster_loop (n + 1) c fs = some fs' ∧ Cleared fs fs' c (free_log (n + 1) c fs) := by
  have hc : offset c + 1 < fs.fat_cache.size := hin c .refl
  rw [free_cluster_loop, free_log, if_pos hlive, if_pos hlive]
  cases hnext : free_next fs c with
  | none =>
      have hend := free_next_eq_none hnext
      obtain ⟨n, rfl⟩ := Nat.exists_eq_succ_of_ne_zero (Nat.ne_of_gt hn)
      rw [free_cluster_loop, free_log, if_neg hend, if_neg hend]
      exact ⟨_, rfl, .last hc hnext⟩
  | some b =>
      obtain ⟨fs', hrun, hclear⟩ := hrest b hnext fun d hd => by
        rw [fat_cache_size_set]
        exact hin d ((Leads.cut_iff hnext (free_next_set_self hc) fun _ => free_next_set_of_ne hc).mpr (.inr hd))
      rw [(free_next_eq_some hnext).1]
      exact ⟨fs', hrun, hclear.cons hc hnext⟩

/-- 一回ごとに、鎖の続くクラスタが一つ減る。 -/
theorem free_loop_result (hlive : c ≠ 0xFFFF ∧ c ≥ 2) (hlt : c < 0xFF7) (hn : links fs < n)
    (hin : ∀ d, Leads (free_next fs) c d → offset d + 1 < fs.fat_cache.size) :
    ∃ fs', free_cluster_loop (n + 1) c fs = some fs' ∧ Cleared fs fs' c (free_log (n + 1) c fs) := by
  induction n generalizing fs c with
  | zero => exact absurd hn (Nat.not_lt_zero _)
  | succ n ih =>
      refine free_loop_step hlive hin (Nat.succ_pos n) fun b hnext hin' => ?_
      obtain ⟨-, hne, hge, hb⟩ := free_next_eq_some hnext
      have hless := links_set (hin c .refl) hnext hlt
      exact ih ⟨hne, hge⟩ hb (by omega) hin'

/-- どの表でも、鎖のクラスタの番号が表の中にあれば、解放は終わり、通った項目だけを 0 にする。 -/
theorem free_cluster_chain_clears (fs : Fs) (c : Nat)
    (hin : ∀ d, OnChain fs c d → offset d + 1 < fs.fat_cache.size) :
    ∃ fs', fat12_free_cluster_chain fs c = some fs' ∧
      (∀ d, d ∈ free_log maxChain c fs ↔ OnChain fs c d) ∧
      (∀ d, fat_entry_raw fs' d = if d ∈ free_log maxChain c fs then 0 else fat_entry_raw fs d) ∧
      fs'.fat_cache.size = fs.fat_cache.size ∧ fs' = { fs with fat_cache := fs'.fat_cache } := by
  by_cases hlive : c ≠ 0xFFFF ∧ c ≥ 2
  · have hreach : ∀ d, OnChain fs c d ↔ Leads (free_next fs) c d :=
      fun d => ⟨fun h => h.2.2, fun h => ⟨hlive.1, hlive.2, h⟩⟩
    obtain ⟨fs', hrun, hclear⟩ := free_loop_step (n := 4097) hlive (fun d hd => hin d ((hreach d).mpr hd))
      (by decide) fun b hnext hin' => by
        obtain ⟨-, hne, hge, hb⟩ := free_next_eq_some hnext
        have hlinks : links (fat12_set_fat_entry fs c 0) ≤ (List.range 0xFF7).length := List.countP_le_length
        rw [List.length_range] at hlinks
        exact free_loop_result ⟨hne, hge⟩ hb (by omega) hin'
    refine ⟨fs', hrun, fun d => (hclear.mem d).trans (hreach d).symm, fun d => ?_, hclear.same.size,
      free_cluster_loop_rest _ c fs hrun⟩
    split
    next hd => exact hclear.zero d hd
    next hd => exact hclear.same.entry d hd
  · have hstop : free_cluster_loop maxChain c fs = some fs ∧ free_log maxChain c fs = [] :=
      ⟨if_neg hlive, if_neg hlive⟩
    refine ⟨fs, hstop.1, fun d => ?_, fun d => ?_, rfl, rfl⟩
    · rw [hstop.2]
      exact iff_of_false List.not_mem_nil fun h => hlive ⟨h.1, h.2.1⟩
    · rw [hstop.2, if_neg List.not_mem_nil]

/-- クラスタ 2 と 3 が輪になり、4 がそこにつながる表。 -/
def cyclicFat : Fs :=
  fat12_set_fat_entry (fat12_set_fat_entry (fat12_set_fat_entry emptyFat 2 3) 3 2) 4 3

theorem free_cluster_chain_clears_cyclic :
    ∃ fs', fat12_free_cluster_chain cyclicFat 4 = some fs' ∧ free_log maxChain 4 cyclicFat = [4, 3, 2, 3] ∧
      ∀ d, fat_entry_raw fs' d = if d ∈ free_log maxChain 4 cyclicFat then 0 else fat_entry_raw cyclicFat d := by
  have hchain : ∀ d, OnChain cyclicFat 4 d → d < 5 := by
    rintro d ⟨-, -, hd⟩
    induction hd with
    | refl => decide
    | tail _ hnext ih =>
        have hall : ∀ d < 5, ∀ e ∈ free_next cyclicFat d, e < 5 := by decide
        exact hall _ ih _ hnext
  obtain ⟨fs', hrun, -, hentry, -⟩ := free_cluster_chain_clears cyclicFat 4 fun d hd => by
    have hlt := hchain d hd
    have hsize : cyclicFat.fat_cache.size = 16 := by decide
    rw [hsize]
    unfold offset
    omega
  exact ⟨fs', hrun, by rfl, hentry⟩

end Free

end MyOS.Fat
