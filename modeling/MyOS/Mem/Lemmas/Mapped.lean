import MyOS.Mem.Lemmas.Owned

/-! 続くページを写す。途中でブロックが尽きても、写したページはそれぞれ自分のブロックを使う。 -/

namespace MyOS.Mem
open MyOS.Lib

variable {m m' m'' m₀ : Phys} {own : Nat → Prop} {zero : Bool} {f k n p virt w : Nat}

/-- `p` から `n` ページのうち、前のブロックが空きに戻るもの。 -/
def freed (m : Phys) (p : Nat) : Nat → Nat
  | 0 => 0
  | n + 1 => freed m p n + (frees m (p + n)).toNat

/-- どのページの番でも、ブロックが残っている。 -/
def Room (m : Phys) (p n : Nat) : Prop := ∀ j, j < n → j + tables_needed m p j < free_count m + freed m p j

/-! ## 一つのページ -/

/-- ページ `p` を新しいブロックに写した。 -/
structure PageAdded (m m' : Phys) (own : Nat → Prop) (zero : Bool) (p : Nat) : Prop where
  owned : Owned m' own
  clear : Clear m' own ∨ free_count m' = 0
  here : ∃ f, mapping m' p = some (f, PAGE_PRESENT ||| PAGE_RW ||| PAGE_USER) ∧ m.mem_bitmap (f / 4096) = true ∧
    (zero = true → ∀ i, i < 4096 → m'.ram (f + i) = 0)
  others : ∀ w, w < 2 ^ 20 → w ≠ p → mapping m' w = mapping m w
  dir_iff : ∀ k, k < 1024 → (present (dir_entry m' k) = true ↔ present (dir_entry m k) = true ∨ k = p / 1024)
  bytes : ∀ w f flags, w < 2 ^ 20 → own w → w ≠ p → mapping m w = some (f, flags) →
    ∀ x, x / 4096 = f / 4096 → m'.ram x = m.ram x
  frees_eq : ∀ w, w < 2 ^ 20 → own w → w ≠ p → frees m' w = frees m w
  used : mapping m p = none → ∀ a, Used m a → Used m' a
  count : free_count m' = free_count m + (frees m p).toNat - (1 + if present (dir_entry m (p / 1024)) then 0 else 1)

theorem map_page_eq (zero : Bool) (m : Phys) (virt : Nat) : map_page zero m virt =
    if (alloc_blocks m).2 = 0 then none
    else some (map_address_user (if zero then (alloc_blocks m).1.clear (alloc_blocks m).2 else (alloc_blocks m).1) virt
      (alloc_blocks m).2) := rfl

/-- 失敗するのは、空きブロックがないときである。 -/
theorem map_page_none_iff (hz : Used m 0) : map_page zero m virt = none ↔ free_count m = 0 := by
  have hiff : (alloc_blocks m).2 = 0 ↔ free_count m = 0 := by
    rcases alloc_blocks_cases m with ⟨heq, h⟩ | ha
    · rw [heq]
      exact iff_of_true rfl h
    · have hne := (ha.fresh.ne_of_used hz).symm
      have hcount := ha.count
      exact iff_of_false hne (by omega)
  rw [← hiff, map_page_eq]
  split
  next h => exact iff_of_true rfl h
  next h => exact iff_of_false (Option.some_ne_none _) h

/-- 写すページの対応が同じで、参照の数も同じなら、空きに戻るかどうかも同じである。 -/
theorem frees_congr (hmap : mapping m' w = mapping m w)
    (hrefs : ∀ f flags, mapping m w = some (f, flags) → m'.ref_counts (f / 4096) = m.ref_counts (f / 4096)) :
    frees m' w = frees m w := by
  unfold frees
  rw [hmap]
  cases hm : mapping m w with
  | none => rfl
  | some page =>
    obtain ⟨f, flags⟩ := page
    have href := hrefs f flags hm
    unfold BLOCK_SIZE
    dsimp only
    rw [href]

/-- ブロックを割り当てて、望むなら 0 で埋めた。 -/
theorem Owned.spare (zero : Bool) (h : Owned m own) (hc : Clear m own) (ha : Allocates m (alloc_blocks m).1 (alloc_blocks m).2)
    (h0 : (alloc_blocks m).2 ≠ 0) (heq : m' = if zero then (alloc_blocks m).1.clear (alloc_blocks m).2 else (alloc_blocks m).1) :
    Owned m' own ∧ Clear m' own ∧ SamePages m m' ∧ Kept m m' ∧ Spare m' own (alloc_blocks m).2 ∧
      free_count m' + 1 = free_count m ∧ m'.ref_counts = (alloc_blocks m).1.ref_counts := by
  obtain ⟨-, hcur, hkernel, -⟩ := alloc_blocks_rest m
  have hk : Kept m m' ∧ Fresh m m' (alloc_blocks m).2 ∧ m'.cur_page_dir = m.cur_page_dir ∧
      m'.kernel_page_dir = m.kernel_page_dir ∧ free_count m' = free_count (alloc_blocks m).1 ∧
        m'.ref_counts = (alloc_blocks m).1.ref_counts := by
    subst heq
    cases zero with
    | false => exact ⟨ha.kept, ha.fresh, hcur, hkernel, rfl, rfl⟩
    | true => exact ⟨ha.clear.1, ha.clear.2, hcur, hkernel, free_count_congr rfl, rfl⟩
  obtain ⟨hkept, hfresh, hcur', hkernel', hfc, hrefs⟩ := hk
  obtain ⟨ho, hs⟩ := h.kept hkept hcur' hkernel'
  have hcount := ha.count
  refine ⟨ho, hs.clear.mpr hc, hs, hkept, ⟨hfresh.aligned, hfresh.lt, h0, hfresh.used, fun hf => ?_⟩, by omega, hrefs⟩
  rw [hs.structural, hs.backing] at hf
  exact hfresh.ne_of_used (h.used (.inr hf)) rfl

/-- `own` のページのバイトは、新しい表にも消されない。 -/
theorem PageMapped.backing_bytes (hm : PageMapped m m' p f) (h : Owned m' own) {g : Nat} (hg : Backing m' own g) :
    ∀ x, x / 4096 = g / 4096 → m'.ram x = m.ram x := by
  intro x hx
  refine hm.bytes x fun t ht => ?_
  rw [hx]
  refine div_ne hg.aligned (h.structural_aligned ht) ?_
  rintro rfl
  exact (h.backing g hg).2 ht

/-- 新しい表を割り当てられなければ、空きはもうない。 -/
theorem PageMapped.clear (hm : PageMapped m m' p f) (h : Owned m own) (hc : Clear m own) (hf : f ≠ 0) :
    Clear m' own ∨ free_count m' = 0 := by
  by_cases hlast : present (dir_entry m (p / 1024)) = false ∧ (alloc_blocks m).2 = 0
  · right
    have hnone : frees m p = false := by
      unfold frees
      rw [mapping_none_of_dir hlast.1]
    have hzero : free_count m = 0 := by
      rcases alloc_blocks_cases m with ⟨-, hz⟩ | ha
      · exact hz
      · exact absurd hlast.2.symm (ha.fresh.ne_of_used h.zero)
    rw [hm.count, hnone, hzero]
    exact Nat.zero_sub _
  · refine .inl fun g hg => ?_
    rcases hg with hg | ⟨w, flags, hw, how, hmap⟩
    · rcases (hm.structural g).mp hg with hg | ⟨hnone, rfl⟩
      · exact hc g (.inl hg)
      · exact fun hz => hlast ⟨hnone, hz⟩
    · rw [hm.mapping w hw] at hmap
      split at hmap
      · cases hmap
        exact hf
      · exact hc g (.inr ⟨w, flags, hw, how, hmap⟩)

theorem Owned.map_page (h : Owned m own) (hc : Clear m own) (hp : p < 2 ^ 20) (hown : own p)
    (hm : map_page zero m (p * 4096) = some m') : PageAdded m m' own zero p := by
  rw [map_page_eq] at hm
  split at hm
  · cases hm
  next h0 =>
    have heq := Option.some.inj hm
    have ha : Allocates m (alloc_blocks m).1 (alloc_blocks m).2 := by
      rcases alloc_blocks_cases m with ⟨heq, -⟩ | ha
      · rw [heq] at h0
        exact absurd rfl h0
      · exact ha
    have hzero : zero = true → ∀ i, i < 4096 →
        (if zero then (alloc_blocks m).1.clear (alloc_blocks m).2 else (alloc_blocks m).1).ram ((alloc_blocks m).2 + i) = 0 := by
      rintro rfl i hi
      exact if_pos ⟨Nat.le_add_right _ _, Nat.add_lt_add_left hi _⟩
    have hspare := h.spare zero hc ha h0 rfl
    have halloc := fun b => alloc_blocks_refs m (b := b)
    have hfree := ha.fresh.free
    generalize (if zero then (alloc_blocks m).1.clear (alloc_blocks m).2 else (alloc_blocks m).1) = m₁ at *
    generalize (alloc_blocks m).2 = phys at *
    obtain ⟨h₁, hc₁, hs, hkept, hsp, hcount, hrefs⟩ := hspare
    have hdiv : p * 4096 / 4096 = p := by omega
    have hvirt : p * 4096 < 2 ^ 32 := by omega
    have hpm := h₁.map_address_user hc₁ hvirt (by rw [hdiv]; exact hown) hsp
    rw [hdiv, heq] at hpm
    have hk : p / 1024 < 1024 := by omega
    have hmap₁ := hs.mapping p hp
    have hrefs₁ : ∀ w, w < 2 ^ 20 → own w → ∀ f flags, mapping m w = some (f, flags) →
        m₁.ref_counts (f / 4096) = m.ref_counts (f / 4096) := by
      intro w hw how f flags hm
      rw [hrefs]
      exact halloc _ (h.backing f ⟨w, flags, hw, how, hm⟩).1
    have howned := hpm.owned h₁ hc₁ hown hp hsp
    have hmap : ∀ w, w < 2 ^ 20 → w ≠ p → mapping m' w = mapping m w := by
      intro w hw hne
      rw [hpm.mapping w hw, if_neg hne]
      exact hs.mapping w hw
    have hself := hpm.mapping p hp
    rw [if_pos rfl] at hself
    refine ⟨howned, hpm.clear h₁ hc₁ h0, ⟨phys, hself, hfree, fun hz i hi => ?_⟩, hmap, fun k hk => ?_,
      fun w f flags hw how hwp hm x hx => ?_, fun w hw how hwp => ?_, fun hnone a hu => ?_, ?_⟩
    · have hal := hsp.aligned
      unfold Aligned at hal
      rw [hpm.backing_bytes howned ⟨p, _, hp, hown, hself⟩ _ (by omega)]
      exact hzero hz i hi
    · rw [hpm.dir_iff k hk, hs.dir k hk]
    · rw [hpm.backing_bytes howned ⟨w, flags, hw, how, (hmap w hw hwp).trans hm⟩ x hx]
      refine hkept.bytes x ?_
      have hu := (h.backing f ⟨w, flags, hw, how, hm⟩).1
      unfold Used at hu ⊢
      rw [hx]
      exact hu
    · refine frees_congr (hmap w hw hwp) fun f flags hm => ?_
      rw [← hrefs₁ w hw how f flags hm]
      refine hpm.refs f (hkept.used f (h.backing f ⟨w, flags, hw, how, hm⟩).1) fun g gf hg => ?_
      rw [hmap₁] at hg
      refine div_ne (mapping_aligned hm) (mapping_aligned hg) ?_
      rintro rfl
      exact hwp (h.page_inj w p f _ _ hw hp how hown hm hg)
    · refine hpm.used a (hkept.used a hu) fun g gf hg => ?_
      cases (hmap₁.trans hnone).symm.trans hg
    · rw [hpm.count, hs.dir _ hk, frees_congr hmap₁ (hrefs₁ p hp hown)]
      omega

/-! ## 続くページ -/

/-- `m₀` から、`p` から `n` ページを写した。 -/
structure PagesAdded (m₀ m : Phys) (own : Nat → Prop) (zero : Bool) (p n : Nat) : Prop where
  owned : Owned m own
  clear : Clear m own ∨ free_count m = 0
  inside : ∀ w, p ≤ w → w < p + n → ∃ f, mapping m w = some (f, PAGE_PRESENT ||| PAGE_RW ||| PAGE_USER) ∧
    (zero = true → ∀ i, i < 4096 → m.ram (f + i) = 0)
  outside : ∀ w, w < 2 ^ 20 → w < p ∨ p + n ≤ w → mapping m w = mapping m₀ w
  dir_iff : ∀ k, k < 1024 →
    (present (dir_entry m k) = true ↔ present (dir_entry m₀ k) = true ∨ ∃ j, j < n ∧ (p + j) / 1024 = k)
  bytes : ∀ w f flags, w < 2 ^ 20 → own w → w < p ∨ p + n ≤ w → mapping m₀ w = some (f, flags) →
    ∀ x, x / 4096 = f / 4096 → m.ram x = m₀.ram x
  frees_eq : ∀ w, w < 2 ^ 20 → own w → w < p ∨ p + n ≤ w → frees m w = frees m₀ w
  count : free_count m = free_count m₀ + freed m₀ p n - (n + tables_needed m₀ p n)
  used : (∀ w, p ≤ w → w < p + n → mapping m₀ w = none) → ∀ a, Used m₀ a → Used m a

/-- 今のディレクトリで、番地 `x` に見えるバイト。 -/
def user_byte (m : Phys) (x : Nat) : Option UInt8 := (mapping m (x / 4096)).map fun (f, _) => m.ram (f + x % 4096)

/-- 写したページの外のバイトは、前と同じに見える。 -/
theorem PagesAdded.user_byte {x : Nat} (h : PagesAdded m₀ m own zero p n) (hx : x / 4096 < 2 ^ 20) (ho : own (x / 4096))
    (hout : x / 4096 < p ∨ p + n ≤ x / 4096) : Mem.user_byte m x = Mem.user_byte m₀ x := by
  unfold Mem.user_byte
  rw [h.outside (x / 4096) hx hout]
  cases hm : mapping m₀ (x / 4096) with
  | none => rfl
  | some page =>
    obtain ⟨f, flags⟩ := page
    have hf := mapping_aligned hm
    unfold Aligned at hf
    exact congrArg some (h.bytes (x / 4096) f flags hx ho hout hm _ (by omega))

theorem PagesAdded.refl (h : Owned m own) (hc : Clear m own ∨ free_count m = 0) : PagesAdded m m own zero p 0 := by
  refine ⟨h, hc, fun w hw hlt => absurd hlt (Nat.not_lt.mpr hw), fun _ _ _ => rfl, fun k _ => ?_,
    fun _ _ _ _ _ _ _ _ _ => rfl, fun _ _ _ _ => rfl, ?_, fun _ _ => id⟩
  · simp
  · rw [freed, tables_needed, Nat.add_zero, Nat.add_zero, Nat.sub_zero]

theorem PagesAdded.step (h : PagesAdded m₀ m own zero p n) (hp : p + n < 2 ^ 20)
    (hown : ∀ w, p ≤ w → w < p + (n + 1) → own w) (hm : PageAdded m m' own zero (p + n)) (hpos : 0 < free_count m) : PagesAdded m₀ m' own zero p (n + 1) := by
  have hk : (p + n) / 1024 < 1024 := by omega
  refine ⟨hm.owned, hm.clear, fun w hw hlt => ?_, fun w hw hout => ?_, fun k hk => ?_,
    fun w f flags hw how hout hmap x hx => ?_, fun w hw how hout => ?_, ?_, fun hnone a hu => ?_⟩
  · by_cases hwn : w = p + n
    · subst hwn
      obtain ⟨f, hself, -, hzero⟩ := hm.here
      exact ⟨f, hself, hzero⟩
    · obtain ⟨f, hmap, hzero⟩ := h.inside w hw (by omega)
      have hw' : w < 2 ^ 20 := by omega
      have hal := mapping_aligned hmap
      unfold Aligned at hal
      refine ⟨f, (hm.others w hw' hwn).trans hmap, fun hz i hi => ?_⟩
      rw [hm.bytes w f _ hw' (hown w hw hlt) hwn hmap _ (by omega)]
      exact hzero hz i hi
  · rw [hm.others w hw (by omega)]
    exact h.outside w hw (by omega)
  · rw [hm.dir_iff k hk, h.dir_iff k hk, or_assoc]
    refine or_congr_right ⟨?_, ?_⟩
    · rintro (⟨j, hj, heq⟩ | rfl)
      · exact ⟨j, by omega, heq⟩
      · exact ⟨n, by omega, rfl⟩
    · rintro ⟨j, hj, heq⟩
      by_cases hjn : j = n
      · subst hjn
        exact .inr heq.symm
      · exact .inl ⟨j, by omega, heq⟩
  · have hmap' : mapping m w = some (f, flags) := (h.outside w hw (by omega)).trans hmap
    rw [hm.bytes w f flags hw how (by omega) hmap' x hx]
    exact h.bytes w f flags hw how (by omega) hmap x hx
  · rw [hm.frees_eq w hw how (by omega)]
    exact h.frees_eq w hw how (by omega)
  · have hlast := hown (p + n) (Nat.le_add_right _ _) (by omega)
    have hvisit : present (dir_entry m ((p + n) / 1024)) = true ↔
        present (dir_entry m₀ ((p + n) / 1024)) = true ∨ n ≠ 0 ∧ (p + n) % 1024 ≠ 0 := by
      rw [h.dir_iff _ hk, visited_iff]
    have hself := h.frees_eq (p + n) hp hlast (.inr (Nat.le_refl _))
    have hcount := h.count
    rw [hm.count, hself]
    have hfreed : freed m₀ p (n + 1) = freed m₀ p n + (frees m₀ (p + n)).toNat := rfl
    have htables : tables_needed m₀ p (n + 1) = tables_needed m₀ p n +
      if present (dir_entry m₀ ((p + n) / 1024)) = true ∨ n ≠ 0 ∧ (p + n) % 1024 ≠ 0 then 0 else 1 := rfl
    rw [hfreed, htables]
    by_cases hv : present (dir_entry m ((p + n) / 1024)) = true
    · rw [if_pos hv, if_pos (hvisit.mp hv)]
      omega
    · rw [if_neg hv, if_neg fun hc => hv (hvisit.mpr hc)]
      omega
  · have hself : mapping m (p + n) = none := by
      rw [h.outside (p + n) hp (.inr (Nat.le_refl _))]
      exact hnone (p + n) (Nat.le_add_right _ _) (by omega)
    exact hm.used hself a (h.used (fun w hw hlt => hnone w hw (by omega)) a hu)

/-- `n` ページまで写した後に `k` ページを写す。止まるのは、ブロックが尽きたときである。 -/
structure PagesRun (m₀ : Phys) (r : Phys × Nat) (own : Nat → Prop) (zero : Bool) (p n k : Nat) : Prop where
  le : r.2 ≤ k
  added : PagesAdded m₀ r.1 own zero p (n + r.2)
  stop : r.2 < k → free_count r.1 = 0
  full : r.2 = k ↔ ∀ j, n ≤ j → j < n + k → j + tables_needed m₀ p j < free_count m₀ + freed m₀ p j

theorem PagesAdded.map_pages (h : PagesAdded m₀ m own zero p n) (hp : p + n + k ≤ 2 ^ 20)
    (hown : ∀ w, p ≤ w → w < p + (n + k) → own w) :
    PagesRun m₀ (Mem.map_pages zero k ((p + n) * 4096) m) own zero p n k := by
  induction k generalizing m n with
  | zero => exact ⟨Nat.le_refl _, h, fun hlt => absurd hlt (Nat.lt_irrefl _), iff_of_true rfl (by omega)⟩
  | succ k ih =>
    have hcount := h.count
    rw [Mem.map_pages]
    cases hm : map_page zero m ((p + n) * 4096) with
    | none =>
      have hz := (map_page_none_iff h.owned.zero).mp hm
      refine ⟨Nat.zero_le _, h, fun _ => hz, iff_of_false (Nat.zero_ne_add_one k) fun hall => ?_⟩
      have := hall n (Nat.le_refl n) (by omega)
      omega
    | some m' =>
      have hpos : 0 < free_count m := by
        refine Nat.pos_of_ne_zero fun hz => ?_
        cases hm.symm.trans ((map_page_none_iff h.owned.zero).mpr hz)
      have hc := h.clear.resolve_right (Nat.ne_of_gt hpos)
      have hstep := h.step (by omega) (fun w hw hlt => hown w hw (by omega))
        (h.owned.map_page hc (by omega) (hown _ (Nat.le_add_right _ _) (by omega)) hm) hpos
      have hnext : Mem.map_pages zero k (((p + n) * 4096 + BLOCK_SIZE) % 2 ^ 32) m' =
          Mem.map_pages zero k ((p + (n + 1)) * 4096) m' := by
        cases k with
        | zero => rw [Mem.map_pages, Mem.map_pages]
        | succ k =>
          have hsum : (p + n) * 4096 + BLOCK_SIZE = (p + (n + 1)) * 4096 := by
            unfold BLOCK_SIZE
            omega
          rw [hsum, Nat.mod_eq_of_lt (by omega)]
      have hrun := ih hstep (by omega) fun w hw hlt => hown w hw (by omega)
      dsimp only
      rw [hnext]
      generalize Mem.map_pages zero k ((p + (n + 1)) * 4096) m' = r at *
      obtain ⟨m'', j⟩ := r
      obtain ⟨hle, hadd, hstop, hfull⟩ := hrun
      dsimp only at *
      have hsum : n + (j + 1) = n + 1 + j := by omega
      refine ⟨by omega, hsum ▸ hadd, fun hlt => hstop (by omega), ?_⟩
      rw [Nat.add_right_cancel_iff, hfull]
      refine ⟨fun hall i hi hlt => ?_, fun hall i hi hlt => hall i (by omega) (by omega)⟩
      by_cases hin : i = n
      · subst hin
        omega
      · exact hall i (by omega) (by omega)

/-- 始めから `n` ページを写す。すべてを写せるのは、どのページの番でもブロックが残っているときである。 -/
theorem Owned.map_pages (zero : Bool) (h : Owned m own) (hc : Clear m own ∨ free_count m = 0) (hp : p + n ≤ 2 ^ 20)
    (hown : ∀ w, p ≤ w → w < p + n → own w) :
    (Mem.map_pages zero n (p * 4096) m).2 ≤ n ∧
      PagesAdded m (Mem.map_pages zero n (p * 4096) m).1 own zero p (Mem.map_pages zero n (p * 4096) m).2 ∧
      ((Mem.map_pages zero n (p * 4096) m).2 < n → free_count (Mem.map_pages zero n (p * 4096) m).1 = 0) ∧
      ((Mem.map_pages zero n (p * 4096) m).2 = n ↔ Room m p n) := by
  have hrefl : PagesAdded m m own zero p 0 := .refl h hc
  have hrun := hrefl.map_pages (k := n) hp fun w hw hlt => hown w hw (by omega)
  rw [Nat.add_zero] at hrun
  obtain ⟨hle, hadd, hstop, hfull⟩ := hrun
  rw [Nat.zero_add] at hadd
  refine ⟨hle, hadd, hstop, hfull.trans ?_⟩
  refine forall_congr' fun j => ?_
  rw [Nat.zero_add]
  exact ⟨fun hall hlt => hall (Nat.zero_le j) hlt, fun hall _ hlt => hall hlt⟩

end MyOS.Mem
