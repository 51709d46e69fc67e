import MyOS.Mem.PageTheorems
import MyOS.Mem.Lemmas.Grow
import MyOS.Mem.Vmm

/-! ページごとのブロック。`own` のページは、ディレクトリにも表にもほかのページにも使われないブロックに写る。 -/

namespace MyOS.Mem
open MyOS.Lib

variable {m m' m₀ : Phys} {own own' : Nat → Prop} {a f f' k p t v virt w phys : Nat}

/-- ディレクトリか表のブロック。 -/
def Structural (m : Phys) (f : Nat) : Prop :=
  f = m.cur_page_dir ∨ f = m.kernel_page_dir ∨ ∃ k, k < 1024 ∧ present (dir_entry m k) = true ∧ f = table_at m k

/-- `own` のどれかのページのブロック。 -/
def Backing (m : Phys) (own : Nat → Prop) (f : Nat) : Prop :=
  ∃ p flags, p < 2 ^ 20 ∧ own p ∧ mapping m p = some (f, flags)

/-- `own` のページは、それぞれ自分のブロックを使う。 -/
structure Owned (m : Phys) (own : Nat → Prop) : Prop extends Separate m where
  zero : Used m 0
  structural : ∀ f, Structural m f → Used m f
  backing : ∀ f, Backing m own f → Used m f ∧ ¬ Structural m f
  table_inj : ∀ k k', k < 1024 → k' < 1024 → present (dir_entry m k) = true → present (dir_entry m k') = true →
    table_at m k = table_at m k' → k = k'
  page_inj : ∀ p q f fp fq, p < 2 ^ 20 → q < 2 ^ 20 → own p → own q → mapping m p = some (f, fp) →
    mapping m q = some (f, fq) → p = q

/-- ブロック 0 を使っていない。 -/
def Clear (m : Phys) (own : Nat → Prop) : Prop := ∀ f, Structural m f ∨ Backing m own f → f ≠ 0

theorem mapping_aligned {flags : Nat} (h : mapping m p = some (f, flags)) : Aligned f := by
  unfold mapping page_of_entry at h
  split at h
  · split at h
    · cases h
      exact aligned_page_addr _
    · cases h
  · cases h

theorem Structural.cur : Structural m m.cur_page_dir := .inl rfl

theorem Structural.kernel : Structural m m.kernel_page_dir := .inr (.inl rfl)

theorem Structural.table (hk : k < 1024) (hp : present (dir_entry m k) = true) : Structural m (table_at m k) :=
  .inr (.inr ⟨k, hk, hp, rfl⟩)

theorem Owned.structural_aligned (h : Owned m own) (hf : Structural m f) : Aligned f := by
  rcases hf with rfl | rfl | ⟨k, -, -, rfl⟩
  · exact h.cur
  · exact h.kernel
  · exact aligned_table m k

theorem Backing.aligned (h : Backing m own f) : Aligned f := by
  obtain ⟨p, flags, -, -, hmap⟩ := h
  exact mapping_aligned hmap

theorem Backing.mono (hown : ∀ w, own' w → own w) (h : Backing m own' f) : Backing m own f := by
  obtain ⟨p, flags, hp, ho, hmap⟩ := h
  exact ⟨p, flags, hp, hown p ho, hmap⟩

/-- 空いているページは、いつでも `own` に加えられる。 -/
theorem Owned.extend (h : Owned m own) (hown : ∀ w, own' w → own w ∨ mapping m w = none) : Owned m own' := by
  have hold : ∀ {p f flags}, own' p → mapping m p = some (f, flags) → own p := by
    intro p f flags ho hmap
    rcases hown p ho with ho | hnone
    · exact ho
    · cases hnone.symm.trans hmap
  refine ⟨h.toSeparate, h.zero, h.structural, fun f hf => ?_, h.table_inj, fun p q f fp fq hp hq ho ho' hmp hmq => ?_⟩
  · obtain ⟨p, flags, hp, ho, hmap⟩ := hf
    exact h.backing f ⟨p, flags, hp, hold ho hmap, hmap⟩
  · exact h.page_inj p q f fp fq hp hq (hold ho hmp) (hold ho' hmq) hmp hmq

/-! ## ディレクトリと表のほかの書き換え -/

/-- ディレクトリが同じ。 -/
structure SameDir (m m' : Phys) : Prop where
  cur : m'.cur_page_dir = m.cur_page_dir
  kernel : m'.kernel_page_dir = m.kernel_page_dir
  dir : ∀ k, k < 1024 → dir_entry m' k = dir_entry m k

theorem SameDir.table (h : SameDir m m') (hk : k < 1024) : table_at m' k = table_at m k := by
  rw [table_at, table_at, h.dir k hk]

theorem SameDir.structural (h : SameDir m m') : Structural m' f ↔ Structural m f := by
  unfold Structural
  rw [h.cur, h.kernel]
  refine or_congr_right (or_congr_right (exists_congr fun k => and_congr_right fun hk => ?_))
  rw [h.dir k hk, h.table hk]

/-- ページ表が同じ。 -/
structure SamePages (m m' : Phys) : Prop extends SameDir m m' where
  mapping : ∀ w, w < 2 ^ 20 → Mem.mapping m' w = Mem.mapping m w

theorem SamePages.refl (m : Phys) : SamePages m m := ⟨⟨rfl, rfl, fun _ _ => rfl⟩, fun _ _ => rfl⟩

theorem SamePages.trans {m₁ m₂ m₃ : Phys} (h : SamePages m₁ m₂) (h' : SamePages m₂ m₃) : SamePages m₁ m₃ :=
  ⟨⟨h'.cur.trans h.cur, h'.kernel.trans h.kernel, fun k hk => (h'.dir k hk).trans (h.dir k hk)⟩,
    fun w hw => (h'.mapping w hw).trans (h.mapping w hw)⟩

theorem SamePages.backing (h : SamePages m m') : Backing m' own f ↔ Backing m own f := by
  refine exists_congr fun p => exists_congr fun flags => and_congr_right fun hp => ?_
  rw [h.mapping p hp]

theorem SamePages.clear (h : SamePages m m') : Clear m' own ↔ Clear m own := by
  unfold Clear
  simp only [h.structural, h.backing]

/-- ディレクトリと表のブロックを変えなければ、ページ表は同じである。 -/
theorem Owned.same_pages (h : Owned m own) (hcur : m'.cur_page_dir = m.cur_page_dir)
    (hkernel : m'.kernel_page_dir = m.kernel_page_dir)
    (hbytes : ∀ f, Structural m f → ∀ x, x / 4096 = f / 4096 → m'.ram x = m.ram x) : SamePages m m' := by
  have hdir : ∀ k, k < 1024 → dir_entry m' k = dir_entry m k := by
    intro k hk
    rw [dir_entry, hcur]
    exact word_congr h.cur hk (hbytes _ .cur)
  refine ⟨⟨hcur, hkernel, hdir⟩, fun w hw => ?_⟩
  have hk : w / 1024 < 1024 := by omega
  have hj : w % 1024 < 1024 := Nat.mod_lt _ (by decide)
  unfold mapping
  rw [hdir _ hk]
  split
  next hp =>
    have hentry : page_entry m' (w / 1024) (w % 1024) = page_entry m (w / 1024) (w % 1024) := by
      rw [page_entry, table_at, hdir _ hk]
      exact word_congr (aligned_table m _) hj (hbytes _ (.table hk hp))
    rw [hentry]
  next => rfl

/-- 使っているブロックが使われたままなら、不変条件も保たれる。 -/
theorem Owned.congr (h : Owned m own) (hs : SamePages m m')
    (hused : ∀ f, f = 0 ∨ Structural m f ∨ Backing m own f → Used m' f) : Owned m' own := by
  refine ⟨⟨hs.cur ▸ h.cur, hs.kernel ▸ h.kernel, fun k hk hp => ?_⟩, hused 0 (.inl rfl), fun f hf => ?_, fun f hf => ?_,
    fun k k' hk hk' hp hp' heq => ?_, fun p q f fp fq hp hq ho ho' hmp hmq => ?_⟩
  · rw [hs.dir k hk] at hp
    rw [hs.table hk, hs.cur, hs.kernel]
    exact h.table k hk hp
  · exact hused f (.inr (.inl (hs.structural.mp hf)))
  · rw [hs.backing] at hf
    rw [hs.structural]
    exact ⟨hused f (.inr (.inr hf)), (h.backing f hf).2⟩
  · rw [hs.dir k hk] at hp
    rw [hs.dir k' hk'] at hp'
    rw [hs.table hk, hs.table hk'] at heq
    exact h.table_inj k k' hk hk' hp hp' heq
  · rw [hs.mapping p hp] at hmp
    rw [hs.mapping q hq] at hmq
    exact h.page_inj p q f fp fq hp hq ho ho' hmp hmq

theorem Owned.used (h : Owned m own) (hf : f = 0 ∨ Structural m f ∨ Backing m own f) : Used m f := by
  rcases hf with rfl | hf | hf
  · exact h.zero
  · exact h.structural f hf
  · exact (h.backing f hf).1

/-- 使っているブロックのバイトを変えなければ、ページ表も不変条件も同じである。 -/
theorem Owned.kept (h : Owned m own) (hk : Kept m m') (hcur : m'.cur_page_dir = m.cur_page_dir)
    (hkernel : m'.kernel_page_dir = m.kernel_page_dir) : Owned m' own ∧ SamePages m m' := by
  have hs : SamePages m m' := by
    refine h.same_pages hcur hkernel fun f hf x hx => hk.bytes x ?_
    have hu := h.structural f hf
    unfold Used at hu ⊢
    rw [hx]
    exact hu
  exact ⟨h.congr hs fun f hf => hk.used f (h.used hf), hs⟩

/-! ## ページを写す -/

/-- 開いた表のほかは、ディレクトリも表も前と同じである。 -/
theorem HasTable.structural {pd : Nat} (h : HasTable m m' pd) (hpd : pd < 1024) :
    Structural m' f ↔ Structural m f ∨ present (dir_entry m pd) = false ∧ f = (alloc_blocks m).2 := by
  unfold Structural
  rw [h.cur, h.kernel, or_assoc, or_assoc]
  refine or_congr_right (or_congr_right ⟨?_, ?_⟩)
  · rintro ⟨k, hk, hp, rfl⟩
    by_cases hkp : k = pd
    · subst hkp
      rw [h.table]
      cases hold : present (dir_entry m k) with
      | true => exact .inl ⟨k, hk, hold, rfl⟩
      | false => exact .inr ⟨rfl, rfl⟩
    · rw [h.dir k hk hkp] at hp
      exact .inl ⟨k, hk, hp, h.table_of_ne hk hkp⟩
  · rintro (⟨k, hk, hp, rfl⟩ | ⟨hp, rfl⟩)
    · by_cases hkp : k = pd
      · subst hkp
        refine ⟨k, hk, h.here, ?_⟩
        rw [h.table, if_pos hp]
      · refine ⟨k, hk, ?_, (h.table_of_ne hk hkp).symm⟩
        rw [h.dir k hk hkp]
        exact hp
    · refine ⟨pd, hpd, h.here, ?_⟩
      rw [h.table, hp]
      rfl

theorem with_table_bytes {pd e x : Nat} (hs : Separate m) (hpd : pd < 1024) (hnew : x / 4096 ≠ (alloc_blocks m).2 / 4096)
    (hcur : x / 4096 ≠ m.cur_page_dir / 4096) (hkernel : x / 4096 ≠ m.kernel_page_dir / 4096) :
    (with_table m pd e).ram x = m.ram x := by
  obtain ⟨hram, -, -, hal, -⟩ := alloc_blocks_rest m
  have hbase : (((alloc_blocks m).1.clear (alloc_blocks m).2).store32 (m.cur_page_dir + 4 * pd) e).ram x = m.ram x := by
    refine (store_byte hs.cur hpd hcur).trans ?_
    rw [clear_byte hal hnew, hram]
  unfold with_table
  dsimp only
  split
  · exact (store_byte hs.kernel hpd hkernel).trans hbase
  · exact hbase

/-- 表を開いて変わるのは、ディレクトリと表だけである。 -/
theorem Separate.get_page_bytes (hs : Separate m) (hf : present (dir_entry m (pd_index virt)) = false → ApartTable m)
    (hvirt : virt < 2 ^ 32) {x : Nat} (hx : ∀ f, Structural (Mem.get_page m virt PAGE_USER).1 f → x / 4096 ≠ f / 4096) :
    (Mem.get_page m virt PAGE_USER).1.ram x = m.ram x := by
  have ho := (hs.get_page hf hvirt (.inr rfl)).1
  have hpd := pd_index_lt hvirt
  cases hp : present (dir_entry m (pd_index virt)) with
  | true => rw [get_page_present hp]
  | false =>
    have hnew := hx _ ((ho.structural hpd).mpr (.inr ⟨hp, rfl⟩))
    have hcur := hx _ ((ho.structural hpd).mpr (.inl .cur))
    have hkernel := hx _ ((ho.structural hpd).mpr (.inl .kernel))
    rw [get_page_absent hp (.inr rfl)]
    exact with_table_bytes hs hpd hnew hcur hkernel

/-- 表がなければ割り当てる。 -/
theorem get_page_refs (m : Phys) (virt : Nat) (h : f = 0 ∨ f = PAGE_USER) : (Mem.get_page m virt f).1.ref_counts =
    if present (dir_entry m (pd_index virt)) then m.ref_counts else (alloc_blocks m).1.ref_counts := by
  cases hp : present (dir_entry m (pd_index virt)) with
  | true =>
    rw [get_page_present hp]
    rfl
  | false =>
    rw [get_page_absent hp h]
    unfold with_table
    dsimp only
    split <;> rfl

/-- 割り当てで参照の数が変わるのは、割り当てたブロックだけである。 -/
theorem alloc_blocks_refs (m : Phys) {b : Nat} (h : m.mem_bitmap b = false) :
    (alloc_blocks m).1.ref_counts b = m.ref_counts b := by
  unfold alloc_blocks
  cases hfind : find_first_free_blocks m with
  | none => rfl
  | some c =>
    dsimp only
    refine if_neg ?_
    rintro rfl
    cases h.symm.trans (first_free_some hfind).1

/-- ページ `p` のブロックを解放すると、空きに戻る。 -/
def frees (m : Phys) (p : Nat) : Bool :=
  match mapping m p with
  | some (f, _) => decide (f ≠ 0 ∧ f / BLOCK_SIZE < MAX_BLOCK_ENTRIES ∧ m.ref_counts (f / BLOCK_SIZE) ≤ 1)
  | none => false

/-- 使っているブロックの解放。 -/
theorem free_blocks_count_eq (h : Used m f) : free_count (free_blocks m f) =
    free_count m + if f / BLOCK_SIZE < MAX_BLOCK_ENTRIES ∧ m.ref_counts (f / BLOCK_SIZE) ≤ 1 then 1 else 0 := by
  unfold free_blocks
  dsimp only
  by_cases hlt : MAX_BLOCK_ENTRIES ≤ f / BLOCK_SIZE
  · rw [if_pos hlt, if_neg fun hc => Nat.not_lt.mpr hlt hc.1, Nat.add_zero]
  · rw [if_neg hlt]
    by_cases href : 1 < m.ref_counts (f / BLOCK_SIZE)
    · rw [if_pos href, if_neg fun hc => Nat.not_lt.mpr hc.2 href, Nat.add_zero]
      exact free_count_congr rfl
    · rw [if_neg href, if_pos ⟨Nat.lt_of_not_le hlt, Nat.le_of_not_lt href⟩]
      have hmem : f / BLOCK_SIZE ∈ List.range (MAX_BLOCK_ENTRIES * 32) :=
        List.mem_range.mpr (Nat.lt_of_lt_of_le (Nat.lt_of_not_le hlt) (by decide))
      have hchange := countP_change (p := fun b => if b = f / BLOCK_SIZE then true else m.mem_bitmap b)
        (q := m.mem_bitmap) (a := f / BLOCK_SIZE) List.nodup_range hmem fun c _ hc => (if_neg hc).symm
      have hused : m.mem_bitmap (f / BLOCK_SIZE) = false := h
      rw [hused, if_pos rfl, Bool.toNat_true, Bool.toNat_false] at hchange
      unfold free_count set_block
      dsimp only
      omega

/-- 新しい表は、使っていないブロックに置かれる。 -/
theorem Owned.new_table (h : Owned m own) (hc : Clear m own) :
    ¬ (Structural m (alloc_blocks m).2 ∨ Backing m own (alloc_blocks m).2) := fun hf =>
  alloc_blocks_ne (h.used (.inr hf)) (hc _ hf) rfl

theorem Owned.fresh_table (h : Owned m own) (hc : Clear m own) : FreshTable m := by
  have hnot : ¬ Structural m (alloc_blocks m).2 := fun hf => h.new_table hc (.inl hf)
  refine ⟨⟨fun heq => hnot (heq ▸ .cur), fun heq => hnot (heq ▸ .kernel)⟩, fun k hk hp heq => hnot ?_⟩
  rw [← heq]
  exact .table hk hp

/-- ページ `p` をブロック `phys` に写した。 -/
structure PageMapped (m m' : Phys) (p phys : Nat) : Prop where
  separate : Separate m'
  mapping : ∀ w, w < 2 ^ 20 →
    Mem.mapping m' w = if w = p then some (phys, PAGE_PRESENT ||| PAGE_RW ||| PAGE_USER) else Mem.mapping m w
  structural : ∀ f, Structural m' f ↔
    Structural m f ∨ present (dir_entry m (p / 1024)) = false ∧ f = (alloc_blocks m).2
  dir_iff : ∀ k, k < 1024 → (present (dir_entry m' k) = true ↔ present (dir_entry m k) = true ∨ k = p / 1024)
  table_inj : ∀ k k', k < 1024 → k' < 1024 → present (dir_entry m' k) = true → present (dir_entry m' k') = true →
    table_at m' k = table_at m' k' → k = k'
  bytes : ∀ x, (∀ f, Structural m' f → x / 4096 ≠ f / 4096) → m'.ram x = m.ram x
  used : ∀ a, Used m a → (∀ f flags, Mem.mapping m p = some (f, flags) → a / 4096 ≠ f / 4096) → Used m' a
  table_used : present (dir_entry m (p / 1024)) = false → Used m' (alloc_blocks m).2
  refs : ∀ a, Used m a → (∀ f flags, Mem.mapping m p = some (f, flags) → a / 4096 ≠ f / 4096) →
    m'.ref_counts (a / 4096) = m.ref_counts (a / 4096)
  count : free_count m' = free_count m + (frees m p).toNat - if present (dir_entry m (p / 1024)) then 0 else 1

/-- 自分の項目を分け合うページはない。 -/
theorem Owned.same_entry (h : Owned m own) (hw : w < 2 ^ 20) (hp : p < 2 ^ 20) : SameEntry m w p ↔ w = p := by
  refine ⟨?_, .inl⟩
  rintro (heq | ⟨hmod, hpw, hpp, heq⟩)
  · exact heq
  · have := h.table_inj _ _ (by omega) (by omega) hpw hpp heq
    omega

section release
variable {old : Option (Nat × Nat)}

theorem release_used (keep : Option Nat) (h : Used m a) (hne : ∀ f flags, old = some (f, flags) → a / 4096 ≠ f / 4096) :
    Used (release m keep old) a := by
  rcases old with _ | ⟨f, flags⟩
  · exact h
  · unfold release
    dsimp only
    split
    · exact h
    · exact free_blocks_used h (hne f flags rfl)

theorem free_blocks_refs {b : Nat} (hne : b ≠ f / 4096) : (free_blocks m f).ref_counts b = m.ref_counts b := by
  unfold free_blocks
  dsimp only
  split
  · rfl
  · split
    · exact if_neg hne
    · exact if_neg hne

theorem release_refs {keep : Option Nat} {b : Nat} (hne : ∀ f flags, old = some (f, flags) → b ≠ f / 4096) :
    (release m keep old).ref_counts b = m.ref_counts b := by
  rcases old with _ | ⟨f, flags⟩
  · rfl
  · unfold release
    dsimp only
    split
    · rfl
    · exact free_blocks_refs (hne f flags rfl)

/-- 別のブロックに写すので、前のブロックは解放される。 -/
theorem release_count {keep : Option Nat} (hused : ∀ f flags, mapping m p = some (f, flags) → Used m f ∧ keep ≠ some f) :
    free_count (release m keep (mapping m p)) = free_count m + (frees m p).toNat := by
  unfold frees
  cases hold : mapping m p with
  | none => simp [release]
  | some old =>
    obtain ⟨f, flags⟩ := old
    obtain ⟨hu, hne⟩ := hused f flags hold
    unfold release
    dsimp only
    by_cases h0 : f = 0
    · rw [if_pos (.inl h0), decide_eq_false fun hc => hc.1 h0, Bool.toNat_false, Nat.add_zero]
    · rw [if_neg fun hc => hc.elim h0 hne, free_blocks_count_eq hu]
      by_cases hlow : f / BLOCK_SIZE < MAX_BLOCK_ENTRIES ∧ m.ref_counts (f / BLOCK_SIZE) ≤ 1
      · rw [if_pos hlow, decide_eq_true ⟨h0, hlow⟩, Bool.toNat_true]
      · rw [if_neg hlow, decide_eq_false fun hc => hlow hc.2, Bool.toNat_false]

end release

theorem HasTable.table_at_eq {pd : Nat} (h : HasTable m m' pd) (hk : k < 1024)
    (hp : present (dir_entry m' k) = true) :
    table_at m' k = if present (dir_entry m k) then table_at m k else (alloc_blocks m).2 := by
  by_cases hkp : k = pd
  · subst hkp
    exact h.table
  · rw [h.dir k hk hkp] at hp
    rw [if_pos hp]
    exact h.table_of_ne hk hkp

/-- 表を開いても、二つの項目が同じ表を指すことはない。 -/
theorem Owned.opened_inj (h : Owned m own) (hc : Clear m own) {pd : Nat} (ho : HasTable m m' pd) {k' : Nat}
    (hk : k < 1024) (hk' : k' < 1024) (hp : present (dir_entry m' k) = true) (hp' : present (dir_entry m' k') = true)
    (heq : table_at m' k = table_at m' k') : k = k' := by
  have hnew : ∀ i, i < 1024 → present (dir_entry m i) = true → (alloc_blocks m).2 ≠ table_at m i := fun i hi hpi he =>
    h.new_table hc (.inl (he ▸ .table hi hpi))
  rw [ho.table_at_eq hk hp, ho.table_at_eq hk' hp'] at heq
  cases hold : present (dir_entry m k) with
  | true =>
    rw [hold, if_pos rfl] at heq
    cases hold' : present (dir_entry m k') with
    | true =>
      rw [hold', if_pos rfl] at heq
      exact h.table_inj k k' hk hk' hold hold' heq
    | false =>
      rw [hold'] at heq
      exact absurd heq.symm (hnew k hk hold)
  | false =>
    rw [hold] at heq
    cases hold' : present (dir_entry m k') with
    | true =>
      rw [hold', if_pos rfl] at heq
      exact absurd heq (hnew k' hk' hold')
    | false =>
      have hi := ((ho.dir_iff hk).mp hp).resolve_left (by rw [hold]; decide)
      have hi' := ((ho.dir_iff hk').mp hp').resolve_left (by rw [hold']; decide)
      exact hi.trans hi'.symm

/-- ページ `p` を写すのに使うブロックは、ほかのどこにも使われていない。 -/
structure Spare (m : Phys) (own : Nat → Prop) (phys : Nat) : Prop where
  aligned : Aligned phys
  lt : phys < 2 ^ 32
  ne : phys ≠ 0
  used : Used m phys
  apart : ¬ (Structural m phys ∨ Backing m own phys)

theorem mapping_none_of_dir (hp : present (dir_entry m (p / 1024)) = false) : mapping m p = none := by
  rw [mapping, hp]
  rfl

section
variable (h : Owned m own) (hc : Clear m own) (hvirt : virt < 2 ^ 32)
include h hc hvirt

/-- 項目を書いた状態のディレクトリは、表を開いた状態のものである。 -/
theorem Owned.map_address_user_dir (hlt : phys < 2 ^ 32) :
    SameDir (Mem.get_page m virt PAGE_USER).1 (Mem.map_address_user m virt phys) ∧
      ∀ x, (∀ f, Structural (Mem.get_page m virt PAGE_USER).1 f → x / 4096 ≠ f / 4096) →
        (Mem.map_address_user m virt phys).ram x = m.ram x := by
  have hf := h.fresh_table hc
  obtain ⟨ho, -⟩ := h.toSeparate.get_page (fun _ => hf.toApartTable) hvirt (.inr rfl)
  have hpd := pd_index_lt hvirt
  obtain ⟨hram, hcur, hkernel⟩ := release_words (Mem.get_page m virt PAGE_USER).1 (some phys) (mapping m (virt / 4096))
  have hbytes := fun x => h.toSeparate.get_page_bytes (x := x) (fun _ => hf.toApartTable) hvirt
  rw [h.toSeparate.map_address_user_eq hvirt fun _ => hf]
  generalize (Mem.get_page m virt PAGE_USER).1 = o at *
  have hstore : ((release o (some phys) (mapping m (virt / 4096))).store32
      (table_at o (pd_index virt) + 4 * pt_index virt) (page_addr phys + 7)).ram =
        o.ram.store32 (table_at o (pd_index virt) + 4 * pt_index virt) (page_addr phys + 7) := by
    unfold Phys.store32
    rw [hram]
  obtain ⟨-, hdir, -⟩ := ho.separate.store_page hpd pt_index_lt ho.here (page_addr_user_lt hlt) hstore hcur hkernel
  refine ⟨⟨hcur, hkernel, hdir⟩, fun x hx => ?_⟩
  rw [hstore]
  exact (store_byte (aligned_table o _) pt_index_lt (hx _ (.table hpd ho.here))).trans (hbytes x hx)

theorem Owned.map_address_user (hp : own (virt / 4096)) (hs : Spare m own phys) :
    PageMapped m (Mem.map_address_user m virt phys) (virt / 4096) phys := by
  have hf := h.fresh_table hc
  have hp' : virt / 4096 < 2 ^ 20 := by omega
  have hk' : virt / 4096 / 1024 < 1024 := by omega
  obtain ⟨ho, -⟩ := h.toSeparate.get_page (fun _ => hf.toApartTable) hvirt (.inr rfl)
  obtain ⟨hdir, hbytes⟩ := h.map_address_user_dir hc hvirt hs.lt
  obtain ⟨hsep, hmap, hbitmap, hrefs⟩ := h.toSeparate.map_address_user hvirt hs.lt fun _ => hf
  have horefs := get_page_refs m virt (.inr (Eq.refl PAGE_USER))
  have hsame : present (dir_entry m (pd_index virt)) = true → (Mem.get_page m virt PAGE_USER).1 = m :=
    fun hpres => congrArg Prod.fst (get_page_present hpres)
  rw [hs.aligned.page_addr_eq] at hmap
  rw [← (virt_div virt).1] at ho horefs hsame
  generalize Mem.map_address_user m virt phys = m' at *
  generalize (Mem.get_page m virt PAGE_USER).1 = o at *
  generalize virt / 4096 = p at *
  have hused : ∀ a, Used o a → (∀ f flags, mapping m p = some (f, flags) → a / 4096 ≠ f / 4096) → Used m' a := by
    intro a hu hne
    have hrel := release_used (some phys) hu hne
    unfold Used at hrel ⊢
    rw [hbitmap]
    exact hrel
  refine ⟨hsep, fun w hw => ?_, fun f => hdir.structural.trans (ho.structural hk'), fun k hk => ?_,
    fun k k' hk hk' hpk hpk' heq => ?_, fun x hx => hbytes x fun f hf => hx f (hdir.structural.mpr hf),
    fun a hu hne => hused a (ho.used hu) hne, fun hnone => ?_, fun a hu hne => ?_, ?_⟩
  · rw [hmap w hw]
    exact if_congr (h.same_entry hw hp') rfl rfl
  · rw [hdir.dir k hk]
    exact ho.dir_iff hk
  · rw [hdir.dir k hk] at hpk
    rw [hdir.dir k' hk'] at hpk'
    rw [hdir.table hk, hdir.table hk'] at heq
    exact h.opened_inj hc ho.toHasTable hk hk' hpk hpk' heq
  · refine hused _ ?_ fun g flags hg => ?_
    · unfold Used
      rw [ho.bitmap, hnone]
      exact alloc_blocks_used_self m h.zero
    · cases (mapping_none_of_dir hnone).symm.trans hg
  · rw [hrefs]
    refine (release_refs hne).trans ?_
    rw [horefs]
    split
    · rfl
    · exact alloc_blocks_refs m hu
  · rw [free_count_congr hbitmap]
    cases hpres : present (dir_entry m (p / 1024)) with
    | true =>
      rw [hsame hpres, if_pos rfl, Nat.sub_zero]
      refine release_count fun f flags hm => ?_
      have hback : Backing m own f := ⟨p, flags, hp', hp, hm⟩
      exact ⟨(h.backing f hback).1, fun heq => hs.apart (.inr (Option.some.inj heq ▸ hback))⟩
    | false =>
      have hfc : free_count o = free_count (alloc_blocks m).1 := by
        refine free_count_congr ?_
        rw [ho.bitmap, hpres]
        rfl
      have hfrees : frees m p = false := by
        unfold frees
        rw [mapping_none_of_dir hpres]
      rw [mapping_none_of_dir hpres, hfrees, Bool.toNat_false, Nat.add_zero, if_neg (by decide), ← alloc_blocks_count]
      exact hfc

omit hvirt in
/-- ページを写しても、`own` のページはそれぞれ自分のブロックを使う。 -/
theorem PageMapped.owned (hm : PageMapped m m' p phys) (hp : own p) (hp' : p < 2 ^ 20) (hs : Spare m own phys) :
    Owned m' own := by
  have hold : ∀ {f flags}, Mem.mapping m p = some (f, flags) → Backing m own f := fun hf => ⟨p, _, hp', hp, hf⟩
  -- ほかの使い道のブロックは、前にあったブロックではない
  have hused : ∀ f, Used m f → Aligned f → (∀ g flags, Mem.mapping m p = some (g, flags) → f ≠ g) → Used m' f :=
    fun f hu hal hne => hm.used f hu fun g flags hg => div_ne hal (mapping_aligned hg) (hne g flags hg)
  have hphys : Used m' phys ∧ ¬ Structural m' phys := by
    refine ⟨hused phys hs.used hs.aligned fun g flags hg heq => hs.apart (.inr (heq ▸ hold hg)), fun hsf => ?_⟩
    rcases (hm.structural phys).mp hsf with hsf | ⟨-, heq⟩
    · exact hs.apart (.inl hsf)
    · exact alloc_blocks_ne hs.used hs.ne heq.symm
  have hback : ∀ f q flags, q < 2 ^ 20 → own q → q ≠ p → Mem.mapping m q = some (f, flags) →
      Used m' f ∧ ¬ Structural m' f := by
    intro f q flags hq hoq hqp hmq
    have hbf : Backing m own f := ⟨q, flags, hq, hoq, hmq⟩
    refine ⟨hused f (h.backing f hbf).1 hbf.aligned fun g flags hg heq => ?_, fun hsf => ?_⟩
    · subst heq
      exact hqp (h.page_inj q p _ _ _ hq hp' hoq hp hmq hg)
    · rcases (hm.structural f).mp hsf with hsf | ⟨-, rfl⟩
      · exact (h.backing f hbf).2 hsf
      · exact h.new_table hc (.inr hbf)
  refine ⟨hm.separate, ?_, fun f hsf => ?_, fun f hf => ?_, hm.table_inj, fun q q' f fq fq' hq hq' hoq hoq' hmq hmq' => ?_⟩
  · exact hused 0 h.zero rfl fun g flags hg => (hc g (.inr (hold hg))).symm
  · rcases (hm.structural f).mp hsf with hsf | ⟨hnone, rfl⟩
    · refine hused f (h.structural f hsf) (h.structural_aligned hsf) fun g flags hg heq => ?_
      exact (h.backing g (hold hg)).2 (heq ▸ hsf)
    · exact hm.table_used hnone
  · obtain ⟨q, flags, hq, hoq, hmq⟩ := hf
    rw [hm.mapping q hq] at hmq
    split at hmq
    · cases hmq
      exact hphys
    next hqp => exact hback f q flags hq hoq hqp hmq
  · rw [hm.mapping q hq] at hmq
    rw [hm.mapping q' hq'] at hmq'
    split at hmq <;> split at hmq'
    next hqp hqp' => exact hqp.trans hqp'.symm
    · cases hmq
      exact absurd (.inr ⟨q', _, hq', hoq', hmq'⟩) hs.apart
    · cases hmq'
      exact absurd (.inr ⟨q, _, hq, hoq, hmq⟩) hs.apart
    · exact h.page_inj q q' f fq fq' hq hq' hoq hoq' hmq hmq'

end

end MyOS.Mem
