import MyOS.Mem.Lemmas.Fork

/-! ディレクトリの解放。表とページのブロックを順に空きに戻す。 -/

namespace MyOS.Mem
open MyOS.Lib

variable {m m' m₀ m₁ : Phys} {P D a b i j : Nat} {freed : Nat → Prop}

/-- ブロック `freed` を空きに戻した。 -/
structure Reclaimed (m₀ m : Phys) (freed : Nat → Prop) : Prop where
  bitmap : ∀ b, m.mem_bitmap b = true ↔ m₀.mem_bitmap b = true ∨ b < MAX_BLOCK_ENTRIES ∧ freed b
  refs : ∀ b, m₀.ref_counts b ≤ 1 → m.ref_counts b ≤ 1
  cur : m.cur_page_dir = m₀.cur_page_dir

theorem Reclaimed.refl (m : Phys) : Reclaimed m m fun _ => False :=
  ⟨fun b => by simp, fun _ => id, rfl⟩

theorem Reclaimed.congr {freed' : Nat → Prop} (h : Reclaimed m₀ m freed) (hf : ∀ b, freed b ↔ freed' b) :
    Reclaimed m₀ m freed' :=
  ⟨fun b => (h.bitmap b).trans (or_congr_right (and_congr_right' (hf b))), h.refs, h.cur⟩

theorem Reclaimed.store (h : Reclaimed m₀ m freed) (a v : Nat) : Reclaimed m₀ (m.store32 a v) freed :=
  ⟨h.bitmap, h.refs, h.cur⟩

theorem free_blocks_bytes : (free_blocks m a).ram = m.ram := by
  unfold free_blocks
  dsimp only
  split_ifs <;> rfl

/-- 参照が一つしかないブロックは、空きに戻る。 -/
theorem Reclaimed.free (h : Reclaimed m₀ m freed) (hone : m₀.ref_counts (a / 4096) ≤ 1) :
    Reclaimed m₀ (free_blocks m a) fun b => freed b ∨ b = a / 4096 := by
  have hle := h.refs _ hone
  unfold free_blocks
  dsimp only [BLOCK_SIZE]
  by_cases hbig : MAX_BLOCK_ENTRIES ≤ a / 4096
  · rw [if_pos hbig]
    refine ⟨fun b => (h.bitmap b).trans ?_, h.refs, h.cur⟩
    by_cases hb : b = a / 4096
    · have hnot : ¬ b < MAX_BLOCK_ENTRIES := by omega
      simp [hnot]
    · simp [hb]
  · rw [if_neg hbig, if_neg (Nat.not_lt.mpr hle)]
    refine ⟨fun b => ?_, fun b hb => ?_, h.cur⟩
    · show (if b = a / 4096 then true else m.mem_bitmap b) = true ↔ _
      by_cases hb : b = a / 4096
      · have hlt : b < MAX_BLOCK_ENTRIES := by omega
        rw [if_pos hb]
        exact ⟨fun _ => .inr ⟨hlt, .inr hb⟩, fun _ => rfl⟩
      · rw [if_neg hb, h.bitmap b]
        simp [hb]
    · show (if b = a / 4096 then 0 else m.ref_counts b) ≤ 1
      split
      · exact Nat.zero_le 1
      · exact h.refs b hb

/-- 表は互いに異なり、ディレクトリとも異なる。 -/
structure Split (ram : ByteMem) (dir : Nat) : Prop where
  aligned : Aligned dir
  ne : ∀ i, i < 1024 → user_table ram dir i = true → page_addr (word ram dir i) ≠ dir
  inj : ∀ i i', i < 1024 → i' < 1024 → user_table ram dir i = true → user_table ram dir i' = true →
    page_addr (word ram dir i) = page_addr (word ram dir i') → i = i'

/-- ページ `(i, j)` の前までに解放するブロック。 -/
def DirBlock (ram : ByteMem) (dir i j b : Nat) : Prop :=
  (∃ i' j', Before i j i' j' ∧ i' < 1024 ∧ j' < 1024 ∧ user_table ram dir i' = true ∧
    present (word ram (page_addr (word ram dir i')) j') = true ∧ page_of ram dir i' j' ≠ 0 ∧
    b = page_of ram dir i' j' / 4096) ∨
  ∃ i', i' < i ∧ i' < 1024 ∧ user_table ram dir i' = true ∧ b = page_addr (word ram dir i') / 4096

/-- ページ `(i, j)` の前までを解放した。書き換えたのは、表の項目だけである。 -/
structure Freeing (m₀ : Phys) (dir i j : Nat) (m : Phys) : Prop where
  reclaimed : Reclaimed m₀ m (DirBlock m₀.ram dir i j)
  bytes : ∀ x, (∀ i, i < 1024 → user_table m₀.ram dir i = true → x / 4096 ≠ page_addr (word m₀.ram dir i) / 4096) →
    m.ram x = m₀.ram x
  later : ∀ i' j', i' < 1024 → j' < 1024 → user_table m₀.ram dir i' = true → ¬ Before i j i' j' →
    word m.ram (page_addr (word m₀.ram dir i')) j' = word m₀.ram (page_addr (word m₀.ram dir i')) j'

section

variable {dir : Nat} (hs : Split m₀.ram dir) (hone : ∀ i j b, DirBlock m₀.ram dir i j b → m₀.ref_counts b ≤ 1)
include hs

theorem Freeing.dir_word (h : Freeing m₀ dir i j m) {k : Nat} (hk : k < 1024) : word m.ram dir k = word m₀.ram dir k := by
  refine word_congr hs.aligned hk fun x hx => h.bytes x fun i' hi' hut => ?_
  rw [hx]
  exact div_ne hs.aligned (aligned_page_addr _) (hs.ne i' hi' hut).symm

omit hs in
/-- 項目のないページを過ぎる。 -/
theorem Freeing.skip (h : Freeing m₀ dir i j m) (hnot : ¬ (user_table m₀.ram dir i = true ∧
    present (word m₀.ram (page_addr (word m₀.ram dir i)) j) = true)) : Freeing m₀ dir i (j + 1) m := by
  refine ⟨h.reclaimed.congr fun b => or_congr_left ?_, h.bytes, fun i' j' hi hj hut hb =>
    h.later i' j' hi hj hut fun hb' => hb hb'.next⟩
  refine ⟨fun ⟨i', j', hb, hrest⟩ => ⟨i', j', hb.next, hrest⟩, fun ⟨i', j', hb, hi, hj, hut, hp, hrest⟩ =>
    ⟨i', j', (before_succ hb).resolve_right ?_, hi, hj, hut, hp, hrest⟩⟩
  rintro ⟨rfl, rfl⟩
  exact hnot ⟨hut, hp⟩

include hone in
theorem Freeing.page (h : Freeing m₀ dir i j m) (hi : i < 1024) (hj : j < 1024) (hut : user_table m₀.ram dir i = true) :
    Freeing m₀ dir i (j + 1) (free_entry (page_addr (word m₀.ram dir i)) m j) := by
  have hnow : m.ram.load32 (page_addr (word m₀.ram dir i) + 4 * j) =
      m₀.ram.load32 (page_addr (word m₀.ram dir i) + 4 * j) := h.later i j hi hj hut fun hb => by
    unfold Before at hb
    omega
  unfold free_entry
  rw [hnow]
  by_cases hp : present (word m₀.ram (page_addr (word m₀.ram dir i)) j) = true
  · rw [if_pos (show present (m₀.ram.load32 _) = true from hp)]
    unfold free_page
    rw [hnow]
    have hthis : DirBlock m₀.ram dir i (j + 1) = fun b => DirBlock m₀.ram dir i j b ∨
        page_of m₀.ram dir i j ≠ 0 ∧ b = page_of m₀.ram dir i j / 4096 := by
      funext b
      refine propext ⟨?_, ?_⟩
      · rintro (⟨i', j', hb, hi', hj', hut', hp', hne, hbeq⟩ | ht)
        · rcases before_succ hb with hb | ⟨rfl, rfl⟩
          · exact .inl (.inl ⟨i', j', hb, hi', hj', hut', hp', hne, hbeq⟩)
          · exact .inr ⟨hne, hbeq⟩
        · exact .inl (.inr ht)
      · rintro ((⟨i', j', hb, hrest⟩ | ht) | ⟨hne, hbeq⟩)
        · exact .inl ⟨i', j', hb.next, hrest⟩
        · exact .inr ht
        · exact .inl ⟨i, j, .inr ⟨rfl, Nat.lt_succ_self j⟩, hi, hj, hut, hp, hne, hbeq⟩
    have hfree : Reclaimed m₀ (if page_addr (m₀.ram.load32 (page_addr (word m₀.ram dir i) + 4 * j)) ≠ 0 then
        free_blocks m (page_addr (m₀.ram.load32 (page_addr (word m₀.ram dir i) + 4 * j))) else m)
        (DirBlock m₀.ram dir i (j + 1)) := by
      split
      next hne =>
        have := h.reclaimed.free (a := page_of m₀.ram dir i j) (hone i (j + 1) _ (by
          rw [hthis]
          exact .inr ⟨hne, rfl⟩))
        rw [hthis]
        exact this.congr fun b => or_congr_right (iff_and_self.mpr fun _ => hne)
      next h0 =>
        rw [hthis]
        exact h.reclaimed.congr fun b => (or_iff_left fun hn => h0 hn.1).symm
    have hram : (if page_addr (m₀.ram.load32 (page_addr (word m₀.ram dir i) + 4 * j)) ≠ 0 then
        free_blocks m (page_addr (m₀.ram.load32 (page_addr (word m₀.ram dir i) + 4 * j))) else m).ram = m.ram := by
      split
      · exact free_blocks_bytes
      · rfl
    refine ⟨hfree.store _ _, fun x hx => ?_, fun i' j' hi' hj' hut' hb => ?_⟩
    · show (Phys.ram _).store32 (page_addr (word m₀.ram dir i) + 4 * j) 0 x = _
      rw [store_byte (aligned_page_addr _) hj (hx i hi hut), hram]
      exact h.bytes x hx
    · rw [word_store32 (aligned_page_addr _) (aligned_page_addr _) hj hj' (by decide), if_neg, hram]
      · exact h.later i' j' hi' hj' hut' fun hb' => hb hb'.next
      · rintro ⟨ht, rfl⟩
        exact hb (.inr ⟨hs.inj i' i hi' hi hut' hut ht, Nat.lt_succ_self j'⟩)
  · rw [if_neg (show ¬ present (m₀.ram.load32 _) = true from hp)]
    exact h.skip fun hc => hp hc.2

include hone in
theorem Freeing.table (h : Freeing m₀ dir i 0 m) (hi : i < KERNEL_PAGE_NUMBER) :
    Freeing m₀ dir (i + 1) 0 (free_table dir m i) := by
  have hi' : i < 1024 := Nat.lt_trans hi (by decide)
  have hpde : pde m.ram dir i = word m₀.ram dir i := h.dir_word hs hi'
  -- 次の表の先頭は、この表の終わりである
  have hnext : ∀ {b}, DirBlock m₀.ram dir (i + 1) 0 b ↔ DirBlock m₀.ram dir i 1024 b ∨
      user_table m₀.ram dir i = true ∧ b = page_addr (word m₀.ram dir i) / 4096 := by
    intro b
    constructor
    · rintro (⟨i', j', hb, hi'', hj', hrest⟩ | ⟨i', hlt, hi'', hut, hbeq⟩)
      · exact .inl (.inl ⟨i', j', (before_row hj').mp hb, hi'', hj', hrest⟩)
      · rcases Nat.lt_or_eq_of_le (Nat.lt_succ_iff.mp hlt) with hlt | rfl
        · exact .inl (.inr ⟨i', hlt, hi'', hut, hbeq⟩)
        · exact .inr ⟨hut, hbeq⟩
    · rintro ((⟨i', j', hb, hi'', hj', hrest⟩ | ⟨i', hlt, hrest⟩) | ⟨hut, hbeq⟩)
      · exact .inl ⟨i', j', (before_row hj').mpr hb, hi'', hj', hrest⟩
      · exact .inr ⟨i', Nat.lt_succ_of_lt hlt, hrest⟩
      · exact .inr ⟨i, Nat.lt_succ_self i, hi', hut, hbeq⟩
  have hlater : ∀ {i' j'}, j' < 1024 → ¬ Before (i + 1) 0 i' j' → ¬ Before i 1024 i' j' :=
    fun hj hb hb' => hb ((before_row hj).mpr hb')
  unfold free_table
  simp only [hpde]
  by_cases hp : present (word m₀.ram dir i) = true
  · have hut : user_table m₀.ram dir i = true := by simp [user_table, hi, hp]
    rw [if_pos hp]
    have hrow : Freeing m₀ dir i 1024 ((List.range 1024).foldl (free_entry (page_addr (word m₀.ram dir i))) m) :=
      foldl_range_inv (P := fun j m => Freeing m₀ dir i j m) 1024 h fun j m hj hf => hf.page hs hone hi' hj hut
    refine ⟨?_, fun x hx => ?_, fun i' j' hi'' hj' hut' hb => ?_⟩
    · refine (hrow.reclaimed.free (hone (i + 1) 0 _ (hnext.mpr (.inr ⟨hut, rfl⟩)))).congr fun b => ?_
      rw [hnext]
      exact or_congr_right (iff_and_self.mpr fun _ => hut)
    · rw [free_blocks_bytes]
      exact hrow.bytes x hx
    · rw [free_blocks_bytes]
      exact hrow.later i' j' hi'' hj' hut' (hlater hj' hb)
  · rw [if_neg hp]
    have hskip : ∀ j, Freeing m₀ dir i j m := by
      intro j
      induction j with
      | zero => exact h
      | succ j ih => exact ih.skip fun hc => hp (user_table_present hc.1).2
    refine ⟨(hskip 1024).reclaimed.congr fun b => ?_, (hskip 1024).bytes, fun i' j' hi'' hj' hut' hb =>
      (hskip 1024).later i' j' hi'' hj' hut' (hlater hj' hb)⟩
    rw [hnext]
    exact (or_iff_left fun hc => hp (user_table_present hc.1).2).symm

end

end MyOS.Mem
