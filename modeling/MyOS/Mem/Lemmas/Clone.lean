import MyOS.Mem.Lemmas.Alloc

/-! ディレクトリの複製。 -/

namespace MyOS.Mem
open MyOS.Lib

variable {m m' m₀ : Phys} {P D a i k t : Nat}

/-- ユーザの側にある表。 -/
def user_table (ram : ByteMem) (dir i : Nat) : Bool := decide (i < KERNEL_PAGE_NUMBER) && present (word ram dir i)

/-- ユーザのページ。 -/
def user_page (ram : ByteMem) (dir i j : Nat) : Bool :=
  user_table ram dir i &&
    (present (word ram (page_addr (word ram dir i)) j) && user (word ram (page_addr (word ram dir i)) j))

/-- ユーザのページのブロック。 -/
def page_of (ram : ByteMem) (dir i j : Nat) : Nat := page_addr (word ram (page_addr (word ram dir i)) j)

/-- ディレクトリと、ユーザの側の表とページのブロックは使われている。ブロック 0 は空きでない。 -/
structure Held (m : Phys) (dir : Nat) : Prop where
  zero : Used m 0
  aligned : Aligned dir
  used : Used m dir
  table : ∀ i, i < 1024 → user_table m.ram dir i = true → Used m (page_addr (word m.ram dir i))
  page : ∀ i j, i < 1024 → j < 1024 → user_page m.ram dir i j = true → Used m (page_of m.ram dir i j)

/-- 子の表 `i`。親の項目の下位のビットを受け継ぐ。 -/
structure BlankTable (m₀ m : Phys) (P D i : Nat) : Prop where
  fresh : Fresh m₀ m (page_addr (word m.ram D i))
  ne : page_addr (word m.ram D i) ≠ D
  flags : word m.ram D i % 4096 = word m₀.ram P i % 4096
  blank : ∀ j, j < 1024 → word m.ram (page_addr (word m.ram D i)) j = 0

/-- `i < k` まで複製した。 -/
structure Cloned (m₀ m : Phys) (P D k : Nat) : Prop where
  kept : Kept m₀ m
  dir : Fresh m₀ m D
  blank : ∀ i, i < 1024 → k ≤ i ∨ present (word m₀.ram P i) = false → word m.ram D i = 0
  kern : ∀ i, i < 1024 → i < k → KERNEL_PAGE_NUMBER ≤ i → present (word m₀.ram P i) = true →
    word m.ram D i = word m₀.ram P i
  table : ∀ i, i < 1024 → i < k → user_table m₀.ram P i = true → BlankTable m₀ m P D i
  inj : ∀ i i', i < 1024 → i' < 1024 → i < k → i' < k → user_table m₀.ram P i = true →
    user_table m₀.ram P i' = true → page_addr (word m.ram D i) = page_addr (word m.ram D i') → i = i'
  count : free_count m + (1 + (List.range k).countP (user_table m₀.ram P)) = free_count m₀

theorem word_store32 (ha : Aligned a) {b j v : Nat} (hb : Aligned b) (hi : i < 1024) (hj : j < 1024)
    (hv : v < 2 ^ 32) :
    word (m.store32 (a + 4 * i) v).ram b j = if b = a ∧ j = i then v else word m.ram b j :=
  word_store ha hb hi hj hv

theorem word_clear (ha : Aligned a) {b j : Nat} (hb : Aligned b) (hj : j < 1024) :
    word (m.clear a).ram b j = if b = a then 0 else word m.ram b j := word_fill ha hb hj

theorem Cloned.start (ha : Allocates m₀ m D) : Cloned m₀ (m.clear D) P D 0 := by
  obtain ⟨hkept, hfresh⟩ := ha.clear
  refine ⟨hkept, hfresh, fun i hi _ => ?_, fun i _ hi => by omega, fun i _ hi => by omega,
    fun i i' _ _ hi => by omega, ?_⟩
  · rw [word_clear ha.fresh.aligned ha.fresh.aligned hi, if_pos rfl]
  · have : free_count (m.clear D) = free_count m := free_count_congr rfl
    rw [this, List.range_zero, List.countP_nil]
    exact ha.count

/-- 親の項目は変わらない。 -/
theorem Cloned.parent (h : Cloned m₀ m P D k) (hP : Held m₀ P) (hi : i < 1024) :
    word m.ram P i = word m₀.ram P i := h.kept.word hP.aligned hP.used hi

/-- 子のディレクトリに書く。 -/
theorem Kept.store_dir (h : Kept m₀ m) (hD : Fresh m₀ m D) (hi : i < 1024) (v : Nat) :
    Kept m₀ (m.store32 (D + 4 * i) v) := by
  refine ⟨fun x hx => ?_, h.used⟩
  show m.ram.store32 (D + 4 * i) v x = m₀.ram x
  rw [store_byte hD.aligned hi, h.bytes x hx]
  intro hxD
  unfold Used at hx
  rw [hxD] at hx
  cases hx.symm.trans hD.free

theorem user_table_kernel {ram : ByteMem} (h : KERNEL_PAGE_NUMBER ≤ i) : user_table ram P i = false := by
  simp [user_table, Nat.not_lt.mpr h]

theorem user_table_present {ram : ByteMem} (h : user_table ram P i = true) :
    i < KERNEL_PAGE_NUMBER ∧ present (word ram P i) = true := by
  simpa [user_table] using h

/-- 項目がない。 -/
theorem Cloned.skip (h : Cloned m₀ m P D k) (hnot : present (word m₀.ram P k) = false) :
    Cloned m₀ m P D (k + 1) := by
  have hut : user_table m₀.ram P k = false := by simp [user_table, hnot]
  have hlt : ∀ {i}, i < k + 1 → present (word m₀.ram P i) = true → i < k := by
    intro i hi hp
    by_cases hik : i = k
    · subst hik
      cases hnot.symm.trans hp
    · omega
  refine ⟨h.kept, h.dir, fun i hi hb => h.blank i hi ?_, fun i hi hik h768 hp => ?_,
    fun i hi hik hut => ?_, fun i i' hi hi' hik hik' hut hut' => ?_, ?_⟩
  · rcases hb with hb | hb
    · exact .inl (by omega)
    · exact .inr hb
  · exact h.kern i hi (hlt hik hp) h768 hp
  · exact h.table i hi (hlt hik (user_table_present hut).2) hut
  · exact h.inj i i' hi hi' (hlt hik (user_table_present hut).2) (hlt hik' (user_table_present hut').2) hut hut'
  · rw [countP_range_succ, hut]
    exact h.count

theorem BlankTable.store_dir {v : Nat} (h : BlankTable m₀ m P D i) (hD : Fresh m₀ m D) (hi : i < 1024)
    (hk : k < 1024) (hik : i ≠ k) (hv : v < 2 ^ 32) : BlankTable m₀ (m.store32 (D + 4 * k) v) P D i := by
  have hw : word (m.store32 (D + 4 * k) v).ram D i = word m.ram D i := by
    rw [word_store32 hD.aligned hD.aligned hk hi hv, if_neg fun hc => hik hc.2]
  refine ⟨?_, ?_, ?_, fun j hj => ?_⟩
  · rw [hw]
    exact ⟨h.fresh.aligned, h.fresh.lt, h.fresh.free, h.fresh.used⟩
  · rw [hw]
    exact h.ne
  · rw [hw]
    exact h.flags
  · rw [hw, word_store32 hD.aligned h.fresh.aligned hk hj hv, if_neg fun hc => h.ne hc.1]
    exact h.blank j hj

/-- カーネルの側の項目を写した。 -/
theorem Cloned.kernel (h : Cloned m₀ m P D k) (hk : k < 1024) (h768 : KERNEL_PAGE_NUMBER ≤ k)
    (hp : present (word m₀.ram P k) = true) : Cloned m₀ (m.store32 (D + 4 * k) (word m₀.ram P k)) P D (k + 1) := by
  have hw : ∀ i, i < 1024 → word (m.store32 (D + 4 * k) (word m₀.ram P k)).ram D i =
      if i = k then word m₀.ram P k else word m.ram D i := by
    intro i hi
    rw [word_store32 h.dir.aligned h.dir.aligned hk hi word_lt]
    simp
  have hne : ∀ {i}, user_table m₀.ram P i = true → i ≠ k := by
    rintro i hut rfl
    rw [user_table_kernel h768] at hut
    cases hut
  refine ⟨h.kept.store_dir h.dir hk _, ⟨h.dir.aligned, h.dir.lt, h.dir.free, h.dir.used⟩,
    fun i hi hb => ?_, fun i hi hik h768' hp' => ?_, fun i hi hik hut => ?_,
    fun i i' hi hi' hik hik' hut hut' => ?_, ?_⟩
  · rw [hw i hi]
    split
    next heq =>
      subst heq
      rcases hb with hb | hb
      · omega
      · cases hb.symm.trans hp
    next hik => exact h.blank i hi (hb.imp (fun _ => by omega) id)
  · rw [hw i hi]
    split
    next heq => rw [heq]
    next hne => exact h.kern i hi (by omega) h768' hp'
  · exact (h.table i hi (by have := hne hut; omega) hut).store_dir h.dir hi hk (hne hut) word_lt
  · rw [hw i hi, hw i' hi', if_neg (hne hut), if_neg (hne hut')]
    exact h.inj i i' hi hi' (by have := hne hut; omega) (by have := hne hut'; omega) hut hut'
  · have : free_count (m.store32 (D + 4 * k) (word m₀.ram P k)) = free_count m := free_count_congr rfl
    rw [this, countP_range_succ, user_table_kernel h768]
    exact h.count

/-- 新しい表を割り当て、埋めてから、ディレクトリに書いた状態の語。 -/
theorem word_new_table {b j v : Nat} (hD : Aligned D) (hk : k < 1024) (ha : Allocates m m' t)
    (hb : Aligned b) (hj : j < 1024) (hv : v < 2 ^ 32) :
    word ((m'.clear t).store32 (D + 4 * k) v).ram b j =
      if b = D ∧ j = k then v else if b = t then 0 else word m.ram b j := by
  rw [word_store32 hD hb hk hj hv, word_clear ha.fresh.aligned hb hj, ha.ram]

/-- ユーザの側に空の表を置いた。 -/
theorem Cloned.new_table (h : Cloned m₀ m P D k) (hk : k < 1024) (hut : user_table m₀.ram P k = true)
    (ha : Allocates m m' t) :
    Cloned m₀ ((m'.clear t).store32 (D + 4 * k) (t + word m₀.ram P k % 4096)) P D (k + 1) := by
  have htlt : t + word m₀.ram P k % 4096 < 2 ^ 32 := by
    have := ha.fresh.lt
    have := ha.fresh.aligned
    unfold Aligned at this
    omega
  have hw : ∀ b j, Aligned b → j < 1024 →
      word ((m'.clear t).store32 (D + 4 * k) (t + word m₀.ram P k % 4096)).ram b j =
        if b = D ∧ j = k then t + word m₀.ram P k % 4096 else if b = t then 0 else word m.ram b j :=
    fun b j hb hj => word_new_table h.dir.aligned hk ha hb hj htlt
  have hDt : D ≠ t := h.dir.ne_later ha.fresh
  have hwD : ∀ i, i < 1024 →
      word ((m'.clear t).store32 (D + 4 * k) (t + word m₀.ram P k % 4096)).ram D i =
        if i = k then t + word m₀.ram P k % 4096 else word m.ram D i := by
    intro i hi
    rw [hw D i h.dir.aligned hi]
    by_cases hik : i = k
    · simp [hik]
    · simp [hik, hDt]
  obtain ⟨hkept, hfresh⟩ := ha.clear
  have hD' : Fresh m₀ (m'.clear t) D := h.dir.later hkept
  have hused : ∀ b, Used (m'.clear t) b → Used ((m'.clear t).store32 (D + 4 * k) (t + word m₀.ram P k % 4096)) b :=
    fun _ => id
  have hold : ∀ {i}, user_table m₀.ram P i = true → i < k + 1 → i ≠ k → i < k := by
    intro i _ hi hne
    omega
  have hpage : page_addr (t + word m₀.ram P k % 4096) = t :=
    page_addr_add ha.fresh.aligned (Nat.mod_lt _ (by decide))
  refine ⟨(h.kept.trans hkept).store_dir hD' hk _, ⟨hD'.aligned, hD'.lt, hD'.free, hD'.used⟩,
    fun i hi hb => ?_, fun i hi hik h768 hp => ?_, fun i hi hik hut' => ?_,
    fun i i' hi hi' hik hik' hu hu' => ?_, ?_⟩
  · rw [hwD i hi, if_neg]
    · exact h.blank i hi (hb.imp (fun _ => by omega) id)
    · rintro rfl
      rcases hb with hb | hb
      · omega
      · cases hb.symm.trans (user_table_present hut).2
  · have hne : i ≠ k := by
      rintro rfl
      have := (user_table_present hut).1
      omega
    rw [hwD i hi, if_neg hne]
    exact h.kern i hi (by omega) h768 hp
  · by_cases hik' : i = k
    · subst hik'
      have hwi := (hwD i hi).trans (if_pos rfl)
      refine ⟨?_, ?_, ?_, fun j hj => ?_⟩
      · rw [hwi, hpage]
        refine ⟨ha.fresh.aligned, ha.fresh.lt, ?_, hused t hfresh.used⟩
        -- `m` で空きのブロックは `m₀` でも空きである
        cases hf : m₀.mem_bitmap (t / 4096) with
        | true => rfl
        | false => exact absurd rfl (ha.fresh.ne_of_used (h.kept.used t hf))
      · rw [hwi, hpage]
        exact hDt.symm
      · rw [hwi]
        have := ha.fresh.aligned
        unfold Aligned at this
        omega
      · rw [hwi, hpage, hw t j ha.fresh.aligned hj, if_neg fun hc => hDt hc.1.symm, if_pos rfl]
    · have ht := h.table i hi (by omega) hut'
      have hwi := (hwD i hi).trans (if_neg hik')
      have hne : page_addr (word m.ram D i) ≠ t := ht.fresh.ne_later ha.fresh
      refine ⟨?_, ?_, ?_, fun j hj => ?_⟩
      · rw [hwi]
        exact ⟨ht.fresh.aligned, ht.fresh.lt, ht.fresh.free, hused _ (hkept.used _ ht.fresh.used)⟩
      · rw [hwi]
        exact ht.ne
      · rw [hwi]
        exact ht.flags
      · rw [hwi, hw _ j ht.fresh.aligned hj, if_neg fun hc => ht.ne hc.1, if_neg hne]
        exact ht.blank j hj
  · rw [hwD i hi, hwD i' hi']
    by_cases hi₁ : i = k <;> by_cases hi₂ : i' = k
    · omega
    · subst hi₁
      rw [if_pos rfl, if_neg hi₂, hpage]
      intro heq
      exact absurd heq.symm ((h.table i' hi' (by omega) hu').fresh.ne_later ha.fresh)
    · subst hi₂
      rw [if_neg hi₁, if_pos rfl, hpage]
      intro heq
      exact absurd heq ((h.table i hi (by omega) hu).fresh.ne_later ha.fresh)
    · rw [if_neg hi₁, if_neg hi₂]
      exact h.inj i i' hi hi' (by omega) (by omega) hu hu'
  · have hfc : free_count ((m'.clear t).store32 (D + 4 * k) (t + word m₀.ram P k % 4096)) = free_count m' :=
      free_count_congr rfl
    have := ha.count
    have := h.count
    rw [hfc, countP_range_succ, hut, Bool.toNat_true]
    omega

/-- ユーザの側の表の数。 -/
def table_count (ram : ByteMem) (dir : Nat) : Nat := (List.range 1024).countP (user_table ram dir)

/-- 今のディレクトリは変わらない。 -/
theorem clone_entry_cur (m : Phys) : (clone_entry D m k).cur_page_dir = m.cur_page_dir := by
  unfold clone_entry
  dsimp only
  split
  · split
    · rfl
    · rcases alloc_blocks_cases m with ⟨heq, -⟩ | ha
      · rw [heq]
        rfl
      · show (alloc_blocks m).1.cur_page_dir = m.cur_page_dir
        rw [ha.rest]
  · rfl

theorem Cloned.entry (h : Cloned m₀ m P D k) (hP : Held m₀ P) (hcur : m.cur_page_dir = P) (hk : k < 1024)
    (hfree : 1 + table_count m₀.ram P ≤ free_count m₀) : Cloned m₀ (clone_entry D m k) P D (k + 1) := by
  have he : pde m.ram m.cur_page_dir k = word m₀.ram P k := by
    rw [hcur]
    exact h.parent hP hk
  rw [clone_entry]
  simp only [he]
  by_cases hp : present (word m₀.ram P k) = true
  · rw [if_pos hp]
    by_cases h768 : KERNEL_PAGE_NUMBER ≤ k
    · rw [if_pos h768]
      exact h.kernel hk h768 hp
    · rw [if_neg h768]
      have hut : user_table m₀.ram P k = true := by simp [user_table, hp, Nat.lt_of_not_le h768]
      have hle : (List.range (k + 1)).countP (user_table m₀.ram P) ≤ table_count m₀.ram P :=
        countP_range_le (by omega)
      rw [countP_range_succ, hut, Bool.toNat_true] at hle
      have hcount := h.count
      have ha := alloc_blocks_some (m := m) (by omega)
      rw [or_flags ha.fresh.aligned (Nat.mod_lt _ (by decide))]
      exact h.new_table hk hut ha
  · rw [if_neg hp]
    exact h.skip (by simpa using hp)

theorem vmm_clone_directory_eq (m : Phys) :
    vmm_clone_directory m =
      ((List.range 1024).foldl (clone_entry (alloc_blocks m).2) ((alloc_blocks m).1.clear (alloc_blocks m).2),
        (alloc_blocks m).2) := by
  unfold vmm_clone_directory
  generalize alloc_blocks m = r
  obtain ⟨m', d⟩ := r
  rfl

/-- 空きブロックが足りれば、ディレクトリは複製される。 -/
theorem clone_directory (hP : Held m₀ P) (hcur : m₀.cur_page_dir = P)
    (hfree : 1 + table_count m₀.ram P ≤ free_count m₀) :
    Cloned m₀ (vmm_clone_directory m₀).1 P (vmm_clone_directory m₀).2 1024 := by
  have ha := alloc_blocks_some (m := m₀) (by omega)
  have hstart : ((alloc_blocks m₀).1.clear (alloc_blocks m₀).2).cur_page_dir = P := by
    show (alloc_blocks m₀).1.cur_page_dir = P
    rw [ha.rest]
    exact hcur
  have hfold := foldl_range_inv (f := clone_entry (alloc_blocks m₀).2)
    (P := fun k m => m.cur_page_dir = P ∧ Cloned m₀ m P (alloc_blocks m₀).2 k) 1024 ⟨hstart, .start ha⟩
    fun k m hk h => ⟨(clone_entry_cur m).trans h.1, h.2.entry hP h.1 hk hfree⟩
  rw [vmm_clone_directory_eq]
  dsimp only at hfold ⊢
  exact hfold.2

theorem BlankTable.set_dir {c c' : Nat} (h : BlankTable (set_page_dir m₀ c) m P D i) :
    BlankTable m₀ (set_page_dir m c') P D i :=
  ⟨⟨h.fresh.aligned, h.fresh.lt, h.fresh.free, h.fresh.used⟩, h.ne, h.flags, h.blank⟩

/-- 今のディレクトリがどれでも同じである。 -/
theorem Cloned.set_dir {c c' : Nat} (h : Cloned (set_page_dir m₀ c) m P D k) :
    Cloned m₀ (set_page_dir m c') P D k :=
  ⟨⟨h.kept.bytes, h.kept.used⟩, ⟨h.dir.aligned, h.dir.lt, h.dir.free, h.dir.used⟩, h.blank, h.kern,
    fun i hi hk hut => (h.table i hi hk hut).set_dir, h.inj, h.count⟩

end MyOS.Mem
