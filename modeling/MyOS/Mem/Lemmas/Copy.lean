import MyOS.Mem.Lemmas.Clone

/-! ユーザのページの複製。 -/

namespace MyOS.Mem
open MyOS.Lib

variable {m m' m₀ m₁ : Phys} {P D a b i j : Nat} {got : Nat → Nat → Prop}

/-- 複製の後の、子の表 `i` の番地。 -/
def table_of (m₁ : Phys) (D i : Nat) : Nat := page_addr (word m₁.ram D i)

/-- ページ `(i, j)` を新しいブロックに写した。 -/
structure CopiedPage (m₀ m₁ m : Phys) (P D i j : Nat) : Prop where
  entry : word m.ram (table_of m₁ D i) j = page_addr (word m.ram (table_of m₁ D i) j) + 7
  fresh : Fresh m₁ m (page_addr (word m.ram (table_of m₁ D i) j))
  bytes : ∀ k, k < 4096 →
    m.ram (page_addr (word m.ram (table_of m₁ D i) j) + k) = m₀.ram (page_of m₀.ram P i j + k)

/-- ページのうち `got` を写した。`m₁` は、ディレクトリを複製した状態である。 -/
structure Copying (m₀ m₁ m : Phys) (P D : Nat) (got : Nat → Nat → Prop) : Prop where
  kept : Kept m₀ m
  used : ∀ a, Used m₁ a → Used m a
  cur : m.cur_page_dir = D
  dir : ∀ i, i < 1024 → word m.ram D i = word m₁.ram D i
  page : ∀ i j, i < 1024 → j < 1024 → got i j → user_page m₀.ram P i j = true ∧ CopiedPage m₀ m₁ m P D i j
  blank : ∀ i j, i < 1024 → j < 1024 → user_table m₀.ram P i = true → ¬ got i j →
    word m.ram (table_of m₁ D i) j = 0
  inj : ∀ i j i' j', i < 1024 → j < 1024 → i' < 1024 → j' < 1024 → got i j → got i' j' →
    page_addr (word m.ram (table_of m₁ D i) j) = page_addr (word m.ram (table_of m₁ D i') j') → i = i' ∧ j = j'

theorem user_page_table {ram : ByteMem} (h : user_page ram P i j = true) : user_table ram P i = true := by
  unfold user_page at h
  exact (Bool.and_eq_true_iff.mp h).1

theorem Copying.start (hc : Cloned m₀ m₁ P D 1024) (hcur : m₁.cur_page_dir = D) :
    Copying m₀ m₁ m₁ P D fun _ _ => False :=
  ⟨hc.kept, fun _ => id, hcur, fun _ _ => rfl, fun _ _ _ _ h => h.elim,
    fun i j hi hj hut _ => (hc.table i hi hi hut).blank j hj, fun _ _ _ _ _ _ _ _ h => h.elim⟩

/-- 一つのページを写して、表に書いた。 -/
def put_page (m : Phys) (b src a : Nat) : Phys :=
  { m with ram := m.ram.copy b src 4096 }.store32 a (b + 7)

/-- 写した状態の、ほかのブロックの語。 -/
theorem word_put {src k : Nat} (hb : Aligned b) (ha : Aligned a) (hj : j < 1024) {c : Nat} (hc : Aligned c)
    (hk : k < 1024) (hlt : b + 7 < 2 ^ 32) (hcb : c ≠ b) :
    word (put_page m b src (a + 4 * j)).ram c k = if c = a ∧ k = j then b + 7 else word m.ram c k := by
  unfold put_page
  rw [word_store32 ha hc hj hk hlt]
  split
  · rfl
  · unfold Aligned at hb hc
    refine word_congr hc hk fun x hx => copy_byte ?_
    omega

/-- 写した状態の、表でないブロックのバイト。 -/
theorem byte_put {src x : Nat} (ha : Aligned a) (hj : j < 1024) (hxa : x / 4096 ≠ a / 4096) :
    (put_page m b src (a + 4 * j)).ram x = m.ram.copy b src 4096 x := by
  unfold put_page
  exact store_byte ha hj hxa

theorem div_ne (ha : Aligned a) (hb : Aligned b) (h : a ≠ b) : a / 4096 ≠ b / 4096 := by
  unfold Aligned at ha hb
  omega

theorem table_used (hc : Cloned m₀ m₁ P D 1024) (hi : i < 1024) (hut : user_table m₀.ram P i = true) :
    Used m₁ (table_of m₁ D i) := (hc.table i hi hi hut).fresh.used

section

variable (hP : Held m₀ P) (hc : Cloned m₀ m₁ P D 1024)
include hP hc

omit hc in
/-- 親のページのバイトは変わらない。 -/
theorem Copying.parent_byte {k : Nat} (h : Copying m₀ m₁ m P D got) (hi : i < 1024) (hj : j < 1024)
    (hk : k < 4096) (hup : user_page m₀.ram P i j = true) :
    m.ram (page_of m₀.ram P i j + k) = m₀.ram (page_of m₀.ram P i j + k) := by
  refine h.kept.bytes _ ?_
  have hpg := hP.page i j hi hj hup
  have hpa : Aligned (page_of m₀.ram P i j) := aligned_page_addr _
  unfold Used at hpg ⊢
  unfold Aligned at hpa
  rw [show (page_of m₀.ram P i j + k) / 4096 = page_of m₀.ram P i j / 4096 by omega]
  exact hpg

theorem Copying.map_page (h : Copying m₀ m₁ m P D got) (hi : i < 1024) (hj : j < 1024)
    (hup : user_page m₀.ram P i j = true) (hal : Allocates m m' b) :
    Copying m₀ m₁ (put_page m' b (page_of m₀.ram P i j) (table_of m₁ D i + 4 * j)) P D
      fun i' j' => got i' j' ∨ i' = i ∧ j' = j := by
  have hut := user_page_table hup
  have htab := hc.table i hi hi hut
  have haligned : ∀ {i'}, Aligned (table_of m₁ D i') := fun {i'} => aligned_page_addr _
  have hblt : b + 7 < 2 ^ 32 := by
    have h₁ := hal.fresh.lt
    have h₂ := hal.fresh.aligned
    unfold Aligned at h₂
    omega
  have hne : ∀ c, Used m c → c ≠ b := fun c hu => hal.fresh.ne_of_used hu
  have hDne : D ≠ b := hne D (h.used D hc.dir.used)
  have hDtab : D ≠ table_of m₁ D i := htab.ne.symm
  have htne : ∀ {i'}, i' < 1024 → user_table m₀.ram P i' = true → table_of m₁ D i' ≠ b :=
    fun hi' hut' => hne _ (h.used _ (table_used hc hi' hut'))
  -- 新しいブロックは、`m₁` でも `m₀` でも空きである
  have hfree₁ : m₁.mem_bitmap (b / 4096) = true := by
    cases hf : m₁.mem_bitmap (b / 4096) with
    | true => rfl
    | false => exact absurd rfl (hne b (h.used b hf))
  have hword : ∀ {c k}, Aligned c → k < 1024 → c ≠ b →
      word (put_page m' b (page_of m₀.ram P i j) (table_of m₁ D i + 4 * j)).ram c k =
        if c = table_of m₁ D i ∧ k = j then b + 7 else word m.ram c k := by
    intro c k hca hk hcb
    rw [word_put hal.fresh.aligned haligned hj hca hk hblt hcb, hal.ram]
  have hbyte : ∀ {x}, x / 4096 ≠ table_of m₁ D i / 4096 → x / 4096 ≠ b / 4096 →
      (put_page m' b (page_of m₀.ram P i j) (table_of m₁ D i + 4 * j)).ram x = m.ram x := by
    intro x hxt hxb
    have hb := hal.fresh.aligned
    unfold Aligned at hb
    rw [byte_put haligned hj hxt, copy_byte (by omega), hal.ram]
  have hused : ∀ c, Used m c → Used (put_page m' b (page_of m₀.ram P i j) (table_of m₁ D i + 4 * j)) c :=
    fun c hu => hal.kept.used c hu
  have hpa : page_addr (b + 7) = b := page_addr_add hal.fresh.aligned (by decide)
  have hself : word (put_page m' b (page_of m₀.ram P i j) (table_of m₁ D i + 4 * j)).ram (table_of m₁ D i) j =
      b + 7 := by rw [hword haligned hj (htne hi hut), if_pos ⟨rfl, rfl⟩]
  have hother : ∀ i' j', i' < 1024 → j' < 1024 → user_table m₀.ram P i' = true → ¬ (i' = i ∧ j' = j) →
      word (put_page m' b (page_of m₀.ram P i j) (table_of m₁ D i + 4 * j)).ram (table_of m₁ D i') j' =
        word m.ram (table_of m₁ D i') j' := by
    intro i' j' hi' hj' hut' hij
    rw [hword haligned hj' (htne hi' hut'), if_neg]
    rintro ⟨ht, rfl⟩
    exact hij ⟨hc.inj i' i hi' hi hi' hi hut' hut ht, rfl⟩
  refine ⟨⟨fun x hx => ?_, fun c hu => hused c (h.kept.used c hu)⟩, fun c hu => hused c (h.used c hu), ?_,
    fun k hk => ?_, fun i' j' hi' hj' hgot => ?_, fun i' j' hi' hj' hut' hgot => ?_,
    fun i₁ j₁ i₂ j₂ hi₁ hj₁ hi₂ hj₂ hg₁ hg₂ heq => ?_⟩
  · rw [hbyte, h.kept.bytes x hx]
    · intro hxt
      unfold Used at hx
      rw [hxt] at hx
      cases hx.symm.trans htab.fresh.free
    · intro hxb
      have hu := h.kept.used x hx
      unfold Used at hu
      rw [hxb] at hu
      cases hu.symm.trans hal.fresh.free
  · show m'.cur_page_dir = D
    rw [hal.rest]
    exact h.cur
  · rw [hword hc.dir.aligned hk hDne, if_neg fun hcon => hDtab hcon.1]
    exact h.dir k hk
  · by_cases hij : i' = i ∧ j' = j
    · obtain ⟨rfl, rfl⟩ := hij
      refine ⟨hup, ?_, ?_, fun k hk => ?_⟩
      · rw [hself, hpa]
      · rw [hself, hpa]
        exact ⟨hal.fresh.aligned, hal.fresh.lt, hfree₁, hal.fresh.used⟩
      · rw [hself, hpa]
        have hb := hal.fresh.aligned
        have hdiv := div_ne hal.fresh.aligned haligned (htne hi' hut).symm
        unfold Aligned at hb
        rw [byte_put haligned hj' (by omega), hal.ram]
        have hcopy : m.ram.copy b (page_of m₀.ram P i' j') 4096 (b + k) = m.ram (page_of m₀.ram P i' j' + k) := by
          unfold ByteMem.copy
          rw [if_pos ⟨by omega, by omega⟩, Nat.add_sub_cancel_left]
        rw [hcopy, h.parent_byte hP hi' hj' hk hup]
    · have hgot : got i' j' := hgot.resolve_right hij
      obtain ⟨hup', hcp⟩ := h.page i' j' hi' hj' hgot
      have hw := hother i' j' hi' hj' (user_page_table hup') hij
      refine ⟨hup', ?_, ?_, fun k hk => ?_⟩
      · rw [hw]
        exact hcp.entry
      · rw [hw]
        exact ⟨hcp.fresh.aligned, hcp.fresh.lt, hcp.fresh.free, hused _ hcp.fresh.used⟩
      · rw [hw]
        have hpa := hcp.fresh.aligned
        have hd₁ := div_ne hpa haligned (hcp.fresh.ne_of_used (table_used hc hi hut)).symm
        have hd₂ := div_ne hpa hal.fresh.aligned (hne _ hcp.fresh.used)
        unfold Aligned at hpa
        rw [hbyte (by omega) (by omega)]
        exact hcp.bytes k hk
  · rw [hother i' j' hi' hj' hut' fun hij => hgot (.inr hij)]
    exact h.blank i' j' hi' hj' hut' fun hg => hgot (.inl hg)
  · -- 新しいブロックは、前に写したページのどれとも異なる
    have hold : ∀ i' j', i' < 1024 → j' < 1024 → got i' j' → ¬ (i' = i ∧ j' = j) →
        word (put_page m' b (page_of m₀.ram P i j) (table_of m₁ D i + 4 * j)).ram (table_of m₁ D i') j' =
            word m.ram (table_of m₁ D i') j' ∧ page_addr (word m.ram (table_of m₁ D i') j') ≠ b := by
      intro i' j' hi' hj' hg hij
      obtain ⟨hup', hcp⟩ := h.page i' j' hi' hj' hg
      exact ⟨hother i' j' hi' hj' (user_page_table hup') hij, hne _ hcp.fresh.used⟩
    by_cases h₁ : i₁ = i ∧ j₁ = j <;> by_cases h₂ : i₂ = i ∧ j₂ = j
    · rw [h₁.1, h₁.2, h₂.1, h₂.2]
      exact ⟨rfl, rfl⟩
    · obtain ⟨hw, hb⟩ := hold i₂ j₂ hi₂ hj₂ (hg₂.resolve_right h₂) h₂
      rw [h₁.1, h₁.2, hself, hpa, hw] at heq
      exact absurd heq.symm hb
    · obtain ⟨hw, hb⟩ := hold i₁ j₁ hi₁ hj₁ (hg₁.resolve_right h₁) h₁
      rw [h₂.1, h₂.2, hself, hpa, hw] at heq
      exact absurd heq hb
    · obtain ⟨hw₁, -⟩ := hold i₁ j₁ hi₁ hj₁ (hg₁.resolve_right h₁) h₁
      obtain ⟨hw₂, -⟩ := hold i₂ j₂ hi₂ hj₂ (hg₂.resolve_right h₂) h₂
      rw [hw₁, hw₂] at heq
      exact h.inj i₁ j₁ i₂ j₂ hi₁ hj₁ hi₂ hj₂ (hg₁.resolve_right h₁) (hg₂.resolve_right h₂) heq

omit hc in
/-- 親の表の項目は変わらない。 -/
theorem Copying.parent (h : Copying m₀ m₁ m P D got) (hi : i < 1024) : word m.ram P i = word m₀.ram P i :=
  h.kept.word hP.aligned hP.used hi

omit hc in
theorem Copying.source (h : Copying m₀ m₁ m P D got) (hi : i < 1024) (hj : j < 1024)
    (hut : user_table m₀.ram P i = true) :
    word m.ram (page_addr (word m₀.ram P i)) j = word m₀.ram (page_addr (word m₀.ram P i)) j :=
  h.kept.word (aligned_page_addr _) (hP.table i hi hut) hj

omit hP in
/-- 写した先の項目は、複製した表の中にある。 -/
theorem Copying.target (h : Copying m₀ m₁ m P D got) (hi : i < 1024) (hj : j < 1024)
    (hut : user_table m₀.ram P i = true) (hal : Allocates m m' b) (src : Nat) :
    get_page { m' with ram := m'.ram.copy b src 4096 } (i * 2 ^ 22 + j * 2 ^ 12) PAGE_USER =
      ({ m' with ram := m'.ram.copy b src 4096 }, table_of m₁ D i + 4 * j) := by
  have hpd : pd_index (i * 2 ^ 22 + j * 2 ^ 12) = i := by
    unfold pd_index
    omega
  have hpt : pt_index (i * 2 ^ 22 + j * 2 ^ 12) = j := by
    unfold pt_index
    omega
  have hcur : m'.cur_page_dir = D := by
    rw [hal.rest]
    exact h.cur
  have hDb : D ≠ b := hal.fresh.ne_of_used (h.used D hc.dir.used)
  have hw : word (m'.ram.copy b src 4096) D i = word m₁.ram D i := by
    have hD := hc.dir.aligned
    have hb := hal.fresh.aligned
    rw [← h.dir i hi, ← hal.ram]
    unfold Aligned at hb hD
    refine word_congr hc.dir.aligned hi fun x hx => copy_byte ?_
    omega
  have hpres : present (word m₁.ram D i) = true := by
    rw [← present_mod, (hc.table i hi hi hut).flags, present_mod]
    exact (user_table_present hut).2
  rw [get_page_present]
  · dsimp only
    rw [hpd, hpt, hcur, hw]
    rfl
  · dsimp only
    rw [hpd, hcur, hw]
    exact hpres

/-- 一つのページの複製。ブロックが残っていないときだけ飛ばす。 -/
theorem Copying.copy_page_cases (h : Copying m₀ m₁ m P D got) (hi : i < 1024) (hj : j < 1024)
    (hup : user_page m₀.ram P i j = true) :
    copy_page i (page_addr (word m₀.ram P i)) m j = m ∧ free_count m = 0 ∨
      free_count (copy_page i (page_addr (word m₀.ram P i)) m j) + 1 = free_count m ∧
        Copying m₀ m₁ (copy_page i (page_addr (word m₀.ram P i)) m j) P D
          fun i' j' => got i' j' ∨ i' = i ∧ j' = j := by
  have hut := user_page_table hup
  have he := h.source hP hi hj hut
  have hflag : (present (word m₀.ram (page_addr (word m₀.ram P i)) j) &&
      user (word m₀.ram (page_addr (word m₀.ram P i)) j)) = true := by
    unfold user_page at hup
    exact (Bool.and_eq_true_iff.mp hup).2
  unfold word at he hflag
  unfold copy_page
  simp only [word, he, hflag, if_true]
  rcases alloc_blocks_cases m with ⟨heq, hfree⟩ | hal
  · rw [heq]
    exact .inl ⟨rfl, hfree⟩
  · have hmap := h.map_page hP hc hi hj hup hal
    have hbne : (alloc_blocks m).2 ≠ 0 := (hal.fresh.ne_of_used (h.kept.used 0 hP.zero)).symm
    have hget := h.target hc hi hj hut hal (page_of m₀.ram P i j)
    unfold page_of word at hget
    rw [if_neg hbne, hget, hal.fresh.aligned.page_addr_eq, user_entry hal.fresh.aligned]
    exact .inr ⟨hal.count, hmap⟩

end

end MyOS.Mem
