import MyOS.Lib.Count
import MyOS.Mem.Virt

/-! ブロックの中の語と、項目のビット。 -/

namespace MyOS.Mem
open MyOS.Lib

variable {ram : ByteMem} {a b i j v : Nat}

/-- ブロックの境にある番地。 -/
def Aligned (a : Nat) : Prop := a % 4096 = 0

/-- ブロック `a` の `i` 番目の語。 -/
def word (ram : ByteMem) (a i : Nat) : Nat := ram.load32 (a + 4 * i)

theorem aligned_page_addr (e : Nat) : Aligned (page_addr e) := by
  unfold Aligned page_addr
  omega

theorem Aligned.page_addr_eq (h : Aligned a) : page_addr a = a := by
  unfold Aligned at h
  unfold page_addr
  omega

theorem aligned_block (b : Nat) : Aligned (b * BLOCK_SIZE) := by
  unfold Aligned BLOCK_SIZE
  omega

theorem word_store (ha : Aligned a) (hb : Aligned b) (hi : i < 1024) (hj : j < 1024) (hv : v < 2 ^ 32) :
    word (ram.store32 (a + 4 * i) v) b j = if b = a ∧ j = i then v else word ram b j := by
  unfold Aligned at ha hb
  unfold word
  split
  next h =>
    obtain ⟨rfl, rfl⟩ := h
    exact ByteMem.load32_store32_self hv
  next h =>
    refine ByteMem.load32_store32_of_disjoint ?_
    by_cases hba : b = a
    · have hji : j ≠ i := fun hji => h ⟨hba, hji⟩
      omega
    · omega

/-- 語の書き込みは、ほかのブロックのバイトを変えない。 -/
theorem store_byte (ha : Aligned a) (hi : i < 1024) {x : Nat} (hx : x / 4096 ≠ a / 4096) :
    ram.store32 (a + 4 * i) v x = ram x := by
  unfold Aligned at ha
  refine ByteMem.store32_of_outside ?_
  omega

theorem word_congr {ram' : ByteMem} (ha : Aligned a) (hi : i < 1024)
    (h : ∀ x, x / 4096 = a / 4096 → ram' x = ram x) : word ram' a i = word ram a i := by
  unfold Aligned at ha
  refine ByteMem.load32_congr fun x hx hx' => h x ?_
  omega

theorem word_fill (ha : Aligned a) (hb : Aligned b) (hj : j < 1024) :
    word (ram.fill a BLOCK_SIZE 0) b j = if b = a then 0 else word ram b j := by
  unfold Aligned at ha hb
  split
  next h =>
    subst h
    have hz : ∀ x, b ≤ x → x < b + 4096 → ram.fill b BLOCK_SIZE 0 x = 0 := fun x hx hx' =>
      if_pos ⟨hx, hx'⟩
    unfold word ByteMem.load32
    rw [hz _ (by omega) (by omega), hz _ (by omega) (by omega), hz _ (by omega) (by omega),
      hz _ (by omega) (by omega)]
    rfl
  next h =>
    refine ByteMem.load32_congr fun x hx hx' => if_neg ?_
    simp only [BLOCK_SIZE]
    omega

theorem fill_byte {n : Nat} {x : Nat} {u : UInt8} (hx : x < a ∨ a + n ≤ x) : ram.fill a n u x = ram x := by
  refine if_neg ?_
  omega

theorem copy_byte {src n : Nat} {x : Nat} (hx : x < a ∨ a + n ≤ x) : ram.copy a src n x = ram x := by
  refine if_neg ?_
  omega

theorem word_lt : word ram a i < 2 ^ 32 := ByteMem.load32_lt ..

/-! 項目。 -/

theorem or_flags (ha : Aligned a) {f : Nat} (hf : f < 4096) : a ||| f = a + f := by
  unfold Aligned at ha
  obtain ⟨k, rfl⟩ : ∃ k, a = 2 ^ 12 * k := ⟨a / 4096, by omega⟩
  exact (Nat.two_pow_add_eq_or_of_lt hf k).symm

theorem page_addr_add (ha : Aligned a) {f : Nat} (hf : f < 4096) : page_addr (a + f) = a := by
  unfold Aligned at ha
  unfold page_addr
  omega

theorem testBit_add (ha : Aligned a) {f k : Nat} (hf : f < 4096) (hk : k < 12) :
    (a + f).testBit k = f.testBit k := by
  unfold Aligned at ha
  obtain ⟨n, rfl⟩ : ∃ n, a = 2 ^ 12 * n := ⟨a / 4096, by omega⟩
  rw [Nat.testBit_two_pow_mul_add n hf k, if_pos hk]

theorem present_mod (e : Nat) : present (e % 4096) = present e := by
  unfold present
  rw [show (4096 : Nat) = 2 ^ 12 from rfl, Nat.testBit_mod_two_pow]
  rfl

theorem present_add (ha : Aligned a) {f : Nat} (hf : f < 4096) : present (a + f) = present f :=
  testBit_add ha hf (by decide)

theorem user_entry (ha : Aligned a) : a ||| PAGE_PRESENT ||| PAGE_RW ||| PAGE_USER = a + 7 := by
  rw [Nat.or_assoc, Nat.or_assoc]
  exact or_flags ha (by decide)

/-- 表があれば、状態は変わらない。 -/
theorem get_page_present {m : Phys} {virt f : Nat}
    (h : present (word m.ram m.cur_page_dir (pd_index virt)) = true) :
    get_page m virt f = (m, page_addr (word m.ram m.cur_page_dir (pd_index virt)) + 4 * pt_index virt) :=
  if_pos h

end MyOS.Mem

/-! ブロックの割り当て。使っているブロックは変わらない。 -/

namespace MyOS.Mem
open MyOS.Lib

variable {m m' m'' m₀ : Phys} {a b i v : Nat}

/-- 空きブロックの数。 -/
def free_count (m : Phys) : Nat := (List.range (MAX_BLOCK_ENTRIES * 32)).countP m.mem_bitmap

/-- 番地 `a` のブロックを使っている。 -/
def Used (m : Phys) (a : Nat) : Prop := m.mem_bitmap (a / 4096) = false

/-- 使っているブロックは、使われたままで、バイトも変わらない。 -/
structure Kept (m m' : Phys) : Prop where
  bytes : ∀ x, Used m x → m'.ram x = m.ram x
  used : ∀ a, Used m a → Used m' a

/-- `m₀` で空きだったブロック `a` を、`m` では使っている。 -/
structure Fresh (m₀ m : Phys) (a : Nat) : Prop where
  aligned : Aligned a
  lt : a < 2 ^ 32
  free : m₀.mem_bitmap (a / 4096) = true
  used : Used m a

theorem Kept.refl (m : Phys) : Kept m m := ⟨fun _ _ => rfl, fun _ => id⟩

theorem Kept.trans (h : Kept m m') (h' : Kept m' m'') : Kept m m'' :=
  ⟨fun x hx => (h'.bytes x (h.used x hx)).trans (h.bytes x hx), fun a ha => h'.used a (h.used a ha)⟩

theorem Kept.word (h : Kept m m') (ha : Aligned a) (hu : Used m a) (hi : i < 1024) :
    word m'.ram a i = word m.ram a i := by
  refine word_congr ha hi fun x hx => h.bytes x ?_
  unfold Used at hu ⊢
  rw [hx]
  exact hu

theorem Fresh.ne_of_used (h : Fresh m₀ m a) (hb : Used m₀ b) : b ≠ a := by
  rintro rfl
  cases hb.symm.trans h.free

theorem Fresh.later (h : Fresh m₀ m a) (hk : Kept m m') : Fresh m₀ m' a :=
  ⟨h.aligned, h.lt, h.free, hk.used a h.used⟩

/-- 後で割り当てたブロックとは異なる。 -/
theorem Fresh.ne_later (h : Fresh m₀ m a) (h' : Fresh m m' b) : a ≠ b := h'.ne_of_used h.used

/-- 空きだったブロックだけの書き換え。 -/
theorem Kept.outside (hfree : m.mem_bitmap (a / 4096) = true) (hb : m'.mem_bitmap = m.mem_bitmap)
    (h : ∀ x, x / 4096 ≠ a / 4096 → m'.ram x = m.ram x) : Kept m m' := by
  refine ⟨fun x hx => h x fun hxa => ?_, fun b hu => ?_⟩
  · unfold Used at hx
    rw [hxa] at hx
    cases hx.symm.trans hfree
  · unfold Used at hu ⊢
    rw [hb]
    exact hu

theorem first_free_some {bitmap : Nat → Bool} {n i b : Nat} (h : first_free bitmap n i = some b) :
    bitmap b = true ∧ i ≤ b ∧ b < i + n := by
  induction n generalizing i with
  | zero => cases h
  | succ n ih =>
    rw [first_free] at h
    split at h
    next hi =>
      obtain rfl := Option.some.inj h
      exact ⟨hi, Nat.le_refl _, by omega⟩
    · obtain ⟨hb, hle, hlt⟩ := ih h
      exact ⟨hb, by omega, by omega⟩

theorem first_free_none {bitmap : Nat → Bool} {n i : Nat} (h : first_free bitmap n i = none) :
    ∀ b, i ≤ b → b < i + n → bitmap b = false := by
  induction n generalizing i with
  | zero => intros; omega
  | succ n ih =>
    rw [first_free] at h
    split at h
    · cases h
    next hi =>
      intro b hle hlt
      by_cases hb : b = i
      · subst hb
        simpa using hi
      · exact ih h b (by omega) (by omega)

/-- ブロック `a` を割り当てた。 -/
structure Allocates (m m' : Phys) (a : Nat) : Prop where
  fresh : Fresh m m' a
  rest : m' = { m with mem_bitmap := m'.mem_bitmap, ref_counts := m'.ref_counts }
  bitmap : ∀ b, m'.mem_bitmap b = if b = a / 4096 then false else m.mem_bitmap b
  count : free_count m' + 1 = free_count m

/-- 一つのブロックを使うと、空きは一つ減る。 -/
theorem countP_range_clear {bitmap : Nat → Bool} {n : Nat} (hb : bitmap b = true) (hlt : b < n) :
    (List.range n).countP (fun c => if c = b then false else bitmap c) + 1 =
      (List.range n).countP bitmap := by
  have h := countP_change (p := bitmap) (q := fun c => if c = b then false else bitmap c) (a := b)
    List.nodup_range (List.mem_range.mpr hlt) fun c _ hc => if_neg hc
  rw [hb, if_pos rfl] at h
  exact h

theorem alloc_blocks_cases (m : Phys) :
    alloc_blocks m = (m, 0) ∧ free_count m = 0 ∨
      Allocates m (alloc_blocks m).1 (alloc_blocks m).2 := by
  unfold alloc_blocks
  cases h : find_first_free_blocks m with
  | none =>
    refine .inl ⟨rfl, ?_⟩
    rw [free_count, List.countP_eq_zero]
    intro b hb
    have := first_free_none h b (Nat.zero_le b) (by simpa using List.mem_range.mp hb)
    simp [this]
  | some b =>
    obtain ⟨hb, -, hlt⟩ := first_free_some h
    have hlt : b < MAX_BLOCK_ENTRIES * 32 := by omega
    have hdiv : b * BLOCK_SIZE / 4096 = b := by
      unfold BLOCK_SIZE
      omega
    refine .inr ⟨⟨aligned_block b, ?_, by rw [hdiv]; exact hb, ?_⟩, rfl, fun c => ?_, countP_range_clear hb hlt⟩
    · unfold MAX_BLOCK_ENTRIES at hlt
      dsimp only
      unfold BLOCK_SIZE
      omega
    · rw [Used, hdiv]
      exact if_pos rfl
    · rw [hdiv]
      rfl

theorem Allocates.kept (h : Allocates m m' a) : Kept m m' := by
  refine ⟨fun x _ => by rw [h.rest], fun b hb => ?_⟩
  rw [Used, h.bitmap]
  split
  · rfl
  · exact hb

theorem Allocates.ram (h : Allocates m m' a) : m'.ram = m.ram := by rw [h.rest]

/-- 空きがあれば割り当てられる。 -/
theorem alloc_blocks_some (h : 0 < free_count m) : Allocates m (alloc_blocks m).1 (alloc_blocks m).2 := by
  rcases alloc_blocks_cases m with ⟨-, h0⟩ | h'
  · omega
  · exact h'

/-- 割り当てたブロックだけを書き換えた。 -/
theorem Allocates.write (h : Allocates m m' a) (hm : m'' = { m' with ram := m''.ram })
    (hout : ∀ x, x / 4096 ≠ a / 4096 → m''.ram x = m'.ram x) : Kept m m'' ∧ Fresh m m'' a := by
  have hused : ∀ b, Used m'' b ↔ Used m' b := by
    intro b
    unfold Used
    rw [hm]
  refine ⟨⟨fun x hx => ?_, fun b hb => (hused b).mpr (h.kept.used b hb)⟩,
    h.fresh.aligned, h.fresh.lt, h.fresh.free, (hused a).mpr h.fresh.used⟩
  rw [hout x, h.ram]
  intro hxa
  unfold Used at hx
  rw [hxa] at hx
  cases hx.symm.trans h.fresh.free

theorem clear_byte (ha : Aligned a) {x : Nat} (hx : x / 4096 ≠ a / 4096) : (m.clear a).ram x = m.ram x := by
  unfold Aligned at ha
  refine fill_byte ?_
  simp only [BLOCK_SIZE]
  omega

/-- 割り当てたブロックを 0 で埋めた。 -/
theorem Allocates.clear (h : Allocates m m' a) : Kept m (m'.clear a) ∧ Fresh m (m'.clear a) a :=
  h.write rfl fun _ hx => clear_byte h.fresh.aligned hx

theorem free_count_congr (h : m'.mem_bitmap = m.mem_bitmap) : free_count m' = free_count m := by
  rw [free_count, free_count, h]

end MyOS.Mem
