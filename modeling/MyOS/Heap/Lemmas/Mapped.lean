import MyOS.Heap.Lemmas.Spec
import MyOS.Heap.Malloc
import MyOS.Mem.Lemmas.Grow
import MyOS.Mem.Virt

/-!
# ヒープとページ表

`init_malloc` と `malloc` の、ページを足す繰り返しを含めた状態。ページに使うブロックは、ページ表と同じ割り当て表から
取る。ヘッダを読むのはページを足す前なので、足す枚数は前の状態だけで決まる。
-/

namespace MyOS.Heap
open MyOS.Lib

structure Kernel where
  heap : State
  phys : Mem.Phys

/-- ヒープの `i` 枚目のページに使うフレームの番号。 -/
def frame_at (m : Mem.Phys) (start i : Nat) : Nat := Mem.block_at m malloc_virt_address start i / BLOCK_SIZE

def init_malloc_mapped (m : Mem.Phys) (mem : ByteMem) : Kernel :=
  let heap := init_malloc (frame_at m 0) mem
  { heap, phys := Mem.map_blocks m malloc_virt_address 0 heap.malloc_reserved_blocks }

/-- 足すページの数。見つけたブロックが合えば足さない。 -/
def needed_blocks (s : State) (cur size : Nat) : Nat :=
  if Header.size s.mem cur ≥ size ∧ Header.free s.mem cur = true then 0
  else if Header.free s.mem cur = false then add32 (add32 size sizeofHeader) (BLOCK_SIZE - 1) / BLOCK_SIZE
  else add32 (sub32 size (Header.size s.mem cur)) (BLOCK_SIZE - 1) / BLOCK_SIZE

def malloc_mapped (k : Kernel) (size : Nat) : Option (Kernel × Nat) :=
  match malloc_find k.heap.mem size k.heap.fuel k.heap.malloc_head with
  | none => none
  | some cur =>
    let start := k.heap.malloc_reserved_blocks
    (malloc (frame_at k.phys start) k.heap size).map fun (heap, p) =>
      ({ heap, phys := Mem.map_blocks k.phys malloc_virt_address start (needed_blocks k.heap cur size) }, p)

end MyOS.Heap

/-! ヒープのページ。 -/

namespace MyOS.Heap
open MyOS.Lib Mem

variable {k k' : Kernel} {s' : State} {l l₁ l₂ : List Block} {b : Block} {i j n p size : Nat}

def heap_page (i : Nat) : Nat := malloc_virt_address / 4096 + i

/-- 前からヒープのページだったブロック。 -/
def HeapBlock (k : Kernel) (block : Nat) : Prop :=
  ∃ i flags, i < k.heap.malloc_reserved_blocks ∧ mapping k.phys (heap_page i) = some (block, flags)

/-- ペイロードのどのページも、空いていたかヒープのものだったブロックに写り、ヒープの二つのページが同じブロックに
写ることはない。 -/
structure Backed (k k' : Kernel) (p size : Nat) : Prop where
  inside : p + size ≤ 2 ^ 32
  page : ∀ a, p ≤ a → a < p + size → ∃ block flags, mapping k'.phys (a / 4096) = some (block, flags) ∧
    (k.phys.mem_bitmap (block / 4096) = true ∨ HeapBlock k block)
  inj : ∀ i j block flags flags', i < k'.heap.malloc_reserved_blocks → j < k'.heap.malloc_reserved_blocks →
    mapping k'.phys (heap_page i) = some (block, flags) → mapping k'.phys (heap_page j) = some (block, flags') → i = j

structure Unchanged (k k' : Kernel) : Prop where
  heap : k'.heap = k.heap
  mapping : ∀ p, p < 2 ^ 20 → Mem.mapping k'.phys p = Mem.mapping k.phys p

/-- `NULL` を返して何も変えないか、ペイロードのページがすべて揃っている。 -/
def MallocSafe (k : Kernel) (size : Nat) : Prop :=
  ∃ k' p, malloc_mapped k size = some (k', p) ∧ (p = 0 ∧ Unchanged k k' ∨ Backed k k' p size)

/-- ヒープのページ `pages` は別々のブロックに写り、ヒープより上には何も写っていない。 -/
structure Mapped (m : Phys) (pages : List Nat) : Prop where
  growing : Growing m (heap_page 0 / 1024) (heap_page pages.length)
  no_zero : NoZeroTable m
  page : ∀ i (h : i < pages.length), mapping m (heap_page i) = kernel_page (pages[i] * 4096)
  used : ∀ f ∈ pages, f ≠ 0 ∧ Used m (f * 4096)

/-- ヒープの不変条件と、そのページの不変条件。 -/
structure Sound (k : Kernel) (l : List Block) : Prop where
  heap : HeapOk k.heap l
  pages : Mapped k.phys k.heap.pages

/-! ## 足したページ -/

theorem stop_page (s : State) : s.stop = heap_page s.malloc_reserved_blocks * 4096 := by
  unfold State.stop heap_page malloc_virt_address KERNEL_VIRTUAL_BASE BLOCK_SIZE
  omega

theorem straight (hend : heap_page (i + n) ≤ 2 ^ 20) : Straight malloc_virt_address i (heap_page i) n := by
  intro j hj
  unfold heap_page malloc_virt_address KERNEL_VIRTUAL_BASE at *
  unfold add32 mul32 BLOCK_SIZE
  omega

theorem Sound.growing (h : Sound k l) :
    Growing k.phys (heap_page 0 / 1024) (heap_page k.heap.malloc_reserved_blocks) := by
  rw [← h.heap.pages]
  exact h.pages.growing

/-- 前からのページ。 -/
theorem Sound.heap_block (h : Sound k l) (hi : i < k.heap.malloc_reserved_blocks) :
    ∃ block, mapping k.phys (heap_page i) = kernel_page block ∧ HeapBlock k block ∧ block ≠ 0 ∧ Used k.phys block := by
  have hlen : i < k.heap.pages.length := by
    rw [h.heap.pages]
    exact hi
  obtain ⟨h0, hu⟩ := h.pages.used _ (List.getElem_mem hlen)
  exact ⟨_, h.pages.page i hlen, ⟨i, _, hi, h.pages.page i hlen⟩, by omega, hu⟩

theorem Sound.page_inj (h : Sound k l) {block flags flags' : Nat} (hi : i < k.heap.malloc_reserved_blocks)
    (hj : j < k.heap.malloc_reserved_blocks) (hbi : mapping k.phys (heap_page i) = some (block, flags))
    (hbj : mapping k.phys (heap_page j) = some (block, flags')) : i = j := by
  rw [← h.heap.pages] at hi hj
  rw [h.pages.page i hi] at hbi
  rw [h.pages.page j hj] at hbj
  have heq : k.heap.pages[i] = k.heap.pages[j] := by
    simp only [kernel_page, Option.some.injEq, Prod.mk.injEq] at hbi hbj
    omega
  exact (List.Nodup.getElem_inj_iff h.heap.fresh.1).mp heq

/-- ヒープのブロックは空いていない。 -/
theorem Sound.heap_block_used (h : Sound k l) {block : Nat} (hb : HeapBlock k block) : block ≠ 0 ∧ Used k.phys block := by
  obtain ⟨i, flags, hi, hm⟩ := hb
  obtain ⟨block', hm', -, h0, hu⟩ := h.heap_block hi
  rw [hm'] at hm
  simp only [kernel_page, Option.some.injEq, Prod.mk.injEq] at hm
  obtain ⟨rfl, -⟩ := hm
  exact ⟨h0, hu⟩

/-- 足した `n` 枚が `frame` に写り、その前のページは変わらない。 -/
structure Extended (k k' : Kernel) (frame : Nat → Nat) (n : Nat) : Prop where
  reserved : k'.heap.malloc_reserved_blocks = k.heap.malloc_reserved_blocks + n
  old : ∀ i, i < k.heap.malloc_reserved_blocks → mapping k'.phys (heap_page i) = mapping k.phys (heap_page i)
  new : ∀ i, i < n → mapping k'.phys (heap_page (k.heap.malloc_reserved_blocks + i)) = kernel_page (frame i)
  inj : ∀ i j, i < n → j < n → frame i = frame j → i = j
  other : ∀ i, i < n → ¬ HeapBlock k (frame i)

theorem Extended.page_inj {frame : Nat → Nat} (hs : Sound k l) (h : Extended k k' frame n) {block flags flags' : Nat}
    (hi : i < k'.heap.malloc_reserved_blocks) (hj : j < k'.heap.malloc_reserved_blocks)
    (hbi : mapping k'.phys (heap_page i) = some (block, flags))
    (hbj : mapping k'.phys (heap_page j) = some (block, flags')) : i = j := by
  have hnew : ∀ i flags, k.heap.malloc_reserved_blocks ≤ i → i < k'.heap.malloc_reserved_blocks →
      mapping k'.phys (heap_page i) = some (block, flags) →
        i - k.heap.malloc_reserved_blocks < n ∧ frame (i - k.heap.malloc_reserved_blocks) = block := by
    intro i flags hle hlt hm
    rw [h.reserved] at hlt
    have hin : i - k.heap.malloc_reserved_blocks < n := by omega
    have hnew := h.new _ hin
    rw [Nat.add_sub_cancel' hle, hm] at hnew
    simp only [kernel_page, Option.some.injEq, Prod.mk.injEq] at hnew
    exact ⟨hin, hnew.1.symm⟩
  have hold : ∀ i flags, i < k.heap.malloc_reserved_blocks → mapping k'.phys (heap_page i) = some (block, flags) →
      HeapBlock k block := fun i flags hlt hm => ⟨i, flags, hlt, by rw [← h.old i hlt]; exact hm⟩
  by_cases hio : i < k.heap.malloc_reserved_blocks <;> by_cases hjo : j < k.heap.malloc_reserved_blocks
  · rw [h.old i hio] at hbi
    rw [h.old j hjo] at hbj
    exact hs.page_inj hio hjo hbi hbj
  · obtain ⟨hlt, rfl⟩ := hnew j flags' (by omega) hj hbj
    exact absurd (hold i flags hio hbi) (h.other _ hlt)
  · obtain ⟨hlt, rfl⟩ := hnew i flags (by omega) hi hbi
    exact absurd (hold j flags' hjo hbj) (h.other _ hlt)
  · obtain ⟨hlt, hf⟩ := hnew i flags (by omega) hi hbi
    obtain ⟨hlt', hf'⟩ := hnew j flags' (by omega) hj hbj
    have := h.inj _ _ hlt hlt' (hf.trans hf'.symm)
    omega

theorem heap_page_le (i : Nat) : heap_page 0 / 1024 ≤ heap_page i / 1024 := Nat.div_le_div_right (Nat.add_le_add_left (Nat.zero_le i) _)

theorem heap_page_add (i j : Nat) : heap_page (i + j) = heap_page i + j := (Nat.add_assoc _ _ _).symm

theorem heap_page_of_lt (h : Sound k l) (hi : i < k.heap.malloc_reserved_blocks) : heap_page i < 2 ^ 20 := by
  have hstop := h.heap.stop_le
  rw [stop_page] at hstop
  unfold heap_page at *
  omega

/-- 空いていたブロックに写したページ。 -/
theorem Sound.extended (h : Sound k l) {frame : Nat → Nat} (hend : heap_page (k.heap.malloc_reserved_blocks + n) ≤ 2 ^ 20)
    (hres : k'.heap.malloc_reserved_blocks = k.heap.malloc_reserved_blocks + n)
    (hb : Backs k.phys k'.phys frame (heap_page k.heap.malloc_reserved_blocks) n) : Extended k k' frame n := by
  refine ⟨hres, fun i hi => ?_, fun i hi => ?_, hb.inj, fun i hi hc => ?_⟩
  · rw [hb.mapping _ (heap_page_of_lt h hi), if_neg]
    unfold heap_page
    omega
  · rw [heap_page_add] at hend
    rw [heap_page_add, hb.mapping _ (by omega), if_pos (by omega), Nat.add_sub_cancel_left]
  · exact absurd (h.heap_block_used hc).2 (by rw [Used, hb.free i hi]; decide)

/-- 足したページまでのペイロード。 -/
theorem Extended.backed {frame : Nat → Nat} (hs : Sound k l) (h : Extended k k' frame n)
    (hend : heap_page (k.heap.malloc_reserved_blocks + n) ≤ 2 ^ 20) (hlo : malloc_virt_address ≤ p)
    (hin : p + size ≤ k.heap.stop + n * 4096)
    (hfree : 0 < size → ∀ i, i < n → k.phys.mem_bitmap (frame i / 4096) = true) : Backed k k' p size := by
  rw [stop_page, ← Nat.add_mul, ← heap_page_add] at hin
  refine ⟨by omega, fun a hlo' hhi => ?_, fun i j block flags flags' hi hj => h.page_inj hs hi hj⟩
  obtain ⟨i, hi, hpage⟩ : ∃ i, i < k.heap.malloc_reserved_blocks + n ∧ a / 4096 = heap_page i := by
    refine ⟨a / 4096 - heap_page 0, ?_, ?_⟩
    all_goals
      unfold heap_page malloc_virt_address KERNEL_VIRTUAL_BASE at *
      omega
  rw [hpage]
  by_cases hio : i < k.heap.malloc_reserved_blocks
  · obtain ⟨block, hm, hblock, -⟩ := hs.heap_block hio
    rw [h.old i hio]
    exact ⟨block, _, hm, .inr hblock⟩
  · have hin' : i - k.heap.malloc_reserved_blocks < n := by omega
    have hnew := h.new _ hin'
    rw [Nat.add_sub_cancel' (by omega)] at hnew
    exact ⟨_, _, hnew, .inl (hfree (by omega) _ hin')⟩

/-- 伸ばした `malloc` は、ブロックが足りるとき、そのときに限って守られる。 -/
theorem grown_backed_iff (h : Sound k l) (hphys : k'.phys = map_blocks k.phys malloc_virt_address
      k.heap.malloc_reserved_blocks (n + 1))
    (hres : k'.heap.malloc_reserved_blocks = k.heap.malloc_reserved_blocks + (n + 1))
    (hend : heap_page (k.heap.malloc_reserved_blocks + (n + 1)) ≤ 2 ^ 20) (hlo : malloc_virt_address ≤ p)
    (hin : p + size ≤ k.heap.stop + (n + 1) * 4096) (hlast : k.heap.stop + n * 4096 < p + size)
    (hpos : 0 < size) :
    Backed k k' p size ↔
      n + 1 + tables_needed k.phys (heap_page k.heap.malloc_reserved_blocks) n ≤ free_count k.phys := by
  have hstraight := straight hend
  have hend' := hend
  rw [heap_page_add] at hend'
  constructor
  · intro hb
    by_contra hlt
    have hzero := h.growing.last_zero (heap_page_le _) hend' hstraight (by omega)
    rw [← hphys] at hzero
    -- 足した最後のページに、ペイロードのバイトがある
    obtain ⟨a, ha, ha', hpage⟩ : ∃ a, p ≤ a ∧ a < p + size ∧
        a / 4096 = heap_page k.heap.malloc_reserved_blocks + n := by
      have hstop := stop_page k.heap
      refine ⟨p + size - 1, by omega, by omega, by omega⟩
    obtain ⟨block, flags, hm, hor⟩ := hb.page a ha ha'
    rw [hpage, hzero] at hm
    simp only [kernel_page, Option.some.injEq, Prod.mk.injEq] at hm
    obtain ⟨rfl, -⟩ := hm
    rcases hor with hfree | hheap
    · cases hfree.symm.trans h.growing.directory.zero
    · exact (h.heap_block_used hheap).1 rfl
  · intro hcount
    have hbacks := h.growing.backs_last h.pages.no_zero (heap_page_le _) hend' hstraight hcount
    rw [← hphys] at hbacks
    exact (h.extended hend hres hbacks).backed h hend hlo hin fun _ => hbacks.free

/-- 大きさが 0 なら、足す一枚がどのブロックに写っても、ペイロードにページはない。 -/
theorem Sound.empty_backed (h : Sound k l) (hphys : k'.phys = map_blocks k.phys malloc_virt_address
      k.heap.malloc_reserved_blocks 1) (hres : k'.heap.malloc_reserved_blocks = k.heap.malloc_reserved_blocks + 1)
    (hend : heap_page (k.heap.malloc_reserved_blocks + 1) ≤ 2 ^ 20) (hlo : malloc_virt_address ≤ p)
    (hin : p ≤ k.heap.stop + 4096) : Backed k k' p 0 := by
  have hpage : heap_page k.heap.malloc_reserved_blocks < 2 ^ 20 := hend
  have hstep := map_blocks_succ k.phys malloc_virt_address k.heap.malloc_reserved_blocks 0
  rw [straight hend 0 (by decide), ← hphys] at hstep
  have hmap : ∀ w, w < 2 ^ 20 → mapping k'.phys w =
      if w = heap_page k.heap.malloc_reserved_blocks then kernel_page (alloc_blocks k.phys).2 else mapping k.phys w := by
    intro w hw
    rw [hstep]
    exact h.growing.map_block_mapping h.pages.no_zero (heap_page_le _) hpage hw
  have hext : Extended k k' (fun _ => (alloc_blocks k.phys).2) 1 := by
    refine ⟨hres, fun i hi => ?_, fun i hi => ?_, fun i j hi hj _ => by omega, fun i _ hc => ?_⟩
    · rw [hmap _ (heap_page_of_lt h hi), if_neg]
      unfold heap_page
      omega
    · obtain rfl : i = 0 := by omega
      exact (hmap _ hpage).trans (if_pos rfl)
    · obtain ⟨h0, hu⟩ := h.heap_block_used hc
      exact alloc_blocks_ne hu h0 rfl
  exact hext.backed h hend hlo (by omega) fun hc => absurd hc (by decide)

/-! ## 不変条件 -/

theorem alloc_blocks_bound (m : Phys) : (alloc_blocks m).2 / 4096 < MAX_BLOCK_ENTRIES * 32 := by
  unfold alloc_blocks
  cases h : find_first_free_blocks m with
  | none => exact (by decide : 0 / 4096 < MAX_BLOCK_ENTRIES * 32)
  | some b =>
    obtain ⟨-, -, hlt⟩ := first_free_some h
    dsimp only
    unfold BLOCK_SIZE MAX_BLOCK_ENTRIES at *
    omega

theorem frame_at_add (m : Phys) (start i : Nat) : frame_at m start (start + i) * 4096 = block_at m malloc_virt_address start (start + i) := by
  obtain ⟨-, -, -, hal, -⟩ := alloc_blocks_rest (map_blocks m malloc_virt_address start i)
  unfold frame_at BLOCK_SIZE
  rw [block_at_eq]
  unfold Aligned at hal
  omega

theorem mapPages_getElem_new {alloc : Nat → Nat} {pages : List Nat} {start : Nat}
    (h : pages.length + j < (mapPages alloc pages start n).length) :
    (mapPages alloc pages start n)[pages.length + j] = alloc (start + j) := by
  simp [mapPages]

/-- 新しいページのブロックは空いていたので、前のページのブロックとは異なる。 -/
theorem Mapped.fresh_frames {m : Phys} {pages : List Nat} (h : Mapped m pages)
    (hfree : ∀ j, j < n → m.mem_bitmap (frame_at m pages.length (pages.length + j)) = true)
    (hj : j < n) : frame_at m pages.length (pages.length + j) ∉ pages := by
  intro hmem
  have hu := (h.used _ hmem).2
  unfold Used at hu
  rw [Nat.mul_div_cancel _ (by decide)] at hu
  cases hu.symm.trans (hfree j hj)

/-- ブロックが足りれば、足した後もヒープのページは別々のブロックに写る。 -/
theorem Mapped.grow {m : Phys} {pages : List Nat} (h : Mapped m pages) (hf : Fresh pages)
    (hend : heap_page (pages.length + n) ≤ 2 ^ 20)
    (hcount : n + tables_needed m (heap_page pages.length) n ≤ free_count m) :
    Fresh (mapPages (frame_at m pages.length) pages pages.length n) ∧
      Mapped (map_blocks m malloc_virt_address pages.length n) (mapPages (frame_at m pages.length) pages pages.length n) := by
  have hstraight := straight hend
  have hend' := hend
  rw [heap_page_add] at hend'
  obtain ⟨hb, hz⟩ := h.growing.backs h.no_zero (heap_page_le _) hend' hstraight hcount
  have hr := h.growing.run (heap_page_le _) hend' hstraight
  have hfree : ∀ j, j < n → m.mem_bitmap (frame_at m pages.length (pages.length + j)) = true := hb.free
  have hnew := fun j hj => h.fresh_frames hfree (j := j) hj
  have hused : ∀ j, j < n → frame_at m pages.length (pages.length + j) ≠ 0 ∧
      Used (map_blocks m malloc_virt_address pages.length n) (frame_at m pages.length (pages.length + j) * 4096) := by
    refine fun j hj => ⟨fun h0 => ?_, ?_⟩
    · have := hfree j hj
      rw [h0] at this
      cases this.symm.trans h.growing.directory.zero
    · rw [frame_at_add]
      exact hb.used j hj
  have hlen : (mapPages (frame_at m pages.length) pages pages.length n).length = pages.length + n := mapPages_length
  have hmem : ∀ f, f ∈ mapPages (frame_at m pages.length) pages pages.length n →
      f ∈ pages ∨ ∃ j, j < n ∧ frame_at m pages.length (pages.length + j) = f := by
    intro f hf
    simpa [mapPages] using hf
  refine ⟨⟨List.nodup_append.mpr ⟨hf.1, ?_, ?_⟩, fun f hmemf => ?_⟩, ?_, hz, fun i hi => ?_, fun f hmemf => ?_⟩
  · refine List.Nodup.map_on (fun i hi j hj heq => ?_) List.nodup_range
    refine hb.inj i j (List.mem_range.mp hi) (List.mem_range.mp hj) ?_
    rw [← frame_at_add, ← frame_at_add, heq]
  · rintro f hfp _ hfn rfl
    obtain ⟨j, hj, rfl⟩ := List.mem_map.mp hfn
    exact hnew j (List.mem_range.mp hj) hfp
  · rcases hmem f hmemf with hp | ⟨j, hj, rfl⟩
    · exact hf.2 f hp
    · exact alloc_blocks_bound _
  · rw [hlen, heap_page_add]
    exact hr.growing
  · by_cases hi' : i < pages.length
    · have hget : (mapPages (frame_at m pages.length) pages pages.length n)[i] = pages[i] :=
        List.getElem_append_left hi'
      have hlt : heap_page i < heap_page pages.length := Nat.add_lt_add_left hi' _
      rw [hget, hb.mapping _ (by omega), if_neg (by omega)]
      exact h.page i hi'
    · rw [hlen] at hi
      obtain ⟨j, rfl⟩ := Nat.exists_eq_add_of_le (Nat.le_of_not_lt hi')
      have hj : j < n := by omega
      have hget : (mapPages (frame_at m pages.length) pages pages.length n)[pages.length + j] =
          frame_at m pages.length (pages.length + j) := mapPages_getElem_new _
      rw [hget, frame_at_add, heap_page_add, hb.mapping _ (by omega), if_pos (by omega), Nat.add_sub_cancel_left]
  · rcases hmem f hmemf with hp | ⟨j, hj, rfl⟩
    · exact ⟨(h.used f hp).1, hr.used _ (h.used f hp).2⟩
    · exact hused j hj

end MyOS.Heap
