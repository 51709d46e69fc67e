import MyOS.Heap.Lemmas.Mapped
import MyOS.Heap.SizeTheorems
import MyOS.Mem.PageTheorems

/-!
# 空きブロックの足りないときの `malloc`

ヒープを伸ばす繰り返しは、`alloc_blocks` が `NULL` を返してもページを写す。
-/

namespace MyOS.Heap
open MyOS.Lib Mem

variable {k k' : Kernel} {s' : State} {l l₁ l₂ : List Block} {b : Block} {i j n p size : Nat}

/-- 足すページの数。折り返さない計算である。 -/
def blocks_for (b : Block) (size : Nat) : Nat :=
  if b.free then (size - b.size + 4095) / 4096 else (size + 12 + 4095) / 4096

theorem Sound.find (h : Sound k l) (size : Nat) : ∃ l₁ b l₂, l = l₁ ++ b :: l₂ ∧
    malloc_find k.heap.mem size k.heap.fuel k.heap.malloc_head = some b.addr ∧
      ((size ≤ b.size ∧ b.free = true) ∨ (l₂ = [] ∧ ∀ c ∈ l, ¬ (size ≤ c.size ∧ c.free = true))) :=
  malloc_find_spec size h.heap.tiles h.heap.nonempty (by rw [h.heap.head]; decide) (h.heap.tiles.length_le_fuel h.heap.head)

/-! ## `malloc` の三つの場合 -/

theorem malloc_mapped_ready {r : State × Nat} {found : Nat} (hfind : malloc_find k.heap.mem size k.heap.fuel
      k.heap.malloc_head = some found)
    (hready : malloc_ready (frame_at k.phys k.heap.malloc_reserved_blocks) k.heap size = some r) :
    malloc_mapped k size = some (⟨(malloc_take r.1 r.2 size).1, map_blocks k.phys malloc_virt_address
      k.heap.malloc_reserved_blocks (needed_blocks k.heap found size)⟩, add32 r.2 sizeofHeader) := by
  unfold malloc_mapped
  rw [hfind]
  dsimp only
  rw [malloc_eq_ready, hready]
  rfl

/-- 足す枚数は、足した後のヒープの末尾までに、ペイロードをちょうど収める。 -/
structure Growth (s : State) (size blocks p : Nat) : Prop where
  lower : malloc_virt_address ≤ p
  covers : p + size ≤ s.stop + blocks * 4096
  last : 0 < size → s.stop + (blocks - 1) * 4096 < p + size
  pos : 1 ≤ blocks
  empty : size = 0 → blocks = 1

theorem Growth.safe_iff {blocks : Nat} (hg : Growth k.heap size blocks p) (h : Sound k l)
    (hmal : malloc_mapped k size = some (⟨s', map_blocks k.phys malloc_virt_address
      k.heap.malloc_reserved_blocks n⟩, p))
    (hfit : p + size ≤ 2 ^ 32 → k.heap.stop + blocks * 4096 ≤ 2 ^ 32 ∧ n = blocks ∧
      s'.malloc_reserved_blocks = k.heap.malloc_reserved_blocks + blocks) :
    MallocSafe k size ↔ size = 0 ∨ k.heap.stop + blocks * 4096 ≤ 2 ^ 32 ∧
      blocks + tables_needed k.phys (heap_page k.heap.malloc_reserved_blocks) (blocks - 1) ≤ free_count k.phys := by
  have hlower := hg.lower
  have hpos : p ≠ 0 := by
    unfold malloc_virt_address KERNEL_VIRTUAL_BASE at hlower
    omega
  have hsafe : MallocSafe k size ↔ Backed k ⟨s', map_blocks k.phys malloc_virt_address
      k.heap.malloc_reserved_blocks n⟩ p size := by
    constructor
    · rintro ⟨k', p', hmal', hor⟩
      cases hmal.symm.trans hmal'
      exact hor.resolve_left fun hc => hpos hc.1
    · exact fun hb => ⟨_, _, hmal, .inr hb⟩
  rw [hsafe]
  by_cases hin : p + size ≤ 2 ^ 32
  · obtain ⟨hend, rfl, hres⟩ := hfit hin
    have hend' : heap_page (k.heap.malloc_reserved_blocks + n) ≤ 2 ^ 20 := by
      rw [stop_page] at hend
      rw [heap_page_add]
      omega
    by_cases h0 : size = 0
    · subst h0
      obtain rfl := hg.empty rfl
      exact iff_of_true (h.empty_backed rfl hres hend' hlower (by have := hg.covers; omega)) (.inl rfl)
    · obtain ⟨n, rfl⟩ := Nat.exists_eq_add_of_le' hg.pos
      rw [or_iff_right h0, and_iff_right hend]
      exact grown_backed_iff h rfl hres hend' hlower hg.covers (hg.last (by omega)) (by omega)
  · refine iff_of_false (fun hb => hin hb.inside) ?_
    have hcovers := hg.covers
    have hstop := h.heap.stop_le
    rintro (rfl | ⟨hend, -⟩)
    · have := hg.empty rfl
      omega
    · omega

/-- ヒープが 32 ビットの番地に収まれば、足す枚数は折り返さずに求まる。 -/
theorem needed_blocks_eq {s : State} (hh : HeaderAt s.mem b n) (hsize : size < 2 ^ 32)
    (hnot : ¬ (size ≤ b.size ∧ b.free = true)) (hend : s.stop + blocks_for b size * 4096 ≤ 2 ^ 32) :
    needed_blocks s b.addr size = blocks_for b size := by
  have hbase : malloc_virt_address = 0xC0400000 := rfl
  have hlow : malloc_virt_address ≤ s.stop := Nat.le_add_right _ _
  unfold needed_blocks blocks_for at *
  rw [hh.size, hh.free, if_neg hnot]
  unfold sizeofHeader BLOCK_SIZE
  cases hfree : b.free with
  | false =>
    rw [hfree, if_neg (by decide)] at hend
    rw [if_pos rfl, if_neg (by decide), add32_eq (a := size) (by omega), add32_eq (by omega)]
  | true =>
    have hlt : b.size < size := by
      by_contra hge
      exact hnot ⟨by omega, hfree⟩
    rw [hfree, if_pos rfl] at hend
    rw [if_neg (by decide), if_pos rfl, sub32_eq (by omega) (by omega), add32_eq (by omega)]

theorem grown_pages {s : State} (alloc : Nat → Nat) (hh : HeaderAt s.mem b n)
    (hnot : ¬ (size ≤ b.size ∧ b.free = true)) :
    (malloc_take (if b.free = false then malloc_append alloc s b.addr size
      else (malloc_extend alloc s b.addr size, b.addr)).1 (if b.free = false then malloc_append alloc s b.addr size
        else (malloc_extend alloc s b.addr size, b.addr)).2 size).1.pages =
      mapPages alloc s.pages s.malloc_reserved_blocks (needed_blocks s b.addr size) := by
  have hnot' : ¬ (Header.size s.mem b.addr ≥ size ∧ Header.free s.mem b.addr = true) := by
    rw [hh.size, hh.free]
    exact hnot
  unfold needed_blocks
  rw [if_neg hnot', hh.free]
  cases b.free with
  | false => rfl
  | true => rfl

/-- 足した後のページの数。 -/
theorem reserved_add (hn : k.heap.stop + n * 4096 ≤ 2 ^ 32) :
    add32 k.heap.malloc_reserved_blocks n = k.heap.malloc_reserved_blocks + n := by
  rw [stop_page] at hn
  unfold heap_page at hn
  exact add32_eq (by omega)

theorem Growth.last_iff (hg : Growth k.heap size (blocks_for b size) p) (h : Sound k (l₁ ++ [b])) (hsize : size < 2 ^ 32)
    (hnot : ¬ (size ≤ b.size ∧ b.free = true))
    (hend : p + size ≤ 2 ^ 32 → k.heap.stop + blocks_for b size * 4096 ≤ 2 ^ 32)
    (hmal : malloc_mapped k size = some (⟨s', map_blocks k.phys malloc_virt_address
      k.heap.malloc_reserved_blocks (needed_blocks k.heap b.addr size)⟩, p))
    (hres : s'.malloc_reserved_blocks = add32 k.heap.malloc_reserved_blocks (needed_blocks k.heap b.addr size)) :
    MallocSafe k size ↔ size = 0 ∨ k.heap.stop + blocks_for b size * 4096 ≤ 2 ^ 32 ∧
      blocks_for b size + tables_needed k.phys (heap_page k.heap.malloc_reserved_blocks) (blocks_for b size - 1) ≤
        free_count k.phys := by
  obtain ⟨-, -, hh, -⟩ := h.heap.tiles.split
  refine hg.safe_iff h hmal fun hin => ?_
  have hneed := needed_blocks_eq hh hsize hnot (hend hin)
  rw [hneed] at hres
  exact ⟨hend hin, hneed, hres.trans (reserved_add (hend hin))⟩

/-- ページと表のブロックが足りる。 -/
def Room (k : Kernel) (l : List Block) (size : Nat) : Prop :=
  (∃ b ∈ l, size ≤ b.size ∧ b.free = true) ∨
    ∀ b ∈ l.getLast?, k.heap.stop + blocks_for b size * 4096 ≤ 2 ^ 32 ∧
      blocks_for b size + tables_needed k.phys (heap_page k.heap.malloc_reserved_blocks) (blocks_for b size) ≤
        free_count k.phys

theorem Sound.grow (h : Sound k l) (hsize : size + 12 + 4095 < 2 ^ 31)
    (hmal : malloc (frame_at k.phys k.heap.malloc_reserved_blocks) k.heap size = some (s', p))
    (hpages : s'.pages = mapPages (frame_at k.phys k.heap.malloc_reserved_blocks) k.heap.pages
      k.heap.malloc_reserved_blocks n)
    (hend : heap_page (k.heap.malloc_reserved_blocks + n) ≤ 2 ^ 20)
    (hcount : n + tables_needed k.phys (heap_page k.heap.malloc_reserved_blocks) n ≤ free_count k.phys) :
    ∃ l', Sound ⟨s', map_blocks k.phys malloc_virt_address k.heap.malloc_reserved_blocks n⟩ l' := by
  obtain ⟨s'', p', hmal', hpost⟩ := malloc_spec (frame_at k.phys k.heap.malloc_reserved_blocks) h.heap hsize
  cases hmal.symm.trans hmal'
  have hgrow := h.pages.grow (n := n) h.heap.fresh
  rw [h.heap.pages] at hgrow
  obtain ⟨hfresh, hmapped⟩ := hgrow hend hcount
  rw [← hpages] at hfresh hmapped
  obtain ⟨l', hpost⟩ := hpost hfresh
  exact ⟨l', hpost.ok, hmapped⟩

/-- 足りているかぎり、ヒープのページは別々のブロックに写ったままである。 -/
theorem malloc_sound (h : Sound k l) (hsize : size < 2 ^ 32) (hroom : Room k l size) :
    ∃ k' p l', malloc_mapped k size = some (k', p) ∧ Sound k' l' := by
  obtain ⟨l₁, b, l₂, rfl, hfind, hor⟩ := h.find size
  obtain ⟨-, -, hh, -⟩ := h.heap.tiles.split
  have hstop := h.heap.stop_le
  have hbase : malloc_virt_address = 0xC0400000 := rfl
  have hb := h.heap.tiled.block_le
  have hpage := stop_page k.heap
  have hready := ready_of_find (frame_at k.phys k.heap.malloc_reserved_blocks) hfind hh
  have hmal := malloc_eq_ready (frame_at k.phys k.heap.malloc_reserved_blocks) k.heap size
  rw [hready, Option.map_some] at hmal
  have hmapped := malloc_mapped_ready hfind hready
  by_cases hfit : size ≤ b.size ∧ b.free = true
  · rw [if_pos hfit] at hmal hmapped
    have hneed : needed_blocks k.heap b.addr size = 0 := by
      unfold needed_blocks
      rw [hh.size, hh.free, if_pos hfit]
    rw [hneed] at hmapped
    obtain ⟨l', hs⟩ := h.grow (n := 0) (by omega) hmal (List.append_nil _).symm (by rw [Nat.add_zero]; omega)
      (Nat.zero_le _)
    exact ⟨_, _, l', hmapped, hs⟩
  · obtain ⟨rfl, hnone⟩ := hor.resolve_left hfit
    rw [if_neg hfit] at hmal hmapped
    obtain ⟨hend, hcount⟩ := (hroom.resolve_left fun ⟨c, hc, hc'⟩ => hnone c hc hc') b (by simp)
    have hneed := needed_blocks_eq hh hsize hfit hend
    have hpages := grown_pages (frame_at k.phys k.heap.malloc_reserved_blocks) hh hfit
    rw [hneed] at hmapped hpages
    have hsize' : size + 12 + 4095 < 2 ^ 31 := by
      unfold blocks_for at hend
      unfold sizeofHeader at hb
      split at hend <;> omega
    obtain ⟨l', hs⟩ := h.grow hsize' hmal hpages (by rw [heap_page_add]; omega) hcount
    exact ⟨_, _, l', hmapped, hs⟩

/-! ## 起動 -/

/-- 表の境から始まる 4 MB までのページには、表は高々一つ要る。 -/
theorem tables_needed_le_one {m : Phys} (hp : p % 1024 = 0) (hn : n ≤ 1024) : tables_needed m p n ≤ 1 := by
  induction n with
  | zero => exact Nat.zero_le 1
  | succ n ih =>
    unfold tables_needed
    by_cases h0 : n = 0
    · subst h0
      unfold tables_needed
      split <;> omega
    · rw [if_pos (.inr ⟨h0, by omega⟩)]
      exact ih (by omega)

/-- ページング開始直後は、ヒープの番地に何も写っていない。 -/
theorem booted_mapped {m₀ m : Phys} (h : Booted m₀ m) (h0 : Used m₀ 0) : Mapped m [] := by
  have hz : NoZeroTable m := fun k hk hp => by
    rw [h.table_eq hk hp]
    exact h.table.2 h0
  have hlo : heap_page 0 = 769 * 1024 := rfl
  have hcur := And.intro h.cur.1 (h.cur.2 h0)
  refine ⟨⟨⟨h.separate, h.kept 0 h0, hcur, ?_, fun k hk hp => ?_, fun k k' hk hlt hlt' hp _ _ => ?_⟩,
    fun w hw hlt => ?_, fun k hk hp ht => absurd ht (hz k hk hp)⟩, hz, fun i hi => absurd hi (Nat.not_lt_zero i),
    fun f hf => absurd hf List.not_mem_nil⟩
  · rw [h.kernel]
    exact hcur
  · rw [h.table_eq hk hp]
    exact h.table.1
  · have := (h.dir k hlt).mp hp
    unfold KERNEL_PAGE_NUMBER at this
    omega
  · have hw' : heap_page 0 ≤ w := hw
    rw [h.page w hlt, if_neg]
    unfold KERNEL_PAGE_NUMBER
    omega

theorem init_malloc_mapped_phys (m : Phys) (mem : ByteMem) :
    (init_malloc_mapped m mem).phys = map_blocks m malloc_virt_address 0 257 := by
  have hreserved : (init_malloc (frame_at m 0) mem).malloc_reserved_blocks = 257 := rfl
  unfold init_malloc_mapped
  dsimp only
  rw [hreserved]

/-- 起動直後のヒープ。ページに 257、表に 1、ディレクトリとその表に 2 個のブロックを使う。 -/
theorem boot_sound {m : Phys} (mem : ByteMem) (h0 : Used m 0) (hcount : 260 ≤ free_count m) :
    Sound (init_malloc_mapped (init_paging m) mem) [⟨malloc_virt_address, 257 * 4096 - 12, true⟩] := by
  have hboot := init_paging_booted (m := m) (by omega)
  have hfree := init_paging_count (m := m) (by omega)
  have hmiss := tables_needed_le_one (m := init_paging m) (p := heap_page 0) (n := 257) rfl (by decide)
  have hpages : (init_malloc (frame_at (init_paging m) 0) mem).pages = mapPages (frame_at (init_paging m) 0) [] 0 257 := rfl
  obtain ⟨hfresh, hmapped⟩ := (booted_mapped hboot h0).grow (n := 257) ⟨List.nodup_nil, by simp⟩
    (by rw [List.length_nil]; decide) (by rw [List.length_nil]; omega)
  rw [List.length_nil, ← hpages] at hfresh hmapped
  refine ⟨init_malloc_ok hfresh, ?_⟩
  rw [init_malloc_mapped_phys]
  exact hmapped

/-- 起動から、ブロックの足りる `malloc`、`free`、使用中のペイロードへの書き込みで届く状態。 -/
inductive MappedReach : Kernel → Prop
  | boot {m : Phys} (mem : ByteMem) : Used m 0 → 260 ≤ free_count m → MappedReach (init_malloc_mapped (init_paging m) mem)
  | malloc {k k' : Kernel} {l : List Block} {size p : Nat} : MappedReach k → size < 2 ^ 32 →
      Tiles k.heap.mem k.heap.malloc_head l k.heap.stop → Room k l size → malloc_mapped k size = some (k', p) →
        MappedReach k'
  | free {k : Kernel} {s' : State} {address : Nat} : MappedReach k → free k.heap address = some s' →
      MappedReach { k with heap := s' }
  | write {k : Kernel} {l : List Block} {b : Block} {x : Nat} (v : UInt8) : MappedReach k →
      Tiles k.heap.mem k.heap.malloc_head l k.heap.stop → b ∈ l → b.free = false → b.Holds x →
        MappedReach { k with heap := { k.heap with mem := k.heap.mem.store8 x v } }

theorem free_pages {s : State} {address : Nat} (h : free s address = some s') : s'.pages = s.pages := by
  unfold free at h
  obtain ⟨mem, -, rfl⟩ := Option.map_eq_some_iff.mp h
  rfl

theorem MappedReach.sound (h : MappedReach k) : ∃ l, Sound k l := by
  induction h with
  | boot mem h0 hcount => exact ⟨_, boot_sound mem h0 hcount⟩
  | malloc _ hsize ht hroom hmal ih =>
    obtain ⟨l, hs⟩ := ih
    cases Tiles.unique hs.heap.tiles ht
    obtain ⟨k', p, l', hmal', hs'⟩ := malloc_sound hs hsize hroom
    cases hmal.symm.trans hmal'
    exact ⟨l', hs'⟩
  | free _ hfree ih =>
    obtain ⟨l, hs⟩ := ih
    obtain ⟨s', l', hfree', hok', -⟩ := free_spec _ hs.heap
    cases hfree.symm.trans hfree'
    refine ⟨l', hok', ?_⟩
    rw [free_pages hfree]
    exact hs.pages
  | write v _ ht hb _ hx ih =>
    obtain ⟨l, hs⟩ := ih
    cases Tiles.unique hs.heap.tiles ht
    exact ⟨_, hs.heap.write hb hx v, hs.pages⟩

end MyOS.Heap
