import MyOS.Heap.Theorems

/-!
# 求めた大きさの定理

ブロックの数と、分けるかどうかの比較は 32 ビットで計算される。大きさが 2^32 に近いと、どちらも折り返す。
-/

namespace MyOS.Heap
open MyOS.Lib

variable {s r : State} {l l₁ l₂ : List Block} {b c : Block} {m : ByteMem} {alloc : Nat → Nat} {size cur n v : Nat}

/-- ヘッダのリストがヒープを隙間なく覆い、ヒープは 32 ビットの番地に収まる。 -/
structure Tiled (s : State) (l : List Block) : Prop where
  head : s.malloc_head = malloc_virt_address
  nonempty : l ≠ []
  tiles : Tiles s.mem s.malloc_head l s.stop
  stop : s.stop < 2 ^ 32

theorem HeapOk.tiled (h : HeapOk s l) : Tiled s l :=
  ⟨h.head, h.nonempty, h.tiles, by have := h.stop_le; omega⟩

/-- `malloc` が `malloc_split` を呼ぶ直前の状態と、選んだブロックの番地。 -/
def malloc_ready (alloc : Nat → Nat) (s : State) (size : Nat) : Option (State × Nat) :=
  (malloc_find s.mem size s.fuel s.malloc_head).map fun cur =>
    if Header.size s.mem cur ≥ size ∧ Header.free s.mem cur = true then (s, cur)
    else if Header.free s.mem cur = false then malloc_append alloc s cur size
    else (malloc_extend alloc s cur size, cur)

theorem malloc_eq_ready (alloc : Nat → Nat) (s : State) (size : Nat) : malloc alloc s size =
    (malloc_ready alloc s size).map fun (r, cur) => malloc_take r cur size := by
  unfold malloc malloc_ready
  cases malloc_find s.mem size s.fuel s.malloc_head with
  | none => rfl
  | some cur =>
    simp only [Option.map_some]
    split
    · rfl
    · split <;> rfl

/-- 返したブロックは `size` バイト以上あり、そのペイロードはヒープの末尾までに収まる。分けるかどうかの比較も
折り返さない。 -/
structure Roomy (r : State) (cur size : Nat) : Prop where
  header : size ≤ Header.size (malloc_take r cur size).1.mem cur
  payload : (malloc_take r cur size).2 = cur + sizeofHeader
  inside : cur + sizeofHeader + size ≤ (malloc_take r cur size).1.stop
  split : add32 size sizeofHeader ≥ Header.size r.mem cur ↔ size + sizeofHeader ≥ Header.size r.mem cur

def SizeKept (alloc : Nat → Nat) (s : State) (size : Nat) : Prop :=
  ∃ r cur, malloc_ready alloc s size = some (r, cur) ∧ malloc alloc s size = some (malloc_take r cur size) ∧
    Roomy r cur size

/-- 空きブロックが足りるか、最後のブロックを伸ばした、または足した大きさが 32 ビットに収まる。 -/
def GrowthFits (l : List Block) (size : Nat) : Prop :=
  (∃ b ∈ l, size ≤ b.size ∧ b.free = true) ∨
    ∀ b ∈ l.getLast?, if b.free then
      b.size + (size - b.size + (BLOCK_SIZE - 1)) / BLOCK_SIZE * BLOCK_SIZE < 2 ^ 32 ∧ size + sizeofHeader < 2 ^ 32
    else size + sizeofHeader + (BLOCK_SIZE - 1) < 2 ^ 32

/-! ## 分けた後の大きさ -/

/-- 分けたブロックの大きさは、後半のヘッダをどこに書いても `size` である。 -/
theorem take_header (r : State) (cur : Nat) (hsize : size < 2 ^ 32) : Header.size (malloc_take r cur size).1.mem cur =
    if add32 size sizeofHeader ≥ Header.size r.mem cur then Header.size r.mem cur else size := by
  show Header.size (Header.setFree (malloc_split r.mem cur size) cur false) cur = _
  rw [Header.size_setFree]
  unfold malloc_split
  split
  · rfl
  · dsimp only
    rw [Header.size_setNext, Header.size_setSize hsize]

theorem roomy_iff (hsize : size < 2 ^ 32) (hcur : cur + sizeofHeader < 2 ^ 32) : Roomy r cur size ↔
    (add32 size sizeofHeader ≥ Header.size r.mem cur → size ≤ Header.size r.mem cur) ∧
      cur + sizeofHeader + size ≤ r.stop ∧
        (add32 size sizeofHeader ≥ Header.size r.mem cur ↔ size + sizeofHeader ≥ Header.size r.mem cur) := by
  have hheader := take_header r cur hsize
  constructor
  · rintro ⟨hle, -, hin, hsplit⟩
    refine ⟨fun hge => ?_, hin, hsplit⟩
    rwa [hheader, if_pos hge] at hle
  · rintro ⟨hle, hin, hsplit⟩
    refine ⟨?_, add32_eq hcur, hin, hsplit⟩
    rw [hheader]
    split
    next hge => exact hle hge
    next => exact le_rfl

/-! ## ブロックを足す -/

theorem Tiled.stop_eq (h : Tiled s l) : add32 malloc_virt_address (mul32 s.malloc_reserved_blocks BLOCK_SIZE) = s.stop := by
  have hstop := h.stop
  unfold State.stop at hstop ⊢
  rw [mul32_eq (by omega), add32_eq hstop]

/-- ページを `n` 枚足した後のヒープの末尾。 -/
theorem Tiled.stop_grow (h : Tiled s l) (hn : n < 2 ^ 20) :
    malloc_virt_address + add32 s.malloc_reserved_blocks n * BLOCK_SIZE = s.stop + n * BLOCK_SIZE := by
  have hstop := h.stop
  unfold State.stop BLOCK_SIZE at *
  rw [add32_eq (by omega)]
  omega

theorem Tiled.block_le (h : Tiled s (l₁ ++ b :: l₂)) :
    malloc_virt_address ≤ b.addr ∧ b.addr + sizeofHeader + b.size ≤ s.stop := by
  have hb := h.tiles.bounds (b := b) (by simp)
  rw [h.head] at hb
  exact hb

theorem append_header (h : Tiled s (l₁ ++ [b])) (hv : v < 2 ^ 32) :
    Header.size (Header.setNext (Header.setNext (Header.setFree (Header.setSize m s.stop v) s.stop true) s.stop 0)
      b.addr s.stop) s.stop = v := by
  have hle := h.block_le.2
  unfold sizeofHeader at hle
  have hfar := (Header.congr (m := Header.setNext (Header.setFree (Header.setSize m s.stop v) s.stop true) s.stop 0)
    (a := s.stop) fun x hx _ => Header.setNext_outside (a := b.addr) (v := s.stop) (by omega)).1
  rw [hfar, Header.size_setNext, Header.size_setFree, Header.size_setSize hv]

theorem append_roomy (h : Tiled s (l₁ ++ [b])) (hsize : size < 2 ^ 32) :
    Roomy (malloc_append alloc s b.addr size).1 (malloc_append alloc s b.addr size).2 size ↔
      size + sizeofHeader + (BLOCK_SIZE - 1) < 2 ^ 32 := by
  have hstop := h.stop
  have hpage : s.stop % 4096 = 0 := by
    unfold State.stop malloc_virt_address KERNEL_VIRTUAL_BASE BLOCK_SIZE
    omega
  generalize hn : add32 (add32 size sizeofHeader) (BLOCK_SIZE - 1) / BLOCK_SIZE = n
  have hn' : n < 2 ^ 20 := by
    rw [← hn]
    unfold BLOCK_SIZE add32
    omega
  have hcur : (malloc_append alloc s b.addr size).2 = s.stop := h.stop_eq
  have hend : (malloc_append alloc s b.addr size).1.stop = s.stop + n * BLOCK_SIZE := by
    rw [← h.stop_grow hn', ← hn]
    rfl
  have hheader : Header.size (malloc_append alloc s b.addr size).1.mem s.stop =
      sub32 (mul32 n BLOCK_SIZE) sizeofHeader := by
    unfold malloc_append
    dsimp only
    rw [h.stop_eq, hn]
    exact append_header h (by unfold sub32; omega)
  rw [hcur, roomy_iff hsize (by unfold sizeofHeader; omega), hend, hheader]
  unfold add32 sub32 mul32 sizeofHeader BLOCK_SIZE at *
  omega

/-! ## ブロックを伸ばす -/

theorem extend_roomy (h : Tiled s (l₁ ++ [b])) (hlt : b.size < size) (hsize : size < 2 ^ 32) :
    Roomy (malloc_extend alloc s b.addr size) b.addr size ↔
      b.size + (size - b.size + (BLOCK_SIZE - 1)) / BLOCK_SIZE * BLOCK_SIZE < 2 ^ 32 ∧ size + sizeofHeader < 2 ^ 32 := by
  have hstop := h.stop
  obtain ⟨-, -, hh, hlast⟩ := h.tiles.split
  have hlast : b.addr + sizeofHeader + b.size = s.stop := hlast
  generalize hn : add32 (sub32 size b.size) (BLOCK_SIZE - 1) / BLOCK_SIZE = n
  have hn' : n < 2 ^ 20 := by
    rw [← hn]
    unfold BLOCK_SIZE add32
    omega
  have hend : (malloc_extend alloc s b.addr size).stop = s.stop + n * BLOCK_SIZE := by
    rw [← h.stop_grow hn', ← hn, ← hh.size]
    rfl
  have hheader : Header.size (malloc_extend alloc s b.addr size).mem b.addr = add32 b.size (mul32 n BLOCK_SIZE) := by
    unfold malloc_extend
    dsimp only
    rw [hh.size, hn, Header.size_setSize add32_lt]
  rw [roomy_iff hsize (by unfold sizeofHeader at *; omega), hend, hheader]
  unfold add32 sub32 mul32 sizeofHeader BLOCK_SIZE at *
  omega

/-! ## `malloc` の大きさ -/

/-- 見つけた空きブロックは、どの大きさでも足りている。 -/
theorem found_roomy (h : Tiled s (l₁ ++ b :: l₂)) (hle : size ≤ b.size) : Roomy s b.addr size := by
  have hstop := h.stop
  have hb := h.block_le
  obtain ⟨-, -, hh, -⟩ := h.tiles.split
  unfold malloc_virt_address KERNEL_VIRTUAL_BASE at hb
  rw [roomy_iff (by omega) (by unfold sizeofHeader at *; omega), hh.size]
  refine ⟨fun _ => hle, by omega, ?_⟩
  rw [add32_eq (by unfold sizeofHeader at *; omega)]

theorem sizeKept_of_ready (h : malloc_ready alloc s size = some (r, cur)) : SizeKept alloc s size ↔ Roomy r cur size := by
  constructor
  · rintro ⟨r', cur', h', -, hroomy⟩
    cases h.symm.trans h'
    exact hroomy
  · exact fun hroomy => ⟨r, cur, h, by rw [malloc_eq_ready, h]; rfl, hroomy⟩

theorem ready_of_find (alloc : Nat → Nat) (hfind : malloc_find s.mem size s.fuel s.malloc_head = some b.addr)
    (hh : HeaderAt s.mem b n) : malloc_ready alloc s size = some (if size ≤ b.size ∧ b.free = true then (s, b.addr)
      else if b.free = false then malloc_append alloc s b.addr size
      else (malloc_extend alloc s b.addr size, b.addr)) := by
  unfold malloc_ready
  rw [hfind, Option.map_some, hh.size, hh.free]

/-- 合う空きブロックがなければ、最後のブロックを選ぶ。 -/
theorem ready_last (alloc : Nat → Nat) (h : Tiled s (l₁ ++ [b])) (hnone : ∀ c ∈ l₁ ++ [b], ¬ (size ≤ c.size ∧ c.free = true)) :
    malloc_ready alloc s size = some (if b.free = false then malloc_append alloc s b.addr size
      else (malloc_extend alloc s b.addr size, b.addr)) := by
  obtain ⟨l₁', b', l₂', hl, hfind, hor⟩ := malloc_find_spec size h.tiles h.nonempty (by rw [h.head]; decide)
    (h.tiles.length_le_fuel h.head)
  obtain ⟨-, -, hh, -⟩ := h.tiles.split
  cases hor with
  | inl hfit => exact absurd hfit (hnone b' (by rw [hl]; simp))
  | inr hlast =>
    rw [hlast.1] at hl
    obtain rfl : b = b' := List.singleton_inj.mp (List.append_inj' hl rfl).2
    rw [ready_of_find alloc hfind hh, if_neg (hnone b (by simp))]

/-- どのブロックも合わないときの `malloc` の大きさ。 -/
theorem sizeKept_last (h : Tiled s (l₁ ++ [b])) (hsize : size < 2 ^ 32)
    (hnone : ∀ c ∈ l₁ ++ [b], ¬ (size ≤ c.size ∧ c.free = true)) :
    SizeKept alloc s size ↔ if b.free then
      b.size + (size - b.size + (BLOCK_SIZE - 1)) / BLOCK_SIZE * BLOCK_SIZE < 2 ^ 32 ∧ size + sizeofHeader < 2 ^ 32
      else size + sizeofHeader + (BLOCK_SIZE - 1) < 2 ^ 32 := by
  have hready := ready_last alloc h hnone
  cases hfree : b.free with
  | false =>
    rw [hfree, if_pos rfl] at hready
    exact (sizeKept_of_ready hready).trans (append_roomy h hsize)
  | true =>
    rw [hfree, if_neg (by decide)] at hready
    have hlt : b.size < size := by
      by_contra hge
      exact hnone b (by simp) ⟨by omega, hfree⟩
    exact (sizeKept_of_ready hready).trans (extend_roomy h hlt hsize)

/-- どの大きさでも、`malloc` が求めた大きさのブロックを返すのは、空きブロックが足りるか、伸ばした大きさが 32 ビットに
収まるとき、そのときに限る。 -/
theorem malloc_size_iff (alloc : Nat → Nat) (s : State) (l : List Block) (size : Nat) (h : Tiled s l)
    (hsize : size < 2 ^ 32) : SizeKept alloc s size ↔ GrowthFits l size := by
  obtain ⟨l₁, b, l₂, rfl, hfind, hor⟩ := malloc_find_spec size h.tiles h.nonempty (by rw [h.head]; decide)
    (h.tiles.length_le_fuel h.head)
  obtain ⟨-, -, hh, -⟩ := h.tiles.split
  rcases hor with hfit | ⟨rfl, hnone⟩
  · have hready := ready_of_find alloc hfind hh
    rw [if_pos hfit] at hready
    exact iff_of_true ((sizeKept_of_ready hready).mpr (found_roomy h hfit.1)) (Or.inl ⟨b, by simp, hfit⟩)
  · refine (sizeKept_last h hsize hnone).trans ?_
    unfold GrowthFits
    rw [List.getLast?_concat]
    constructor
    · intro hlast
      right
      rintro c ⟨⟩
      exact hlast
    · rintro (⟨c, hc, hfit⟩ | hlast)
      · exact absurd hfit (hnone c hc)
      · exact hlast b rfl

theorem booted_tiled : Tiled booted [⟨malloc_virt_address, 257 * 4096 - 12, true⟩] := (init_malloc_ok init_fresh).tiled

theorem malloc_size_booted : SizeKept id booted 100 :=
  (malloc_size_iff id booted _ 100 booted_tiled (by decide)).mpr (Or.inl ⟨_, List.mem_singleton.mpr rfl, by decide, rfl⟩)

/-- 空きのないヒープ。起動直後に、ちょうど残りの大きさを `malloc` すると、こうなる。 -/
def full : State := { booted with mem := Header.setFree booted.mem malloc_virt_address false }

theorem malloc_rest : malloc id booted (257 * 4096 - 12) = some (full, 0xC040000C) := by
  obtain ⟨-, hh, -⟩ := booted_tiled.tiles
  have hsize : Header.size booted.mem malloc_virt_address = 257 * 4096 - 12 := hh.size
  have hfree : Header.free booted.mem malloc_virt_address = true := hh.free
  have hfind : malloc_find booted.mem (257 * 4096 - 12) booted.fuel booted.malloc_head = some malloc_virt_address := by
    show malloc_find booted.mem (257 * 4096 - 12) (1052672 + 1) malloc_virt_address = _
    unfold malloc_find
    rw [hsize, hfree, if_neg (by simp)]
  have hsplit : malloc_split booted.mem malloc_virt_address (257 * 4096 - 12) = booted.mem := by
    unfold malloc_split
    rw [hsize, if_pos (by decide)]
  unfold malloc
  rw [hfind]
  dsimp only
  rw [hsize, hfree, if_pos ⟨le_rfl, rfl⟩]
  unfold malloc_take
  rw [hsplit]
  rfl

theorem full_tiled : Tiled full ([] ++ [⟨malloc_virt_address, 257 * 4096 - 12, false⟩]) := by
  have htiles : Tiles booted.mem booted.malloc_head ([] ++ [⟨malloc_virt_address, 257 * 4096 - 12, true⟩]) booted.stop :=
    booted_tiled.tiles
  exact ⟨booted_tiled.head, by simp, htiles.setFree false, booted_tiled.stop⟩

/-- 空きのないヒープで 2^32 − 100 バイトを求めると、足すページは 0 枚で、ペイロードはヒープの外にある。 -/
theorem malloc_size_wraps : ¬ ∀ (alloc : Nat → Nat) (s : State) (l : List Block) (size : Nat), Tiled s l →
    size < 2 ^ 32 → SizeKept alloc s size := by
  intro hall
  have hfits := (sizeKept_last full_tiled (by decide) (by simp)).mp
    (hall id full _ (2 ^ 32 - 100) full_tiled (by decide))
  revert hfits
  decide

end MyOS.Heap
