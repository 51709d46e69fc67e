import MyOS.Blocks.Lemmas.Regions
import MyOS.Blocks.SearchTheorems

/-!
# 割り当てと解放

`alloc_blocks` は 131072 個のブロックを渡せるが、`ref_counts` の要素は 4096 個しかない。`free_blocks` は
番号がそこに達すると止まるので、その先のブロックは空きに戻らない。
-/

namespace MyOS.Blocks
open MyOS.Lib

variable {s s' : State} {a b i k n : Nat}

/-- 起動前のメモリの上に作った表から、領域の登録、割り当て、解放で届く状態。 -/
inductive Reach : State → Prop
  | init_phys_mem (s : State) (start : Nat) : Reach (init_phys_mem s start)
  | init_region {s : State} (start size : Nat) : Reach s → Reach (initialize_memory_region s start size)
  | deinit_region {s : State} (start size : Nat) : Reach s → Reach (deinitialize_memory_region s start size)
  | alloc {s s' : State} {size a : Nat} : Reach s → alloc_blocks s size = some (s', a) → Reach s'
  | free {s : State} (a size : Nat) : Reach s → Reach (free_blocks s a size)

/-- `a` から `n` 個のブロックを割り当てた結果 `s'`。前に空きだったものだけが使用中になり、`ref_counts` は
配列の中だけを読み書きし、すぐに解放すれば表は元に戻る。 -/
structure AllocLaw (s s' : State) (a n : Nat) : Prop where
  free_before : FreeRun s n (a / BLOCK_SIZE)
  used_after : ∀ k, s'.free k = (s.free k && !decide (a / BLOCK_SIZE ≤ k ∧ k < a / BLOCK_SIZE + n))
  refs : ∃ l, (free_blocks s' a n).refs = l ++ s.refs ∧ ∀ r ∈ l, r < MAX_BLOCK_ENTRIES
  restored : (free_blocks s' a n).mem_bitmap = s.mem_bitmap

/-! ## 繰り返しの効果 -/

theorem alloc_loop_free : (alloc_loop b n i s).free k = (s.free k && !decide (b + i ≤ k ∧ k < b + i + n)) := by
  induction n generalizing i s with
  | zero => simp [alloc_loop, Nat.lt_or_ge k (b + i)]
  | succ n ih =>
    unfold alloc_loop
    rw [ih]
    show ((set_block s (b + i) 0).free k && _) = _
    rw [free_set_zero]
    by_cases hk : k = b + i
    · simp [hk]
    · have hiff : (b + (i + 1) ≤ k ∧ k < b + (i + 1) + n) ↔ (b + i ≤ k ∧ k < b + i + (n + 1)) := by omega
      simp [hk, hiff]

theorem alloc_loop_refs : (alloc_loop b n i s).refs = (List.range' (b + i) n).reverse ++ s.refs := by
  induction n generalizing i s with
  | zero => simp [alloc_loop]
  | succ n ih =>
    unfold alloc_loop
    simp [ih, List.range'_succ, Nat.add_assoc]

theorem alloc_loop_counts : (alloc_loop b n i s).ref_counts k = if b + i ≤ k ∧ k < b + i + n then 1 else s.ref_counts k := by
  induction n generalizing i s with
  | zero => simp [alloc_loop]
  | succ n ih =>
    unfold alloc_loop
    rw [ih]
    by_cases hk : k = b + i
    · have hin : b + i ≤ b + i ∧ b + i < b + i + (n + 1) := by omega
      simp [hk, hin]
    · have hiff : (b + (i + 1) ≤ k ∧ k < b + (i + 1) + n) ↔ (b + i ≤ k ∧ k < b + i + (n + 1)) := by omega
      simp [hk, hiff]

/-- 配列の中のブロックを、どれも一度だけ参照されているときに解放する。 -/
theorem free_loop_free (hlt : b + i + n ≤ MAX_BLOCK_ENTRIES)
    (hcount : ∀ k, b + i ≤ k → k < b + i + n → s.ref_counts k ≤ 1) :
    (free_loop b n i s).free k = (s.free k || decide (b + i ≤ k ∧ k < b + i + n)) ∧
      (free_loop b n i s).refs = (List.range' (b + i) n).reverse ++ s.refs := by
  induction n generalizing i s with
  | zero => simp [free_loop]
  | succ n ih =>
    unfold free_loop
    have hone : ¬ s.ref_counts (b + i) > 1 := Nat.not_lt.mpr (hcount _ le_rfl (by omega))
    simp only [Nat.not_le.mpr (show b + i < MAX_BLOCK_ENTRIES by omega), if_false, hone]
    obtain ⟨hfree, hrefs⟩ := ih (i := i + 1) (s := set_block
      { s with ref_counts := fun k => if k = b + i then 0 else s.ref_counts k, refs := (b + i) :: s.refs } (b + i) 1)
      (by omega) (by
        intro j hj hj'
        have hne : j ≠ b + i := by omega
        simpa [hne] using hcount j (by omega) (by omega))
    refine ⟨hfree.trans ?_, hrefs.trans ?_⟩
    · rw [free_set_one]
      show (decide (k = b + i) || s.free k || _) = _
      by_cases hk : k = b + i
      · simp [hk]
      · have hiff : (b + (i + 1) ≤ k ∧ k < b + (i + 1) + n) ↔ (b + i ≤ k ∧ k < b + i + (n + 1)) := by omega
        simp [hk, hiff]
    · simp [List.range'_succ, Nat.add_assoc]

theorem free_loop_refs (b n i : Nat) (s : State) : ∃ l, (free_loop b n i s).refs = l ++ s.refs := by
  induction n generalizing i s with
  | zero => exact ⟨[], rfl⟩
  | succ n ih =>
    unfold free_loop
    by_cases hb : b + i ≥ MAX_BLOCK_ENTRIES
    · rw [if_pos hb]
      exact ⟨[], rfl⟩
    · rw [if_neg hb]
      obtain ⟨l, hl⟩ := ih (i + 1) _
      refine ⟨l ++ [b + i], hl.trans ?_⟩
      split <;> simp

/-! ## 割り当てた直後の解放 -/

theorem alloc_blocks_some (hn : 1 ≤ n) (h : alloc_blocks s n = some (s', a)) (ha : a ≠ 0) :
    ∃ b, a = b * BLOCK_SIZE ∧ s' = alloc_loop b n 0 s ∧ IsLeast {i | FreeRun s n i} b := by
  unfold alloc_blocks at h
  obtain ⟨r, hr, h⟩ := Option.map_eq_some_iff.mp h
  cases r with
  | none =>
    cases h
    exact absurd rfl ha
  | some b =>
    cases h
    exact ⟨b, rfl, rfl, ((find_first_free_blocks_least s n hn).1 b).mp hr⟩

/-- 割り当ては、4096 番より前に `n` 個の空きが続くとき、そのときに限り、すぐ後の解放で元に戻る。 -/
theorem alloc_law_iff (hn : 1 ≤ n) (h : alloc_blocks s n = some (s', a)) (ha : a ≠ 0) :
    AllocLaw s s' a n ↔ ∃ i, i + n ≤ MAX_BLOCK_ENTRIES ∧ ∀ j < n, s.free (i + j) = true := by
  obtain ⟨b, rfl, rfl, hrun, hleast⟩ := alloc_blocks_some hn h ha
  have hb : b * BLOCK_SIZE / BLOCK_SIZE = b := Nat.mul_div_cancel b (by decide)
  constructor
  · rintro ⟨-, -, ⟨l, hl, hin⟩, -⟩
    refine ⟨b, ?_, hrun.2⟩
    -- 最後のブロックの番号も `ref_counts` の読み書きに現れる
    obtain ⟨l', hl'⟩ := free_loop_refs b n 0 (alloc_loop b n 0 s)
    unfold free_blocks at hl
    rw [hb, hl', alloc_loop_refs, ← List.append_assoc] at hl
    have hlast := hin (b + n - 1) (by
      rw [← List.append_cancel_right hl]
      simp only [List.mem_append, List.mem_reverse, List.mem_range'_1]
      omega)
    omega
  · rintro ⟨i, hi, hfree⟩
    have hbi : b ≤ i := hleast ⟨by unfold MAX_BLOCK_ENTRIES at *; omega, hfree⟩
    have hloop (k : Nat) := free_loop_free (k := k) (s := alloc_loop b n 0 s) (b := b) (i := 0) (n := n) (by omega)
      (by
        intro k hk hk'
        rw [alloc_loop_counts, if_pos ⟨hk, hk'⟩])
    refine ⟨by rwa [hb], fun k => by rw [alloc_loop_free, hb, Nat.add_zero], ?_, bitmap_ext fun k => ?_⟩
    · refine ⟨(List.range' (b + 0) n).reverse ++ (List.range' (b + 0) n).reverse, ?_, ?_⟩
      · unfold free_blocks
        rw [hb, (hloop 0).2, alloc_loop_refs, List.append_assoc]
      · intro r hr
        simp only [List.mem_append, List.mem_reverse, List.mem_range'_1, or_self] at hr
        omega
    · unfold free_blocks
      rw [hb, (hloop k).1, alloc_loop_free]
      by_cases hk : b + 0 ≤ k ∧ k < b + 0 + n
      · have hset : s.free k = true := by
          have := hrun.2 (k - b) (by omega)
          rwa [show b + (k - b) = k by omega] at this
        rw [hset, decide_eq_true hk]
        rfl
      · rw [decide_eq_false hk]
        simp

/-! ## 4096 番の境目 -/

/-- ブロック `b` だけが空きの表。 -/
def one_block (b : Nat) : State := initialize_memory_region (init_phys_mem blank 0) (b * BLOCK_SIZE) BLOCK_SIZE

theorem one_block_free (hb : b < MAX_BLOCK_ENTRIES * 32) : (one_block b).free k = decide (k = b) := by
  have hfirst : first_block (b * BLOCK_SIZE) = b := by
    unfold first_block add32 BLOCK_SIZE MAX_BLOCK_ENTRIES at *
    omega
  have hlast : last_block (b * BLOCK_SIZE) BLOCK_SIZE = b + 1 := by
    unfold last_block add32 BLOCK_SIZE MAX_BLOCK_ENTRIES at *
    omega
  have hblank : (init_phys_mem blank 0).free k = false := by simp [State.free, init_phys_mem, blank]
  unfold one_block
  rw [initialize_free, hfirst, hlast, hblank, Bool.false_or]
  exact decide_eq_decide.mpr (by omega)

theorem alloc_one_block (hb : b < MAX_BLOCK_ENTRIES * 32) :
    ∃ s', alloc_blocks (one_block b) 1 = some (s', b * BLOCK_SIZE) := by
  have hrun (i : Nat) : FreeRun (one_block b) 1 i ↔ i = b := by
    unfold FreeRun
    constructor
    · rintro ⟨-, h⟩
      have := h 0 (by decide)
      rwa [one_block_free hb, decide_eq_true_eq] at this
    · rintro rfl
      exact ⟨by omega, fun j hj => by simp [one_block_free hb]; omega⟩
  have hfind := ((find_first_free_blocks_least (one_block b) 1 (by decide)).1 b).mpr
    ⟨(hrun b).mpr rfl, fun i hi => ((hrun i).mp hi).ge⟩
  unfold alloc_blocks
  rw [hfind]
  exact ⟨_, rfl⟩

theorem alloc_law_sixteen : ∃ s', alloc_blocks (one_block 16) 1 = some (s', 65536) ∧ AllocLaw (one_block 16) s' 65536 1 := by
  obtain ⟨s', h⟩ := alloc_one_block (b := 16) (by decide)
  refine ⟨s', h, (alloc_law_iff (by decide) h (by decide)).mpr ⟨16, by decide, fun j hj => ?_⟩⟩
  rw [one_block_free (by decide)]
  simp
  omega

/-- 20 MB より後にあるブロック 5000 は、割り当てた後に解放しても空きに戻らない。 -/
theorem alloc_law_broken : ¬ ∀ s s' : State, ∀ n a : Nat, Reach s → 1 ≤ n → alloc_blocks s n = some (s', a) →
    a ≠ 0 → AllocLaw s s' a n := by
  intro hall
  obtain ⟨s', h⟩ := alloc_one_block (b := 5000) (by decide)
  have hlaw := hall (one_block 5000) s' 1 _ (.init_region _ _ (.init_phys_mem blank 0)) (by decide) h (by decide)
  have hkept : (free_blocks s' (5000 * BLOCK_SIZE) 1).mem_bitmap = s'.mem_bitmap := rfl
  have hfree := congrFun (hkept.symm.trans hlaw.restored) (5000 / 32)
  have hused := hlaw.used_after 5000
  unfold State.free at hused
  rw [hfree] at hused
  have hone := one_block_free (b := 5000) (k := 5000) (by decide)
  unfold State.free at hone
  rw [hone] at hused
  simp [BLOCK_SIZE] at hused

end MyOS.Blocks
