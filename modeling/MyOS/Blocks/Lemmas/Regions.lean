import Mathlib.Data.List.Basic
import MyOS.Blocks.Phys

/-!
# ビットの読み書き

`set_block` と `test_block` を、ブロックごとの空きの読み書きとして述べる。
-/

namespace MyOS.Blocks
open MyOS.Lib

variable {s : State} {b id : Nat}

theorem test_block_eq (s : State) (id : Nat) : test_block s id = s.free id := by
  have hk : id % 32 < 32 := Nat.mod_lt _ (by decide)
  unfold test_block State.free
  rw [← BitVec.twoPow_eq, BitVec.and_twoPow]
  cases h : (s.mem_bitmap (id / 32)).getLsbD (id % 32) with
  | false => simp
  | true =>
    have hne : BitVec.twoPow 32 (id % 32) ≠ 0#32 := by
      intro h0
      have := congrArg (BitVec.getLsbD · (id % 32)) h0
      simp [hk] at this
    simp [hne]

/-- 空きのない語のブロックは、すべて使われている。 -/
theorem free_of_word_zero (h : s.mem_bitmap (b / 32) = 0#32) : s.free b = false := by
  simp [State.free, h]

/-- `val` は 0 か 1 である。 -/
theorem free_set_block {val : BitVec 32} (hv : ∀ k, 0 < k → val.getLsbD k = false) :
    (set_block s id val).free b = if b = id then val.getLsbD 0 else s.free b := by
  have hk : id % 32 < 32 := Nat.mod_lt _ (by decide)
  have hb : b % 32 < 32 := Nat.mod_lt _ (by decide)
  unfold set_block State.free
  by_cases hw : b / 32 = id / 32
  · simp only [hw, if_true, BitVec.getLsbD_or, BitVec.getLsbD_and, BitVec.getLsbD_not, BitVec.getLsbD_shiftLeft,
      BitVec.getLsbD_one]
    by_cases hid : b = id
    · simp [hid, hk]
    · have hne : b % 32 ≠ id % 32 := by omega
      cases Nat.lt_or_gt_of_ne hne with
      | inl hlt => simp [hid, hb, hlt]
      | inr hgt => simp [hid, hb, hv _ (Nat.sub_pos_of_lt hgt), Nat.sub_ne_zero_of_lt hgt]
  · have hid : b ≠ id := by
      rintro rfl
      exact hw rfl
    simp [hw, hid]

@[simp] theorem free_set_one : (set_block s id 1).free b = (decide (b = id) || s.free b) := by
  rw [free_set_block (fun k hk => by simp [Nat.ne_of_gt hk])]
  by_cases h : b = id <;> simp [h]

@[simp] theorem free_set_zero : (set_block s id 0).free b = (!decide (b = id) && s.free b) := by
  rw [free_set_block (fun k _ => by simp)]
  by_cases h : b = id <;> simp [h]

@[simp] theorem set_block_refs {val : BitVec 32} : (set_block s id val).refs = s.refs := rfl

@[simp] theorem set_block_counts {val : BitVec 32} : (set_block s id val).ref_counts = s.ref_counts := rfl

/-- 空きが一致すれば、語も一致する。 -/
theorem bitmap_ext {t : State} (h : ∀ b, t.free b = s.free b) : t.mem_bitmap = s.mem_bitmap := by
  funext k
  apply BitVec.eq_of_getLsbD_eq
  intro i hi
  have hb := h (32 * k + i)
  unfold State.free at hb
  rwa [show (32 * k + i) / 32 = k by omega, show (32 * k + i) % 32 = i by omega] at hb

end MyOS.Blocks

/-!
## 領域の登録

`initialize_memory_region` と `deinitialize_memory_region` が書くブロックの範囲と、書いた語の番号を述べる。
-/

namespace MyOS.Blocks
open MyOS.Lib

variable {s : State} {b k n start size : Nat}

theorem set_blocks_one_free : (set_blocks 1 n b s).free k = (s.free k || decide (b ≤ k ∧ k < b + n)) := by
  induction n generalizing b s with
  | zero =>
    have hout : ¬ (b ≤ k ∧ k < b + 0) := by omega
    rw [decide_eq_false hout, Bool.or_false]
    rfl
  | succ n ih =>
    unfold set_blocks
    rw [ih, free_set_one]
    by_cases hk : k = b
    · simp [hk]
    · have hin : decide (b + 1 ≤ k ∧ k < b + 1 + n) = decide (b ≤ k ∧ k < b + (n + 1)) :=
        decide_eq_decide.mpr (by omega)
      rw [hin, decide_eq_false hk, Bool.false_or]

theorem set_blocks_zero_free : (set_blocks 0 n b s).free k = (s.free k && !decide (b ≤ k ∧ k < b + n)) := by
  induction n generalizing b s with
  | zero => simp [set_blocks, Nat.lt_or_ge k b]
  | succ n ih =>
    unfold set_blocks
    rw [ih, free_set_zero]
    by_cases hk : k = b
    · simp [hk]
    · have hin : decide (b + 1 ≤ k ∧ k < b + 1 + n) = decide (b ≤ k ∧ k < b + (n + 1)) :=
        decide_eq_decide.mpr (by omega)
      rw [hin, decide_eq_false hk, Bool.not_false, Bool.true_and]

/-- 書いた語は、範囲のブロックの語である。 -/
theorem set_blocks_words {val : BitVec 32} :
    (set_blocks val n b s).words = ((List.range' b n).map (· / 32)).reverse ++ s.words := by
  induction n generalizing b s with
  | zero => simp [set_blocks]
  | succ n ih =>
    unfold set_blocks
    rw [ih]
    simp [set_block, List.range'_succ]

theorem initialize_free : (initialize_memory_region s start size).free k =
    (s.free k || decide (first_block start ≤ k ∧ k < last_block start size)) := by
  unfold initialize_memory_region
  rw [set_blocks_one_free]
  have hiff : (first_block start ≤ k ∧ k < first_block start + (last_block start size - first_block start)) ↔
      (first_block start ≤ k ∧ k < last_block start size) := by omega
  exact congrArg (s.free k || ·) (decide_eq_decide.mpr hiff)

theorem deinitialize_free : (deinitialize_memory_region s start size).free k =
    (s.free k && !decide (start / BLOCK_SIZE ≤ k ∧ k < stop_block start size)) := by
  unfold deinitialize_memory_region
  rw [set_blocks_zero_free]
  have hiff : (start / BLOCK_SIZE ≤ k ∧ k < start / BLOCK_SIZE + (stop_block start size - start / BLOCK_SIZE)) ↔
      (start / BLOCK_SIZE ≤ k ∧ k < stop_block start size) := by omega
  exact congrArg (s.free k && !·) (decide_eq_decide.mpr hiff)

/-- 語 `w` を書くのは、その語のブロックが範囲にあるときである。 -/
theorem mem_set_words {val : BitVec 32} {w : Nat} :
    w ∈ (set_blocks val (n - b) b s).words ↔ (∃ k, b ≤ k ∧ k < n ∧ w = k / 32) ∨ w ∈ s.words := by
  rw [set_blocks_words]
  simp only [List.mem_append, List.mem_reverse, List.mem_map, List.mem_range'_1]
  constructor
  · rintro (⟨k, hk, rfl⟩ | h)
    · exact Or.inl ⟨k, by omega, by omega, rfl⟩
    · exact Or.inr h
  · rintro (⟨k, hk, hk', rfl⟩ | h)
    · exact Or.inl ⟨k, by omega, rfl⟩
    · exact Or.inr h

theorem initialize_words {w : Nat} : w ∈ (initialize_memory_region s start size).words ↔
    (∃ k, first_block start ≤ k ∧ k < last_block start size ∧ w = k / 32) ∨ w ∈ s.words := mem_set_words

theorem deinitialize_words {w : Nat} : w ∈ (deinitialize_memory_region s start size).words ↔
    (∃ k, start / BLOCK_SIZE ≤ k ∧ k < stop_block start size ∧ w = k / 32) ∨ w ∈ s.words := mem_set_words

/-- 作ったばかりの表に空きはない。 -/
theorem init_free (hk : k < MAX_BLOCK_ENTRIES * 32) : (init_phys_mem s b).free k = false := by
  have hword : k / 32 < MAX_BLOCK_ENTRIES := by omega
  simp [State.free, init_phys_mem, hword]

theorem init_words : (init_phys_mem s b).words = List.range MAX_BLOCK_ENTRIES := by
  simp only [init_phys_mem]

end MyOS.Blocks
