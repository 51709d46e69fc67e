import MyOS.Blocks.Lemmas.Regions
import MyOS.Lib.Least

/-!
# 空きの並びの探索

`find_first_free_blocks` は語ごと、使用中のブロックごとに飛ばしながら進む。飛ばした番号から始まる空きの
並びはないので、返る番号は最小である。
-/

namespace MyOS.Blocks
open MyOS.Lib

variable {s : State} {size i j k n : Nat}

theorem first_used_none (h : first_used s i n j = none) : ∀ k, j ≤ k → k < j + n → s.free (i + k) = true := by
  induction n generalizing j with
  | zero =>
    intro k hk hk'
    omega
  | succ n ih =>
    intro k hk hk'
    unfold first_used at h
    rw [test_block_eq] at h
    split at h
    · rename_i hfree
      cases Nat.eq_or_lt_of_le hk with
      | inl heq => rwa [← heq]
      | inr hlt => exact ih h k hlt (by omega)
    · cases h

theorem first_used_some (h : first_used s i n j = some k) : j ≤ k ∧ k < j + n ∧ s.free (i + k) = false := by
  induction n generalizing j with
  | zero => cases h
  | succ n ih =>
    unfold first_used at h
    rw [test_block_eq] at h
    split at h
    · obtain ⟨hj, hk, hfree⟩ := ih h
      exact ⟨by omega, by omega, hfree⟩
    · rename_i hfree
      cases h
      exact ⟨le_rfl, by omega, by simpa using hfree⟩

/-- 空きのない語のブロックから始まる並びはない。 -/
theorem skips_word (hsize : 1 ≤ size) (h : s.mem_bitmap (i / 32) = 0#32) :
    Skips (FreeRun s size) i ((i / 32 + 1) * 32) := by
  rintro x hx hlt ⟨-, hrun⟩
  have hword : x / 32 = i / 32 := by omega
  have hfree := hrun 0 hsize
  rw [Nat.add_zero, free_of_word_zero (by rwa [hword])] at hfree
  cases hfree

/-- 使用中のブロックをまたぐ並びはない。 -/
theorem skips_used (hk : k < size) (h : s.free (i + k) = false) : Skips (FreeRun s size) i (i + k + 1) := by
  rintro x hx hlt ⟨-, hrun⟩
  have hfree := hrun (i + k - x) (by omega)
  rw [show x + (i + k - x) = i + k by omega, h] at hfree
  cases hfree

/-- `i` は回るたびに増えるので、`limit` を超えるまでに繰り返しは終わる。 -/
theorem find_loop_finds (hsize : 1 ≤ size) (hlimit : size ≤ MAX_BLOCK_ENTRIES * 32) {fuel : Nat}
    (hfuel : MAX_BLOCK_ENTRIES * 32 - size + 1 - i < fuel) :
    ∃ r, find_loop s size (MAX_BLOCK_ENTRIES * 32) fuel i = some r ∧ Finds (FreeRun s size) i r := by
  induction fuel generalizing i with
  | zero => omega
  | succ fuel ih =>
    unfold find_loop
    by_cases hi : i ≤ MAX_BLOCK_ENTRIES * 32 - size
    · rw [if_pos hi]
      by_cases hw : s.mem_bitmap (i / 32) = 0#32
      · rw [if_pos hw, Nat.sub_add_cancel (by omega)]
        obtain ⟨r, hr, hfinds⟩ := ih (i := (i / 32 + 1) * 32) (by omega)
        exact ⟨r, hr, hfinds.skip (skips_word hsize hw) (by omega)⟩
      · rw [if_neg hw]
        cases hu : first_used s i size 0 with
        | some k =>
          obtain ⟨-, hk, hfree⟩ := first_used_some hu
          obtain ⟨r, hr, hfinds⟩ := ih (i := i + k + 1) (by omega)
          exact ⟨r, hr, hfinds.skip (skips_used (by omega) hfree) (by omega)⟩
        | none => exact ⟨some i, rfl, Finds.here ⟨by omega, fun k hk => first_used_none hu k (by omega) (by omega)⟩⟩
    · rw [if_neg hi]
      refine ⟨none, rfl, ?_⟩
      rintro x hx ⟨hx', -⟩
      omega

theorem find_first_free_blocks_finds (s : State) (hsize : 1 ≤ size) :
    ∃ r, find_first_free_blocks s size = some r ∧ Finds (FreeRun s size) 0 r := by
  unfold find_first_free_blocks
  simp only [Nat.ne_of_gt hsize, if_false]
  by_cases hlimit : size > MAX_BLOCK_ENTRIES * 32
  · rw [if_pos hlimit]
    refine ⟨none, rfl, ?_⟩
    rintro x - ⟨hx, -⟩
    omega
  · rw [if_neg hlimit]
    exact find_loop_finds hsize (by omega) (by omega)

/-- 語と使用中のブロックを飛ばす探索は必ず終わり、`size` 個の空きが続く最小の番号を返す。そのような番号が
ないときに限り −1 を返す。 -/
theorem find_first_free_blocks_least (s : State) (size : Nat) (hsize : 1 ≤ size) :
    (∀ i, find_first_free_blocks s size = some (some i) ↔ IsLeast {i | FreeRun s size i} i) ∧
      (find_first_free_blocks s size = some none ↔ ∀ i, ¬ FreeRun s size i) := by
  obtain ⟨r, hr, hfinds⟩ := find_first_free_blocks_finds s hsize
  have hset : {x | 0 ≤ x ∧ FreeRun s size x} = {i | FreeRun s size i} := by simp
  simp only [hr, Option.some.injEq]
  constructor
  · intro i
    rw [hfinds.some_iff, hset]
  · simpa using hfinds.none_iff

/-- ブロック 40 から 79 だけが空きの表。並びは二つの語にまたがる。 -/
def straddling : State where
  base := 0
  mem_bitmap
    | 1 => 0xFFFFFF00
    | 2 => 0xFFFF
    | _ => 0
  ref_counts _ := 0
  words := []
  refs := []

theorem find_first_free_blocks_straddling : find_first_free_blocks straddling 30 = some (some 40) := by
  refine ((find_first_free_blocks_least straddling 30 (by decide)).1 40).mpr ⟨⟨by decide, by decide⟩, ?_⟩
  rintro i ⟨-, hrun⟩
  have hused : ∀ i < 40, straddling.free i = false := by decide
  by_contra hlt
  have hfree := hrun 0 (by decide)
  rw [Nat.add_zero, hused i (by omega)] at hfree
  cases hfree

end MyOS.Blocks
