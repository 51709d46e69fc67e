import MyOS.Blocks.AllocTheorems
import MyOS.Mem.Lemmas.Alloc

/-!
# 割り当て表との対応

`Phys` の空きの集合は、語の並びとしての `mem_bitmap` を抽象したものである。一つのブロックの割り当てと解放は、
どちらの上でも同じ結果になる。
-/

namespace MyOS.Mem
open MyOS.Lib

variable {s s' : Blocks.State} {m : Phys} {b i n a : Nat}

/-- `s` の語を読んだ空きと参照の数が、`m` のものと一致する。 -/
structure Models (s : Blocks.State) (m : Phys) : Prop where
  free : ∀ b < MAX_BLOCK_ENTRIES * 32, s.free b = m.mem_bitmap b
  counts : ∀ b < MAX_BLOCK_ENTRIES, s.ref_counts b = m.ref_counts b

theorem first_free_finds {bitmap : Nat → Bool} :
    Finds (fun b => b < i + n ∧ bitmap b = true) i (first_free bitmap n i) := by
  induction n generalizing i with
  | zero =>
    rintro x hx ⟨hlt, -⟩
    omega
  | succ n ih =>
    unfold first_free
    by_cases hi : bitmap i = true
    · rw [if_pos hi]
      exact Finds.here ⟨by omega, hi⟩
    · rw [if_neg hi]
      have hrest := ih (i := i + 1)
      rw [Nat.add_right_comm, Nat.add_assoc] at hrest
      refine hrest.skip ?_ (Nat.le_succ i)
      rintro x hx hlt ⟨-, hfree⟩
      obtain rfl : x = i := by omega
      exact hi hfree

/-- 一つのブロックの探索は、どちらの表でも同じ番号を返す。 -/
theorem Models.find (h : Models s m) : Blocks.find_first_free_blocks s 1 = some (find_first_free_blocks m) := by
  obtain ⟨r, hr, hfinds⟩ := Blocks.find_first_free_blocks_finds s (le_refl 1)
  rw [hr]
  refine congrArg some (hfinds.unique first_free_finds fun b => ?_)
  rw [Nat.zero_add]
  constructor
  · rintro ⟨hb, hfree⟩
    have hlt : b < MAX_BLOCK_ENTRIES * 32 := hb
    exact ⟨hlt, (h.free b hlt).symm.trans (hfree 0 (by decide))⟩
  · rintro ⟨hb, hfree⟩
    refine ⟨hb, fun j hj => ?_⟩
    obtain rfl : j = 0 := by omega
    exact (h.free b hb).trans hfree

theorem Models.alloc_blocks (h : Models s m) : ∃ s', Blocks.alloc_blocks s 1 = some (s', (alloc_blocks m).2) ∧
    Models s' (alloc_blocks m).1 := by
  unfold Blocks.alloc_blocks Mem.alloc_blocks
  rw [h.find]
  cases find_first_free_blocks m with
  | none => exact ⟨s, rfl, h⟩
  | some b =>
    refine ⟨_, rfl, fun k hk => ?_, fun k hk => ?_⟩
    · have hiff : (b + 0 ≤ k ∧ k < b + 0 + 1) ↔ k = b := by omega
      rw [Blocks.alloc_loop_free, h.free k hk]
      simp only [hiff]
      by_cases hkb : k = b <;> simp [set_block, hkb]
    · have hiff : (b + 0 ≤ k ∧ k < b + 0 + 1) ↔ k = b := by omega
      rw [Blocks.alloc_loop_counts, h.counts k hk]
      simp only [hiff]

theorem Models.free_blocks (h : Models s m) : Models (Blocks.free_blocks s a 1) (free_blocks m a) := by
  unfold Blocks.free_blocks Mem.free_blocks Blocks.free_loop Blocks.free_loop
  simp only [Nat.add_zero, ge_iff_le]
  by_cases hb : MAX_BLOCK_ENTRIES ≤ a / BLOCK_SIZE
  · rwa [if_pos hb, if_pos hb]
  · rw [if_neg hb, if_neg hb, h.counts _ (by omega)]
    by_cases hone : 1 < m.ref_counts (a / BLOCK_SIZE)
    · rw [if_pos hone, if_pos hone]
      exact ⟨fun k hk => h.free k hk, fun k hk => by simp [h.counts k hk]⟩
    · rw [if_neg hone, if_neg hone]
      refine ⟨fun k hk => ?_, fun k hk => ?_⟩
      · rw [Blocks.free_set_one]
        show (decide (k = a / BLOCK_SIZE) || s.free k) = if k = a / BLOCK_SIZE then true else m.mem_bitmap k
        rw [h.free k hk]
        by_cases hka : k = a / BLOCK_SIZE <;> simp [hka]
      · show (if k = a / BLOCK_SIZE then 0 else s.ref_counts k) = _
        rw [h.counts k hk]

end MyOS.Mem
