import Mathlib.Data.List.Range

/-!
# 輪のバッファ

容量 `n` の配列に、位置 `rd` から `count` 個の要素を置く。先頭から取り、末尾に加える。
-/

namespace MyOS.Lib

variable {α : Type} {buf : Nat → α} {n rd count : Nat}

/-- 置いてある要素を、取り出す順に並べたもの。 -/
def ring (buf : Nat → α) (n rd count : Nat) : List α :=
  (List.range count).map fun k => buf ((rd + k) % n)

theorem ring_length : (ring buf n rd count).length = count := by simp [ring]

/-- 先頭の要素を取ると、残りは次の位置から並ぶ。 -/
theorem ring_pop (hrd : rd < n) :
    ring buf n rd (count + 1) = buf rd :: ring buf n ((rd + 1) % n) count := by
  have hshift : ∀ k, ((rd + 1) % n + k) % n = (rd + (k + 1)) % n := by
    intro k
    rw [Nat.mod_add_mod]
    congr 1
    omega
  simp only [ring, List.range_succ_eq_map, List.map_cons, List.map_map, Nat.add_zero,
    Nat.mod_eq_of_lt hrd, hshift]
  rfl

/-- 満ちていなければ、加える位置にはまだ要素がない。 -/
theorem ring_slot_ne {k : Nat} (hk : k < count) (hcount : count < n) :
    (rd + k) % n ≠ (rd + count) % n := by
  intro h
  have hmod := Nat.sub_mod_eq_zero_of_mod_eq h.symm
  rw [show rd + count - (rd + k) = count - k by omega, Nat.mod_eq_of_lt (by omega)] at hmod
  omega

theorem ring_push (x : α) (hcount : count < n) :
    ring (fun k => if k = (rd + count) % n then x else buf k) n rd (count + 1) =
      ring buf n rd count ++ [x] := by
  have hold : ∀ k ∈ List.range count,
      (if (rd + k) % n = (rd + count) % n then x else buf ((rd + k) % n)) = buf ((rd + k) % n) := by
    intro k hk
    exact if_neg (ring_slot_ne (List.mem_range.mp hk) hcount)
  rw [ring, List.range_succ, List.map_append, List.map_congr_left hold, ring]
  simp

/-- 待ち行列の仕様。満ちていなければ末尾に加え、空でなければ先頭を取る。加えた要素と取った要素を添える。 -/
inductive QueueStep (cap : Nat) : List α → List α → List α → List α → Prop
  | push {l} (x : α) : l.length < cap → QueueStep cap l [x] [] (l ++ [x])
  | pop {l} (x : α) : QueueStep cap (x :: l) [] [x] l

/-- 要素は失われず、増えず、順も変わらない。 -/
theorem QueueStep.conserve {cap : Nat} {l l' ins outs acc del : List α} (h : QueueStep cap l ins outs l')
    (hl : acc = del ++ l) : acc ++ ins = (del ++ outs) ++ l' := by
  cases h with
  | push x => simp [hl]
  | pop x => simp [hl]

end MyOS.Lib
