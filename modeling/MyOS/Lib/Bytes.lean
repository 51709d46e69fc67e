import Mathlib.Algebra.Group.Nat.Defs
import Mathlib.Logic.Function.Basic
import Mathlib.Tactic.Common

/-!
# 32 ビットの計算

`uint32_t` の値は自然数で表し、計算の結果を 2^32 で折り返す。
-/

namespace MyOS.Lib

variable {a b : Nat}

def add32 (a b : Nat) : Nat := (a + b) % 2 ^ 32
def sub32 (a b : Nat) : Nat := (a + (2 ^ 32 - b % 2 ^ 32)) % 2 ^ 32
def mul32 (a b : Nat) : Nat := (a * b) % 2 ^ 32

theorem add32_eq (h : a + b < 2 ^ 32) : add32 a b = a + b := Nat.mod_eq_of_lt h

theorem sub32_eq (ha : a < 2 ^ 32) (h : b ≤ a) : sub32 a b = a - b := by
  unfold sub32
  rw [Nat.mod_eq_of_lt (a := b) (by omega)]
  omega

theorem mul32_eq (h : a * b < 2 ^ 32) : mul32 a b = a * b := Nat.mod_eq_of_lt h

theorem add32_lt : add32 a b < 2 ^ 32 := Nat.mod_lt _ (by decide)

theorem mul32_lt : mul32 a b < 2 ^ 32 := Nat.mod_lt _ (by decide)

end MyOS.Lib

/-!
## バイト単位のメモリ

番地からバイトへの関数をメモリとし、32 ビットの語をリトルエンディアンで読み書きする。
読み書きの場所が重ならないときの不変性を補題として置く。
-/

namespace MyOS.Lib

/-- 番地からバイトへの関数。 -/
abbrev ByteMem := Nat → UInt8

namespace ByteMem

variable {m m' : ByteMem} {a b v : Nat}

/-- 4 バイトをリトルエンディアンの語として読む。 -/
def load32 (m : ByteMem) (a : Nat) : Nat :=
  (m a).toNat + 256 * (m (a + 1)).toNat + 65536 * (m (a + 2)).toNat + 16777216 * (m (a + 3)).toNat

def store8 (m : ByteMem) (a : Nat) (v : UInt8) : ByteMem :=
  fun b => if b = a then v else m b

/-- 語の下位 32 ビットを 4 バイトに分けて書く。 -/
def store32 (m : ByteMem) (a v : Nat) : ByteMem :=
  store8 (store8 (store8 (store8 m a (UInt8.ofNat v)) (a + 1) (UInt8.ofNat (v / 256)))
    (a + 2) (UInt8.ofNat (v / 65536))) (a + 3) (UInt8.ofNat (v / 16777216))

/-- `memset`。 -/
def fill (m : ByteMem) (a n : Nat) (v : UInt8) : ByteMem :=
  fun b => if a ≤ b ∧ b < a + n then v else m b

/-- 重ならない二つの範囲の `memcpy`。 -/
def copy (m : ByteMem) (dst src n : Nat) : ByteMem :=
  fun b => if dst ≤ b ∧ b < dst + n then m (src + (b - dst)) else m b

theorem load32_lt (m : ByteMem) (a : Nat) : load32 m a < 2 ^ 32 := by
  have h0 := (m a).toNat_lt
  have h1 := (m (a + 1)).toNat_lt
  have h2 := (m (a + 2)).toNat_lt
  have h3 := (m (a + 3)).toNat_lt
  unfold load32
  omega

/-- 読む 4 バイトが一致すれば、読んだ語も一致する。 -/
theorem load32_congr (h : ∀ x, a ≤ x → x < a + 4 → m' x = m x) : load32 m' a = load32 m a := by
  unfold load32
  rw [h a (by omega) (by omega), h (a + 1) (by omega) (by omega), h (a + 2) (by omega) (by omega),
    h (a + 3) (by omega) (by omega)]

theorem store8_of_ne {v : UInt8} (h : b ≠ a) : store8 m a v b = m b := by
  simp [store8, h]

theorem store8_self {v : UInt8} : store8 m a v a = v := by
  simp [store8]

/-- 書いた 4 バイトの外は変わらない。 -/
theorem store32_of_outside (h : b < a ∨ a + 4 ≤ b) : store32 m a v b = m b := by
  unfold store32
  rw [store8_of_ne (by omega), store8_of_ne (by omega), store8_of_ne (by omega),
    store8_of_ne (by omega)]

theorem load32_store32_self (hv : v < 2 ^ 32) : load32 (store32 m a v) a = v := by
  simp [load32, store32, store8, UInt8.toNat_ofNat']
  omega

theorem load32_store32_of_disjoint (h : a + 4 ≤ b ∨ b + 4 ≤ a) :
    load32 (store32 m b v) a = load32 m a :=
  load32_congr (fun x hx hx' => store32_of_outside (by omega))

theorem load32_store8_of_outside {v : UInt8} (h : b < a ∨ a + 4 ≤ b) :
    load32 (store8 m b v) a = load32 m a :=
  load32_congr (fun x hx hx' => store8_of_ne (by omega))

end ByteMem

end MyOS.Lib
