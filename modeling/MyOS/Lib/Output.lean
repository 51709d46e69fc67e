import MyOS.Lib.Bytes

/-!
# 上限のある出力

バッファへの書き込みを記録する。上限に達するまで文字を置くと、バッファは置いた列の先頭の部分を示す。
-/

namespace MyOS.Lib

def PERCENT : UInt8 := 0x25
def MINUS : UInt8 := 0x2D
def ZERO : UInt8 := 0x30
def LETTER_X : UInt8 := 0x78

def is_digit (c : UInt8) : Bool := 0x30 ≤ c && c ≤ 0x39

/-- バッファと、次に書く位置。`writes` は書いた位置の記録である。 -/
structure Output where
  buf : ByteMem
  pos : Nat
  writes : List Nat

namespace Output

/-- `buf[a] = c;` -/
def set (o : Output) (a : Nat) (c : UInt8) : Output := { o with buf := o.buf.store8 a c, writes := a :: o.writes }

/-- `buf[pos++] = c;` -/
def push (o : Output) (c : UInt8) : Output := { o.set o.pos c with pos := o.pos + 1 }

/-- `if (pos < limit) buf[pos++] = c;` -/
def put (limit : Nat) (o : Output) (c : UInt8) : Output := if o.pos < limit then o.push c else o

/-- 列を前から順に置き、上限で止まる。 -/
def puts (limit : Nat) : List UInt8 → Output → Output
  | [], o => o
  | c :: s, o => if o.pos < limit then puts limit s (o.push c) else o

/-- 書いた位置は、すべて `n` より小さい。 -/
def Below (n : Nat) (o : Output) : Prop := ∀ a ∈ o.writes, a < n

/-- 列 `t` を上限まで置いた後のバッファ。 -/
structure Shows (limit : Nat) (t : List UInt8) (o : Output) : Prop where
  pos : o.pos = min t.length limit
  bytes : ∀ i (h : i < t.length), i < limit → o.buf i = t[i]
  below : o.Below limit

variable {limit n a : Nat} {s t u : List UInt8} {c : UInt8} {o : Output} {b : ByteMem}

@[simp] theorem set_pos (o : Output) (a : Nat) (c : UInt8) : (o.set a c).pos = o.pos := rfl

@[simp] theorem set_buf (o : Output) (a : Nat) (c : UInt8) : (o.set a c).buf = o.buf.store8 a c := rfl

@[simp] theorem push_pos (o : Output) (c : UInt8) : (o.push c).pos = o.pos + 1 := rfl

@[simp] theorem push_buf (o : Output) (c : UInt8) : (o.push c).buf = o.buf.store8 o.pos c := rfl

theorem below_set : (o.set a c).Below n ↔ a < n ∧ o.Below n := List.forall_mem_cons

theorem below_push : (o.push c).Below n ↔ o.pos < n ∧ o.Below n := List.forall_mem_cons

theorem Below.mono (h : o.Below a) (hn : a ≤ n) : o.Below n := fun x hx => Nat.lt_of_lt_of_le (h x hx) hn

namespace Shows

theorem start (limit : Nat) (b : ByteMem) : Shows limit [] ⟨b, 0, []⟩ :=
  ⟨(Nat.zero_min limit).symm, fun _ h => absurd h (Nat.not_lt_zero _), fun _ h => absurd h List.not_mem_nil⟩

theorem pos_le (h : Shows limit t o) : o.pos ≤ limit := h.pos ▸ Nat.min_le_right _ _

theorem full_iff (h : Shows limit t o) : limit ≤ o.pos ↔ limit ≤ t.length := by
  rw [h.pos]
  omega

/-- 置ける間は、次に書く位置は列の長さである。 -/
theorem pos_of_room (h : Shows limit t o) (hroom : o.pos < limit) : o.pos = t.length := by
  have := h.pos
  omega

theorem push (h : Shows limit t o) (hroom : o.pos < limit) : Shows limit (t ++ [c]) (o.push c) := by
  have hpos := h.pos_of_room hroom
  refine ⟨?_, fun i hi hlim => ?_, below_push.2 ⟨hroom, h.below⟩⟩
  · rw [push_pos, List.length_append, List.length_singleton, hpos]
    omega
  · rw [List.length_append, List.length_singleton] at hi
    rw [push_buf]
    by_cases hlast : i = t.length
    · subst hlast
      rw [hpos, ByteMem.store8_self]
      simp
    · rw [ByteMem.store8_of_ne (by omega), List.getElem_append_left (by omega)]
      exact h.bytes i (by omega) hlim

/-- 上限に達した後の列は、見えない。 -/
theorem full (h : Shows limit (t ++ s) o) (hfull : limit ≤ t.length) (u : List UInt8) : Shows limit (t ++ u) o := by
  refine ⟨?_, fun i hi hlim => ?_, h.below⟩
  · have := h.pos
    rw [List.length_append] at this ⊢
    omega
  · rw [List.getElem_append_left (by omega)]
    have hb := h.bytes i (by rw [List.length_append]; omega) hlim
    rwa [List.getElem_append_left (by omega)] at hb

/-- 上限に達していれば、何も置かなくてよい。 -/
theorem stop (h : Shows limit t o) (hstop : ¬ o.pos < limit) (s : List UInt8) : Shows limit (t ++ s) o :=
  full (s := []) (by rwa [List.append_nil]) (h.full_iff.1 (Nat.not_lt.1 hstop)) s

theorem put (h : Shows limit t o) (c : UInt8) : Shows limit (t ++ [c]) (o.put limit c) := by
  unfold Output.put
  split
  next hroom => exact h.push hroom
  next hstop => exact h.stop hstop [c]

theorem puts (h : Shows limit t o) (s : List UInt8) : Shows limit (t ++ s) (o.puts limit s) := by
  induction s generalizing t o with
  | nil => rwa [List.append_nil]
  | cons c s ih =>
    unfold Output.puts
    split
    next hroom => simpa using ih (h.push (c := c) hroom)
    next hstop => exact h.stop hstop (c :: s)

end Shows

/-- 位置 `a` から `n` 個の位置に書いた。 -/
structure Wrote (o o' : Output) (a n : Nat) : Prop where
  pos : o'.pos = o.pos
  below : ∀ m, o'.Below m ↔ o.Below m ∧ (n = 0 ∨ a + n ≤ m)

namespace Wrote

variable {o₁ o₂ : Output} {k x : Nat}

theorem refl (o : Output) (a : Nat) : Wrote o o a 0 := ⟨rfl, fun _ => by simp⟩

theorem set (h : Wrote o o₁ a n) (c : UInt8) : Wrote o (o₁.set (a + n) c) a (n + 1) :=
  ⟨h.pos, fun m => by
    rw [below_set, h.below]
    constructor
    · rintro ⟨hlt, hbelow, -⟩
      exact ⟨hbelow, .inr hlt⟩
    · rintro ⟨hbelow, hfit⟩
      exact ⟨by omega, hbelow, by omega⟩⟩

/-- 書いた所に、もう一度書く。 -/
theorem again (h : Wrote o o₁ a n) (hx : x < a + n) (hn : n ≠ 0) (c : UInt8) : Wrote o (o₁.set x c) a n :=
  ⟨h.pos, fun m => by
    rw [below_set, h.below]
    constructor
    · exact And.right
    · rintro ⟨hbelow, hfit⟩
      exact ⟨by omega, hbelow, hfit⟩⟩

/-- 前に一つ書いた後の続き。 -/
theorem after_set (h : Wrote (o.set a c) o₁ (a + 1) n) : Wrote o o₁ a (1 + n) :=
  ⟨h.pos, fun m => by
    rw [h.below, below_set]
    constructor
    · rintro ⟨⟨hlt, hbelow⟩, hfit⟩
      exact ⟨hbelow, by omega⟩
    · rintro ⟨hbelow, hfit⟩
      exact ⟨⟨by omega, hbelow⟩, by omega⟩⟩

end Wrote

end Output

end MyOS.Lib
