import MyOS.Libc.PrintTheorems

/-!
# `atoi`（libc の stdlib.c）

`%d` で書いた数を読み戻す。
-/

namespace MyOS.Libc
open MyOS.Lib

def PLUS : UInt8 := 0x2B

/-- `result = result * 10 + (*s++ - '0')` の繰り返し。`none` は `int` のあふれを表す。 -/
def atoi_loop : Nat → List UInt8 → Option Nat
  | result, [] => some result
  | result, c :: s =>
    if is_digit c then
      let result := result * 10 + (c.toNat - 0x30)
      if result < 2 ^ 31 then atoi_loop result s else none
    else some result

def atoi (s : List UInt8) : Option Int :=
  match s.dropWhile fun c => c == 0x20 || c == 0x09 with
  | [] => some 0
  | c :: s =>
    if c = MINUS then (atoi_loop 0 s).map fun n => -(n : Int)
    else if c = PLUS then (atoi_loop 0 s).map fun n => (n : Int)
    else (atoi_loop 0 (c :: s)).map fun n => (n : Int)

variable {s t rest : List UInt8} {n v width limit : Nat}

/-- 数字の列の値。 -/
def read_digits (n : Nat) (s : List UInt8) : Nat := s.foldl (fun n c => n * 10 + (c.toNat - 0x30)) n

theorem read_digits_cons (n : Nat) (c : UInt8) (s : List UInt8) : read_digits n (c :: s) = read_digits (n * 10 + (c.toNat - 0x30)) s :=
  List.foldl_cons ..

theorem le_read_digits (n : Nat) (s : List UInt8) : n ≤ read_digits n s := by
  induction s generalizing n with
  | nil => exact Nat.le_refl n
  | cons c s ih =>
    have hle := ih (n * 10 + (c.toNat - 0x30))
    rw [read_digits_cons]
    omega

/-- 数字の列の後で止まり、途中ではあふれない。 -/
theorem atoi_loop_eq (hs : ∀ c ∈ s, is_digit c = true) (hrest : ∀ c ∈ rest.head?, is_digit c = false) (hlt : read_digits n s < 2 ^ 31) :
    atoi_loop n (s ++ rest) = some (read_digits n s) := by
  induction s generalizing n with
  | nil =>
    cases rest with
    | nil => rfl
    | cons c rest =>
      have hc : ¬ is_digit c = true := Bool.eq_false_iff.mp (hrest c rfl)
      rw [List.nil_append, atoi_loop, if_neg hc]
      rfl
  | cons c s ih =>
    obtain ⟨hc, hs⟩ := List.forall_mem_cons.mp hs
    rw [read_digits_cons] at hlt ⊢
    have hle := le_read_digits (n * 10 + (c.toNat - 0x30)) s
    rw [List.cons_append, atoi_loop, if_pos hc]
    dsimp only
    rw [if_pos (Nat.lt_of_le_of_lt hle hlt), ih hs hlt]

theorem read_numeral (width v : Nat) : read_digits 0 (numeral 10 width v) = v ∧ ∀ c ∈ numeral 10 width v, is_digit c = true := by
  have hdigit : ∀ d < 10, is_digit (digit d) = true := by decide
  have hall : ∀ c ∈ numeral 10 width v, is_digit c = true := by
    intro c hc
    rcases List.mem_append.mp hc with hc | hc
    · rw [List.eq_of_mem_replicate hc]
      rfl
    · unfold plain_numeral at hc
      split at hc
      · rw [List.mem_singleton.mp hc]
        rfl
      · obtain ⟨d, hd, rfl⟩ := List.mem_map.mp hc
        exact hdigit d (Nat.digits_lt_base (by decide) (List.mem_reverse.mp hd))
  refine ⟨?_, hall⟩
  have hvalue : ∀ s : List UInt8, (∀ c ∈ s, is_digit c = true) → read_digits 0 s = Nat.ofDigits 10 (s.reverse.map digit_value) := by
    intro s
    induction s using List.reverseRecOn with
    | nil => exact fun _ => rfl
    | append_singleton s c ih =>
      intro hs
      have hc : digit_value c = c.toNat - 0x30 := if_pos (hs c (by simp))
      have hih := ih fun c hc => hs c (List.mem_append_left _ hc)
      unfold read_digits at hih ⊢
      rw [List.foldl_append, hih, List.foldl_cons, List.foldl_nil, List.reverse_append, List.reverse_singleton, List.singleton_append,
        List.map_cons, Nat.ofDigits_cons, hc]
      omega
  rw [hvalue _ hall, (numeral_isNumeral (by decide) (by decide) width v).value]

theorem numeral_ne_nil (width v : Nat) : numeral 10 width v ≠ [] := by
  intro h
  have hlen : (numeral 10 width v).length = _ := (numeral_isNumeral (by decide) (by decide) width v).length
  rw [h, List.length_nil] at hlen
  omega

theorem atoi_digits (hs : ∀ c ∈ s, is_digit c = true) (hne : s ≠ []) : atoi (s ++ rest) = (atoi_loop 0 (s ++ rest)).map fun n => (n : Int) := by
  cases s with
  | nil => exact absurd rfl hne
  | cons c s =>
    have hc := hs c List.mem_cons_self
    have hother : ∀ x : UInt8, is_digit x = false → c ≠ x := by
      rintro x hx rfl
      rw [hx] at hc
      cases hc
    have hblank : (c == 0x20 || c == 0x09) = false := by simp [hother 0x20 (by decide), hother 0x09 (by decide)]
    unfold atoi
    rw [List.cons_append, List.dropWhile_cons_of_neg (by simp [hblank])]
    dsimp only
    rw [if_neg (hother MINUS (by decide)), if_neg (hother PLUS (by decide))]

theorem atoi_minus (s : List UInt8) : atoi (MINUS :: s) = (atoi_loop 0 s).map fun n => -(n : Int) := by
  unfold atoi
  rw [List.dropWhile_cons_of_neg (by decide)]
  rfl

/-- 書いた数の後に数字が続かなければ、元の値を読む。 -/
theorem atoi_signed (hv : v < 2 ^ 32) (hmin : v ≠ 2 ^ 31) (hrest : ∀ c ∈ rest.head?, is_digit c = false) :
    atoi (signed width v ++ rest) = some (BitVec.ofNat 32 v).toInt := by
  have hint : (BitVec.ofNat 32 v).toInt = if v < 2 ^ 31 then (v : Int) else -((2 ^ 32 - v : Nat) : Int) := by
    rw [BitVec.toInt_eq_toNat_bmod, BitVec.toNat_ofNat, Int.bmod_def]
    omega
  rw [hint, signed]
  by_cases hpos : v < 2 ^ 31
  · obtain ⟨hvalue, hdigits⟩ := read_numeral width v
    have hlt : read_digits 0 (numeral 10 width v) < 2 ^ 31 := by rwa [hvalue]
    rw [if_pos hpos, if_pos hpos, atoi_digits hdigits (numeral_ne_nil width v), atoi_loop_eq hdigits hrest hlt, hvalue]
    rfl
  · obtain ⟨hvalue, hdigits⟩ := read_numeral width (2 ^ 32 - v)
    have hlt : read_digits 0 (numeral 10 width (2 ^ 32 - v)) < 2 ^ 31 := by
      rw [hvalue]
      omega
    rw [if_neg hpos, if_neg hpos, List.cons_append, atoi_minus, atoi_loop_eq hdigits hrest hlt, hvalue]
    rfl

/-- `%d` で、どの幅でも、`int` の最小の値を除いて、書いた数を `atoi` が読み戻す。 -/
theorem atoi_reads_printed (buf : ByteMem) (hv : v < 2 ^ 32) (hmin : v ≠ 2 ^ 31) (hroom : (signed width v).length ≤ limit)
    (hrest : ∀ c ∈ rest.head?, is_digit c = false) : ∃ o, print_int_val limit v 10 width ⟨buf, 0, []⟩ = .ok o ∧ o.Below limit ∧
      atoi ((List.range o.pos).map o.buf ++ rest) = some (BitVec.ofNat 32 v).toInt := by
  obtain ⟨o, ho, hshow⟩ := print_int_val_shows (w := width) (Output.Shows.start limit buf) hv
  rw [List.nil_append] at hshow
  have htext : (List.range o.pos).map o.buf = signed width v := by
    have hpos : o.pos = (signed width v).length := by
      rw [hshow.pos]
      omega
    refine List.ext_getElem (by simpa using hpos) fun k hk hk' => ?_
    rw [List.getElem_map, List.getElem_range]
    exact hshow.bytes k hk' (by omega)
  refine ⟨o, ho, hshow.below, ?_⟩
  rw [htext]
  exact atoi_signed hv hmin hrest

/-- 幅 4 の -25 と、続く空白。 -/
theorem atoi_reads_printed_minus : ∃ o, print_int_val 11 (2 ^ 32 - 25) 10 (4 : Nat) ⟨fun _ => 0, 0, []⟩ = .ok o ∧
    atoi ((List.range o.pos).map o.buf ++ [0x20]) = some (-25) := by
  obtain ⟨o, ho, -, hread⟩ := atoi_reads_printed (v := 2 ^ 32 - 25) (fun _ => 0) (by decide) (by decide)
    (by decide : (signed 4 (2 ^ 32 - 25)).length ≤ 11) fun c (hc : c ∈ [0x20].head?) => by cases hc; rfl
  exact ⟨o, ho, hread⟩

end MyOS.Libc
