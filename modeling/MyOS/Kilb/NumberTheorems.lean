import MyOS.Kilb.PrintTheorems
import MyOS.Lib.CString
import MyOS.Lib.Count

/-!
# 数の変換の定理

桁は下から書かれ、幅まで 0 で埋めてから逆順になる。書いた列は値を表すが、`INT_MIN` の符号は反転できず、桁の文字にならない。
-/

namespace MyOS.Kilb
open MyOS.Lib Output ByteMem

/-! ## 数字の列の値 -/

def digit_value (c : UInt8) : Option Nat :=
  if 0x30 ≤ c ∧ c ≤ 0x39 then some (c.toNat - 0x30)
  else if 0x41 ≤ c ∧ c ≤ 0x46 then some (c.toNat - 0x41 + 10)
  else none

/-- 上の桁から読んだ値。 -/
def positional (base : Nat) (s : List UInt8) : Option Nat :=
  s.foldl (fun acc c => do
    let n ← acc
    let d ← digit_value c
    if d < base then some (n * base + d) else none) (some 0)

/-- 空でない数字の列が表す値。 -/
def numeral (base : Nat) (s : List UInt8) : Option Nat := if s = [] then none else positional base s

/-- 幅まで 0 で埋める。幅より長ければ、先頭は 0 ではない。 -/
def Padded (size : Int) (s : List UInt8) : Prop :=
  size ≤ s.length ∧ (size < s.length → s.head? ≠ some ZERO)

/-- 番地 `a` に列 `s` を書いた。 -/
structure Written (m m' : ByteMem) (a : Nat) (s : List UInt8) : Prop where
  bytes : ∀ i (h : i < s.length), m' (a + i) = s[i]
  outside : ∀ x, x < a ∨ a + s.length ≤ x → m' x = m x

def sign (val : Int) : List UInt8 := if val < 0 then [MINUS] else []

/-- `val` を表す数字の列を書き、その長さを返す。 -/
def UintPrinted (val base : Nat) (size : Int) (o : Output) : Prop :=
  ∃ s o', print_uint val base size o = some (s.length, o') ∧ Written o.buf o'.buf o.pos s ∧
    numeral base s = some val ∧ Padded size s

def IntPrinted (val : Int) (base : Nat) (size : Int) (o : Output) : Prop :=
  ∃ s o', print_int val base size o = some ((sign val ++ s).length, o') ∧
    Written o.buf o'.buf o.pos (sign val ++ s) ∧ numeral base s = some val.natAbs ∧ Padded size s

/-! ## 書いた列 -/

/-- `while (val)` のループが書く文字。 -/
def digit_chars (base : Int) : Nat → Int → List UInt8
  | 0, _ => []
  | n + 1, val => if val = 0 then [] else digit (val.tmod base) :: digit_chars base n (val.tdiv base)

/-- 逆順にする前の列。 -/
def number_chars (base val size : Int) : List UInt8 :=
  digit_chars base 33 val ++ List.replicate (size - (digit_chars base 33 val).length).toNat ZERO

variable {base val size : Int} {b start n k cursz len : Nat} {o o' : Output} {m m' : ByteMem} {a : Nat} {s t : List UInt8}

theorem digit_loop_buf (h : digit_loop base start n val cursz o = some (len, o')) :
    len = cursz + (digit_chars base n val).length ∧ o'.buf = o.buf.write (start + cursz) (digit_chars base n val) := by
  induction n generalizing val cursz o with
  | zero => cases h
  | succ n ih =>
    rw [digit_loop] at h
    rw [digit_chars]
    split at h
    next hval =>
      cases h
      rw [if_pos hval]
      exact ⟨rfl, rfl⟩
    next hval =>
      obtain ⟨hlen, hbuf⟩ := ih h
      rw [if_neg hval, List.length_cons]
      refine ⟨by omega, ?_⟩
      rw [hbuf, set_buf, ByteMem.write, Nat.add_assoc]

theorem zero_fill_buf (k : Nat) : (zero_fill start k cursz o).buf = o.buf.write (start + cursz) (List.replicate k ZERO) := by
  induction k generalizing cursz o with
  | zero => rfl
  | succ k ih =>
    rw [zero_fill, ih, set_buf, List.replicate_succ, ByteMem.write, Nat.add_assoc]

theorem swap_buf (o : Output) (i x : Nat) : (swap start n o i).buf x =
    if x = start + n - i - 1 then o.buf (start + i) else if x = start + i then o.buf (start + n - i - 1) else o.buf x := rfl

/-- 前半を後半と入れ替えると、逆順になる。 -/
theorem reverse_buf (o : Output) (start n : Nat) : ∀ x, ((List.range (n / 2)).foldl (swap start n) o).buf x =
    if start ≤ x ∧ x < start + n then o.buf (start + n - (x - start) - 1) else o.buf x := by
  -- `k` 回の後、両端から `k` 個ずつが入れ替わっている
  have h := foldl_range_inv (f := swap start n) (s := o) (P := fun k t => ∀ x, t.buf x =
      if start ≤ x ∧ x < start + n ∧ (x < start + k ∨ start + n ≤ x + k) then o.buf (start + n - (x - start) - 1) else o.buf x)
    (n / 2) (fun x => by rw [if_neg (by omega)]) fun k t hk ht x => by
      rw [swap_buf]
      by_cases h₁ : x = start + n - k - 1
      · rw [if_pos h₁, if_pos (by omega), ht, if_neg (by omega)]
        congr 1
        omega
      · rw [if_neg h₁]
        by_cases h₂ : x = start + k
        · rw [if_pos h₂, if_pos (by omega), ht, if_neg (by omega)]
          congr 1
          omega
        · rw [if_neg h₂, ht]
          congr 1
          exact propext (by omega)
  intro x
  rw [h x]
  by_cases hx : start ≤ x ∧ x < start + n
  · rw [if_pos hx]
    split
    · rfl
    · congr 1
      omega
  · rw [if_neg hx, if_neg (by omega)]

theorem written_reverse (h : Written m m' a s) {m'' : ByteMem}
    (hrev : ∀ x, m'' x = if a ≤ x ∧ x < a + s.length then m' (a + s.length - (x - a) - 1) else m' x) :
    Written m m'' a s.reverse := by
  refine ⟨fun i hi => ?_, fun x hx => ?_⟩
  · rw [List.length_reverse] at hi
    rw [hrev, if_pos (by omega), List.getElem_reverse, ← h.bytes (s.length - 1 - i) (by omega)]
    congr 1
    omega
  · rw [List.length_reverse] at hx
    rw [hrev, if_neg (by omega)]
    exact h.outside x hx

theorem written_write (m : ByteMem) (a : Nat) (s : List UInt8) : Written m (m.write a s) a s :=
  ⟨fun _ hi => write_at hi, fun _ hx => write_outside hx⟩

theorem print_digits_written (h : print_digits start val base size o = some (len, o')) :
    len = (number_chars base val size).length ∧ Written o.buf o'.buf start (number_chars base val size).reverse := by
  obtain ⟨⟨k, o₁⟩, hloop, h⟩ := Option.bind_eq_some_iff.1 h
  obtain ⟨hk, hbuf⟩ := digit_loop_buf hloop
  rw [Nat.zero_add] at hk
  rw [Nat.add_zero] at hbuf
  cases h
  have hlen : (number_chars base val size).length = k + (size - k).toNat := by
    rw [number_chars, List.length_append, List.length_replicate, hk]
  have hwrite : Written o.buf (zero_fill start (size - k).toNat k o₁).buf start (number_chars base val size) := by
    rw [zero_fill_buf, hbuf, hk, ← write_append]
    exact written_write _ _ _
  exact ⟨hlen.symm, written_reverse hwrite fun x => by rw [reverse_buf, hlen]⟩

/-! ## 列の値 -/

/-- 下の桁から見た `positional` の一桁。 -/
def place (base : Nat) (c : UInt8) (acc : Option Nat) : Option Nat := do
  let n ← acc
  let d ← digit_value c
  if d < base then some (n * base + d) else none

theorem positional_reverse (base : Nat) (t : List UInt8) : positional base t.reverse = t.foldr (place base) (some 0) :=
  List.foldl_reverse

theorem digit_value_digit {d : Nat} (hd : d < 16) : digit_value (digit d) = some d := by
  have hall : ∀ d < 16, digit_value (digit (d : Nat)) = some d := by decide
  exact hall d hd

theorem place_digits {ds : List Nat} (hb : b ≤ 16) (hds : ∀ d ∈ ds, d < b) (k : Nat) (hpos : 0 < b) :
    (ds.map (fun d : Nat => digit d) ++ List.replicate k ZERO).foldr (place b) (some 0) = some (Nat.ofDigits b ds) := by
  induction ds with
  | nil =>
    induction k with
    | zero => rfl
    | succ k ih =>
      rw [List.map_nil, List.nil_append] at ih ⊢
      rw [List.replicate_succ, List.foldr_cons, ih]
      simp [place, digit_value, ZERO, hpos]
  | cons d ds ih =>
    have hd := hds d List.mem_cons_self
    rw [List.map_cons, List.cons_append, List.foldr_cons, ih fun e he => hds e (List.mem_cons_of_mem d he), place,
      digit_value_digit (by omega)]
    simp only [Option.bind_eq_bind, Option.bind_some, if_pos hd, Nat.ofDigits_cons, Option.some.injEq]
    rw [Nat.mul_comm, Nat.add_comm]

/-- 桁の文字でないものがあれば、値はない。 -/
theorem place_none {c : UInt8} (hmem : c ∈ t) (hc : digit_value c = none) (acc : Option Nat) :
    t.foldr (place b) acc = none := by
  induction t with
  | nil => cases hmem
  | cons e t ih =>
    rw [List.foldr_cons]
    rcases List.mem_cons.1 hmem with rfl | hmem
    · cases h : t.foldr (place b) acc with
      | none => rfl
      | some n => simp [place, hc]
    · rw [ih hmem]
      rfl

theorem digit_chars_natCast (hb : 1 < b) {v : Nat} (hn : (Nat.digits b v).length < n) :
    digit_chars b n v = (Nat.digits b v).map (fun d : Nat => digit d) := by
  induction n generalizing v with
  | zero => exact absurd hn (Nat.not_lt_zero _)
  | succ n ih =>
    rw [digit_chars]
    by_cases hv : v = 0
    · subst hv
      simp
    · rw [Nat.digits_def' hb (Nat.pos_of_ne_zero hv), List.length_cons] at hn
      rw [if_neg (by exact_mod_cast hv), Nat.digits_def' hb (Nat.pos_of_ne_zero hv), List.map_cons, ← Int.ofNat_tdiv,
        ← Int.ofNat_tmod, ih (Nat.lt_of_succ_lt_succ hn)]

variable {v : Nat}

theorem number_chars_natCast (hb : 1 < b) (hv : v < 2 ^ 32) : number_chars b v size =
    (Nat.digits b v).map (fun d : Nat => digit d) ++ List.replicate (size - (Nat.digits b v).length).toNat ZERO := by
  have hlen : (Nat.digits b v).length < 33 := by
    rw [Nat.lt_succ_iff, Nat.digits_length_le_iff hb]
    exact Nat.lt_of_lt_of_le hv (Nat.pow_le_pow_left hb 32)
  rw [number_chars, digit_chars_natCast hb hlen, List.length_map]

/-- 0 以上の値は、桁の列で表される。 -/
theorem numeral_number_chars (hb : 1 < b) (hb' : b ≤ 16) (hv : v < 2 ^ 32) :
    numeral b (number_chars b v size).reverse = some v ↔ v ≠ 0 ∨ 0 < size := by
  have hvalue : positional b (number_chars b v size).reverse = some v := by
    rw [positional_reverse, number_chars_natCast hb hv,
      place_digits hb' (fun d hd => Nat.digits_lt_base hb hd) _ (by omega), Nat.ofDigits_digits]
  have hnil : (number_chars b v size).reverse = [] ↔ v = 0 ∧ size ≤ 0 := by
    rw [List.reverse_eq_nil_iff, number_chars_natCast hb hv, List.append_eq_nil_iff, List.map_eq_nil_iff,
      List.replicate_eq_nil_iff, Nat.digits_eq_nil_iff_eq_zero]
    refine and_congr_right fun h0 => ?_
    subst h0
    rw [Nat.digits_zero, List.length_nil]
    omega
  unfold numeral
  by_cases hempty : (number_chars b v size).reverse = []
  · rw [if_pos hempty]
    have := hnil.1 hempty
    exact iff_of_false (by simp) (by omega)
  · rw [if_neg hempty]
    have := mt hnil.2 hempty
    exact iff_of_true hvalue (by omega)

theorem padded_number_chars (hb : 1 < b) (hb' : b ≤ 16) (hv : v < 2 ^ 32) : Padded size (number_chars b v size).reverse := by
  rw [number_chars_natCast hb hv]
  have hlen : ((Nat.digits b v).map (fun d : Nat => digit d) ++
      List.replicate (size - (Nat.digits b v).length).toNat ZERO).reverse.length =
      (Nat.digits b v).length + (size - (Nat.digits b v).length).toNat := by
    rw [List.length_reverse, List.length_append, List.length_map, List.length_replicate]
  refine ⟨by omega, fun hlt => ?_⟩
  have hfit : (size - (Nat.digits b v).length).toNat = 0 := by omega
  rw [hfit, List.replicate_zero, List.append_nil, List.head?_reverse, List.getLast?_map]
  by_cases hv0 : v = 0
  · subst hv0
    simp
  · have hne : Nat.digits b v ≠ [] := Nat.digits_ne_nil_iff_ne_zero.2 hv0
    rw [List.getLast?_eq_some_getLast hne, Option.map_some]
    intro heq
    -- 一番上の桁は 0 ではない
    refine Nat.getLast_digit_ne_zero b hv0 ?_
    have hd : (Nat.digits b v).getLast hne < b := Nat.digits_lt_base hb (List.getLast_mem hne)
    have hzero := digit_value_digit (Nat.lt_of_lt_of_le hd hb')
    rw [Option.some.inj heq] at hzero
    exact (Option.some.inj hzero).symm

/-! ## 数の変換 -/

theorem Written.unique (h : Written m m' a s) (h' : Written m m' a t) (hlen : s.length = t.length) : s = t :=
  List.ext_getElem hlen fun i hi hi' => (h.bytes i hi).symm.trans (h'.bytes i hi')

/-- 前の一文字と合わせる。 -/
theorem Written.cons {c : UInt8} (h : Written (m.store8 a c) m' (a + 1) s) : Written m m' a (c :: s) := by
  refine ⟨fun i hi => ?_, fun x hx => ?_⟩
  · cases i with
    | zero => exact (h.outside a (.inl (Nat.lt_succ_self a))).trans store8_self
    | succ i =>
      have hi' := h.bytes i (Nat.lt_of_succ_lt_succ hi)
      rwa [Nat.add_right_comm] at hi'
  · rw [List.length_cons] at hx
    rw [h.outside x (by omega), store8_of_ne (by omega)]

theorem print_digits_result (hb : 1 < b) (hval : val.natAbs < 2 ^ 32) (size : Int) (o : Output) (start : Nat) :
    ∃ o', print_digits start val b size o = some ((number_chars b val size).reverse.length, o') ∧
      Written o.buf o'.buf start (number_chars b val size).reverse := by
  obtain ⟨o', ho', -⟩ := print_digits_wrote (show 1 < (b : Int).natAbs by simpa using hb) hval size o start
  obtain ⟨hlen, hw⟩ := print_digits_written ho'
  exact ⟨o', by rw [ho', hlen, List.length_reverse], hw⟩

/-- 符号の後に書く値。`val *= -1` は 32 ビットで計算する。 -/
def magnitude (val : Int) : Int := if val < 0 then (val * -1).bmod (2 ^ 32) else val

theorem magnitude_eq (hmin : -2 ^ 31 < val) (hmax : val < 2 ^ 31) : magnitude val = val.natAbs := by
  unfold magnitude
  split
  · rw [Int.bmod_eq_of_le (by omega) (by omega)]
    omega
  · omega

theorem print_int_result (hb : 1 < b) (hmin : -2 ^ 31 ≤ val) (hmax : val < 2 ^ 31) (size : Int) (o : Output) :
    ∃ o', print_int val b size o = some ((sign val ++ (number_chars b (magnitude val) size).reverse).length, o') ∧
      Written o.buf o'.buf o.pos (sign val ++ (number_chars b (magnitude val) size).reverse) := by
  have hlt : (magnitude val).natAbs < 2 ^ 32 := by
    by_cases heq : val = -2 ^ 31
    · subst heq
      decide
    · rw [magnitude_eq (by omega) hmax]
      omega
  unfold print_int sign
  by_cases hneg : val < 0
  · rw [magnitude, if_pos hneg] at hlt ⊢
    rw [if_pos hneg, if_pos hneg]
    obtain ⟨o', ho', hw⟩ := print_digits_result hb hlt size (o.set o.pos MINUS) (o.pos + 1)
    rw [ho']
    refine ⟨o', ?_, hw.cons⟩
    simp [Nat.add_comm]
  · rw [magnitude, if_neg hneg] at hlt ⊢
    rw [if_neg hneg, if_neg hneg]
    exact print_digits_result hb hlt size o o.pos

/-- 書いた列は一つに決まる。 -/
theorem printed_iff {r : Option (Nat × Output)} {pre s : List UInt8} {P : List UInt8 → Prop}
    (h : ∃ o', r = some ((pre ++ s).length, o') ∧ Written m o'.buf a (pre ++ s)) :
    (∃ t o', r = some ((pre ++ t).length, o') ∧ Written m o'.buf a (pre ++ t) ∧ P t) ↔ P s := by
  obtain ⟨o', hr, hw⟩ := h
  constructor
  · rintro ⟨t, o₁, hr', hw', hp⟩
    obtain ⟨hlen, rfl⟩ := Prod.mk.inj (Option.some.inj (hr.symm.trans hr'))
    rwa [List.append_cancel_left (hw.unique hw' hlen)]
  · exact fun hp => ⟨s, o', hr, hw, hp⟩

/-- 値を表すのは、桁を書くときである。 -/
theorem uint_printed_iff (hb : 1 < b) (hb' : b ≤ 16) (hv : v < 2 ^ 32) (size : Int) (o : Output) :
    UintPrinted v b size o ↔ v ≠ 0 ∨ 0 < size := by
  have hprint := print_digits_result hb (show (v : Int).natAbs < 2 ^ 32 by simpa using hv) size o o.pos
  refine (@printed_iff _ _ _ [] (number_chars b v size).reverse (fun s => numeral b s = some v ∧ Padded size s) hprint).trans ?_
  rw [numeral_number_chars hb hb' hv]
  exact and_iff_left (padded_number_chars hb hb' hv)

theorem int_printed_iff (hb : 1 < b) (hb' : b ≤ 16) (hmin : -2 ^ 31 < val) (hmax : val < 2 ^ 31) (size : Int) (o : Output) :
    IntPrinted val b size o ↔ val ≠ 0 ∨ 0 < size := by
  have hprint := print_int_result hb (by omega) hmax size o
  have hv : val.natAbs < 2 ^ 32 := by omega
  rw [magnitude_eq hmin hmax] at hprint
  refine (printed_iff (P := fun s => numeral b s = some val.natAbs ∧ Padded size s) hprint).trans ?_
  rw [numeral_number_chars hb hb' hv, and_iff_left (padded_number_chars hb hb' hv), Int.natAbs_ne_zero]

/-- `INT_MIN` は負のままなので、`(` のような桁でない文字を書く。 -/
theorem int_min_not_printed (hb : b = 10 ∨ b = 16) (size : Int) (o : Output) : ¬ IntPrinted (-2 ^ 31) b size o := by
  have hprint := print_int_result (show 1 < b by omega) (show -2 ^ 31 ≤ (-2 ^ 31 : Int) by decide) (by decide) size o
  intro h
  obtain ⟨hvalue, -⟩ := (printed_iff (P := fun s => numeral b s = some (-2 ^ 31 : Int).natAbs ∧ Padded size s) hprint).1 h
  have hchar : (0x28 : UInt8) ∈ digit_chars b 33 (magnitude (-2 ^ 31)) := by
    rcases hb with rfl | rfl <;> decide
  have hnone : positional b (number_chars b (magnitude (-2 ^ 31)) size).reverse = none := by
    rw [positional_reverse]
    exact place_none (List.mem_append_left _ hchar) (by decide) _
  unfold numeral at hvalue
  split at hvalue
  · cases hvalue
  · cases hnone.symm.trans hvalue

/-- 符号のない値と符号のある値の変換が、ともに正しい。 -/
def NumberPrinted (w : BitVec 32) (base : Nat) (size : Int) (o : Output) : Prop :=
  UintPrinted w.toNat base size o ∧ IntPrinted w.toInt base size o

/-- 値が表されるのは、`INT_MIN` でなく、幅が 0 以下の 0 でもないときに限る。 -/
theorem number_printed_iff (w : BitVec 32) (base : Nat) (size : Int) (o : Output) (hb : base = 10 ∨ base = 16) :
    NumberPrinted w base size o ↔ w ≠ BitVec.intMin 32 ∧ (w ≠ 0#32 ∨ 0 < size) := by
  have hint : w.toInt < 2 ^ 31 := by
    have := BitVec.toInt_lt (x := w)
    omega
  have hnat : w.toNat ≠ 0 ↔ w ≠ 0#32 := not_congr (BitVec.toNat_inj (y := 0#32))
  have hzero : w.toInt ≠ 0 ↔ w ≠ 0#32 := not_congr (BitVec.toInt_inj (y := 0#32))
  have hb1 : 1 < base := by omega
  have hb16 : base ≤ 16 := by omega
  unfold NumberPrinted
  by_cases hmin : w = BitVec.intMin 32
  · subst hmin
    refine iff_of_false (fun h => int_min_not_printed hb size o h.2) fun h => h.1 rfl
  · have hlow : -2 ^ 31 < w.toInt := by
      have hle := BitVec.le_toInt w
      have hne : w.toInt ≠ -2 ^ 31 := fun h => hmin (BitVec.toInt_inj.1 (h.trans (by decide)))
      omega
    rw [uint_printed_iff hb1 hb16 w.isLt, int_printed_iff hb1 hb16 hlow hint, hnat, hzero]
    exact ⟨fun h => ⟨hmin, h.2⟩, fun h => ⟨h.2, h.2⟩⟩

theorem number_printed_255 : NumberPrinted 255#32 16 8 ⟨fun _ => 0, 0, []⟩ :=
  (number_printed_iff 255#32 16 8 ⟨fun _ => 0, 0, []⟩ (.inr rfl)).2 ⟨by decide, .inr (by decide)⟩

/-- `INT_MIN` は `-./,),(-*,(` になり、幅 0 の 0 は何も書かない。 -/
theorem number_misprinted : ¬ NumberPrinted (BitVec.intMin 32) 10 1 ⟨fun _ => 0, 0, []⟩ ∧
    ((print_int (-2 ^ 31) 10 1 ⟨fun _ => 0, 0, []⟩).map fun r => (r.1, (List.range r.1).map r.2.buf)) =
      some (11, [0x2D, 0x2E, 0x2F, 0x2C, 0x29, 0x2C, 0x28, 0x2D, 0x2A, 0x2C, 0x28]) ∧
    ¬ NumberPrinted 0#32 10 0 ⟨fun _ => 0, 0, []⟩ := by
  refine ⟨fun h => ?_, by decide +kernel, fun h => ?_⟩
  · exact int_min_not_printed (.inl rfl) 1 _ h.2
  · exact absurd ((uint_printed_iff (by decide) (by decide) (by decide) 0 _).1 h.1) (by decide)

end MyOS.Kilb
