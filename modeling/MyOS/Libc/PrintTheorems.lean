import MyOS.Libc.Print
import Mathlib.Data.Nat.Digits.Lemmas

/-!
# 書式付きの出力は、上限のない文字列の先頭の部分である

`%c` は、バッファに空きがないとき引数を読まない。その後の変換は一つ前の引数を読む。もう何も書かないので文字列は
変わらないが、`%s` は文字列でない番地を一度読む。
-/

namespace MyOS.Libc
open MyOS.Lib

variable {mem : Nat → Option UInt8} {args : Nat → Nat} {strs : Nat → List UInt8} {limit : Nat}

/-- 読めるメモリの番地 `a` に文字列 `s` がある。 -/
structure Str (mem : Nat → Option UInt8) (a : Nat) (s : List UInt8) : Prop where
  bytes : ∀ i (h : i < s.length), mem (a + i) = some s[i]
  nul : mem (a + s.length) = some 0
  nonzero : 0 ∉ s

/-- `pre` に続く部分 `its` の、どの部分についても `P` が成り立つ。`P` は前の部分にもよる。 -/
def Along (P : List Item → Item → Prop) (pre its : List Item) : Prop := ∀ mid it post, its = mid ++ it :: post → P (pre ++ mid) it

/-- `pre` の後の引数は `it` に合う。`%s` の引数は、`NULL` か文字列の番地である。 -/
def Matched (mem : Nat → Option UInt8) (args : Nat → Nat) (strs : Nat → List UInt8) (pre : List Item) (it : Item) : Prop :=
  it.Is .str → args (taken pre) = 0 ∨ Str mem (args (taken pre)) (strs (taken pre))

/-- 文字列が `limit` に達した後の `%c` の数。`len` は、それまでの文字列の長さである。 -/
def skipped (limit : Nat) (args : Nat → Nat) (strs : Nat → List UInt8) : Nat → Nat → List Item → Nat
  | _, _, [] => 0
  | k, len, it :: its =>
    (if it.Is .chr ∧ limit ≤ len then 1 else 0) +
      skipped limit args strs (k + it.takes) (len + (it.text (args k) (strs k)).length) its

/-- `pre` の後の `%s` が、引数を読み落としたために読む番地を、読んでもよい。 -/
def Readable (mem : Nat → Option UInt8) (args : Nat → Nat) (strs : Nat → List UInt8) (limit : Nat) (pre : List Item) (it : Item) :
    Prop :=
  it.Is .str → skipped limit args strs 0 0 pre ≠ 0 →
    args (taken pre - skipped limit args strs 0 0 pre) = 0 ∨ (mem (args (taken pre - skipped limit args strs 0 0 pre))).isSome

/-- 数字の値。 -/
def digit_value (c : UInt8) : Nat := if is_digit c then c.toNat - 0x30 else c.toNat - 0x41 + 10

/-- `s` は `v` を表す数字の列で、幅まで 0 で埋めてある。 -/
structure IsNumeral (base width v : Nat) (s : List UInt8) : Prop where
  digits : ∀ c ∈ s, digit_value c < base
  value : Nat.ofDigits base (s.reverse.map digit_value) = v
  length : s.length = max width (max 1 (Nat.digits base v).length)

/-- 数の変換の文字列 `s` は、引数の語 `v` の値を表す。 -/
def Denotes (v : Nat) (s : List UInt8) : Item → Prop
  | .plain _ => True
  | .conv width c =>
    match conv c with
    | .dec => if v < 2 ^ 31 then IsNumeral 10 width v s else ∃ t, s = MINUS :: t ∧ IsNumeral 10 width (2 ^ 32 - v) t
    | .uns => IsNumeral 10 width v s
    | .hex => IsNumeral 16 width v s
    | .oct => IsNumeral 8 width v s
    | _ => True

/-- `vsnprintf` は戻り、文字列 `t` の先頭を書く。書くのはバッファの中だけで、返す位置に NUL がある。 -/
def Prints (bufsize : Nat) (t : List UInt8) (r : Except Halt (Output × Nat)) : Prop :=
  ∃ o ret, r = .ok (o, ret) ∧ o.Below bufsize ∧ o.buf ret = 0 ∧ (List.range ret).map o.buf = t.take (bufsize - 1)

/-! ## 数字の列 -/

theorem digit_loop_eq {base : Nat} (hb : 1 < base) {room val : Nat} (hroom : (Nat.digits base val).length ≤ room) (tmp : List UInt8) :
    digit_loop base room val tmp = .ok (tmp ++ (Nat.digits base val).map digit) := by
  induction room generalizing val tmp with
  | zero =>
    have hval : val = 0 := Nat.digits_eq_nil_iff_eq_zero.1 (List.length_eq_zero_iff.1 (Nat.le_zero.1 hroom))
    subst hval
    simp [digit_loop]
  | succ room ih =>
    rw [digit_loop]
    split
    next hval => simp [hval]
    next hval =>
      rw [Nat.digits_def' hb (Nat.pos_of_ne_zero hval)] at hroom ⊢
      rw [ih (Nat.le_of_succ_le_succ hroom)]
      simp

theorem digit_value_digit {d : Nat} (hd : d < 16) : digit_value (digit d) = d := by
  revert d
  decide

theorem plain_numeral_values {base v : Nat} (hb : 1 < base) (hb' : base ≤ 16) :
    (plain_numeral base v).reverse.map digit_value = if v = 0 then [0] else Nat.digits base v := by
  unfold plain_numeral
  split
  next => rfl
  next =>
    rw [← List.map_reverse, List.reverse_reverse, List.map_map]
    conv_rhs => rw [← List.map_id (Nat.digits base v)]
    exact List.map_congr_left fun d hd => digit_value_digit (Nat.lt_of_lt_of_le (Nat.digits_lt_base hb hd) hb')

theorem plain_numeral_length (base v : Nat) : (plain_numeral base v).length = max 1 (Nat.digits base v).length := by
  unfold plain_numeral
  split
  next hv => simp [hv]
  next hv =>
    have : (Nat.digits base v).length ≠ 0 := fun h => hv (Nat.digits_eq_nil_iff_eq_zero.1 (List.length_eq_zero_iff.1 h))
    rw [List.length_map, List.length_reverse]
    omega

/-- 上限のない文字列の数字の列は、値を表す。 -/
theorem numeral_isNumeral {base : Nat} (hb : 1 < base) (hb' : base ≤ 16) (width v : Nat) :
    IsNumeral base width v (numeral base width v) := by
  have hvalues := plain_numeral_values (v := v) hb hb'
  have hzeros : ∀ n, (List.replicate n ZERO).map digit_value = List.replicate n 0 := fun n => List.map_replicate
  refine ⟨fun c hc => ?_, ?_, ?_⟩
  · rcases List.mem_append.1 hc with hc | hc
    · rw [List.eq_of_mem_replicate hc]
      exact Nat.lt_trans Nat.zero_lt_one hb
    · have hmem : digit_value c ∈ (plain_numeral base v).reverse.map digit_value := List.mem_map_of_mem (List.mem_reverse.2 hc)
      rw [hvalues] at hmem
      split at hmem
      next =>
        rw [List.mem_singleton.1 hmem]
        exact Nat.lt_trans Nat.zero_lt_one hb
      next => exact Nat.digits_lt_base hb hmem
  · rw [numeral, List.reverse_append, List.map_append, hvalues, List.reverse_replicate, hzeros,
      Nat.ofDigits_append_replicate_zero]
    split
    next hv => simp [hv]
    next => exact Nat.ofDigits_digits base v
  · rw [numeral, List.length_append, List.length_replicate, plain_numeral_length]
    omega

theorem text_denotes (v : Nat) (t : List UInt8) (it : Item) : Denotes v (it.text v t) it := by
  cases it with
  | plain c => trivial
  | conv width c =>
    cases hk : conv c with
    | dec =>
      simp only [Denotes, Item.text, hk, signed]
      split
      next => exact numeral_isNumeral (by decide) (by decide) width v
      next => exact ⟨_, rfl, numeral_isNumeral (by decide) (by decide) width _⟩
    | uns | hex | oct =>
      simp only [Denotes, Item.text, hk]
      exact numeral_isNumeral (by decide) (by decide) width v
    | percent | str | chr | ptr | other => simp only [Denotes, hk]

theorem zero_loop_eq (n : Nat) (o : Output) : zero_loop limit n o = o.puts limit (List.replicate n ZERO) := by
  induction n generalizing o with
  | zero => rfl
  | succ n ih => simp [zero_loop, Output.puts, List.replicate_succ, ih]

variable {t : List UInt8} {o : Output} {base v w : Nat}

/-- 数字の列が `tmp` に収まる。 -/
theorem digits_length_le (hb : 8 ≤ base) (hv : v < 2 ^ 32) : (Nat.digits base v).length ≤ 12 := by
  rw [Nat.digits_length_le_iff (by omega)]
  calc v < 8 ^ 12 := by omega
    _ ≤ base ^ 12 := Nat.pow_le_pow_left hb 12

theorem tmp_digits_eq (hb : 8 ≤ base) (hv : v < 2 ^ 32) : tmp_digits base v = .ok (plain_numeral base v).reverse := by
  unfold tmp_digits plain_numeral
  split
  next => rfl
  next => rw [digit_loop_eq (by omega) (digits_length_le hb hv), List.map_reverse, List.reverse_reverse, List.nil_append]

theorem print_uint_shows (h : o.Shows limit t) (hb : 8 ≤ base) (hv : v < 2 ^ 32) :
    ∃ o', print_uint limit v base w o = .ok o' ∧ o'.Shows limit (t ++ numeral base w v) := by
  have hzeros : ((w : Int) - (plain_numeral base v).reverse.length).toNat = w - (plain_numeral base v).length := by
    rw [List.length_reverse]
    omega
  refine ⟨_, by rw [print_uint, tmp_digits_eq hb hv]; rfl, ?_⟩
  rw [hzeros, zero_loop_eq, List.reverse_reverse]
  have := (h.puts (List.replicate (w - (plain_numeral base v).length) ZERO)).puts (plain_numeral base v)
  rwa [List.append_assoc] at this

theorem print_int_val_shows (h : o.Shows limit t) (hv : v < 2 ^ 32) :
    ∃ o', print_int_val limit v 10 w o = .ok o' ∧ o'.Shows limit (t ++ signed w v) := by
  unfold print_int_val signed
  by_cases hneg : v < 2 ^ 31
  · rw [if_neg (by omega), if_pos hneg]
    exact print_uint_shows h (by decide) hv
  · rw [if_neg hneg]
    split
    next hput =>
      have hsub : sub32 0 v = 2 ^ 32 - v := by
        rw [sub32]
        omega
      rw [hsub]
      obtain ⟨o', ho', hshow⟩ := print_uint_shows (w := w) (h.push (c := MINUS) hput.2) (by decide : 8 ≤ 10)
        (by omega : 2 ^ 32 - v < 2 ^ 32)
      exact ⟨o', ho', by simpa using hshow⟩
    next hstop =>
      obtain ⟨o', ho', hshow⟩ := print_uint_shows (w := w) h (by decide : 8 ≤ 10) hv
      exact ⟨o', ho', hshow.full (h.full_iff.1 (by omega)) _⟩

/-! ## 文字列 -/

variable {s : List UInt8} {a n : Nat}

theorem Str.tail {c : UInt8} (h : Str mem a (c :: s)) : Str mem (a + 1) s := by
  have hnul := h.nul
  rw [List.length_cons] at hnul
  refine ⟨fun i hi => ?_, by rwa [Nat.add_assoc, Nat.add_comm 1], fun hmem => h.nonzero (List.mem_cons_of_mem c hmem)⟩
  rw [Nat.add_assoc, Nat.add_comm 1]
  exact h.bytes (i + 1) (Nat.succ_lt_succ hi)

theorem str_loop_shows (h : o.Shows limit t) (hs : Str mem a s) (hn : limit < n + o.pos) :
    ∃ o', str_loop mem limit n a o = .ok o' ∧ o'.Shows limit (t ++ s) := by
  induction s generalizing a t o n with
  | nil =>
    cases n with
    | zero => exact absurd h.pos_le (by omega)
    | succ n => exact ⟨o, by simp [str_loop, show mem a = some 0 from hs.nul], by simpa using h⟩
  | cons c s ih =>
    have hhead : mem a = some c := hs.bytes 0 (Nat.succ_pos _)
    have hne : c ≠ 0 := fun hc => hs.nonzero (hc ▸ List.mem_cons_self)
    cases n with
    | zero => exact absurd h.pos_le (by omega)
    | succ n =>
      rw [str_loop, hhead]
      by_cases hroom : o.pos < limit
      · obtain ⟨o', ho', hshow⟩ := ih (n := n) (h.push (c := c) hroom) hs.tail (by rw [Output.push_pos]; omega)
        exact ⟨o', by simpa [hne, hroom] using ho', by simpa using hshow⟩
      · exact ⟨o, by simp [hroom], h.stop hroom _⟩

/-- 空きがなければ、先頭の文字を読むだけである。 -/
theorem str_loop_full (hfull : limit ≤ o.pos) (a n : Nat) :
    str_loop mem limit (n + 1) a o = if (mem a).isSome then .ok o else .error (.fault a) := by
  rw [str_loop]
  cases mem a with
  | none => rfl
  | some c => simp [Nat.not_lt.2 hfull]

/-! ## 書式 -/

theorem literal_le (w : Nat) (s : List UInt8) : w ≤ literal w s := by
  induction s generalizing w with
  | nil => exact Nat.le_refl w
  | cons c s ih => exact Nat.le_trans (by omega : w ≤ 10 * w + (c.toNat - 0x30)) (ih _)

theorem digit_step {c : UInt8} (hc : is_digit c = true) (h : 10 * w + (c.toNat - 0x30) < 2 ^ 31) :
    ((w : Int) * 10 + c.toNat - 0x30).bmod (2 ^ 32) = (10 * w + (c.toNat - 0x30) : Nat) := by
  have hdigit : 0x30 ≤ c.toNat := by
    simp [is_digit, UInt8.le_iff_toNat_le] at hc
    exact hc.1
  rw [Int.bmod_eq_of_le (by omega) (by omega)]
  omega

/-- 値が `int` に収まれば、途中で折り返さない。 -/
theorem width_loop_eq (fmt : List UInt8) (h : literal w (fmt.takeWhile is_digit) < 2 ^ 31) :
    width_loop w fmt = ((literal w (fmt.takeWhile is_digit) : Int), fmt.dropWhile is_digit) := by
  induction fmt generalizing w with
  | nil => rfl
  | cons c fmt ih =>
    by_cases hc : is_digit c = true
    · rw [List.takeWhile_cons_of_pos hc] at h ⊢
      have hstep : 10 * w + (c.toNat - 0x30) < 2 ^ 31 := Nat.lt_of_le_of_lt (literal_le _ _) h
      have hnext := ih (w := 10 * w + (c.toNat - 0x30)) h
      rw [List.dropWhile_cons_of_pos hc, width_loop, if_pos hc, digit_step hc hstep]
      exact hnext
    · rw [List.takeWhile_cons_of_neg hc, List.dropWhile_cons_of_neg hc, width_loop, if_neg hc]
      rfl

/-- 折り返しても、続きの書式は変わらない。 -/
theorem width_loop_rest (w : Int) (fmt : List UInt8) : ∃ v, width_loop w fmt = (v, fmt.dropWhile is_digit) := by
  induction fmt generalizing w with
  | nil => exact ⟨w, rfl⟩
  | cons c fmt ih =>
    by_cases hc : is_digit c = true
    · rw [List.dropWhile_cons_of_pos hc, width_loop, if_pos hc]
      exact ih _
    · rw [List.dropWhile_cons_of_neg hc, width_loop, if_neg hc]
      exact ⟨w, rfl⟩

/-- 先頭の `0` は、桁として読んでもよい。 -/
theorem skip_zero (fmt : List UInt8) : width_loop 0 (if fmt.head? = some ZERO then fmt.tail else fmt) = width_loop 0 fmt := by
  split
  next h =>
    obtain ⟨fmt, rfl⟩ := List.head?_eq_some_iff.1 h
    rfl
  next => rfl

theorem items_conv {c d : UInt8} {fmt rest : List UInt8} (hc : c = PERCENT) (hdrop : fmt.dropWhile is_digit = d :: rest) :
    items (c :: fmt) = .conv (literal 0 (fmt.takeWhile is_digit)) d :: items rest := by
  rw [items, if_neg (not_not.2 hc)]
  split
  next h => simp [h] at hdrop
  next d' rest' h =>
    cases h.symm.trans hdrop
    rfl

theorem items_stop {c : UInt8} {fmt : List UInt8} (hc : c = PERCENT) (hdrop : fmt.dropWhile is_digit = []) : items (c :: fmt) = [] := by
  rw [items, if_neg (not_not.2 hc)]
  split
  next => rfl
  next h => simp [h] at hdrop

/-! ## 部分の列 -/

variable {pre its post : List Item} {it : Item}

theorem taken_append (pre its : List Item) : taken (pre ++ its) = taken pre + taken its := by
  induction pre with
  | nil => simp [taken]
  | cons it pre ih => simp [taken, ih, Nat.add_assoc]

theorem text_append (k : Nat) (pre its : List Item) :
    text args strs k (pre ++ its) = text args strs k pre ++ text args strs (k + taken pre) its := by
  induction pre generalizing k with
  | nil => simp [taken, text]
  | cons it pre ih => simp [taken, text, ih, Nat.add_assoc]

theorem skipped_append (k len : Nat) (pre its : List Item) :
    skipped limit args strs k len (pre ++ its) = skipped limit args strs k len pre +
      skipped limit args strs (k + taken pre) (len + (text args strs k pre).length) its := by
  induction pre generalizing k len with
  | nil => simp [taken, text, skipped]
  | cons it pre ih => simp [taken, text, skipped, ih, Nat.add_assoc]

theorem taken_snoc : taken (pre ++ [it]) = taken pre + it.takes := by
  simp [taken_append, taken]

theorem text_snoc :
    text args strs 0 (pre ++ [it]) = text args strs 0 pre ++ it.text (args (taken pre)) (strs (taken pre)) := by
  simp [text_append, text]

theorem skipped_snoc : skipped limit args strs 0 0 (pre ++ [it]) = skipped limit args strs 0 0 pre +
    if it.Is .chr ∧ limit ≤ (text args strs 0 pre).length then 1 else 0 := by
  simp [skipped_append, skipped]

theorem along_nil {P : List Item → Item → Prop} : Along P pre [] := fun mid it post h => by simp at h

theorem along_cons {P : List Item → Item → Prop} : Along P pre (it :: its) ↔ P pre it ∧ Along P (pre ++ [it]) its := by
  constructor
  · intro h
    refine ⟨by simpa using h [] it its rfl, fun mid jt post hits => ?_⟩
    simpa using h (it :: mid) jt post (by rw [hits, List.cons_append])
  · rintro ⟨hit, hits⟩ mid jt post hcat
    cases mid with
    | nil =>
      cases hcat
      simpa using hit
    | cons kt mid =>
      cases hcat
      simpa using hits mid jt post rfl

/-! ## 変換 -/

/-- 部分 `pre` の後の状態。読み落とした引数の数だけ、引数の番号が遅れる。 -/
structure At (limit : Nat) (args : Nat → Nat) (strs : Nat → List UInt8) (pre : List Item) (p : Printer) : Prop where
  shows : p.out.Shows limit (text args strs 0 pre)
  ap : p.ap + skipped limit args strs 0 0 pre = taken pre
  full : skipped limit args strs 0 0 pre ≠ 0 → limit ≤ (text args strs 0 pre).length

variable {p : Printer} {width : Nat} {c : UInt8}

theorem At.start (b : ByteMem) : At limit args strs [] ⟨⟨b, 0, []⟩, 0⟩ :=
  ⟨.start limit b, rfl, fun h => absurd rfl h⟩

/-- 読んだ引数の文字列を置けば、次の状態になる。 -/
theorem At.step {q : Printer} (h : At limit args strs pre p)
    (hshow : q.out.Shows limit (text args strs 0 pre ++ it.text (args p.ap) (strs (taken pre))))
    (hap : q.ap + (if it.Is .chr ∧ limit ≤ (text args strs 0 pre).length then 1 else 0) = p.ap + it.takes) :
    At limit args strs (pre ++ [it]) q := by
  have hap' := h.ap
  refine ⟨?_, ?_, fun hskip => ?_⟩
  · rw [text_snoc]
    by_cases hzero : skipped limit args strs 0 0 pre = 0
    · rw [hzero, Nat.add_zero] at hap'
      rwa [hap'] at hshow
    · exact hshow.full (h.full hzero) _
  · rw [skipped_snoc, taken_snoc]
    omega
  · have hfull : limit ≤ (text args strs 0 pre).length := by
      by_cases hzero : skipped limit args strs 0 0 pre = 0
      · rw [skipped_snoc, hzero] at hskip
        by_contra hroom
        simp [hroom] at hskip
      · exact h.full hzero
    rw [text_snoc, List.length_append]
    exact Nat.le_add_right_of_le hfull

/-- 引数を一つ取る変換の結果。 -/
theorem printed {r : Except Halt Output} (hr : ∃ o', r = .ok o' ∧ o'.Shows limit t) (ap : Nat) :
    ∃ q, (do .ok ⟨← r, ap⟩ : Except Halt Printer) = .ok q ∧ q.out.Shows limit t ∧ q.ap = ap := by
  obtain ⟨o', rfl, hshow⟩ := hr
  exact ⟨⟨o', ap⟩, rfl, hshow, rfl⟩

/-- `%s` の他の変換は、必ず終わる。 -/
theorem convert_shows (mem : Nat → Option UInt8) (width : Nat) (h : p.out.Shows limit t) (hargs : args p.ap < 2 ^ 32)
    (hc : conv c ≠ .str) (s : List UInt8) :
    ∃ q, convert mem args limit width c p = .ok q ∧ q.out.Shows limit (t ++ (Item.conv width c).text (args p.ap) s) ∧
      q.ap + (if conv c = .chr ∧ limit ≤ t.length then 1 else 0) = p.ap + (Item.conv width c).takes := by
  cases hk : conv c with
  | percent =>
    simp only [convert, Item.text, Item.takes, hk]
    exact ⟨_, rfl, h.put PERCENT, by simp⟩
  | other =>
    simp only [convert, Item.text, Item.takes, hk]
    exact ⟨_, rfl, h.put c, by simp⟩
  | str => exact absurd hk hc
  | dec =>
    simp only [convert, Item.text, Item.takes, hk]
    simpa using printed (print_int_val_shows h hargs) (p.ap + 1)
  | uns =>
    simp only [convert, Item.text, Item.takes, hk]
    simpa using printed (print_uint_shows h (by decide : 8 ≤ 10) hargs) (p.ap + 1)
  | hex =>
    simp only [convert, Item.text, Item.takes, hk]
    simpa using printed (print_uint_shows h (by decide : 8 ≤ 16) hargs) (p.ap + 1)
  | oct =>
    simp only [convert, Item.text, Item.takes, hk]
    simpa using printed (print_uint_shows h (by decide : 8 ≤ 8) hargs) (p.ap + 1)
  | ptr =>
    simp only [convert, Item.text, Item.takes, hk]
    simpa using printed (print_uint_shows (w := 8) (h.puts hex_mark) (by decide : 8 ≤ 16) hargs) (p.ap + 1)
  | chr =>
    simp only [convert, Item.text, Item.takes, hk]
    refine ⟨_, rfl, ?_⟩
    by_cases hroom : p.out.pos < limit
    · have hlen : ¬ limit ≤ t.length := fun hle => absurd (h.full_iff.2 hle) (Nat.not_le.2 hroom)
      rw [if_pos hroom]
      exact ⟨h.push hroom, by simp [hlen]⟩
    · rw [if_neg hroom]
      exact ⟨h.stop hroom _, by simp [h.full_iff.1 (Nat.not_lt.1 hroom)]⟩

/-- `%s` の変換。 -/
theorem convert_str (width : Nat) (h : p.out.Shows limit t) (hk : conv c = .str) (harg : args p.ap = 0 ∨ Str mem (args p.ap) s) :
    ∃ q, convert mem args limit width c p = .ok q ∧ q.out.Shows limit (t ++ (Item.conv width c).text (args p.ap) s) ∧
      q.ap = p.ap + (Item.conv width c).takes := by
  simp only [convert, Item.text, Item.takes, hk]
  by_cases hnull : args p.ap = 0
  · rw [if_pos hnull, if_pos hnull]
    exact ⟨_, rfl, h.puts null_text, by simp⟩
  · rw [if_neg hnull, if_neg hnull]
    simpa using printed (str_loop_shows h (harg.resolve_left hnull) (by omega : limit < limit + 1 + p.out.pos)) (p.ap + 1)

/-- 空きのないときの `%s`。読めない番地を読まなければ、何も書かずに終わる。 -/
theorem convert_str_full (mem : Nat → Option UInt8) (args : Nat → Nat) (width : Nat) (h : p.out.Shows limit t)
    (hk : conv c = .str) (hfull : limit ≤ t.length) :
    if args p.ap = 0 ∨ (mem (args p.ap)).isSome then
      ∃ q, convert mem args limit width c p = .ok q ∧ q.out.Shows limit (t ++ s) ∧ q.ap = p.ap + (Item.conv width c).takes
    else convert mem args limit width c p = .error (.fault (args p.ap)) := by
  simp only [convert, Item.takes, hk]
  by_cases hnull : args p.ap = 0
  · rw [if_pos (.inl hnull), if_pos hnull]
    exact ⟨_, rfl, (h.puts null_text).full hfull s, by simp⟩
  · rw [if_neg hnull, str_loop_full (h.full_iff.2 hfull)]
    by_cases hread : (mem (args p.ap)).isSome
    · rw [if_pos (.inr hread), if_pos hread]
      exact ⟨_, rfl, h.stop (Nat.not_lt.2 (h.full_iff.2 hfull)) s, by simp⟩
    · rw [if_neg (by simp [hnull, hread]), if_neg hread]
      rfl

/-- 一つの変換。読み落としがあれば、`%s` の読む番地によっては戻らない。 -/
theorem convert_at (h : At limit args strs pre p) (hargs : ∀ k, args k < 2 ^ 32) (hm : Matched mem args strs pre (.conv width c)) :
    (Readable mem args strs limit pre (.conv width c) ∧
      ∃ q, convert mem args limit width c p = .ok q ∧ At limit args strs (pre ++ [.conv width c]) q) ∨
    (¬ Readable mem args strs limit pre (.conv width c) ∧ ∃ a, convert mem args limit width c p = .error (.fault a)) := by
  by_cases hc : conv c = .str
  · have hchr : ¬ ((Item.conv width c).Is .chr ∧ limit ≤ (text args strs 0 pre).length) := by simp [Item.Is, hc]
    by_cases hzero : skipped limit args strs 0 0 pre = 0
    · have hap : p.ap = taken pre := by simpa [hzero] using h.ap
      obtain ⟨q, hq, hshow, hnext⟩ := convert_str width h.shows hc (hap ▸ hm hc)
      exact .inl ⟨fun _ hne => absurd hzero hne, q, hq, h.step (hap ▸ hshow) (by rw [if_neg hchr, hnext, Nat.add_zero])⟩
    · have hap : taken pre - skipped limit args strs 0 0 pre = p.ap := Nat.sub_eq_of_eq_add h.ap.symm
      have hstr := convert_str_full mem args width
        (s := (Item.conv width c).text (args p.ap) (strs (taken pre))) h.shows hc (h.full hzero)
      split at hstr
      next hread =>
        obtain ⟨q, hq, hshow, hnext⟩ := hstr
        exact .inl ⟨fun _ _ => hap ▸ hread, q, hq, h.step hshow (by rw [if_neg hchr, hnext, Nat.add_zero])⟩
      next hread => exact .inr ⟨fun hsafe => hread (hap ▸ hsafe hc hzero), _, hstr⟩
  · obtain ⟨q, hq, hshow, hap⟩ := convert_shows mem width h.shows (hargs p.ap) hc (strs (taken pre))
    exact .inl ⟨fun his => absurd his hc, q, hq, h.step hshow hap⟩

theorem loop_conv {d : UInt8} {fmt rest : List UInt8} {v : Int} (hc : c = PERCENT) (hwidth : width_loop 0 fmt = (v, d :: rest)) :
    vsnprintf_loop mem args limit (n + 1) (c :: fmt) p = convert mem args limit v d p >>= vsnprintf_loop mem args limit n rest := by
  simp only [vsnprintf_loop, if_neg (not_not.2 hc), skip_zero, hwidth]

theorem loop_stop {fmt : List UInt8} {v : Int} (hc : c = PERCENT) (hwidth : width_loop 0 fmt = (v, [])) :
    vsnprintf_loop mem args limit (n + 1) (c :: fmt) p = .ok p := by
  simp only [vsnprintf_loop, if_neg (not_not.2 hc), skip_zero, hwidth]

/-- 書式のループ。戻らないのは、読んではならない番地を読む `%s` があるときに限る。 -/
theorem loop_result (hargs : ∀ k, args k < 2 ^ 32) (fmt : List UInt8) (hw : ∀ w c, .conv w c ∈ items fmt → w < 2 ^ 31) {n : Nat}
    (hn : fmt.length < n) (h : At limit args strs pre p) (hm : Along (Matched mem args strs) pre (items fmt)) :
    (Along (Readable mem args strs limit) pre (items fmt) ∧
      ∃ q, vsnprintf_loop mem args limit n fmt p = .ok q ∧ At limit args strs (pre ++ items fmt) q) ∨
    (¬ Along (Readable mem args strs limit) pre (items fmt) ∧ ∃ a, vsnprintf_loop mem args limit n fmt p = .error (.fault a)) := by
  induction fmt using items.induct generalizing pre p n with
  | case1 =>
    cases n with
    | zero => exact absurd hn (Nat.not_lt_zero _)
    | succ n =>
      rw [items]
      exact .inl ⟨along_nil, p, rfl, by simpa using h⟩
  | case2 c fmt hc ih =>
    cases n with
    | zero => exact absurd hn (Nat.not_lt_zero _)
    | succ n =>
      rw [items, if_pos hc] at hw hm ⊢
      rw [along_cons] at hm ⊢
      have hplain : At limit args strs (pre ++ [.plain c]) { p with out := p.out.put limit c } :=
        h.step (by simpa [Item.text] using h.shows.put c) (by simp [Item.Is, Item.takes])
      have := ih (fun w d hd => hw w d (List.mem_cons_of_mem _ hd)) (Nat.lt_of_succ_lt_succ hn) hplain hm.2
      rw [vsnprintf_loop, if_pos hc]
      simpa [Readable, Item.Is] using this
  | case3 c fmt hc hdrop =>
    cases n with
    | zero => exact absurd hn (Nat.not_lt_zero _)
    | succ n =>
      obtain ⟨v, hwidth⟩ := width_loop_rest 0 fmt
      rw [items_stop (not_not.1 hc) hdrop, loop_stop (not_not.1 hc) (hdrop ▸ hwidth)]
      exact .inl ⟨along_nil, p, rfl, by simpa using h⟩
  | case4 c fmt hc d rest hdrop hlt ih =>
    cases n with
    | zero => exact absurd hn (Nat.not_lt_zero _)
    | succ n =>
      rw [items_conv (not_not.1 hc) hdrop] at hw hm ⊢
      rw [along_cons] at hm ⊢
      have hwidth := hdrop ▸ width_loop_eq (w := 0) fmt (hw _ _ List.mem_cons_self)
      rw [loop_conv (not_not.1 hc) hwidth]
      obtain ⟨hread, q, hq, hnext⟩ | ⟨hread, a, ha⟩ := convert_at h hargs hm.1
      · have := ih (fun w c hc => hw w c (List.mem_cons_of_mem _ hc)) (n := n) (by rw [List.length_cons] at hn; omega) hnext hm.2
        rw [hq]
        simpa [hread, bind, Except.bind] using this
      · rw [ha]
        exact .inr ⟨fun hsafe => hread hsafe.1, a, rfl⟩

/-- 終わりの NUL は、置いた列の後に付く。 -/
theorem terminate {bufsize : Nat} (h : o.Shows (bufsize - 1) t) (hbuf : 1 ≤ bufsize) :
    Prints bufsize t (.ok (o.set (if o.pos < bufsize then o.pos else bufsize - 1) 0, o.pos)) := by
  have hlt : o.pos < bufsize := by have := h.pos_le; omega
  rw [if_pos hlt]
  refine ⟨_, _, rfl, Output.below_set.2 ⟨hlt, h.below.mono (Nat.sub_le _ _)⟩, ByteMem.store8_self, List.ext_getElem ?_ ?_⟩
  · simp [h.pos, Nat.min_comm]
  · intro i hi hi'
    simp only [List.length_map, List.length_range, List.length_take] at hi hi'
    simp only [List.getElem_map, List.getElem_range, List.getElem_take, Output.set_buf]
    rw [ByteMem.store8_of_ne (by omega)]
    exact h.bytes i (by omega) (by omega)

theorem vsnprintf_prints_iff (mem : Nat → Option UInt8) (args : Nat → Nat) (strs : Nat → List UInt8) (buf : ByteMem) (bufsize : Nat)
    (fmt : List UInt8) (hbuf : 1 ≤ bufsize) (hargs : ∀ k, args k < 2 ^ 32) (hw : ∀ w c, .conv w c ∈ items fmt → w < 2 ^ 31)
    (hm : Along (Matched mem args strs) [] (items fmt)) :
    (Prints bufsize (text args strs 0 (items fmt)) (vsnprintf mem args buf bufsize fmt) ↔
      Along (Readable mem args strs (bufsize - 1)) [] (items fmt)) ∧
    Along (fun pre it => Denotes (args (taken pre)) (it.text (args (taken pre)) (strs (taken pre))) it) [] (items fmt) := by
  refine ⟨?_, fun _ it _ _ => text_denotes _ _ it⟩
  have hpos : bufsize ≠ 0 := by omega
  have hstart : At (bufsize - 1) args strs [] ⟨⟨buf, 0, []⟩, 0⟩ := .start buf
  obtain ⟨hread, q, hq, hat⟩ | ⟨hread, a, ha⟩ := loop_result hargs fmt hw (Nat.lt_add_one _) hstart hm
  · have hend : vsnprintf mem args buf bufsize fmt =
        .ok (q.out.set (if q.out.pos < bufsize then q.out.pos else bufsize - 1) 0, q.out.pos) := by
      simp [vsnprintf, hpos, hq, bind, Except.bind]
    rw [hend]
    exact iff_of_true (terminate hat.shows hbuf) hread
  · have hend : vsnprintf mem args buf bufsize fmt = .error (.fault a) := by simp [vsnprintf, hpos, ha, bind, Except.bind]
    refine iff_of_false ?_ hread
    rintro ⟨o, ret, hret, -⟩
    cases hend.symm.trans hret

/-! ## 実行例 -/

/-- 番地 0x1000 の文字列 `"b"`。 -/
def pair_mem (a : Nat) : Option UInt8 := if a = 0x1000 then some 0x62 else if a = 0x1001 then some 0 else none

/-- 引数 `'a'` と `"b"`。 -/
def pair_args (k : Nat) : Nat := if k = 0 then 0x61 else 0x1000

def pair_strs (_ : Nat) : List UInt8 := [0x62]

/-- 書式 `"%c%s"`。 -/
def pair_fmt : List UInt8 := [PERCENT, 0x63, PERCENT, 0x73]

theorem pair_items : items pair_fmt = [.conv 0 0x63, .conv 0 0x73] := by
  rw [pair_fmt, items_conv rfl rfl, items_conv rfl rfl, items]
  rfl

theorem pair_str : Str pair_mem 0x1000 [0x62] :=
  ⟨fun i hi => by
    have hi0 : i = 0 := by simpa using hi
    subst hi0
    rfl, rfl, by decide⟩

theorem pair_args_lt (k : Nat) : pair_args k < 2 ^ 32 := by
  unfold pair_args
  split <;> omega

theorem pair_matched : Along (Matched pair_mem pair_args pair_strs) [] (items pair_fmt) := by
  rw [pair_items, along_cons, along_cons]
  exact ⟨fun his => absurd his (by decide), fun _ => .inr pair_str, along_nil⟩

theorem pair_widths (w : Nat) (c : UInt8) (h : .conv w c ∈ items pair_fmt) : w < 2 ^ 31 := by
  rw [pair_items] at h
  simp at h
  omega

theorem vsnprintf_prints_char_string : Prints 8 (text pair_args pair_strs 0 (items pair_fmt))
    (vsnprintf pair_mem pair_args (fun _ => 0xFF) 8 pair_fmt) := by
  refine (vsnprintf_prints_iff pair_mem pair_args pair_strs (fun _ => 0xFF) 8 pair_fmt (by decide) pair_args_lt pair_widths
    pair_matched).1.2 ?_
  rw [pair_items, along_cons, along_cons]
  exact ⟨fun his => absurd his (by decide), fun _ hskip => absurd rfl hskip, along_nil⟩

/-- 大きさ 1 のバッファでは `%c` が引数を読まず、`%s` が文字 `'a'` を番地として読む。 -/
theorem vsnprintf_faults : Along (Matched pair_mem pair_args pair_strs) [] (items pair_fmt) ∧
    (∀ k, pair_args k < 2 ^ 32) ∧ (∀ w c, .conv w c ∈ items pair_fmt → w < 2 ^ 31) ∧
    vsnprintf pair_mem pair_args (fun _ => 0xFF) 1 pair_fmt = .error (.fault 0x61) ∧
    ¬ Prints 1 (text pair_args pair_strs 0 (items pair_fmt)) (vsnprintf pair_mem pair_args (fun _ => 0xFF) 1 pair_fmt) := by
  refine ⟨pair_matched, pair_args_lt, pair_widths, rfl, ?_⟩
  rintro ⟨o, ret, h, -⟩
  cases h

end MyOS.Libc
