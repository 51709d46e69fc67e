import MyOS.Lib.Output
import Mathlib.Data.Nat.Digits.Defs

/-!
# 書式付きの出力（libc の stdio.c）

`va_list` は引数の語の列で、`ap` は次に読む語の番号である。`int` の値も 32 ビットの語で表す。

`%s` の文字列は読めるメモリ `mem` の中にある。読めない番地を読むと、ページフォールトで戻らない。
-/

namespace MyOS.Libc
open MyOS.Lib

/-- 戻らない理由。 -/
inductive Halt
  /-- 番地 `a` を読めない。 -/
  | fault (a : Nat)
  /-- `tmp` があふれる。 -/
  | spill
  /-- ループの回数が足りない。 -/
  | fuel
  deriving DecidableEq

/-- 変換の種類。 -/
inductive Conv
  | percent
  | dec
  | uns
  | hex
  | oct
  | str
  | chr
  | ptr
  | other
  deriving DecidableEq

/-- `switch (format[i])` の場合分け。 -/
def conv (c : UInt8) : Conv :=
  if c = PERCENT then .percent
  else if c = 0x64 ∨ c = 0x69 then .dec  -- 'd' と 'i'
  else if c = 0x75 then .uns
  else if c = LETTER_X then .hex
  else if c = 0x6F then .oct
  else if c = 0x73 then .str
  else if c = 0x63 then .chr
  else if c = 0x70 then .ptr
  else .other

/-- `d <= 9 ? '0' + d : 'A' + d - 10` -/
def digit (d : Nat) : UInt8 := if d ≤ 9 then UInt8.ofNat (0x30 + d) else UInt8.ofNat (0x41 + d - 10)

/-- `while (val)` のループ。第一引数は `tmp` の残りの広さである。 -/
def digit_loop (base : Nat) : Nat → Nat → List UInt8 → Except Halt (List UInt8)
  | 0, val, tmp => if val = 0 then .ok tmp else .error .spill
  | room + 1, val, tmp =>
    if val = 0 then .ok tmp else digit_loop base room (val / base) (tmp ++ [digit (val % base)])

/-- `while (zeros > 0 && *pos < limit)` のループ。 -/
def zero_loop (limit : Nat) : Nat → Output → Output
  | 0, o => o
  | zeros + 1, o => if o.pos < limit then zero_loop limit zeros (o.push ZERO) else o

/-- `tmp` の中身。 -/
def tmp_digits (base val : Nat) : Except Halt (List UInt8) := if val = 0 then .ok [ZERO] else digit_loop base 12 val []

def print_uint (limit val base : Nat) (min_width : Int) (o : Output) : Except Halt Output := do
  let tmp ← tmp_digits base val
  let zeros := min_width - tmp.length
  .ok ((zero_loop limit zeros.toNat o).puts limit tmp.reverse)

/-- `val < 0` は、語の最上位のビットである。 -/
def print_int_val (limit val base : Nat) (min_width : Int) (o : Output) : Except Halt Output :=
  if 2 ^ 31 ≤ val ∧ o.pos < limit then print_uint limit (sub32 0 val) base min_width (o.push MINUS)
  else print_uint limit val base min_width o

/-- `%s` の `while`。 -/
def str_loop (mem : Nat → Option UInt8) (limit : Nat) : Nat → Nat → Output → Except Halt Output
  | 0, _, _ => .error .fuel
  | n + 1, s, o =>
    match mem s with
    | none => .error (.fault s)
    | some c => if c ≠ 0 ∧ o.pos < limit then str_loop mem limit n (s + 1) (o.push c) else .ok o

/-- `"(null)"` -/
def null_text : List UInt8 := [0x28, 0x6E, 0x75, 0x6C, 0x6C, 0x29]

/-- `"0x"` -/
def hex_mark : List UInt8 := [ZERO, LETTER_X]

/-- `while (format[i] >= '0' && format[i] <= '9')` のループ。幅と、続きの書式を返す。 -/
def width_loop : Int → List UInt8 → Int × List UInt8
  | w, [] => (w, [])
  | w, c :: fmt => if is_digit c then width_loop ((w * 10 + c.toNat - 0x30).bmod (2 ^ 32)) fmt else (w, c :: fmt)

/-- 出力と、次に読む語の番号。 -/
structure Printer where
  out : Output
  ap : Nat

/-- `switch` の一つの場合。 -/
def convert (mem : Nat → Option UInt8) (args : Nat → Nat) (limit : Nat) (min_width : Int) (c : UInt8) (p : Printer) :
    Except Halt Printer :=
  let arg := args p.ap
  match conv c with
  | .percent => .ok { p with out := p.out.put limit PERCENT }
  | .dec => do .ok ⟨← print_int_val limit arg 10 min_width p.out, p.ap + 1⟩
  | .uns => do .ok ⟨← print_uint limit arg 10 min_width p.out, p.ap + 1⟩
  | .hex => do .ok ⟨← print_uint limit arg 16 min_width p.out, p.ap + 1⟩
  | .oct => do .ok ⟨← print_uint limit arg 8 min_width p.out, p.ap + 1⟩
  | .str =>
    if arg = 0 then .ok ⟨p.out.puts limit null_text, p.ap + 1⟩
    else do .ok ⟨← str_loop mem limit (limit + 1) arg p.out, p.ap + 1⟩
  -- 置けないときは、引数を読まない
  | .chr => .ok (if p.out.pos < limit then ⟨p.out.push (UInt8.ofNat arg), p.ap + 1⟩ else p)
  | .ptr => do .ok ⟨← print_uint limit arg 16 8 (p.out.puts limit hex_mark), p.ap + 1⟩
  | .other => .ok { p with out := p.out.put limit c }

/-- 書式のループ。書式は NUL の前のバイトの列である。 -/
def vsnprintf_loop (mem : Nat → Option UInt8) (args : Nat → Nat) (limit : Nat) : Nat → List UInt8 → Printer → Except Halt Printer
  | 0, _, _ => .error .fuel
  | _ + 1, [], p => .ok p
  | n + 1, c :: fmt, p =>
    if c ≠ PERCENT then vsnprintf_loop mem args limit n fmt { p with out := p.out.put limit c }
    else
      let fmt := if fmt.head? = some ZERO then fmt.tail else fmt
      let (min_width, fmt) := width_loop 0 fmt
      match fmt with
      | [] => .ok p
      | c :: fmt => do
        let p ← convert mem args limit min_width c p
        vsnprintf_loop mem args limit n fmt p

/-- バッファ `buf` への出力と、戻り値。 -/
def vsnprintf (mem : Nat → Option UInt8) (args : Nat → Nat) (buf : ByteMem) (bufsize : Nat) (fmt : List UInt8) :
    Except Halt (Output × Nat) :=
  if bufsize = 0 then .ok (⟨buf, 0, []⟩, 0)
  else do
    let limit := bufsize - 1
    let p ← vsnprintf_loop mem args limit (fmt.length + 1) fmt ⟨⟨buf, 0, []⟩, 0⟩
    let o := p.out
    .ok (o.set (if o.pos < bufsize then o.pos else bufsize - 1) 0, o.pos)

/-! ## 上限のない文字列 -/

/-- 書式の一つの部分。文字そのものか、幅と変換の文字である。 -/
inductive Item
  | plain (c : UInt8)
  | conv (width : Nat) (c : UInt8)
  deriving DecidableEq

/-- `w` に続く十進の数字の列の値。 -/
def literal : Nat → List UInt8 → Nat
  | w, [] => w
  | w, c :: s => literal (10 * w + (c.toNat - 0x30)) s

/-- 書式の部分の列。 -/
def items : List UInt8 → List Item
  | [] => []
  | c :: fmt =>
    if c ≠ PERCENT then .plain c :: items fmt
    else
      match h : fmt.dropWhile is_digit with
      | [] => []
      | d :: rest =>
        have : rest.length < fmt.length := by
          have hle := (List.dropWhile_sublist is_digit (l := fmt)).length_le
          rw [h, List.length_cons] at hle
          omega
        .conv (literal 0 (fmt.takeWhile is_digit)) d :: items rest
termination_by fmt => fmt.length
decreasing_by all_goals simp_all; try omega

/-- `v` を表す数字の列。 -/
def plain_numeral (base v : Nat) : List UInt8 := if v = 0 then [ZERO] else (Nat.digits base v).reverse.map digit

/-- 幅まで 0 で埋めた数字の列。 -/
def numeral (base width v : Nat) : List UInt8 :=
  List.replicate (width - (plain_numeral base v).length) ZERO ++ plain_numeral base v

/-- 符号付きの値を表す数字の列。 -/
def signed (width v : Nat) : List UInt8 := if v < 2 ^ 31 then numeral 10 width v else MINUS :: numeral 10 width (2 ^ 32 - v)

namespace Item

/-- 一つの部分の文字列。引数の語が `v` であり、`%s` の指す文字列が `s` である。 -/
def text (v : Nat) (s : List UInt8) : Item → List UInt8
  | plain c => [c]
  | conv width c =>
    match Libc.conv c with
    | .percent => [PERCENT]
    | .dec => signed width v
    | .uns => numeral 10 width v
    | .hex => numeral 16 width v
    | .oct => numeral 8 width v
    | .str => if v = 0 then null_text else s
    | .chr => [UInt8.ofNat v]
    | .ptr => hex_mark ++ numeral 16 8 v
    | .other => [c]

/-- 変換の種類が `k` である。 -/
def Is (k : Conv) : Item → Prop
  | plain _ => False
  | conv _ c => Libc.conv c = k

instance (k : Conv) (it : Item) : Decidable (it.Is k) :=
  match it with
  | plain _ => inferInstanceAs (Decidable False)
  | conv _ c => inferInstanceAs (Decidable (Libc.conv c = k))

/-- 取る引数の数。 -/
def takes : Item → Nat
  | plain _ => 0
  | conv _ c => if Libc.conv c = .percent ∨ Libc.conv c = .other then 0 else 1

end Item

/-- 部分の列が取る引数の数。 -/
def taken : List Item → Nat
  | [] => 0
  | it :: its => it.takes + taken its

/-- 部分の列の文字列。引数は `k` 番から順に取る。 -/
def text (args : Nat → Nat) (strs : Nat → List UInt8) : Nat → List Item → List UInt8
  | _, [] => []
  | k, it :: its => it.text (args k) (strs k) ++ text args strs (k + it.takes) its

end MyOS.Libc
