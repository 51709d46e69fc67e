import MyOS.Lib.Output
import Mathlib.Data.Nat.Digits.Defs

/-!
# カーネルの書式付きの出力（print.c）

数の変換はバッファの広さを知らない関数が書く。`%d` は空きがあるときだけ呼ぶが、`%x` と `%u` はいつも呼ぶ。

`none` は、戻らないことを表す。書式は、その番地から先のメモリ `fmt` として読む。最後の `%` の後の NUL は
変換の文字として読み飛ばすので、その先も書式になる。
-/

namespace MyOS.Kilb
open MyOS.Lib

def BUFFER_SIZE : Nat := 1024

/-- `curd + (curd <= 9 ? '0' : 'A' - 10)`。`curd` は符号付きの `char` である。 -/
def digit (curd : Int) : UInt8 := UInt8.ofInt (curd + if curd ≤ 9 then 0x30 else 0x41 - 10)

/-- `while (val)` のループ。`start` から下の桁を先に書く。 -/
def digit_loop (base : Int) (start : Nat) : Nat → Int → Nat → Output → Option (Nat × Output)
  | 0, _, _, _ => none
  | n + 1, val, cursz, o =>
    if val = 0 then some (cursz, o)
    else digit_loop base start n (val.tdiv base) (cursz + 1) (o.set (start + cursz) (digit (val.tmod base)))

/-- `while (cursz < size)` のループ。第一引数は残りの回数である。 -/
def zero_fill (start : Nat) : Nat → Nat → Output → Output
  | 0, _, o => o
  | n + 1, cursz, o => zero_fill start n (cursz + 1) (o.set (start + cursz) ZERO)

/-- 逆順にするループの一回。 -/
def swap (start cursz : Nat) (o : Output) (i : Nat) : Output :=
  (o.set (start + i) (o.buf (start + cursz - i - 1))).set (start + cursz - i - 1) (o.buf (start + i))

/-- `print_uint` と `print_int` の、符号の後の部分。書いた文字の数と出力を返す。 -/
def print_digits (start : Nat) (val base size : Int) (o : Output) : Option (Nat × Output) := do
  let (cursz, o) ← digit_loop base start 33 val 0 o
  let zeros := (size - cursz).toNat
  let o := zero_fill start zeros cursz o
  some (cursz + zeros, (List.range ((cursz + zeros) / 2)).foldl (swap start (cursz + zeros)) o)

def print_uint (val : Nat) (base size : Int) (o : Output) : Option (Nat × Output) := print_digits o.pos val base size o

def print_int (val base size : Int) (o : Output) : Option (Nat × Output) :=
  if val < 0 then do
    let (cursz, o) ← print_digits (o.pos + 1) ((val * -1).bmod (2 ^ 32)) base size (o.set o.pos MINUS)
    some (1 + cursz, o)
  else print_digits o.pos val base size o

/-- 書式の一つの部分の、書くもの。 -/
inductive Directive
  | byte (c : UInt8)
  | str (s : List UInt8)
  | int (val size : Int)
  | uint (val : Nat) (base size : Int)
  deriving DecidableEq

/-- `switch` の書く部分。 -/
def Directive.emit (limit : Nat) (o : Output) : Directive → Option Output
  | .byte c => some (o.put limit c)
  | .str s => some (s.foldl (Output.put limit) o)
  | .int val size =>
    if o.pos < limit then (print_int val 10 size o).map fun (n, o) => { o with pos := add32 o.pos n } else some o
  | .uint val base size => (print_uint val base size o).map fun (n, o) => { o with pos := add32 o.pos n }

section
variable (mem : Nat → Option UInt8) (args : Nat → Nat) (fmt : Nat → UInt8)

/-- 幅の `while`。幅と、続きの位置を返す。 -/
def width_loop : Nat → Int → Nat → Option (Int × Nat)
  | 0, _, _ => none
  | n + 1, sz, i =>
    if is_digit (fmt i) then width_loop n ((sz * 10 + (fmt i).toNat - 0x30).bmod (2 ^ 32)) (i + 1) else some (sz, i)

/-- `%` の後の幅。`0` で始まらなければ 1 である。 -/
def width (n i : Nat) : Option (Int × Nat) := if fmt i = ZERO then width_loop fmt n 0 i else some (1, i)

/-- `%s` の文字列。 -/
def str_loop : Nat → Nat → Option (List UInt8)
  | 0, _ => none
  | n + 1, a =>
    match mem a with
    | none => none
    | some c => if c = 0 then some [] else (str_loop n (a + 1)).map (c :: ·)

/-- `switch` の読む部分。書くもの、次の書式の位置、次の引数の番号を返す。 -/
def directive (n i ap : Nat) : Option (Directive × Nat × Nat) :=
  if fmt i ≠ PERCENT then some (.byte (fmt i), i + 1, ap)
  else do
    let (sz, i) ← width fmt n (i + 1)
    let c := fmt i
    let arg := args ap
    if c = PERCENT then some (.byte PERCENT, i + 1, ap)
    else if c = 0x64 then some (.int ((arg : Int).bmod (2 ^ 32)) sz, i + 1, ap + 1)  -- 'd'
    else if c = LETTER_X then some (.uint arg 16 sz, i + 1, ap + 1)
    else if c = 0x75 then  -- 'u'
      if fmt (i + 1) = LETTER_X then some (.uint arg 16 sz, i + 2, ap + 1)
      else if fmt (i + 1) = 0x64 then some (.uint arg 10 sz, i + 2, ap + 1)
      else some (.uint arg 10 sz, i + 1, ap + 1)
    else if c = 0x73 then (str_loop mem n arg).map fun s => (.str s, i + 1, ap + 1)  -- 's'
    else if c = 0x63 then some (.byte (UInt8.ofNat arg), i + 1, ap + 1)  -- 'c'
    else some (.byte c, i + 1, ap)

def vsnprintf_loop (limit : Nat) : Nat → Nat → Nat → Output → Option Output
  | 0, _, _, _ => none
  | n + 1, i, ap, o =>
    if fmt i = 0 then some o
    else do
      let (d, i, ap) ← directive mem args fmt n i ap
      let o ← d.emit limit o
      vsnprintf_loop limit n i ap o

/-- `n` 回までのループで戻れば、出力を返す。 -/
def vsnprintf (buf : ByteMem) (bufsize n : Nat) : Option Output :=
  if bufsize = 0 then some ⟨buf, 0, []⟩
  else (vsnprintf_loop mem args fmt (bufsize - 1) n 0 0 ⟨buf, 0, []⟩).map fun o => o.set (if o.pos < bufsize then o.pos else bufsize - 1) 0

/-! ## 書くものの広さ -/

/-- 書式の部分の列。 -/
def directives : Nat → Nat → Nat → Option (List Directive)
  | 0, _, _ => none
  | n + 1, i, ap =>
    if fmt i = 0 then some []
    else do
      let (d, i, ap) ← directive mem args fmt n i ap
      let ds ← directives n i ap
      some (d :: ds)

end

/-- 幅まで埋めた桁の数。 -/
def digits_length (val base size : Int) : Nat := max (Nat.digits base.natAbs val.natAbs).length size.toNat

namespace Directive

/-- 数の変換の文字の数。 -/
def length : Directive → Nat
  | byte _ => 1
  | str s => s.length
  | int val size => (if val < 0 then 1 else 0) + digits_length val 10 size
  | uint val base size => digits_length val base size

/-- 書いた後の位置。 -/
def next (limit pos : Nat) : Directive → Nat
  | uint val base size => pos + (uint val base size).length
  | int val size => if pos < limit then pos + (int val size).length else pos
  | d => if pos < limit then min limit (pos + d.length) else pos

/-- 位置 `pos` から書くと、バッファに収まる。 -/
def Fits (bufsize pos : Nat) : Directive → Prop
  | uint val base size => (uint val base size).length = 0 ∨ pos + (uint val base size).length ≤ bufsize
  | int val size => pos < bufsize - 1 → pos + (int val size).length ≤ bufsize
  | _ => True

end Directive

/-- 列のどの部分も、その位置から書くと収まる。 -/
def Fits (bufsize : Nat) : Nat → List Directive → Prop
  | _, [] => True
  | pos, d :: ds => d.Fits bufsize pos ∧ Fits bufsize (d.next (bufsize - 1) pos) ds

end MyOS.Kilb
