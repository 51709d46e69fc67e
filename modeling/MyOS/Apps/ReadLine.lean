import MyOS.Drivers.Kbd
import MyOS.Drivers.Vga

/-!
# シェルの一行の読み込み（apps/shell.c）

`read_line` は標準入力を一バイトずつ読み、後退で一文字を消し、読むたびに画面へ返す。標準入力が空の間は回り続け、その間も
割り込みは届く。
-/

namespace MyOS.Apps
open MyOS.Lib Drivers

/-- 一文字を消す。 -/
def erases (c : UInt8) : Bool := c == BACKSPACE || c == 0x7F

/-- 行を終える。 -/
def ends (c : UInt8) : Bool := c == NEWLINE || c == CARRIAGE_RETURN

structure LineBuf where
  buf : Nat → UInt8
  i : Nat

namespace LineBuf

def store (s : LineBuf) (c : UInt8) : LineBuf := { s with buf := fun k => if k = s.i then c else s.buf k }

/-- 終端を書く。 -/
def close (s : LineBuf) : LineBuf := s.store 0

/-- 読んだ一文字の扱い。終われば長さを返す。最後は `printf` が書くバイトで、呼ばなければ `none` である。 -/
def read_char (s : LineBuf) (c : UInt8) : LineBuf × Option Nat × Option (List UInt8) :=
  if ends c then (s.close, some s.i, some [NEWLINE])
  else if erases c then
    if 0 < s.i then ({ s with i := s.i - 1 }, none, some [BACKSPACE, SPACE, BACKSPACE]) else (s, none, none)
  else ({ s.store c with i := s.i + 1 }, none, some (if c = 0 then [] else [c]))

end LineBuf

/-- `printf` の一度の `write`。 -/
def echo (v : Vga) (bytes : List UInt8) : Vga := (v.vga_write_fs bytes.length 1 fun j => bytes.getD j 0).1

/-- キーボードと画面を使って行を読んでいる途中。`result` は返した長さである。 -/
structure Reading where
  input : KbdRun
  line : LineBuf
  result : Option Nat
  screen : Vga

inductive ReadEvent
  | irq (status scancode : UInt8)
  | poll

/-- `read_line(buf, max)` の繰り返しの一回。 -/
def Reading.poll (max : Nat) (s : Reading) : Option Reading :=
  if s.result.isSome then none
  else if s.line.i < max - 1 then
    let (k, bytes) := s.input.kbd.keyboard_read_fs 1 1
    let input := { s.input with kbd := k, delivered := s.input.delivered ++ bytes }
    match bytes with
    | [c] =>
      let (line, result, out) := s.line.read_char c
      some ⟨input, line, result, out.elim s.screen (echo s.screen)⟩
    | _ => some { s with input }
  else some { s with line := s.line.close, result := some s.line.i }

def Reading.step (max : Nat) (s : Reading) : ReadEvent → Option Reading
  | .irq status scancode => (s.input.step (.irq status scancode)).map fun input => { s with input }
  | .poll => s.poll max

def Reading.start (input : KbdRun) (buf : Nat → UInt8) (screen : Vga) : Reading := ⟨input, ⟨buf, 0⟩, none, screen⟩

/-- 文字を順に加え、後退で最後の文字を消した行。 -/
def edit (l : List UInt8) : List UInt8 := l.foldl (fun acc c => if erases c then acc.dropLast else acc ++ [c]) []

/-- `buf` の先頭の `n` バイト。 -/
def LineBuf.text (s : LineBuf) (n : Nat) : List UInt8 := (List.range n).map s.buf

/-- 読み始めてから渡されたバイト `d` と、行の様子。 -/
def Reading.Follows (max : Nat) (d : List UInt8) (s : Reading) : Prop :=
  match s.result with
  | none => s.line.i ≤ max - 1 ∧ s.line.text s.line.i = edit d ∧ ∀ c ∈ d, ends c = false
  | some n => n ≤ max - 1 ∧ s.line.buf n = 0 ∧ ∃ line tail, d = line ++ tail ∧ (∀ c ∈ line, ends c = false) ∧
      s.line.text n = edit line ∧ (tail = [] ∧ n = max - 1 ∨ ∃ c, tail = [c] ∧ ends c = true)

/-- 画面でも一文字を占める文字と、行を変える文字。 -/
def Plain (c : UInt8) : Prop := ends c = true ∨ erases c = true ∨ 0x20 ≤ c ∧ c < 0x7F

/-- 行の始まりが `p` 桁のとき、次の文字は行の中に収まる。 -/
def InRow (p : Nat) (s : Reading) (_ : ReadEvent) : Prop :=
  p + s.line.i + 1 < 80 ∧ ∀ c, s.input.kbd.queue.head? = some c → Plain c

end MyOS.Apps
