import MyOS.Lib.CString
import MyOS.Lib.Count

/-!
# 文字の画面（drivers/vga.c）

画面は 80 桁 25 行で、一文字を二バイトのセルに置く。番地は `vgamem` からの差で表す。
-/

namespace MyOS.Drivers
open MyOS.Lib

def ESC : UInt8 := 0x1B
def FORM_FEED : UInt8 := 0x0C
def BACKSPACE : UInt8 := 0x08
def TAB : UInt8 := 0x09
def CARRIAGE_RETURN : UInt8 := 0x0D

/-- `char` を `int` に広げた値。 -/
def int_of_char (c : UInt8) : Int := c.toBitVec.toInt

/-- `cursor` は、ハードウェアのカーソルの位置。`touched` は、読み書きしたセルの番号の記録である。 -/
structure Vga where
  vgamem : Int → UInt8
  attrib : Int
  csr_x : Int
  csr_y : Int
  col_next : Bool
  cursor : Int
  touched : List Int

/-- `c | (attrib << 8)` の下の 16 ビット。 -/
def cell (c attrib : Int) : BitVec 16 := BitVec.ofInt 16 c ||| BitVec.ofInt 16 attrib <<< 8

namespace Vga

def store (v : Vga) (i : Int) (b : UInt8) : Vga :=
  { v with vgamem := fun j => if j = i then b else v.vgamem j, touched := i / 2 :: v.touched }

/-- `vgamem[k] = w;` 下のバイトを前に置く。 -/
def set_cell (v : Vga) (k : Int) (w : BitVec 16) : Vga :=
  (v.store (2 * k) (.ofBitVec (w.setWidth 8))).store (2 * k + 1) (.ofBitVec ((w >>> 8).setWidth 8))

/-- `dest[i] = src[i];` -/
def copy_byte (v : Vga) (dest src : Int) : Vga :=
  { v with touched := src / 2 :: v.touched }.store dest (v.vgamem src)

/-- 一バイトずつ、前から写す。 -/
def memcpy (v : Vga) (dest src : Int) (count : Nat) : Vga :=
  (List.range count).foldl (fun v (i : Nat) => v.copy_byte (dest + i) (src + i)) v

def memsetw (v : Vga) (dest : Int) (val : BitVec 16) (count : Nat) : Vga :=
  (List.range count).foldl (fun v (i : Nat) => v.set_cell (dest + i) val) v

def blank (v : Vga) : BitVec 16 := cell (int_of_char SPACE) v.attrib

def scroll (v : Vga) : Vga :=
  if 25 ≤ v.csr_y then
    let scroll_by := if 25 < v.csr_y - 25 + 1 then 25 else v.csr_y - 25 + 1
    let w := v.memcpy 0 (2 * (80 * scroll_by)) ((25 - scroll_by) * 80 * 2).toNat
    let w := w.memsetw (80 * (25 - scroll_by)) v.blank 80
    { w with csr_y := 25 - 1 }
  else v

/-- 番号の 16 ビットを、二つのレジスタに書く。 -/
def move_csr (v : Vga) : Vga := { v with cursor := (v.csr_y * 80 + v.csr_x) % 65536 }

def cls (v : Vga) : Vga := ((List.range 25).foldl (fun w (i : Nat) => w.memsetw (i * 80) v.blank 80) v).move_csr

/-- カーソルの位置に書く。 -/
def put_cell (v : Vga) (c : UInt8) : Vga := v.set_cell (v.csr_y * 80 + v.csr_x) (cell (int_of_char c) v.attrib)

/-- 一文字ごとの場合分け。行の終わりと画面の終わりは、後で調べる。 -/
def put_char (v : Vga) (c : UInt8) : Vga :=
  if c = BACKSPACE then (if v.csr_x ≠ 0 then { v with csr_x := v.csr_x - 1 } else v).put_cell SPACE
  else if c = TAB then { v with csr_x := v.csr_x + (4 - v.csr_x.tmod 4) }
  else if c = CARRIAGE_RETURN then { v with csr_x := 0 }
  else if c = NEWLINE then { v with csr_x := 0, csr_y := v.csr_y + 1 }
  else if int_of_char SPACE ≤ int_of_char c then
    let w := v.put_cell c
    { w with csr_x := w.csr_x + 1 }
  else v

def wrap (v : Vga) : Vga := if 80 ≤ v.csr_x then { v with csr_x := 0, csr_y := v.csr_y + 1 } else v

def putch (v : Vga) (c : UInt8) : Vga :=
  if v.col_next then { v with attrib := int_of_char c, col_next := false }
  else if c = ESC then { v with col_next := true }
  else if c = FORM_FEED then v.cls
  else (v.put_char c).wrap.scroll.move_csr

/-- 一つの単位ごとに、`buffer` を初めから書く。 -/
def vga_write_fs (v : Vga) (size units : Nat) (buffer : Nat → UInt8) : Vga × Nat :=
  ((List.range units).foldl (fun v _ => (List.range size).foldl (fun v (j : Nat) => v.putch (buffer j)) v)
    { v with col_next := false }, units * size % 2 ^ 32)

def init_video (v : Vga) : Vga := v.cls

/-- `y` 行 `x` 桁の文字。 -/
def text (v : Vga) (y x : Nat) : UInt8 := v.vgamem (2 * (y * 80 + x))

end Vga

/-! ## 基準の端末 -/

/-- 終わりのない紙に書く端末。`top` から 25 行が見える。`escape` は、次のバイトが色であることを表す。 -/
structure Terminal where
  lines : Nat → Nat → UInt8
  top : Nat
  row : Nat
  col : Nat
  escape : Bool

namespace Terminal

def place (t : Terminal) (c : UInt8) : Terminal :=
  { t with lines := fun y x => if y = t.row ∧ x = t.col then c else t.lines y x }

/-- 最後の行の次へ進むときは、一行だけ送る。 -/
def newline (t : Terminal) : Terminal :=
  { t with row := t.row + 1, col := 0, top := if t.row + 1 = t.top + 25 then t.top + 1 else t.top }

/-- 80 桁に達すると、次の行へ進む。 -/
def advance (t : Terminal) (n : Nat) : Terminal :=
  if t.col + n < 80 then { t with col := t.col + n } else t.newline

def clear (t : Terminal) : Terminal :=
  { t with lines := fun y x => if t.top ≤ y then SPACE else t.lines y x }

def feed (t : Terminal) (c : UInt8) : Terminal :=
  if t.escape then { t with escape := false }
  else if c = ESC then { t with escape := true }
  else if c = FORM_FEED then t.clear
  else if c = BACKSPACE then { t with col := t.col - 1 }.place SPACE
  else if c = TAB then t.advance (4 - t.col % 4)
  else if c = CARRIAGE_RETURN then { t with col := 0 }
  else if c = NEWLINE then t.newline
  else if 0x20 ≤ c ∧ c < 0x80 then (t.place c).advance 1
  else t

/-- 画面の `y` 行 `x` 桁に見える文字。 -/
def visible (t : Terminal) (y x : Nat) : UInt8 := t.lines (t.top + y) x

/-- 今の画面から始める。25 行より後には、まだ何もない。 -/
def of (v : Vga) : Terminal :=
  { lines := fun y x => if y < 25 then v.text y x else SPACE, top := 0, row := 0, col := 0, escape := v.col_next }

end Terminal

end MyOS.Drivers
