import MyOS.Blocks.Phys
import Mathlib.Data.List.Range

/-!
# 画面に描くライブラリ（graphics.c、font.c）

`fb_set_mode` と `fb_map` のシステムコール（syscalls.c、bga.c）が決める大きさの画面に、点、線、長方形、文字を描く。
-/

namespace MyOS.Gfx
open MyOS.Lib

export Blocks (BLOCK_SIZE)

/-- `framebuffer_t`。`gfx_init` の作る値は、`fb_set_mode` の認める大きさである。 -/
structure Framebuffer where
  width : Nat
  height : Nat
  pitch : Nat
  bpp : Nat
  width_le : width ≤ 4096
  height_le : height ≤ 4096
  bpp_le : bpp ≤ 32
  pitch_eq : pitch = width * (bpp / 8)

/-- `fb_map` の写すページの数。`bga_set_mode` は一行を `width * ((bpp + 7) / 8)` バイトとする。 -/
def fb_pages (width height bpp : Nat) : Nat := (width * ((bpp + 7) / 8) * height + BLOCK_SIZE - 1) / BLOCK_SIZE

/-- `syscall_fb_set_mode` の検査。 -/
def fb_mode_ok (width height bpp : Nat) : Bool :=
  decide (width ≠ 0 ∧ height ≠ 0 ∧ width ≤ 4096 ∧ height ≤ 4096) && [8, 15, 16, 24, 32].contains bpp

theorem fb_mode_le {width height bpp : Nat} (h : fb_mode_ok width height bpp = true) : width ≤ 4096 ∧ height ≤ 4096 ∧ bpp ≤ 32 := by
  unfold fb_mode_ok at h
  obtain ⟨hdim, hbpp⟩ := (Bool.and_eq_true _ _).mp h
  have hdim := of_decide_eq_true hdim
  have hmem : bpp ∈ [8, 15, 16, 24, 32] := List.contains_iff_mem.mp hbpp
  simp only [List.mem_cons, List.not_mem_nil, or_false] at hmem
  omega

/-- 画面と、写したページの数。`accepts` は、装置が大きさを受け入れたことである。 -/
def gfx_init (accepts : Bool) (width height bpp : BitVec 32) : Option (Framebuffer × Nat) :=
  if h : fb_mode_ok width.toNat height.toNat bpp.toNat = true then
    if accepts then
      some ({ width := width.toNat
              height := height.toNat
              pitch := width.toNat * (bpp.toNat / 8)
              bpp := bpp.toNat
              width_le := (fb_mode_le h).1
              height_le := (fb_mode_le h).2.1
              bpp_le := (fb_mode_le h).2.2
              pitch_eq := rfl }, fb_pages width.toNat height.toNat bpp.toNat)
    else none
  else none

/-! ## 点と線 -/

/-- `int` の和。 -/
def add_int (a b : Int) : Int := (a + b).bmod (2 ^ 32)

/-- `for (i = lo; i < hi; i++)` の回ごとの `i`。 -/
def ints (lo hi : Int) : List Int := (List.range (hi - lo).toNat).map fun k : Nat => add_int lo k

variable (fb : Framebuffer)

def gfx_put_pixel (mem : ByteMem) (x y : Int) (color : BitVec 32) : ByteMem :=
  if x < 0 ∨ (fb.width : Int) ≤ x ∨ y < 0 ∨ (fb.height : Int) ≤ y then mem
  else
    let off := add32 (mul32 y.toNat fb.pitch) (mul32 x.toNat (fb.bpp / 8))
    if fb.bpp = 32 then mem.store32 off color.toNat
    else if fb.bpp = 24 then
      ((mem.store8 off (UInt8.ofBitVec (color.setWidth 8))).store8 (off + 1) (UInt8.ofBitVec ((color >>> 8).setWidth 8))).store8 (off + 2)
        (UInt8.ofBitVec ((color >>> 16).setWidth 8))
    else if fb.bpp = 16 then
      let r5 := ((color >>> 16) &&& 0xFF#32) >>> 3
      let g6 := ((color >>> 8) &&& 0xFF#32) >>> 2
      let b5 := (color &&& 0xFF#32) >>> 3
      let p := (r5 <<< 11) ||| (g6 <<< 5) ||| b5
      (mem.store8 off (UInt8.ofBitVec (p.setWidth 8))).store8 (off + 1) (UInt8.ofBitVec ((p >>> 8).setWidth 8))
    else mem

def gfx_clear (mem : ByteMem) (color : BitVec 32) : ByteMem :=
  (ints 0 fb.height).foldl (fun mem y => (ints 0 fb.width).foldl (fun mem x => gfx_put_pixel fb mem x y color) mem) mem

def gfx_hline (mem : ByteMem) (x0 x1 y : Int) (color : BitVec 32) : ByteMem :=
  (ints x0 (x1 + 1)).foldl (fun mem x => gfx_put_pixel fb mem x y color) mem

def gfx_vline (mem : ByteMem) (x y0 y1 : Int) (color : BitVec 32) : ByteMem :=
  (ints y0 (y1 + 1)).foldl (fun mem y => gfx_put_pixel fb mem x y color) mem

def gfx_rect (mem : ByteMem) (x y w h : Int) (color : BitVec 32) : ByteMem :=
  if w ≤ 0 ∨ h ≤ 0 then mem
  else
    let x1 := add_int (add_int x w) (-1)
    let y1 := add_int (add_int y h) (-1)
    let mem := gfx_hline fb mem x x1 y color
    let mem := gfx_hline fb mem x x1 y1 color
    let mem := gfx_vline fb mem x y y1 color
    gfx_vline fb mem x1 y y1 color

def gfx_fill_rect (mem : ByteMem) (x y w h : Int) (color : BitVec 32) : ByteMem :=
  (ints y (add_int y h)).foldl (fun mem row => (ints x (add_int x w)).foldl (fun mem col => gfx_put_pixel fb mem col row color) mem) mem

/-! ## 文字 -/

/-- `font_t`。幅はいつも 8、文字の数は 256 である。 -/
structure Font where
  data : List UInt8
  height : Nat
  height_pos : 0 < height
  height_le : height ≤ 32
  data_length : data.length = 256 * height

/-- `malloc` の成否は `alloc` である。 -/
def gfx_font_load (alloc : Bool) (file : List UInt8) : Option Font :=
  match file with
  | magic :: _ :: height :: data =>
    if magic ≠ 0x36 then none
    else if h : 0 < height.toNat ∧ height.toNat ≤ 32 then
      if alloc then
        if hlen : (data.take (256 * height.toNat)).length = 256 * height.toNat then
          some ⟨data.take (256 * height.toNat), height.toNat, h.1, h.2, hlen⟩
        else none
      else none
    else none
  | _ => none

/-- `bits & (0x80 >> col)`。 -/
def Font.bit (font : Font) (c : UInt8) (row col : Nat) : Bool :=
  decide ((font.data.getD (c.toNat * font.height + row) 0 &&& ((0x80 : UInt8) >>> UInt8.ofNat col)) ≠ 0)

section
variable (font : Option Font)

def gfx_char (mem : ByteMem) (x y : Int) (c : UInt8) (fg bg : BitVec 32) : ByteMem :=
  match font with
  | none => mem
  | some font =>
    (List.range font.height).foldl (fun mem (row : Nat) =>
      (List.range 8).foldl (fun mem (col : Nat) =>
        gfx_put_pixel fb mem (add_int x col) (add_int y row) (if font.bit c row col then fg else bg)) mem) mem

/-- 字体を読み込む前の `width` は 0 である。 -/
def font_width : Int := if font.isSome then 8 else 0

def gfx_text : ByteMem → Int → Int → List UInt8 → BitVec 32 → BitVec 32 → ByteMem
  | mem, _, _, [], _, _ => mem
  | mem, x, y, c :: str, fg, bg =>
    gfx_text (gfx_char fb font mem x y c fg bg) (add_int x (font_width font)) y str fg bg

/-- `i < len && str[i]`。`str` は終わりの 0 を含まない。 -/
def gfx_text_len (mem : ByteMem) (x y : Int) (str : List UInt8) (len : Int) (fg bg : BitVec 32) : ByteMem :=
  gfx_text fb font mem x y (str.take len.toNat) fg bg

end

/-- ライブラリの呼び出し。 -/
inductive Draw
  | put_pixel (x y : Int) (color : BitVec 32)
  | clear (color : BitVec 32)
  | hline (x0 x1 y : Int) (color : BitVec 32)
  | vline (x y0 y1 : Int) (color : BitVec 32)
  | rect (x y w h : Int) (color : BitVec 32)
  | fill_rect (x y w h : Int) (color : BitVec 32)
  | char (x y : Int) (c : UInt8) (fg bg : BitVec 32)
  | text (x y : Int) (str : List UInt8) (fg bg : BitVec 32)
  | text_len (x y : Int) (str : List UInt8) (len : Int) (fg bg : BitVec 32)

def Draw.run (font : Option Font) (mem : ByteMem) : Draw → ByteMem
  | .put_pixel x y color => gfx_put_pixel fb mem x y color
  | .clear color => gfx_clear fb mem color
  | .hline x0 x1 y color => gfx_hline fb mem x0 x1 y color
  | .vline x y0 y1 color => gfx_vline fb mem x y0 y1 color
  | .rect x y w h color => gfx_rect fb mem x y w h color
  | .fill_rect x y w h color => gfx_fill_rect fb mem x y w h color
  | .char x y c fg bg => gfx_char fb font mem x y c fg bg
  | .text x y str fg bg => gfx_text fb font mem x y str fg bg
  | .text_len x y str len fg bg => gfx_text_len fb font mem x y str len fg bg

end MyOS.Gfx
