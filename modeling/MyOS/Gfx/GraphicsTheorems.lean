import MyOS.Gfx.Graphics
import MyOS.Lib.Paint
import Mathlib.Tactic.Ring

/-!
# 描画の定理

画面の外の座標や、画面をはみ出す長方形を渡しても、塗るのは画面の中の点だけで、写したページの外へは書かない。
-/

namespace MyOS.Gfx
open MyOS.Lib

variable {fb : Framebuffer} {mem : ByteMem} {x y : Int} {color : BitVec 32}

/-! ## 点 -/

/-- 点を描く深さ。8 ビットと 15 ビットの画面には何も描かない。 -/
def Framebuffer.Draws (fb : Framebuffer) : Prop := fb.bpp = 16 ∨ fb.bpp = 24 ∨ fb.bpp = 32

instance (fb : Framebuffer) : Decidable fb.Draws := inferInstanceAs (Decidable (_ ∨ _ ∨ _))

/-- 描いた一つの点のバイト。 -/
def pixel_bytes (bpp : Nat) (color : BitVec 32) : List UInt8 :=
  if bpp = 32 then
    [UInt8.ofNat color.toNat, UInt8.ofNat (color.toNat / 256), UInt8.ofNat (color.toNat / 65536), UInt8.ofNat (color.toNat / 16777216)]
  else if bpp = 24 then
    [UInt8.ofBitVec (color.setWidth 8), UInt8.ofBitVec ((color >>> 8).setWidth 8), UInt8.ofBitVec ((color >>> 16).setWidth 8)]
  else
    let p := ((((color >>> 16) &&& 0xFF#32) >>> 3) <<< 11) ||| ((((color >>> 8) &&& 0xFF#32) >>> 2) <<< 5) ||| ((color &&& 0xFF#32) >>> 3)
    [UInt8.ofBitVec (p.setWidth 8), UInt8.ofBitVec ((p >>> 8).setWidth 8)]

theorem pixel_bytes_length (h : fb.Draws) (color : BitVec 32) : (pixel_bytes fb.bpp color).length = fb.bpp / 8 := by
  unfold pixel_bytes
  rcases h with h | h | h <;> rw [h] <;> rfl

/-- 続くバイトを書く。 -/
def put_bytes (mem : ByteMem) (off : Nat) (bs : List UInt8) : ByteMem :=
  fun a => if off ≤ a ∧ a < off + bs.length then bs.getD (a - off) 0 else mem a

theorem put_bytes_nil (mem : ByteMem) (off : Nat) : put_bytes mem off [] = mem := by
  funext a
  exact if_neg (by rw [List.length_nil]; omega)

theorem put_bytes_cons (mem : ByteMem) (off : Nat) (b : UInt8) (bs : List UInt8) :
    put_bytes mem off (b :: bs) = put_bytes (mem.store8 off b) (off + 1) bs := by
  funext a
  unfold put_bytes ByteMem.store8
  rw [List.length_cons]
  by_cases ha : a = off
  · rw [if_pos (by omega), if_neg (by omega), if_pos ha, ha, Nat.sub_self]
    rfl
  · by_cases hin : off ≤ a ∧ a < off + (bs.length + 1)
    · rw [if_pos hin, if_pos (by omega), show a - off = a - (off + 1) + 1 by omega]
      rfl
    · rw [if_neg hin, if_neg (by omega), if_neg ha]

/-- 画面の中の点。 -/
def Framebuffer.Inside (fb : Framebuffer) (x y : Int) : Prop := 0 ≤ x ∧ x < fb.width ∧ 0 ≤ y ∧ y < fb.height

instance (fb : Framebuffer) (x y : Int) : Decidable (fb.Inside x y) :=
  inferInstanceAs (Decidable (0 ≤ x ∧ x < fb.width ∧ 0 ≤ y ∧ y < fb.height))

/-- 点の番号。 -/
def Framebuffer.index (fb : Framebuffer) (x y : Int) : Nat := y.toNat * fb.width + x.toNat

def Framebuffer.offset (fb : Framebuffer) (x y : Int) : Nat := fb.index x y * (fb.bpp / 8)

theorem Framebuffer.index_lt (h : fb.Inside x y) : fb.index x y + 1 ≤ fb.height * fb.width := by
  obtain ⟨hx, hxw, hy, hyh⟩ := h
  have hrow : (y.toNat + 1) * fb.width ≤ fb.height * fb.width := Nat.mul_le_mul_right _ (by omega)
  rw [Nat.add_mul, Nat.one_mul] at hrow
  unfold Framebuffer.index
  omega

theorem Framebuffer.index_inj {x' y' : Int} (h : fb.Inside x y) (h' : fb.Inside x' y') (heq : fb.index x y = fb.index x' y') :
    x = x' ∧ y = y' := by
  obtain ⟨hx, hxw, hy, hyh⟩ := h
  obtain ⟨hx', hxw', hy', hyh'⟩ := h'
  unfold Framebuffer.index at heq
  have hpos : 0 < fb.width := by omega
  have hrow : y.toNat = y'.toNat := by
    have hdiv := congrArg (· / fb.width) heq
    simpa [Nat.div_eq_of_lt (show x.toNat < fb.width by omega), Nat.div_eq_of_lt (show x'.toNat < fb.width by omega), Nat.add_comm,
      Nat.add_mul_div_right _ _ hpos] using hdiv
  rw [hrow] at heq
  omega

theorem Framebuffer.offset_eq (h : fb.Inside x y) : add32 (mul32 y.toNat fb.pitch) (mul32 x.toNat (fb.bpp / 8)) = fb.offset x y := by
  have hlt := Framebuffer.index_lt h
  have hsize : fb.height * fb.width ≤ 4096 * 4096 := Nat.mul_le_mul fb.height_le fb.width_le
  have hdepth : fb.bpp / 8 ≤ 4 := by
    have := fb.bpp_le
    omega
  have hoff : fb.offset x y = y.toNat * fb.pitch + x.toNat * (fb.bpp / 8) := by
    unfold Framebuffer.offset Framebuffer.index
    rw [fb.pitch_eq]
    ring
  have hbound : fb.offset x y ≤ 4096 * 4096 * 4 := Nat.mul_le_mul (by omega) hdepth
  rw [mul32_eq (by omega), mul32_eq (by omega), add32_eq (by omega), hoff]

/-- 画面の中の、描ける点。 -/
def Framebuffer.Shows (fb : Framebuffer) (x y : Int) : Prop := fb.Draws ∧ fb.Inside x y

instance (fb : Framebuffer) (x y : Int) : Decidable (fb.Shows x y) := inferInstanceAs (Decidable (_ ∧ _))

theorem gfx_put_pixel_eq (mem : ByteMem) (x y : Int) (color : BitVec 32) : gfx_put_pixel fb mem x y color =
    if fb.Shows x y then put_bytes mem (fb.offset x y) (pixel_bytes fb.bpp color) else mem := by
  unfold gfx_put_pixel
  by_cases hin : fb.Inside x y
  · have hclip : ¬ (x < 0 ∨ (fb.width : Int) ≤ x ∨ y < 0 ∨ (fb.height : Int) ≤ y) := by
      unfold Framebuffer.Inside at hin
      omega
    rw [if_neg hclip, Framebuffer.offset_eq hin]
    dsimp only
    by_cases hdraw : fb.Draws
    · have hshow : fb.Shows x y := ⟨hdraw, hin⟩
      rw [if_pos hshow]
      unfold pixel_bytes
      rcases hdraw with h | h | h
      · rw [if_neg (by omega), if_neg (by omega), if_pos h, if_neg (by omega), if_neg (by omega)]
        simp only [put_bytes_cons, put_bytes_nil]
      · rw [if_neg (by omega), if_pos h, if_neg (by omega), if_pos h]
        simp only [put_bytes_cons, put_bytes_nil]
      · rw [if_pos h, if_pos h]
        simp only [put_bytes_cons, put_bytes_nil, ByteMem.store32]
    · have hshow : ¬ fb.Shows x y := fun hs => hdraw hs.1
      unfold Framebuffer.Draws at hdraw
      rw [if_neg hshow, if_neg (by omega), if_neg (by omega), if_neg (by omega)]
  · have hclip : x < 0 ∨ (fb.width : Int) ≤ x ∨ y < 0 ∨ (fb.height : Int) ≤ y := by
      unfold Framebuffer.Inside at hin
      omega
    have hshow : ¬ fb.Shows x y := fun hs => hin hs.2
    rw [if_pos hclip, if_neg hshow]

/-! ## 見え方 -/

/-- 画面の点か、画面の後のバイト。 -/
abbrev Spot := (Int × Int) ⊕ Nat

/-- 点のバイト。 -/
def pixel (fb : Framebuffer) (mem : ByteMem) (x y : Int) : List UInt8 := (List.range (fb.bpp / 8)).map fun k => mem (fb.offset x y + k)

/-- 画面の外の点は何も見せない。 -/
def view (fb : Framebuffer) (mem : ByteMem) : Spot → List UInt8
  | .inl (x, y) => if fb.Inside x y then pixel fb mem x y else []
  | .inr a => [mem (fb.height * fb.pitch + a)]

theorem view_pixel (h : fb.Inside x y) : view fb mem (.inl (x, y)) = pixel fb mem x y := if_pos h

theorem view_outside (h : ¬ fb.Inside x y) : view fb mem (.inl (x, y)) = [] := if_neg h

/-- 点を決まった色で塗る。 -/
def Colors (fb : Framebuffer) (f : ByteMem → ByteMem) (R : Int → Int → Prop) (c : Int → Int → BitVec 32) : Prop :=
  Paints (view fb) f (fun p => ∃ x y, p = .inl (x, y) ∧ fb.Shows x y ∧ R x y)
    fun p => p.elim (fun q => pixel_bytes fb.bpp (c q.1 q.2)) fun _ => []

theorem put_bytes_read {bs : List UInt8} {off n : Nat} (h : bs.length = n) : (List.range n).map (fun k => put_bytes mem off bs (off + k)) = bs := by
  subst h
  refine List.ext_getElem (by simp) fun k hk hk' => ?_
  rw [List.getElem_map, List.getElem_range, put_bytes, if_pos (by omega), Nat.add_sub_cancel_left, List.getD_eq_getElem?_getD,
    List.getElem?_eq_getElem hk', Option.getD_some]

theorem put_bytes_disjoint {bs : List UInt8} {off a n : Nat} (h : a + n ≤ off ∨ off + bs.length ≤ a) {k : Nat} (hk : k < n) :
    put_bytes mem off bs (a + k) = mem (a + k) := if_neg (by omega)

/-- 二つの点のバイトは重ならない。 -/
theorem Framebuffer.offset_disjoint {x' y' : Int} (h : fb.Inside x y) (h' : fb.Inside x' y') (hne : ¬ (x' = x ∧ y' = y)) :
    fb.offset x' y' + fb.bpp / 8 ≤ fb.offset x y ∨ fb.offset x y + fb.bpp / 8 ≤ fb.offset x' y' := by
  have hindex : fb.index x y ≠ fb.index x' y' := fun heq => by
    obtain ⟨hx, hy⟩ := Framebuffer.index_inj h h' heq
    exact hne ⟨hx.symm, hy.symm⟩
  have hnext : ∀ i j : Nat, i < j → i * (fb.bpp / 8) + fb.bpp / 8 ≤ j * (fb.bpp / 8) := fun i j hij => by
    have := Nat.mul_le_mul_right (fb.bpp / 8) (show i + 1 ≤ j from hij)
    rwa [Nat.add_mul, Nat.one_mul] at this
  unfold Framebuffer.offset
  rcases Nat.lt_or_gt_of_ne hindex with hlt | hlt
  · have := hnext _ _ hlt
    omega
  · have := hnext _ _ hlt
    omega

/-- 点のバイトは、画面の大きさに収まる。 -/
theorem Framebuffer.offset_lt (h : fb.Inside x y) : fb.offset x y + fb.bpp / 8 ≤ fb.height * fb.pitch := by
  have hmul := Nat.mul_le_mul_right (fb.bpp / 8) (Framebuffer.index_lt h)
  rw [Nat.add_mul, Nat.one_mul, Nat.mul_assoc, ← fb.pitch_eq] at hmul
  unfold Framebuffer.offset
  omega

theorem put_pixel_colors (fb : Framebuffer) (x y : Int) (c : Int → Int → BitVec 32) :
    Colors fb (fun mem => gfx_put_pixel fb mem x y (c x y)) (fun px py => px = x ∧ py = y) c := by
  refine ⟨?_, ?_⟩
  · rintro mem _ ⟨_, _, rfl, hshow, rfl, rfl⟩
    rw [gfx_put_pixel_eq, if_pos hshow, view_pixel hshow.2]
    exact put_bytes_read (pixel_bytes_length hshow.1 _)
  · intro mem p hp
    rw [gfx_put_pixel_eq]
    by_cases hshow : fb.Shows x y
    · have hlen := pixel_bytes_length hshow.1 (c x y)
      rw [if_pos hshow]
      rcases p with ⟨px, py⟩ | a
      · by_cases hin' : fb.Inside px py
        · rw [view_pixel hin', view_pixel hin']
          have hdisjoint := Framebuffer.offset_disjoint hshow.2 hin' fun heq => hp ⟨px, py, rfl, ⟨hshow.1, hin'⟩, heq⟩
          rw [← hlen] at hdisjoint
          exact List.map_congr_left fun k hk => put_bytes_disjoint hdisjoint (hlen ▸ List.mem_range.mp hk)
        · rw [view_outside hin', view_outside hin']
      · have hfit := Framebuffer.offset_lt hshow.2
        rw [← hlen] at hfit
        exact congrArg (fun b => [b]) (if_neg (by omega))
    · rw [if_neg hshow]

/-! ## 繰り返し -/

variable {f g : ByteMem → ByteMem} {R R' : Int → Int → Prop} {c c' : Int → Int → BitVec 32}

/-- 画面の外の点は問わない。 -/
theorem Colors.congr (h : Colors fb f R c) (hR : ∀ x y, fb.Inside x y → (R' x y ↔ R x y)) (hc : ∀ x y, R x y → c' x y = c x y) :
    Colors fb f R' c' := by
  refine Paints.congr h (fun p => ?_) ?_
  · constructor
    · rintro ⟨x, y, rfl, hin, hp⟩
      exact ⟨x, y, rfl, hin, (hR x y hin.2).mp hp⟩
    · rintro ⟨x, y, rfl, hin, hp⟩
      exact ⟨x, y, rfl, hin, (hR x y hin.2).mpr hp⟩
  · rintro _ ⟨x, y, rfl, -, hp⟩
    exact congrArg (pixel_bytes fb.bpp) (hc x y hp)

theorem Colors.comp (hf : Colors fb f R c) (hg : Colors fb g R' c) : Colors fb (fun mem => g (f mem)) (fun x y => R x y ∨ R' x y) c := by
  refine (Paints.comp hf hg).congr (fun p => ?_) fun _ _ => rfl
  constructor
  · rintro ⟨x, y, rfl, hin, h | h⟩
    · exact .inl ⟨x, y, rfl, hin, h⟩
    · exact .inr ⟨x, y, rfl, hin, h⟩
  · rintro (⟨x, y, rfl, hin, h⟩ | ⟨x, y, rfl, hin, h⟩)
    · exact ⟨x, y, rfl, hin, .inl h⟩
    · exact ⟨x, y, rfl, hin, .inr h⟩

theorem Colors.foldl {ι : Type} {l : List ι} {step : ByteMem → ι → ByteMem} {R : ι → Int → Int → Prop}
    (h : ∀ i ∈ l, Colors fb (fun mem => step mem i) (R i) c) : Colors fb (fun mem => l.foldl step mem) (fun x y => ∃ i ∈ l, R i x y) c := by
  refine (Paints.foldl h).congr (fun p => ?_) fun _ _ => rfl
  constructor
  · rintro ⟨x, y, rfl, hin, i, hi, h⟩
    exact ⟨i, hi, x, y, rfl, hin, h⟩
  · rintro ⟨i, hi, x, y, rfl, hin, h⟩
    exact ⟨x, y, rfl, hin, i, hi, h⟩

theorem Colors.none (fb : Framebuffer) (c : Int → Int → BitVec 32) (hR : ∀ x y, ¬ R x y) : Colors fb (fun mem => mem) R c := by
  refine (Paints.id (view fb) _).congr (fun p => iff_of_false ?_ id) fun _ _ => rfl
  rintro ⟨x, y, -, -, h⟩
  exact hR x y h

/-- `int` の範囲。 -/
def IsInt (a : Int) : Prop := -2 ^ 31 ≤ a ∧ a < 2 ^ 31

theorem add_int_eq {a b : Int} (h : IsInt (a + b)) : add_int a b = a + b := by
  unfold add_int
  unfold IsInt at h
  rw [Int.bmod_eq_of_le (by omega) (by omega)]

theorem mem_ints {lo hi a : Int} (hlo : -2 ^ 31 ≤ lo) (hhi : hi ≤ 2 ^ 31) : a ∈ ints lo hi ↔ lo ≤ a ∧ a < hi := by
  unfold ints
  rw [List.mem_map]
  constructor
  · rintro ⟨k, hk, rfl⟩
    have hk := List.mem_range.mp hk
    rw [add_int_eq ⟨by omega, by omega⟩]
    omega
  · intro h
    refine ⟨(a - lo).toNat, List.mem_range.mpr (by omega), ?_⟩
    rw [add_int_eq ⟨by omega, by omega⟩]
    omega

/-! ## 呼び出し -/

variable {font : Option Font}

/-- 呼び出しの覆う点。 -/
def Draw.covers (font : Option Font) : Draw → Int → Int → Prop
  | .put_pixel x y _, px, py => px = x ∧ py = y
  | .clear _, _, _ => True
  | .hline x0 x1 y _, px, py => x0 ≤ px ∧ px ≤ x1 ∧ py = y
  | .vline x y0 y1 _, px, py => px = x ∧ y0 ≤ py ∧ py ≤ y1
  | .rect x y w h _, px, py => x ≤ px ∧ px < x + w ∧ y ≤ py ∧ py < y + h ∧ (px = x ∨ px = x + w - 1 ∨ py = y ∨ py = y + h - 1)
  | .fill_rect x y w h _, px, py => x ≤ px ∧ px < x + w ∧ y ≤ py ∧ py < y + h
  | .char x y _ _ _, px, py => ∃ f ∈ font, x ≤ px ∧ px < x + 8 ∧ y ≤ py ∧ py < y + f.height
  | .text x y str _ _, px, py => ∃ f ∈ font, x ≤ px ∧ px < x + 8 * str.length ∧ y ≤ py ∧ py < y + f.height
  | .text_len x y str len _ _, px, py => ∃ f ∈ font, x ≤ px ∧ px < x + 8 * (str.take len.toNat).length ∧ y ≤ py ∧ py < y + f.height

/-- `x` から書く文字の列の、点の色。 -/
def glyph_color (font : Option Font) (x y : Int) (str : List UInt8) (fg bg : BitVec 32) (px py : Int) : BitVec 32 :=
  match font with
  | none => bg
  | some f => if f.bit (str.getD ((px - x) / 8).toNat 0) (py - y).toNat ((px - x) % 8).toNat then fg else bg

/-- 呼び出しの塗る色。 -/
def Draw.ink (font : Option Font) : Draw → Int → Int → BitVec 32
  | .put_pixel _ _ color | .clear color | .hline _ _ _ color | .vline _ _ _ color | .rect _ _ _ _ color | .fill_rect _ _ _ _ color =>
    fun _ _ => color
  | .char x y c fg bg => glyph_color font x y [c] fg bg
  | .text x y str fg bg => glyph_color font x y str fg bg
  | .text_len x y str len fg bg => glyph_color font x y (str.take len.toNat) fg bg

/-- 座標の和が `int` に収まる。 -/
def Draw.Fits : Draw → Prop
  | .put_pixel _ _ _ | .clear _ => True
  | .hline x0 x1 _ _ => IsInt x0 ∧ IsInt (x1 + 1)
  | .vline _ y0 y1 _ => IsInt y0 ∧ IsInt (y1 + 1)
  | .rect x y w h _ => IsInt x ∧ IsInt y ∧ IsInt (x + w) ∧ IsInt (y + h)
  | .fill_rect x y w h _ => IsInt x ∧ IsInt y ∧ IsInt (x + w) ∧ IsInt (y + h)
  | .char x y _ _ _ => IsInt x ∧ IsInt y ∧ IsInt (x + 8) ∧ IsInt (y + 32)
  | .text x y str _ _ => IsInt x ∧ IsInt y ∧ IsInt (x + 8 * str.length) ∧ IsInt (y + 32)
  | .text_len x y str len _ _ => IsInt x ∧ IsInt y ∧ IsInt (x + 8 * (str.take len.toNat).length) ∧ IsInt (y + 32)

theorem hline_colors {x0 x1 : Int} (h0 : IsInt x0) (h1 : IsInt (x1 + 1)) (y : Int) (color : BitVec 32) :
    Colors fb (fun mem => gfx_hline fb mem x0 x1 y color) (fun px py => x0 ≤ px ∧ px ≤ x1 ∧ py = y) fun _ _ => color := by
  have hloop := Colors.foldl (l := ints x0 (x1 + 1)) fun i _ => put_pixel_colors fb i y fun _ _ => color
  refine hloop.congr (fun px py _ => ?_) fun _ _ _ => rfl
  constructor
  · rintro ⟨hlo, hhi, hy⟩
    exact ⟨px, (mem_ints h0.1 (Int.le_of_lt h1.2)).mpr ⟨hlo, by omega⟩, rfl, hy⟩
  · rintro ⟨i, hi, rfl, hy⟩
    have := (mem_ints h0.1 (Int.le_of_lt h1.2)).mp hi
    exact ⟨this.1, by omega, hy⟩

theorem vline_colors {y0 y1 : Int} (h0 : IsInt y0) (h1 : IsInt (y1 + 1)) (x : Int) (color : BitVec 32) :
    Colors fb (fun mem => gfx_vline fb mem x y0 y1 color) (fun px py => px = x ∧ y0 ≤ py ∧ py ≤ y1) fun _ _ => color := by
  have hloop := Colors.foldl (l := ints y0 (y1 + 1)) fun i _ => put_pixel_colors fb x i fun _ _ => color
  refine hloop.congr (fun px py _ => ?_) fun _ _ _ => rfl
  constructor
  · rintro ⟨hx, hlo, hhi⟩
    exact ⟨py, (mem_ints h0.1 (Int.le_of_lt h1.2)).mpr ⟨hlo, by omega⟩, hx, rfl⟩
  · rintro ⟨i, hi, hx, rfl⟩
    have := (mem_ints h0.1 (Int.le_of_lt h1.2)).mp hi
    exact ⟨hx, this.1, by omega⟩

/-- 行ごとに塗る。 -/
theorem rows_colors {x0 x1 y0 y1 : Int} (hx0 : IsInt x0) (hx1 : IsInt x1) (hy0 : IsInt y0) (hy1 : IsInt y1) (color : BitVec 32) :
    Colors fb (fun mem => (ints y0 y1).foldl (fun mem row => (ints x0 x1).foldl (fun mem col => gfx_put_pixel fb mem col row color) mem) mem)
      (fun px py => x0 ≤ px ∧ px < x1 ∧ y0 ≤ py ∧ py < y1) fun _ _ => color := by
  have hloop := Colors.foldl (l := ints y0 y1) fun row _ =>
    Colors.foldl (l := ints x0 x1) fun col _ => put_pixel_colors fb col row fun _ _ => color
  refine hloop.congr (fun px py _ => ?_) fun _ _ _ => rfl
  constructor
  · rintro ⟨hxlo, hxhi, hylo, hyhi⟩
    exact ⟨py, (mem_ints hy0.1 (Int.le_of_lt hy1.2)).mpr ⟨hylo, hyhi⟩, px, (mem_ints hx0.1 (Int.le_of_lt hx1.2)).mpr ⟨hxlo, hxhi⟩, rfl, rfl⟩
  · rintro ⟨row, hrow, col, hcol, rfl, rfl⟩
    have hrow := (mem_ints hy0.1 (Int.le_of_lt hy1.2)).mp hrow
    have hcol := (mem_ints hx0.1 (Int.le_of_lt hx1.2)).mp hcol
    exact ⟨hcol.1, hcol.2, hrow.1, hrow.2⟩

theorem clear_colors (fb : Framebuffer) (color : BitVec 32) : Colors fb (fun mem => gfx_clear fb mem color) (fun _ _ => True) fun _ _ => color := by
  have hw := fb.width_le
  have hh := fb.height_le
  have hzero : IsInt 0 := ⟨by decide, by decide⟩
  have hrows : Colors fb _ _ _ := rows_colors hzero (⟨by omega, by omega⟩ : IsInt fb.width) hzero (⟨by omega, by omega⟩ : IsInt fb.height) color
  refine hrows.congr (fun px py hin => iff_of_true trivial ?_) fun _ _ _ => rfl
  obtain ⟨hx, hxw, hy, hyh⟩ := hin
  exact ⟨hx, hxw, hy, hyh⟩

theorem rect_colors {x y w h : Int} (hx : IsInt x) (hy : IsInt y) (hw : IsInt (x + w)) (hh : IsInt (y + h)) (color : BitVec 32) :
    Colors fb (fun mem => gfx_rect fb mem x y w h color)
      (fun px py => x ≤ px ∧ px < x + w ∧ y ≤ py ∧ py < y + h ∧ (px = x ∨ px = x + w - 1 ∨ py = y ∨ py = y + h - 1)) fun _ _ => color := by
  by_cases hempty : w ≤ 0 ∨ h ≤ 0
  · have hnone : ∀ mem, gfx_rect fb mem x y w h color = mem := fun mem => if_pos hempty
    simp only [hnone]
    exact Colors.none fb _ fun px py => by omega
  · have hx1 : add_int (add_int x w) (-1) = x + w - 1 := by
      rw [add_int_eq hw, add_int_eq ⟨by have := hx.1; omega, by have := hw.2; omega⟩]
      rfl
    have hy1 : add_int (add_int y h) (-1) = y + h - 1 := by
      rw [add_int_eq hh, add_int_eq ⟨by have := hy.1; omega, by have := hh.2; omega⟩]
      rfl
    have hdraw : ∀ mem, gfx_rect fb mem x y w h color = gfx_vline fb (gfx_vline fb (gfx_hline fb (gfx_hline fb mem x (x + w - 1) y color)
        x (x + w - 1) (y + h - 1) color) x y (y + h - 1) color) (x + w - 1) y (y + h - 1) color := by
      intro mem
      unfold gfx_rect
      rw [if_neg hempty, hx1, hy1]
    simp only [hdraw]
    have hright : IsInt (x + w - 1 + 1) := by rwa [Int.sub_add_cancel]
    have hbottom : IsInt (y + h - 1 + 1) := by rwa [Int.sub_add_cancel]
    have htop : Colors fb _ _ _ := hline_colors hx hright y color
    have hsides := ((htop.comp (hline_colors hx hright (y + h - 1) color)).comp
      (vline_colors hy hbottom x color)).comp (vline_colors hy hbottom (x + w - 1) color)
    refine hsides.congr (fun px py _ => ?_) fun _ _ _ => rfl
    omega

theorem fill_rect_colors {x y w h : Int} (hx : IsInt x) (hy : IsInt y) (hw : IsInt (x + w)) (hh : IsInt (y + h)) (color : BitVec 32) :
    Colors fb (fun mem => gfx_fill_rect fb mem x y w h color) (fun px py => x ≤ px ∧ px < x + w ∧ y ≤ py ∧ py < y + h) fun _ _ => color := by
  unfold gfx_fill_rect
  rw [add_int_eq hw, add_int_eq hh]
  exact rows_colors hx hw hy hh color

theorem char_colors {x y : Int} {f : Font} {ch : UInt8} {fg bg : BitVec 32} {c : Int → Int → BitVec 32} (hx : IsInt x) (hy : IsInt y) (hx8 : IsInt (x + 8))
    (hy32 : IsInt (y + 32)) (hc : ∀ row col : Nat, row < f.height → col < 8 → c (x + col) (y + row) = if f.bit ch row col then fg else bg) :
    Colors fb (fun mem => gfx_char fb (some f) mem x y ch fg bg) (fun px py => x ≤ px ∧ px < x + 8 ∧ y ≤ py ∧ py < y + f.height) c := by
  have hheight := f.height_le
  have hpoint : ∀ row ∈ List.range f.height, ∀ col ∈ List.range 8,
      Colors fb (fun mem => gfx_put_pixel fb mem (add_int x (col : Nat)) (add_int y (row : Nat)) (if f.bit ch row col then fg else bg))
        (fun px py => px = x + col ∧ py = y + row) c := by
    intro row hrow col hcol
    have hrow := List.mem_range.mp hrow
    have hcol := List.mem_range.mp hcol
    rw [add_int_eq ⟨by have := hx.1; omega, by have := hx8.2; omega⟩, add_int_eq ⟨by have := hy.1; omega, by have := hy32.2; omega⟩, ← hc row col hrow hcol]
    exact put_pixel_colors fb (x + col) (y + row) c
  have hloop := Colors.foldl fun row hrow => Colors.foldl (hpoint row hrow)
  refine hloop.congr (fun px py _ => ?_) fun _ _ _ => rfl
  constructor
  · rintro ⟨hxlo, hxhi, hylo, hyhi⟩
    exact ⟨(py - y).toNat, List.mem_range.mpr (by omega), (px - x).toNat, List.mem_range.mpr (by omega), by omega, by omega⟩
  · rintro ⟨row, hrow, col, hcol, rfl, rfl⟩
    have hrow := List.mem_range.mp hrow
    have hcol := List.mem_range.mp hcol
    omega

theorem text_colors {x y : Int} {f : Font} {str : List UInt8} {fg bg : BitVec 32} {c : Int → Int → BitVec 32} (hx : IsInt x) (hy : IsInt y)
    (hxlen : IsInt (x + 8 * str.length)) (hy32 : IsInt (y + 32))
    (hc : ∀ k row col : Nat, k < str.length → row < f.height → col < 8 → c (x + 8 * k + col) (y + row) = if f.bit (str.getD k 0) row col then fg else bg) :
    Colors fb (fun mem => gfx_text fb (some f) mem x y str fg bg)
      (fun px py => x ≤ px ∧ px < x + 8 * str.length ∧ y ≤ py ∧ py < y + f.height) c := by
  induction str generalizing x with
  | nil =>
    refine Colors.none fb c fun px py => ?_
    rw [List.length_nil]
    omega
  | cons ch str ih =>
    rw [List.length_cons] at hxlen
    have hx8 : IsInt (x + 8) := ⟨by have := hx.1; omega, by have := hxlen.2; omega⟩
    have hwidth : add_int x (font_width (some f)) = x + 8 := add_int_eq hx8
    have hfirst : Colors fb (fun mem => gfx_char fb (some f) mem x y ch fg bg) _ c := char_colors hx hy hx8 hy32 fun row col hrow hcol => by
      have := hc 0 row col (by simp) hrow hcol
      simpa using this
    have hrest : Colors fb (fun mem => gfx_text fb (some f) mem (x + 8) y str fg bg)
        (fun px py => x + 8 ≤ px ∧ px < x + 8 + 8 * str.length ∧ y ≤ py ∧ py < y + f.height) c := by
      refine ih hx8 ⟨by have := hx.1; omega, by have := hxlen.2; omega⟩ fun k row col hk hrow hcol => ?_
      have := hc (k + 1) row col (by simpa using hk) hrow hcol
      rw [List.getD_cons_succ] at this
      rw [← this]
      congr 1
      omega
    have hstep : ∀ mem, gfx_text fb (some f) mem x y (ch :: str) fg bg =
        gfx_text fb (some f) (gfx_char fb (some f) mem x y ch fg bg) (x + 8) y str fg bg := by
      intro mem
      rw [gfx_text, hwidth]
    simp only [hstep]
    refine (hfirst.comp hrest).congr (fun px py _ => ?_) fun _ _ _ => rfl
    rw [List.length_cons]
    omega

theorem glyph_color_eq {x y : Int} {f : Font} {str : List UInt8} {fg bg : BitVec 32} {k row col : Nat} (hcol : col < 8) :
    glyph_color (some f) x y str fg bg (x + 8 * k + col) (y + row) = if f.bit (str.getD k 0) row col then fg else bg := by
  unfold glyph_color
  dsimp only
  rw [show ((x + 8 * k + col - x) / 8).toNat = k by omega, show ((x + 8 * k + col - x) % 8).toNat = col by omega,
    show (y + row - y).toNat = row by omega]

theorem gfx_text_none (x y : Int) (str : List UInt8) (fg bg : BitVec 32) (mem : ByteMem) : gfx_text fb none mem x y str fg bg = mem := by
  induction str generalizing x with
  | nil => rfl
  | cons c str ih =>
    rw [gfx_text]
    exact ih _

/-- 一つの呼び出しは、覆う点だけを塗る。 -/
theorem Draw.colors {d : Draw} (h : d.Fits) : Colors fb (fun mem => d.run fb font mem) (d.covers font) (d.ink font) := by
  cases d with
  | put_pixel x y color => exact put_pixel_colors fb x y fun _ _ => color
  | clear color => exact clear_colors fb color
  | hline x0 x1 y color => exact hline_colors h.1 h.2 y color
  | vline x y0 y1 color => exact vline_colors h.1 h.2 x color
  | rect x y w h' color => exact rect_colors h.1 h.2.1 h.2.2.1 h.2.2.2 color
  | fill_rect x y w h' color => exact fill_rect_colors h.1 h.2.1 h.2.2.1 h.2.2.2 color
  | char x y c fg bg =>
    cases font with
    | none => exact Colors.none fb _ fun _ _ => by simp [Draw.covers]
    | some f =>
      have hchar : Colors fb (fun mem => gfx_char fb (some f) mem x y c fg bg) _ (glyph_color (some f) x y [c] fg bg) :=
        char_colors h.1 h.2.1 h.2.2.1 h.2.2.2 fun row col _ hcol => by
          have hglyph : glyph_color (some f) x y [c] fg bg (x + 8 * (0 : Nat) + col) (y + row) = _ := glyph_color_eq hcol
          simpa using hglyph
      exact hchar.congr (fun _ _ _ => by simp [Draw.covers]) fun _ _ _ => rfl
  | text x y str fg bg =>
    cases font with
    | none =>
      simp only [Draw.run, gfx_text_none]
      exact Colors.none fb _ fun _ _ => by simp [Draw.covers]
    | some f =>
      have htext : Colors fb (fun mem => gfx_text fb (some f) mem x y str fg bg) _ (glyph_color (some f) x y str fg bg) :=
        text_colors h.1 h.2.1 h.2.2.1 h.2.2.2 fun k row col _ _ hcol => glyph_color_eq hcol
      exact htext.congr (fun _ _ _ => by simp [Draw.covers]) fun _ _ _ => rfl
  | text_len x y str len fg bg =>
    cases font with
    | none =>
      simp only [Draw.run, gfx_text_len, gfx_text_none]
      exact Colors.none fb _ fun _ _ => by simp [Draw.covers]
    | some f =>
      have htext : Colors fb (fun mem => gfx_text fb (some f) mem x y (str.take len.toNat) fg bg) _
          (glyph_color (some f) x y (str.take len.toNat) fg bg) :=
        text_colors h.1 h.2.1 h.2.2.1 h.2.2.2 fun k row col _ _ hcol => glyph_color_eq hcol
      exact htext.congr (fun _ _ _ => by simp [Draw.covers]) fun _ _ _ => rfl

/-! ## 呼び出しの列 -/

variable {ds pre post : List Draw} {d : Draw}

/-- 覆われない点は変わらない。点を描かない深さでは、どの点も変わらない。 -/
theorem draws_keep (hfits : ∀ d ∈ ds, d.Fits) {p : Spot} (hp : ∀ d ∈ ds, ∀ x y, p = .inl (x, y) → fb.Draws → ¬ d.covers font x y)
    (mem : ByteMem) : view fb (ds.foldl (Draw.run fb font) mem) p = view fb mem p := by
  induction ds generalizing mem with
  | nil => rfl
  | cons d ds ih =>
    obtain ⟨hd, hds⟩ := List.forall_mem_cons.mp hfits
    obtain ⟨hpd, hpds⟩ := List.forall_mem_cons.mp hp
    rw [List.foldl_cons, ih hds hpds]
    refine (Draw.colors hd).outside mem p ?_
    rintro ⟨x, y, hxy, hshow, hcovers⟩
    exact hpd x y hxy hshow.1 hcovers

/-- 最後に覆った呼び出しの色が残る。 -/
theorem draws_last (hd : d.Fits) (hpost : ∀ d ∈ post, d.Fits) (hshow : fb.Shows x y) (hcovers : d.covers font x y)
    (hlast : ∀ d ∈ post, ¬ d.covers font x y) (mem : ByteMem) :
    pixel fb ((pre ++ d :: post).foldl (Draw.run fb font) mem) x y = pixel_bytes fb.bpp (d.ink font x y) := by
  rw [← view_pixel hshow.2, List.foldl_append, List.foldl_cons, draws_keep hpost]
  · exact (Draw.colors hd).inside _ (.inl (x, y)) ⟨x, y, rfl, hshow, hcovers⟩
  · rintro d' hd' x' y' heq -
    cases heq
    exact hlast d' hd'

theorem gfx_init_maps {accepts : Bool} {width height bpp : BitVec 32} {pages : Nat} (h : gfx_init accepts width height bpp = some (fb, pages)) :
    fb.height * fb.pitch ≤ pages * BLOCK_SIZE := by
  unfold gfx_init at h
  split at h
  · split at h
    · cases h
      have hdepth : bpp.toNat / 8 ≤ (bpp.toNat + 7) / 8 := by omega
      have hrow : width.toNat * (bpp.toNat / 8) ≤ width.toNat * ((bpp.toNat + 7) / 8) := Nat.mul_le_mul_left _ hdepth
      have hall := Nat.mul_le_mul_left height.toNat hrow
      rw [Nat.mul_comm height.toNat (width.toNat * ((bpp.toNat + 7) / 8))] at hall
      show height.toNat * (width.toNat * (bpp.toNat / 8)) ≤ _
      unfold fb_pages BLOCK_SIZE
      omega
    · cases h
  · cases h

/-- どの呼び出しの列でも、画面の点は、16、24、32 ビットの画面では最後に覆った呼び出しの色か、元のバイトを見せる。8 ビットと 15 ビットの
    画面では、いつも元のバイトを見せる。写したページの中の画面の後にも、その外にも、書かない。 -/
theorem draws_paint {accepts : Bool} {width height bpp : BitVec 32} {pages : Nat} (hinit : gfx_init accepts width height bpp = some (fb, pages))
    (hfits : ∀ d ∈ ds, d.Fits) (mem : ByteMem) :
    (∀ x y pre d post, fb.Draws → fb.Inside x y → ds = pre ++ d :: post → d.covers font x y → (∀ d' ∈ post, ¬ d'.covers font x y) →
      pixel fb (ds.foldl (Draw.run fb font) mem) x y = pixel_bytes fb.bpp (d.ink font x y)) ∧
    (∀ x y, fb.Inside x y → (fb.Draws → ∀ d ∈ ds, ¬ d.covers font x y) →
      pixel fb (ds.foldl (Draw.run fb font) mem) x y = pixel fb mem x y) ∧
    fb.height * fb.pitch ≤ pages * BLOCK_SIZE ∧ ∀ a, fb.height * fb.pitch ≤ a → ds.foldl (Draw.run fb font) mem a = mem a := by
  refine ⟨?_, fun x y hin hnone => ?_, gfx_init_maps hinit, fun a ha => ?_⟩
  · rintro x y pre d post hdraw hin rfl hcovers hlast
    exact draws_last (hfits d (by simp)) (fun d' hd' => hfits d' (by simp [hd'])) ⟨hdraw, hin⟩ hcovers hlast mem
  · rw [← view_pixel hin, ← view_pixel hin]
    refine draws_keep hfits ?_ mem
    rintro d hd x' y' heq hdraw
    cases heq
    exact hnone hdraw d hd
  · have hkeep : view fb (ds.foldl (Draw.run fb font) mem) (.inr (a - fb.height * fb.pitch)) = view fb mem (.inr (a - fb.height * fb.pitch)) :=
      draws_keep hfits (fun _ _ _ _ h => by cases h) mem
    have hbyte := List.singleton_inj.mp hkeep
    rwa [Nat.add_sub_cancel' ha] at hbyte

/-- 四角を塗り、その上に、画面を左にはみ出す枠を書く。 -/
theorem draws_paint_framed : ∃ fb pages, gfx_init true 320 200 32 = some (fb, pages) ∧
    pixel fb ([Draw.fill_rect 50 120 100 60 0xFF, .rect (-10) 105 280 200 0xFFFFFF].foldl (Draw.run fb none) fun _ => 0) 50 150 = [0xFF, 0, 0, 0] := by
  have hfits : ∀ d ∈ [Draw.fill_rect 50 120 100 60 0xFF, .rect (-10) 105 280 200 0xFFFFFF], d.Fits := by
    intro d hd
    simp only [List.mem_cons, List.not_mem_nil, or_false] at hd
    rcases hd with rfl | rfl
    · exact ⟨⟨by decide, by decide⟩, ⟨by decide, by decide⟩, ⟨by decide, by decide⟩, ⟨by decide, by decide⟩⟩
    · exact ⟨⟨by decide, by decide⟩, ⟨by decide, by decide⟩, ⟨by decide, by decide⟩, ⟨by decide, by decide⟩⟩
  have hinit : gfx_init true 320 200 32 = some _ := rfl
  refine ⟨_, _, hinit, ?_⟩
  refine (draws_paint hinit hfits _).1 50 150 [] _ [_] (by decide) (by decide) rfl ⟨by decide, by decide, by decide, by decide⟩ ?_
  intro d hd
  obtain rfl := List.mem_singleton.mp hd
  unfold Draw.covers
  omega

end MyOS.Gfx