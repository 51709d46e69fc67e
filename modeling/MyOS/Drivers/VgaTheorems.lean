import MyOS.Drivers.Vga

/-!
# 文字の画面の定理

カーソルはいつも画面の中にあり、画面の文字は、基準の端末に見える 25 行に等しい。
-/

namespace MyOS.Drivers
open MyOS.Lib

namespace Vga

variable {v w u : Vga} {c : UInt8} {k : Int} {b : BitVec 16}

/-- セル `k` の文字。 -/
def char (v : Vga) (k : Int) : UInt8 := v.vgamem (2 * k)

/-- `v` から `w` までに、画面の中のセルだけに触れた。カーソルと色は変わらない。 -/
structure Drew (v w : Vga) : Prop where
  attrib : w.attrib = v.attrib
  csr_x : w.csr_x = v.csr_x
  csr_y : w.csr_y = v.csr_y
  col_next : w.col_next = v.col_next
  touched : ∀ k ∈ w.touched, k ∈ v.touched ∨ 0 ≤ k ∧ k < 2000

/-! ## セルの文字 -/

/-- 符号を広げても、下のバイトは変わらない。 -/
theorem low_cell (c : UInt8) (a : Int) : .ofBitVec ((cell (int_of_char c) a).setWidth 8) = c := by
  have hlow : (cell (int_of_char c) a).setWidth 8 = c.toBitVec := by
    change (BitVec.signExtend 16 c.toBitVec ||| BitVec.ofInt 16 a <<< 8).setWidth 8 = c.toBitVec
    ext i hi
    simp [BitVec.getLsbD_signExtend, hi]
    omega
  rw [hlow]

theorem Drew.refl (v : Vga) : Drew v v := ⟨rfl, rfl, rfl, rfl, fun _ h => .inl h⟩

theorem Drew.trans (h : Drew v w) (h' : Drew w u) : Drew v u :=
  ⟨h'.attrib.trans h.attrib, h'.csr_x.trans h.csr_x, h'.csr_y.trans h.csr_y, h'.col_next.trans h.col_next,
    fun k hk => (h'.touched k hk).elim (h.touched k) .inr⟩

theorem drew_store {i : Int} {a : UInt8} (hi : 0 ≤ i / 2 ∧ i / 2 < 2000) : Drew v (v.store i a) := by
  refine ⟨rfl, rfl, rfl, rfl, fun k hk => ?_⟩
  rcases List.mem_cons.1 hk with rfl | hk
  · exact .inr hi
  · exact .inl hk

theorem drew_set_cell (hk : 0 ≤ k ∧ k < 2000) : Drew v (v.set_cell k b) :=
  (drew_store (by omega)).trans (drew_store (by omega))

theorem drew_copy_byte {dest src : Int} (hdest : 0 ≤ dest / 2 ∧ dest / 2 < 2000) (hsrc : 0 ≤ src / 2 ∧ src / 2 < 2000) :
    Drew v (v.copy_byte dest src) := by
  have hread : Drew v { v with touched := src / 2 :: v.touched } := by
    refine ⟨rfl, rfl, rfl, rfl, fun k hk => ?_⟩
    rcases List.mem_cons.1 hk with rfl | hk
    · exact .inr hsrc
    · exact .inl hk
  exact hread.trans (drew_store hdest)

theorem char_set_cell (j : Int) : (v.set_cell k b).char j = if j = k then .ofBitVec (b.setWidth 8) else v.char j := by
  unfold char set_cell store
  simp only
  rw [if_neg (by omega)]
  congr 1
  exact propext ⟨fun h => by omega, fun h => by rw [h]⟩

theorem drew_memsetw {dest : Int} {count : Nat} (h : 0 ≤ dest) (hend : dest + count ≤ 2000) :
    Drew v (v.memsetw dest b count) := by
  unfold memsetw
  refine foldl_range_inv (P := fun _ t => Drew v t) count (.refl v) fun k t hk ht => ht.trans (drew_set_cell ?_)
  omega

theorem char_memsetw (dest : Int) (count : Nat) (j : Int) : (v.memsetw dest b count).char j =
    if dest ≤ j ∧ j < dest + count then .ofBitVec (b.setWidth 8) else v.char j := by
  unfold memsetw
  refine foldl_range_inv (P := fun k (t : Vga) => ∀ j, t.char j =
    if dest ≤ j ∧ j < dest + k then .ofBitVec (b.setWidth 8) else v.char j) count (fun j => ?_) (fun k t _ ht j => ?_) j
  · rw [if_neg (by omega)]
  · rw [char_set_cell, ht]
    split_ifs <;> first | rfl | omega

theorem drew_memcpy {src : Int} {count : Nat} (h : 0 ≤ src) (hend : src + count ≤ 4000) : Drew v (v.memcpy 0 src count) := by
  unfold memcpy
  refine foldl_range_inv (P := fun _ t => Drew v t) count (.refl v) fun k t hk ht => ht.trans (drew_copy_byte ?_ ?_)
  · omega
  · omega

/-- 前へ写すので、重なっていても、写す前の値になる。 -/
theorem memcpy_vgamem {src : Int} (h : 0 ≤ src) (count : Nat) (j : Int) : (v.memcpy 0 src count).vgamem j =
    if 0 ≤ j ∧ j < count then v.vgamem (src + j) else v.vgamem j := by
  unfold memcpy
  refine foldl_range_inv (P := fun k (t : Vga) => ∀ j, t.vgamem j = if 0 ≤ j ∧ j < k then v.vgamem (src + j) else v.vgamem j)
    count (fun j => ?_) (fun k t _ ht j => ?_) j
  · rw [if_neg (by omega)]
  · have hnew : ¬ (0 ≤ src + k ∧ src + k < (k : Int)) := by omega
    simp only [copy_byte, store, ht, if_neg hnew, Int.zero_add]
    by_cases hj : j = k
    · rw [if_pos hj, if_pos (by omega), hj]
    · rw [if_neg hj]
      split_ifs <;> first | rfl | omega

/-! ## 画面の送りと消去 -/

theorem text_eq_char (v : Vga) (y x : Nat) : v.text y x = v.char (y * 80 + x) := rfl

/-- 見えるのは、`csr_y` が 24 を一つ越えたときの送りだけである。 -/
theorem scroll_bottom (h : v.csr_y = 25) : ∃ w, Drew v w ∧ v.scroll = { w with csr_y := 24 } ∧
    ∀ y x, y < 25 → x < 80 → w.text y x = if y < 24 then v.text (y + 1) x else SPACE := by
  have hcopy : Drew v (v.memcpy 0 160 3840) := drew_memcpy (by decide) (by decide)
  refine ⟨(v.memcpy 0 160 3840).memsetw 1920 v.blank 80, hcopy.trans (drew_memsetw (by decide) (by decide)), ?_,
    fun y x hy hx => ?_⟩
  · rw [scroll, if_pos (by omega), h]
    rfl
  · rw [text_eq_char, char_memsetw, blank, low_cell]
    by_cases hlast : y < 24
    · rw [if_neg (by omega), if_pos hlast, char, memcpy_vgamem (by decide), if_pos (by omega)]
      unfold text
      congr 1
      push_cast
      omega
    · rw [if_pos (by omega), if_neg hlast]

theorem scroll_above (h : v.csr_y < 25) : v.scroll = v := if_neg (by omega)

theorem cls_spec (v : Vga) : ∃ w, Drew v w ∧ v.cls = w.move_csr ∧ ∀ y x, y < 25 → x < 80 → w.text y x = SPACE := by
  unfold cls
  obtain ⟨hdrew, htext⟩ := foldl_range_inv (f := fun w (i : Nat) => w.memsetw (i * 80) v.blank 80) (s := v)
    (P := fun k (w : Vga) => Drew v w ∧ ∀ y x, y < k → x < 80 → w.text y x = SPACE) 25
    ⟨.refl v, fun y x hy => absurd hy (Nat.not_lt_zero y)⟩ (fun k w hk ⟨hw, ht⟩ => by
      refine ⟨hw.trans (drew_memsetw (by omega) (by omega)), fun y x hy hx => ?_⟩
      rw [text_eq_char, char_memsetw, blank, low_cell]
      by_cases hyk : y = k
      · rw [if_pos (by omega)]
      · rw [if_neg (by omega)]
        exact ht y x (by omega) hx)
  exact ⟨_, hdrew, rfl, htext⟩

/-! ## 基準の端末との対応 -/

/-- 画面には、基準の端末に見える 25 行がある。 -/
structure Shown (v : Vga) (t : Terminal) : Prop where
  escape : v.col_next = t.escape
  col : v.csr_x = t.col
  row : v.csr_y + t.top = t.row
  col_lt : t.col < 80
  top_le : t.top ≤ t.row
  row_lt : t.row < t.top + 25
  text : ∀ y x, y < 25 → x < 80 → v.text y x = t.visible y x
  below : ∀ y x, t.top + 25 ≤ y → t.lines y x = SPACE
  touched : ∀ k ∈ v.touched, 0 ≤ k ∧ k < 2000

variable {t : Terminal}

theorem Drew.in_screen (h : Drew v w) (hv : ∀ k ∈ v.touched, 0 ≤ k ∧ k < 2000) : ∀ k ∈ w.touched, 0 ≤ k ∧ k < 2000 :=
  fun k hk => (h.touched k hk).elim (hv k) id

theorem Shown.wrap (h : Shown v t) : v.wrap = v := if_neg (by have := h.col; have := h.col_lt; omega)

theorem Shown.scroll (h : Shown v t) : v.scroll = v := scroll_above (by have := h.row; have := h.row_lt; omega)

/-- 行の中に留まるなら、最後の二つの検査は何もしない。 -/
theorem Shown.settle (h : Shown v t) : Shown v.wrap.scroll.move_csr t := by
  rw [h.wrap, h.scroll]
  exact { h with }

theorem Shown.newline (h : Shown v t) : Shown { v with csr_x := 0, csr_y := v.csr_y + 1 }.scroll.move_csr t.newline := by
  have hrow := h.row
  have hlt := h.row_lt
  have hle := h.top_le
  by_cases hlast : t.row + 1 = t.top + 25
  · obtain ⟨w, hw, hscroll, htext⟩ := scroll_bottom (v := { v with csr_x := 0, csr_y := v.csr_y + 1 }) (by simp only; omega)
    rw [hscroll, Terminal.newline, if_pos hlast]
    refine {
      escape := hw.col_next.trans h.escape, col := hw.csr_x, row := ?_, col_lt := Nat.zero_lt_succ 79, top_le := ?_,
      row_lt := ?_, text := fun y x hy hx => (htext y x hy hx).trans ?_, below := fun y x hy => h.below y x ?_,
      touched := hw.in_screen h.touched }
    · simp only [move_csr]
      omega
    · simp only
      omega
    · simp only
      omega
    · unfold Terminal.visible
      by_cases hy24 : y < 24
      · rw [if_pos hy24, Nat.add_right_comm, Nat.add_assoc]
        exact h.text (y + 1) x (by omega) hx
      · rw [if_neg hy24]
        exact (h.below _ x (by simp only; omega)).symm
    · simp only at hy
      omega
  · rw [scroll_above (by simp only; omega), Terminal.newline, if_neg hlast]
    refine { h with col := rfl, row := ?_, col_lt := Nat.zero_lt_succ 79, top_le := ?_, row_lt := ?_ }
    · simp only [move_csr]
      omega
    · simp only
      omega
    · simp only
      omega

theorem Shown.advance (h : Shown v t) (n : Nat) :
    Shown { v with csr_x := v.csr_x + n }.wrap.scroll.move_csr (t.advance n) := by
  have hcol := h.col
  unfold Terminal.advance
  by_cases hn : t.col + n < 80
  · rw [if_pos hn]
    refine Shown.settle { h with col := ?_, col_lt := hn }
    simp only [hcol]
    push_cast
    rfl
  · rw [if_neg hn, Vga.wrap, if_pos (by simp only; omega)]
    exact h.newline

theorem Shown.put_cell (h : Shown v t) (c : UInt8) : Shown (v.put_cell c) (t.place c) := by
  have hcol := h.col
  have hlt := h.col_lt
  have hrow := h.row
  have htop := h.top_le
  have hbottom := h.row_lt
  have hdrew : Drew v (v.put_cell c) := drew_set_cell (by omega)
  refine { h with
    escape := hdrew.col_next.trans h.escape, col := hdrew.csr_x.trans hcol, row := ?_, text := fun y x hy hx => ?_,
    below := fun y x hy => ?_, touched := hdrew.in_screen h.touched }
  · exact (congrArg (· + (t.top : Int)) hdrew.csr_y).trans hrow
  · rw [text_eq_char, Vga.put_cell, char_set_cell, low_cell, ← text_eq_char, h.text y x hy hx]
    simp only [Terminal.visible, Terminal.place]
    by_cases hhere : t.top + y = t.row ∧ x = t.col
    · rw [if_pos (by omega), if_pos hhere]
    · rw [if_neg (by omega), if_neg hhere]
  · simp only [Terminal.place] at hy ⊢
    rw [if_neg (by omega)]
    exact h.below y x hy

theorem Shown.clear (h : Shown v t) : Shown v.cls t.clear := by
  obtain ⟨w, hw, hcls, htext⟩ := cls_spec v
  rw [hcls]
  refine { h with
    escape := hw.col_next.trans h.escape, col := hw.csr_x.trans h.col, row := ?_, text := fun y x hy hx => ?_,
    below := fun y x hy => ?_, touched := hw.in_screen h.touched }
  · exact (congrArg (· + (t.top : Int)) hw.csr_y).trans h.row
  · exact (htext y x hy hx).trans (if_pos (Nat.le_add_right _ _)).symm
  · exact if_pos (by simp only [Terminal.clear] at hy; omega)

/-- 符号のある比較では、`0x80` 以上のバイトは空白より小さい。 -/
theorem printable_iff (c : UInt8) : int_of_char SPACE ≤ int_of_char c ↔ 0x20 ≤ c ∧ c < 0x80 := by
  have hc := c.toNat_lt
  have hspace : int_of_char SPACE = 32 := by decide
  rw [hspace, int_of_char, BitVec.toInt_eq_toNat_cond, UInt8.le_iff_toNat_le, UInt8.lt_iff_toNat_lt]
  simp only [UInt8.toNat_toBitVec, UInt8.reduceToNat]
  split_ifs <;> omega

theorem Shown.backspace (h : Shown v t) :
    Shown ((if v.csr_x ≠ 0 then { v with csr_x := v.csr_x - 1 } else v).put_cell SPACE)
      ({ t with col := t.col - 1 }.place SPACE) := by
  refine Shown.put_cell (?_ : Shown _ { t with col := t.col - 1 }) SPACE
  have hcol := h.col
  have hlt := h.col_lt
  split_ifs with hx
  · exact { h with col := by simp only; omega, col_lt := by simp only; omega }
  · exact { h with col := by simp only; omega, col_lt := by simp only; omega }

/-- 一バイトを書いても、端末との対応は保たれる。 -/
theorem Shown.putch (h : Shown v t) (c : UInt8) : Shown (v.putch c) (t.feed c) := by
  have hcol := h.col
  unfold Vga.putch Terminal.feed
  rw [h.escape]
  by_cases hescape : t.escape
  · rw [if_pos hescape, if_pos hescape]
    exact { h with escape := rfl }
  rw [if_neg hescape, if_neg hescape]
  by_cases hesc : c = ESC
  · rw [if_pos hesc, if_pos hesc]
    exact { h with escape := rfl }
  rw [if_neg hesc, if_neg hesc]
  by_cases hclear : c = FORM_FEED
  · rw [if_pos hclear, if_pos hclear]
    exact h.clear
  rw [if_neg hclear, if_neg hclear]
  unfold put_char
  by_cases hback : c = BACKSPACE
  · rw [if_pos hback, if_pos hback]
    exact h.backspace.settle
  rw [if_neg hback, if_neg hback]
  by_cases htab : c = TAB
  · have hstop : 4 - v.csr_x.tmod 4 = (4 - t.col % 4 : Nat) := by
      rw [Int.tmod_eq_emod_of_nonneg (by omega)]
      omega
    rw [if_pos htab, if_pos htab, hstop]
    exact h.advance _
  rw [if_neg htab, if_neg htab]
  by_cases hreturn : c = CARRIAGE_RETURN
  · rw [if_pos hreturn, if_pos hreturn]
    exact Shown.settle { h with col := rfl, col_lt := Nat.zero_lt_succ 79 }
  rw [if_neg hreturn, if_neg hreturn]
  by_cases hfeed : c = NEWLINE
  · rw [if_pos hfeed, if_pos hfeed, Vga.wrap, if_neg (by simp)]
    exact h.newline
  rw [if_neg hfeed, if_neg hfeed]
  by_cases hprint : 0x20 ≤ c ∧ c < 0x80
  · rw [if_pos ((printable_iff c).2 hprint), if_pos hprint]
    exact (h.put_cell c).advance 1
  · rw [if_neg fun hle => hprint ((printable_iff c).1 hle), if_neg hprint]
    exact h.settle

/-- 一歩ずつの対応から、繰り返しの対応が得られる。 -/
theorem Shown.foldl {α : Type} {f : Vga → α → Vga} {g : Terminal → α → Terminal}
    (hstep : ∀ {v t}, Shown v t → ∀ a, Shown (f v a) (g t a)) (l : List α) (h : Shown v t) :
    Shown (l.foldl f v) (l.foldl g t) := by
  induction l generalizing v t with
  | nil => exact h
  | cons a l ih => exact ih (hstep h a)

/-- ファイルとして書くときは、残っていた色の指定を捨ててから、同じバイトを順に書く。 -/
theorem Shown.vga_write_fs (h : Shown v t) (size units : Nat) (buffer : Nat → UInt8) :
    Shown (v.vga_write_fs size units buffer).1 ((List.range units).foldl
      (fun t _ => (List.range size).foldl (fun t (j : Nat) => t.feed (buffer j)) t) { t with escape := false }) := by
  have hreset : Shown { v with col_next := false } { t with escape := false } :=
    { h with escape := rfl }
  exact Shown.foldl (fun h _ => Shown.foldl (fun h j => h.putch (buffer j)) _ h) _ hreset

/-- ハードウェアのカーソルは、次に書くセルにある。 -/
theorem Shown.cursor (h : Shown v t) (hv : v.cursor = v.csr_y * 80 + v.csr_x) (c : UInt8) :
    (v.putch c).cursor = (v.putch c).csr_y * 80 + (v.putch c).csr_x := by
  have hmove : ∀ {w : Vga} {t}, Shown w.move_csr t → w.move_csr.cursor = w.move_csr.csr_y * 80 + w.move_csr.csr_x := by
    intro w t h
    have hcol : w.csr_x = t.col := h.col
    have hlt := h.col_lt
    have hrow : w.csr_y + t.top = t.row := h.row
    have htop := h.top_le
    have hbottom := h.row_lt
    exact Int.emod_eq_of_lt (by omega) (by omega)
  have hshown := h.putch c
  unfold Vga.putch at hshown ⊢
  split_ifs at hshown ⊢
  · exact hv
  · exact hv
  · exact hmove hshown
  · exact hmove hshown

theorem shown_of (hx : v.csr_x = 0) (hy : v.csr_y = 0) (htouched : v.touched = []) : Shown v (.of v) := by
  refine ⟨rfl, hx, ?_, Nat.zero_lt_succ 79, le_rfl, Nat.zero_lt_succ 24, fun y x hy25 _ => ?_, fun y x hy25 => ?_, ?_⟩
  · rw [hy]
    rfl
  · simp [Terminal.visible, Terminal.of, hy25]
  · exact if_neg (by simp only [Terminal.of] at hy25; omega)
  · rw [htouched]
    exact fun k hk => absurd hk List.not_mem_nil

/-- どのバイトの列を書いた後も、カーソルは画面の中にあり、画面の外のセルには触れず、基準の端末と同じ文字が見える。 -/
theorem putch_run_shows (s : List UInt8) (hx : v.csr_x = 0) (hy : v.csr_y = 0) (htouched : v.touched = []) :
    (0 ≤ (s.foldl putch v).csr_x ∧ (s.foldl putch v).csr_x < 80) ∧
    (0 ≤ (s.foldl putch v).csr_y ∧ (s.foldl putch v).csr_y < 25) ∧
    (∀ k ∈ (s.foldl putch v).touched, 0 ≤ k ∧ k < 2000) ∧
    ∀ y x, y < 25 → x < 80 → (s.foldl putch v).text y x = (s.foldl Terminal.feed (.of v)).visible y x := by
  have h := Shown.foldl (fun h c => h.putch c) s (shown_of hx hy htouched)
  have hcol := h.col
  have hlt := h.col_lt
  have hrow := h.row
  have htop := h.top_le
  have hbottom := h.row_lt
  exact ⟨by omega, by omega, h.touched, h.text⟩

/-- 初めに画面を消すと、空白だけが見える。 -/
theorem init_video_text (v : Vga) (y x : Nat) (hy : y < 25) (hx : x < 80) : v.init_video.text y x = SPACE := by
  obtain ⟨w, -, hcls, htext⟩ := cls_spec v
  rw [init_video, hcls]
  exact htext y x hy hx

/-- 起動のときの画面。何の文字が残っていてもよい。 -/
def power_on (vgamem : Int → UInt8) : Vga := ⟨vgamem, 0x0F, 0, 0, false, 0, []⟩

/-- 最後の行まで進み、もう一行だけ送ってから書く。 -/
def past_bottom : List UInt8 := List.replicate 25 NEWLINE ++ [0x41]

theorem putch_run_shows_past_bottom : (past_bottom.foldl putch (power_on fun _ => 0)).text 24 0 = 0x41 :=
  ((putch_run_shows past_bottom rfl rfl rfl).2.2.2 24 0 (by decide) (by decide)).trans (by decide)

end Vga

namespace Terminal

/-- 見えるのは、いつも最後の 25 行である。 -/
theorem feed_top {t : Terminal} (h : t.top = t.row - 24) (c : UInt8) : (t.feed c).top = (t.feed c).row - 24 := by
  have hline : ∀ {t : Terminal}, t.top = t.row - 24 → t.newline.top = t.newline.row - 24 := by
    intro t h
    unfold newline
    split_ifs <;> simp only <;> omega
  have hadvance : ∀ {t : Terminal} (n), t.top = t.row - 24 → (t.advance n).top = (t.advance n).row - 24 := by
    intro t n h
    unfold advance
    split_ifs
    · exact h
    · exact hline h
  unfold feed
  split_ifs
  · exact h
  · exact h
  · exact h
  · exact h
  · exact hadvance _ h
  · exact h
  · exact hline h
  · exact hadvance 1 h
  · exact h

theorem run_top (s : List UInt8) (v : Vga) : (s.foldl feed (.of v)).top = (s.foldl feed (.of v)).row - 24 := by
  have hrun : ∀ {t : Terminal}, t.top = t.row - 24 → (s.foldl feed t).top = (s.foldl feed t).row - 24 := by
    induction s with
    | nil => exact id
    | cons c s ih => exact fun h => ih (feed_top h c)
  exact hrun rfl

end Terminal

end MyOS.Drivers
