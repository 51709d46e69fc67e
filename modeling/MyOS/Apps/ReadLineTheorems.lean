import MyOS.Apps.ReadLine
import MyOS.Drivers.KbdTheorems
import MyOS.Drivers.VgaTheorems

/-!
# 一行の読み込みの定理

割り込みがいつ届いても、`read_line` は打たれた文字を後退に従って直した行を返し、画面にはその行が見える。
-/

namespace MyOS.Apps
open MyOS.Lib Drivers

variable {s t : Reading} {max n p : Nat} {d : List UInt8} {c : UInt8} {v : Vga} {term : Terminal}

/-! ## 行のバッファ -/

theorem edit_append : edit (d ++ [c]) = if erases c then (edit d).dropLast else edit d ++ [c] := by
  unfold edit
  rw [List.foldl_append]
  rfl

theorem LineBuf.text_length (s : LineBuf) : (s.text n).length = n := by simp [LineBuf.text]

theorem LineBuf.text_store (s : LineBuf) (c : UInt8) : (s.store c).text s.i = s.text s.i := by
  unfold LineBuf.text
  refine List.map_congr_left fun k hk => if_neg ?_
  have := List.mem_range.mp hk
  omega

theorem LineBuf.text_push (s : LineBuf) (c : UInt8) : (s.store c).text (s.i + 1) = s.text s.i ++ [c] := by
  rw [← s.text_store c]
  unfold LineBuf.text
  rw [List.range_succ, List.map_append]
  exact congrArg _ (congrArg (fun x => [x]) (if_pos rfl))

theorem LineBuf.text_pred (s : LineBuf) : s.text (s.i - 1) = (s.text s.i).dropLast := by
  unfold LineBuf.text
  rw [List.dropLast_eq_take, ← List.map_take, List.length_map, List.length_range, List.take_range, Nat.min_eq_left (Nat.sub_le _ _)]

/-- 一文字を読むと、行は `edit` の通りに変わる。 -/
theorem LineBuf.read_char_spec (s : LineBuf) (c : UInt8) (h : s.text s.i = edit d) :
    (ends c = true → s.read_char c = (s.close, some s.i, some [NEWLINE])) ∧
      (ends c = false → (s.read_char c).2.1 = none ∧ (s.read_char c).1.i ≤ s.i + 1 ∧
        (s.read_char c).1.text (s.read_char c).1.i = edit (d ++ [c])) := by
  refine ⟨fun hc => by rw [LineBuf.read_char, hc]; rfl, fun hc => ?_⟩
  rw [LineBuf.read_char, hc, edit_append]
  by_cases he : erases c = true
  · rw [if_neg (by simp), if_pos he, if_pos he]
    split
    · refine ⟨rfl, Nat.le_succ_of_le (Nat.sub_le _ _), ?_⟩
      show s.text (s.i - 1) = _
      rw [s.text_pred, h]
    next hpos =>
      have hnil : edit d = [] := by
        rw [← h, Nat.eq_zero_of_not_pos hpos]
        rfl
      refine ⟨rfl, Nat.le_succ _, ?_⟩
      show s.text s.i = _
      rw [h, hnil]
      rfl
  · rw [if_neg (by simp), if_neg he, if_neg he]
    refine ⟨rfl, Nat.le_refl _, ?_⟩
    show (s.store c).text (s.i + 1) = _
    rw [s.text_push, h]

/-! ## 一歩 -/

/-- 空でない輪から一バイトを読む。 -/
theorem read_one (k : Kbd) (hstart : k.buf_start < KBD_BUFFER_SZ) : (k.keyboard_read_fs 1 1).2 = k.queue.take 1 := by
  have hmul : mul32 1 1 = 1 := by decide
  have hbytes := (Kbd.read_loop_spec (mul32 1 1) k hstart).1
  rwa [hmul] at hbytes

/-- `poll` は、行を閉じるか、待つか、一文字を読む。 -/
theorem Reading.poll_cases (hinv : KbdInv s.input) (h : s.poll max = some t) :
    s.result = none ∧ KbdInv t.input ∧
    ((max - 1 ≤ s.line.i ∧ t = { s with line := s.line.close, result := some s.line.i }) ∨
      (s.line.i < max - 1 ∧ s.input.kbd.queue.head? = none ∧ t.line = s.line ∧ t.result = none ∧ t.screen = s.screen ∧
        t.input.delivered = s.input.delivered) ∨
      ∃ c, s.line.i < max - 1 ∧ s.input.kbd.queue.head? = some c ∧ t.line = (s.line.read_char c).1 ∧
        t.result = (s.line.read_char c).2.1 ∧ t.screen = (s.line.read_char c).2.2.elim s.screen (echo s.screen) ∧
        t.input.delivered = s.input.delivered ++ [c]) := by
  unfold Reading.poll at h
  split at h
  · cases h
  next hres =>
    have hnone : s.result = none := by simpa using hres
    refine ⟨hnone, ?_⟩
    split at h
    next hlt =>
      have hbytes := read_one s.input.kbd hinv.start
      have hinv' : KbdInv ⟨(s.input.kbd.keyboard_read_fs 1 1).1, s.input.keys, s.input.arrived,
          s.input.delivered ++ (s.input.kbd.keyboard_read_fs 1 1).2, s.input.signals⟩ := hinv.read 1 1 rfl
      cases hq : s.input.kbd.queue with
      | nil =>
        rw [hq] at hbytes
        have hnil : (s.input.kbd.keyboard_read_fs 1 1).2 = [] := hbytes
        have hpair : s.input.kbd.keyboard_read_fs 1 1 = ((s.input.kbd.keyboard_read_fs 1 1).1, []) := Prod.ext rfl hnil
        rw [hpair] at h hinv'
        obtain rfl := Option.some.inj h
        exact ⟨hinv', .inr (.inl ⟨hlt, rfl, rfl, hnone, rfl, List.append_nil _⟩)⟩
      | cons c rest =>
        rw [hq] at hbytes
        have hone : (s.input.kbd.keyboard_read_fs 1 1).2 = [c] := hbytes
        have hpair : s.input.kbd.keyboard_read_fs 1 1 = ((s.input.kbd.keyboard_read_fs 1 1).1, [c]) := Prod.ext rfl hone
        rw [hpair] at h hinv'
        obtain rfl := Option.some.inj h
        exact ⟨hinv', .inr (.inr ⟨c, hlt, rfl, rfl, rfl, rfl, rfl⟩)⟩
    next hge =>
      obtain rfl := Option.some.inj h
      exact ⟨hinv, .inl ⟨Nat.not_lt.mp hge, rfl⟩⟩

theorem Reading.irq_cases {status code : UInt8} (hinv : KbdInv s.input) (h : s.step max (.irq status code) = some t) :
    KbdInv t.input ∧ t.line = s.line ∧ t.result = s.result ∧ t.screen = s.screen ∧ t.input.delivered = s.input.delivered := by
  rw [Reading.step] at h
  obtain ⟨input, hi, rfl⟩ := Option.map_eq_some_iff.mp h
  exact ⟨hinv.irq status code hi, rfl, rfl, rfl, KbdRun.irq_delivered hi⟩

/-- 一歩の後も、行は渡されたバイトに従う。 -/
theorem Reading.Follows.step {ev : ReadEvent} {before : List UInt8} (hinv : KbdInv s.input) (hd : s.input.delivered = before ++ d)
    (hf : s.Follows max d) (h : s.step max ev = some t) :
    KbdInv t.input ∧ ∃ d', t.input.delivered = before ++ d' ∧ t.Follows max d' := by
  cases ev with
  | irq status code =>
    obtain ⟨hinv', hline, hres, -, hdel⟩ := Reading.irq_cases hinv h
    refine ⟨hinv', d, hdel.trans hd, ?_⟩
    unfold Reading.Follows
    rw [hline, hres]
    exact hf
  | poll =>
    obtain ⟨hnone, hinv', hcases⟩ := Reading.poll_cases hinv h
    unfold Reading.Follows at hf
    rw [hnone] at hf
    obtain ⟨hle, htext, hends⟩ := hf
    refine ⟨hinv', ?_⟩
    rcases hcases with ⟨hge, rfl⟩ | ⟨-, -, hline, hres, -, hdel⟩ | ⟨c, hlt, -, hline, hres, -, hdel⟩
    · -- 満ちて終わる
      refine ⟨d, hd, hle, if_pos rfl, d, [], (List.append_nil d).symm, hends, ?_, .inl ⟨rfl, Nat.le_antisymm hle hge⟩⟩
      exact (s.line.text_store 0).trans htext
    · refine ⟨d, hdel.trans hd, ?_⟩
      unfold Reading.Follows
      rw [hres, hline]
      exact ⟨hle, htext, hends⟩
    · refine ⟨d ++ [c], by rw [hdel, hd, List.append_assoc], ?_⟩
      obtain ⟨hend, hmore⟩ := s.line.read_char_spec c htext
      unfold Reading.Follows
      rw [hres, hline]
      by_cases hc : ends c = true
      · rw [hend hc]
        exact ⟨hle, if_pos rfl, d, [c], rfl, hends, (s.line.text_store 0).trans htext, .inr ⟨c, rfl, hc⟩⟩
      · have hc : ends c = false := by simpa using hc
        obtain ⟨hgo, hi, htext'⟩ := hmore hc
        rw [hgo]
        refine ⟨Nat.le_trans hi hlt, htext', fun b hb => ?_⟩
        rcases List.mem_append.mp hb with hb | hb
        · exact hends b hb
        · exact List.mem_singleton.mp hb ▸ hc

/-- 割り込みと読み込みをどう並べても、返る長さは `max - 1` 以下で、バッファには終わりの文字までを後退に従って直した行が
    終端とともにある。終わりの文字なしに返るのは、満ちたときだけである。 -/
theorem read_line_edits (kbd_buf : Nat → UInt8) {input : KbdRun}
    (hinput : Steps KbdRun.step (fun _ _ => True) (.install kbd_buf) input) (buf : Nat → UInt8) (v : Vga)
    (h : Steps (Reading.step max) (fun _ _ => True) (.start input buf v) s) :
    ∃ d, s.input.delivered = input.delivered ++ d ∧ s.Follows max d ∧
      (s.input.lost = 0 → input.delivered ++ d ++ s.input.kbd.queue = typed s.input.keys) := by
  have hrun := h.inv (P := fun s => KbdInv s.input ∧ ∃ d, s.input.delivered = input.delivered ++ d ∧ s.Follows max d)
    (fun s ev t hs _ ht => by
      obtain ⟨hinv, d, hd, hf⟩ := hs
      exact hf.step hinv hd ht)
    ⟨(KbdInv.install kbd_buf).run hinput, [], (List.append_nil _).symm, Nat.zero_le _, rfl, fun _ hc => absurd hc List.not_mem_nil⟩
  obtain ⟨hinv, d, hd, hf⟩ := hrun
  refine ⟨d, hd, hf, fun hlost => ?_⟩
  rw [← hd]
  exact hinv.typed_all hlost

/-- `h`、`i`、後退、改行を打つ。 -/
def erase_one : Trace (exec (Reading.step 256) (.start (.install fun _ => 0) (fun _ => 0) (Vga.power_on fun _ => 0))) (fun s =>
    s.result = some 1 ∧ s.input.delivered = [0x68, 0x69, BACKSPACE, NEWLINE]) :=
  ⟨[.irq 1 0x23, .poll, .irq 1 0x17, .poll, .poll, .irq 1 0x0E, .poll, .irq 1 0x1C, .poll], by decide +kernel⟩

theorem read_line_edits_erase_one : ∃ s : Reading, s.result = some 1 ∧ ∃ d, s.input.delivered = d ∧ s.Follows 256 d := by
  obtain ⟨s, hs, hres, -⟩ := erase_one.steps
  obtain ⟨d, hd, hf, -⟩ := read_line_edits (fun _ => 0) (.refl _) (fun _ => 0) (Vga.power_on fun _ => 0) hs
  exact ⟨s, hres, d, hd, hf⟩

/-! ## 画面 -/

/-- 行の残りが空いている端末に、行 `l` を打った後。 -/
def typed_line (term : Terminal) (l : List UInt8) : Terminal :=
  { term with
    escape := false
    col := term.col + l.length
    lines := fun y x => if y = term.row ∧ term.col ≤ x then l.getD (x - term.col) SPACE else term.lines y x }

theorem typed_line_push {l : List UInt8} (hc : 0x20 ≤ c ∧ c < 0x7F) (hcol : term.col + l.length + 1 < 80) :
    (typed_line term l).feed c = typed_line term (l ++ [c]) := by
  have hne : ∀ b : UInt8, b < 0x20 → c ≠ b := fun b hb he => absurd (he ▸ hc.1) (UInt8.not_le.mpr hb)
  have hlt : c < 0x80 := UInt8.lt_trans hc.2 (by decide)
  unfold Terminal.feed
  rw [if_neg (by simp [typed_line]), if_neg (hne ESC (by decide)), if_neg (hne FORM_FEED (by decide)),
    if_neg (hne BACKSPACE (by decide)), if_neg (hne TAB (by decide)), if_neg (hne CARRIAGE_RETURN (by decide)),
    if_neg (hne NEWLINE (by decide)), if_pos ⟨hc.1, hlt⟩]
  unfold Terminal.advance
  rw [if_pos (show ((typed_line term l).place c).col + 1 < 80 from hcol)]
  unfold Terminal.place typed_line
  congr 1
  · funext y x
    dsimp only
    by_cases hy : y = term.row
    · by_cases hx : x = term.col + l.length
      · simp [hy, hx]
      · by_cases hle : term.col ≤ x
        · simp only [hy, hx, hle, and_self, and_false, if_true, if_false]
          rcases Nat.lt_or_gt_of_ne hx with hlt | hgt
          · rw [List.getD_append _ _ _ _ (by omega)]
          · rw [List.getD_eq_default _ _ (by omega), List.getD_eq_default _ _ (by simp; omega)]
        · simp [hx, hle]
    · simp [hy]
  · simp [Nat.add_assoc]

theorem typed_line_erase {l : List UInt8} (hl : l ≠ []) (hcol : term.col + l.length < 80) :
    (((typed_line term l).feed BACKSPACE).feed SPACE).feed BACKSPACE = typed_line term l.dropLast := by
  have hpos : 0 < l.length := List.length_pos_of_ne_nil hl
  have hback : ∀ w : Terminal, w.escape = false → w.feed BACKSPACE = { w with col := w.col - 1 }.place SPACE := fun w hw => by
    unfold Terminal.feed
    rw [if_neg (by simp [hw]), if_neg (by decide), if_neg (by decide), if_pos rfl]
  have hspace : ∀ w : Terminal, w.escape = false → w.col + 1 < 80 → w.feed SPACE = { w.place SPACE with col := w.col + 1 } := fun w hw hcol => by
    unfold Terminal.feed
    rw [if_neg (by simp [hw]), if_neg (by decide), if_neg (by decide), if_neg (by decide), if_neg (by decide), if_neg (by decide),
      if_neg (by decide), if_pos (by decide)]
    exact if_pos hcol
  rw [hback (typed_line term l) rfl, hspace _ rfl (show term.col + l.length - 1 + 1 < 80 by omega)]
  refine (hback _ rfl).trans ?_
  unfold Terminal.place typed_line
  congr 1
  · funext y x
    dsimp only
    by_cases hy : y = term.row
    · by_cases hx : x = term.col + l.length - 1
      · have hle : term.col ≤ x := by omega
        simp only [hy, hx, Nat.add_sub_cancel, and_self, if_true]
        rw [if_pos ⟨trivial, hx ▸ hle⟩, List.getD_eq_default _ _ (by simp; omega)]
      · by_cases hle : term.col ≤ x
        · simp only [hy, hx, hle, Nat.add_sub_cancel, and_self, and_false, if_true, if_false]
          rw [List.dropLast_eq_take]
          rcases Nat.lt_or_ge (x - term.col) (l.length - 1) with hlt | hge
          · rw [List.getD_eq_getElem?_getD, List.getD_eq_getElem?_getD, List.getElem?_take_of_lt hlt]
          · rw [List.getD_eq_default _ _ (by omega), List.getD_eq_default _ _ (by simp; omega)]
        · simp [hx, hle]
    · simp [hy]
  · show term.col + l.length - 1 + 1 - 1 = term.col + l.dropLast.length
    rw [List.length_dropLast]
    omega

/-- `write` は、残っていた色の指定を捨ててから書く。 -/
theorem shown_echo {bytes : List UInt8} (h : Vga.Shown { v with col_next := false } term) (hescape : term.escape = false) :
    Vga.Shown (echo v bytes) ((List.range bytes.length).foldl (fun t (j : Nat) => t.feed (bytes.getD j 0)) term) := by
  have := h.vga_write_fs bytes.length 1 fun j => bytes.getD j 0
  rwa [show { term with escape := false } = term from by rw [← hescape]] at this

theorem shown_reset (h : Vga.Shown v term) (hescape : term.escape = false) : Vga.Shown { v with col_next := false } term :=
  { h with escape := hescape.symm }

/-- 一文字を読むと、画面の行も同じように変わる。 -/
theorem shown_read_char {b : LineBuf} (h : Vga.Shown { v with col_next := false } (typed_line term (b.text b.i)))
    (hplain : Plain c) (hends : ends c = false) (hcol : term.col + b.i + 1 < 80) :
    Vga.Shown { (b.read_char c).2.2.elim v (echo v) with col_next := false }
      (typed_line term ((b.read_char c).1.text (b.read_char c).1.i)) := by
  have hlen : (b.text b.i).length = b.i := b.text_length
  unfold LineBuf.read_char
  rw [if_neg (by simp [hends])]
  by_cases he : erases c = true
  · rw [if_pos he]
    split
    next hpos =>
      have hne : b.text b.i ≠ [] := fun hnil => by
        rw [hnil] at hlen
        exact absurd hlen (Nat.ne_of_lt hpos)
      have hecho : Vga.Shown (echo v [BACKSPACE, SPACE, BACKSPACE]) _ := shown_echo h rfl
      have herase : (((typed_line term (b.text b.i)).feed BACKSPACE).feed SPACE).feed BACKSPACE =
          typed_line term (b.text b.i).dropLast := typed_line_erase hne (by omega)
      rw [← b.text_pred] at herase
      refine shown_reset ?_ rfl
      show Vga.Shown _ (typed_line term (b.text (b.i - 1)))
      rw [← herase]
      exact hecho
    · exact h
  · rw [if_neg he]
    have hprint : 0x20 ≤ c ∧ c < 0x7F := by
      rcases hplain with h | h | h
      · rw [hends] at h
        cases h
      · exact absurd h he
      · exact h
    have hzero : c ≠ 0 := fun h0 => absurd (h0 ▸ hprint.1) (by decide)
    have hecho : Vga.Shown (echo v [c]) _ := shown_echo h rfl
    rw [if_neg hzero]
    refine shown_reset ?_ rfl
    show Vga.Shown _ (typed_line term ((b.store c).text (b.i + 1)))
    rw [b.text_push, ← typed_line_push hprint (by omega)]
    exact hecho

/-- 読んでいる間、画面にはその時の行が見える。 -/
structure Mirrors (term : Terminal) (s : Reading) : Prop where
  input : KbdInv s.input
  shown : s.result = none → Vga.Shown { s.screen with col_next := false } (typed_line term (s.line.text s.line.i))

theorem Mirrors.step {ev : ReadEvent} (h : Mirrors term s) (hok : InRow term.col s ev) (hs : s.step max ev = some t) :
    Mirrors term t := by
  cases ev with
  | irq status code =>
    obtain ⟨hinv, hline, hres, hscreen, -⟩ := Reading.irq_cases h.input hs
    refine ⟨hinv, fun hr => ?_⟩
    rw [hline, hscreen]
    exact h.shown (hres ▸ hr)
  | poll =>
    obtain ⟨hnone, hinv, hcases⟩ := Reading.poll_cases h.input hs
    have hshown := h.shown hnone
    refine ⟨hinv, fun hr => ?_⟩
    rcases hcases with ⟨-, rfl⟩ | ⟨-, -, hline, -, hscreen, -⟩ | ⟨c, -, hhead, hline, hres, hscreen, -⟩
    · cases hr
    · rw [hline, hscreen]
      exact hshown
    · have hends : ends c = false := by
        cases hc : ends c with
        | false => rfl
        | true =>
          rw [hres, LineBuf.read_char, hc] at hr
          cases hr
      rw [hline, hscreen]
      exact shown_read_char hshown (hok.2 c hhead) hends hok.1

/-- 行の残りが空いている画面で、行の中に収まる文字だけが打たれるなら、読んでいる間の画面は、始まりの位置から先に、後退を
    済ませたその時の行が見え、ほかの文字は変わらず、カーソルは行の終わりにある。 -/
theorem read_line_shows (kbd_buf : Nat → UInt8) {input : KbdRun}
    (hinput : Steps KbdRun.step (fun _ _ => True) (.install kbd_buf) input) (buf : Nat → UInt8)
    (out : List UInt8) {v₀ : Vga} (hx : v₀.csr_x = 0) (hy : v₀.csr_y = 0) (htouched : v₀.touched = []) {row : Nat}
    (hv : v = out.foldl Vga.putch v₀) (hp : v.csr_x = p) (hrow : v.csr_y = row)
    (hblank : ∀ x, p ≤ x → x < 80 → v.text row x = SPACE)
    (h : Steps (Reading.step max) (InRow p) (.start input buf v) s) (hnone : s.result = none) :
    (∀ y x, y < 25 → x < 80 → s.screen.text y x =
      if y = row ∧ p ≤ x then (s.line.text s.line.i).getD (x - p) SPACE else v.text y x) ∧
    s.screen.csr_x = p + s.line.i ∧ s.screen.csr_y = row := by
  have hshown : Vga.Shown v (out.foldl Terminal.feed (.of v₀)) :=
    hv ▸ Vga.Shown.foldl (fun h c => h.putch c) out (Vga.shown_of hx hy htouched)
  generalize out.foldl Terminal.feed (.of v₀) = term at hshown
  have hpcol : p = term.col := by
    have := hshown.col
    omega
  have hrow' : row + term.top = term.row := by
    have := hshown.row
    omega
  subst hpcol
  have hstart : Mirrors term (.start input buf v) := by
    refine ⟨(KbdInv.install kbd_buf).run hinput, fun _ => { hshown with escape := rfl, text := fun y x hy hx => ?_, below := ?_ }⟩
    · show v.text y x = if term.top + y = term.row ∧ term.col ≤ x then ([] : List UInt8).getD (x - term.col) SPACE else term.visible y x
      split
      next hin =>
        obtain rfl : y = row := by omega
        exact hblank x hin.2 hx
      · exact hshown.text y x hy hx
    · intro y x hle
      have hle : term.top + 25 ≤ y := hle
      have hlt := hshown.row_lt
      exact (if_neg (by omega)).trans (hshown.below y x hle)
  have hend := (h.inv (P := Mirrors term) (fun s ev t hs hok ht => hs.step hok ht) hstart).shown hnone
  refine ⟨fun y x hy25 hx80 => ?_, ?_, ?_⟩
  · have htext := hend.text y x hy25 hx80
    refine htext.trans ?_
    show (if term.top + y = term.row ∧ term.col ≤ x then (s.line.text s.line.i).getD (x - term.col) SPACE
      else term.visible y x) = _
    rw [← hshown.text y x hy25 hx80]
    exact if_congr (and_congr_left' (by omega)) rfl rfl
  · have hcol := hend.col
    have hlen : (typed_line term (s.line.text s.line.i)).col = term.col + s.line.i := by
      show term.col + (s.line.text s.line.i).length = _
      rw [s.line.text_length]
    rw [hlen] at hcol
    exact_mod_cast hcol
  · have hr : s.screen.csr_y + term.top = term.row := hend.row
    omega

/-- 空の画面で `h` と `i` を打ち、`i` を消す。 -/
def erase_on_screen : Trace (checked (Reading.step 256) (fun s _ => decide (0 + s.line.i + 1 < 80 ∧
      (s.input.kbd.queue.head?.all fun c => decide (c ∈ [0x68, 0x69, BACKSPACE])) = true))
    (.start (.install fun _ => 0) (fun _ => 0) (Vga.power_on fun _ => (0x20 : UInt8)))) (fun s =>
    s.result = none ∧ s.line.text s.line.i = [0x68]) :=
  ⟨[.irq 1 0x23, .irq 1 0x17, .poll, .poll, .irq 1 0x0E, .poll], by decide +kernel⟩

theorem read_line_shows_erased : ∃ s : Reading, s.result = none ∧ s.screen.text 0 0 = 0x68 ∧ s.screen.text 0 1 = SPACE := by
  have hrow : ∀ (s : Reading) (ev : ReadEvent), decide (0 + s.line.i + 1 < 80 ∧
      (s.input.kbd.queue.head?.all fun c => decide (c ∈ [0x68, 0x69, BACKSPACE])) = true) = true → InRow 0 s ev := by
    intro s ev h
    obtain ⟨hcol, hhead⟩ := of_decide_eq_true h
    refine ⟨hcol, fun c hc => ?_⟩
    rw [hc] at hhead
    have hmem := of_decide_eq_true hhead
    simp only [List.mem_cons, List.not_mem_nil, or_false] at hmem
    rcases hmem with rfl | rfl | rfl
    · exact .inr (.inr (by decide))
    · exact .inr (.inr (by decide))
    · exact .inr (.inl rfl)
  obtain ⟨s, hs, hnone, htext⟩ := erase_on_screen.steps_checked hrow
  obtain ⟨hscreen, -⟩ := read_line_shows (fun _ => 0) (.refl _) (fun _ => 0) [] rfl rfl rfl
    (rfl : Vga.power_on (fun _ => (0x20 : UInt8)) = _) rfl rfl (fun _ _ _ => rfl) hs hnone
  refine ⟨s, hnone, (hscreen 0 0 (by decide) (by decide)).trans ?_, (hscreen 0 1 (by decide) (by decide)).trans ?_⟩
  · rw [htext]
    rfl
  · rw [htext]
    rfl

end MyOS.Apps
