import MyOS.Apps.Parse
import Mathlib.Data.List.Chain
import Mathlib.Data.List.Forall2

/-!
# 解析の結果

語や名前の直後に演算子が来ない行では、切るたびに失われるのは空白だけなので、段は行の意味の通りになる。
-/

namespace MyOS.Apps
open MyOS.Lib MyOS.Proc

variable {m m' m₁ : ByteMem} {p q line : Nat} {c : UInt8} {t u v w r : List UInt8} {seg pre : List Token} {s s₁ : Command}
  {st st' : Stage}

/-! ## 分け方 -/

theorem is_word_iff : is_word c = true ↔ c ≠ 0 ∧ c ≠ SPACE ∧ c ≠ BAR ∧ c ≠ GT ∧ c ≠ LT := by
  simp [is_word, and_assoc]

theorem is_op_iff : is_op c = true ↔ c = BAR ∨ c = LT ∨ c = GT := by
  simp [is_op, or_assoc]

theorem not_word_cases (h0 : c ≠ 0) (hc : is_word c = false) : c = SPACE ∨ c = BAR ∨ c = LT ∨ c = GT := by
  by_contra hne
  simp only [not_or] at hne
  have hw : is_word c = true := is_word_iff.mpr ⟨h0, hne.1, hne.2.1, hne.2.2.2, hne.2.2.1⟩
  exact Bool.false_ne_true (hc.symm.trans hw)

@[simp] theorem flush_nil : flush [] = [] := rfl

@[simp] theorem flush_cons (c : UInt8) (w : List UInt8) : flush (c :: w) = [.word (c :: w)] := rfl

@[simp] theorem tokens_nil : tokens [] = [] := rfl

theorem lex_cons (w : List UInt8) (c : UInt8) (t : List UInt8) :
    lex w (c :: t) =
      if c = SPACE then flush w ++ lex [] t
      else if c = BAR then flush w ++ .bar :: lex [] t
      else if c = LT then flush w ++ .lt :: lex [] t
      else if c = GT then
        match t with
        | [] => flush w ++ [.gt]
        | d :: t => if d = GT then flush w ++ .append :: lex [] t else flush w ++ .gt :: lex [] (d :: t)
      else lex (w ++ [c]) t :=
  lex.eq_def w (c :: t)

@[simp] theorem tokens_space (t : List UInt8) : tokens (SPACE :: t) = tokens t := by
  rw [tokens, lex_cons, if_pos rfl]
  rfl

@[simp] theorem tokens_bar (t : List UInt8) : tokens (BAR :: t) = .bar :: tokens t := by
  rw [tokens, lex_cons, if_neg (by decide), if_pos rfl]
  rfl

@[simp] theorem tokens_lt (t : List UInt8) : tokens (LT :: t) = .lt :: tokens t := by
  rw [tokens, lex_cons, if_neg (by decide), if_neg (by decide), if_pos rfl]
  rfl

/-- `>` の後の分け方。 -/
theorem lex_gt (w t : List UInt8) : lex w (GT :: t) =
    match t with
    | [] => flush w ++ [.gt]
    | d :: t => if d = GT then flush w ++ .append :: tokens t else flush w ++ .gt :: tokens (d :: t) := by
  rw [lex_cons, if_neg (by decide), if_neg (by decide), if_neg (by decide), if_pos rfl]
  rfl

@[simp] theorem tokens_append (t : List UInt8) : tokens (GT :: GT :: t) = .append :: tokens t := by
  rw [tokens, lex_gt]
  exact if_pos rfl

theorem tokens_gt (h : t.headD 0 ≠ GT) : tokens (GT :: t) = .gt :: tokens t := by
  rw [tokens, lex_gt]
  cases t with
  | nil => rfl
  | cons d t => exact if_neg h

/-- 語の文字は、読みかけの語に加わる。 -/
theorem lex_word (w : List UInt8) (hu : ∀ c ∈ u, is_word c = true) (t : List UInt8) : lex w (u ++ t) = lex (w ++ u) t := by
  induction u generalizing w with
  | nil => simp
  | cons c u ih =>
    obtain ⟨hc, hu⟩ := List.forall_mem_cons.mp hu
    obtain ⟨-, hs, hb, hg, hl⟩ := is_word_iff.mp hc
    rw [List.cons_append, lex_cons, if_neg hs, if_neg hb, if_neg hl, if_neg hg, ih _ hu]
    simp

/-- 語の後では、語が一つできる。 -/
theorem lex_flush (w : List UInt8) (hn : (0 : UInt8) ∉ t) (hstop : is_word (t.headD 0) = false) :
    lex w t = flush w ++ tokens t := by
  cases t with
  | nil => simp [lex]
  | cons c t =>
    have hc : is_word c = false := hstop
    have h0 : c ≠ 0 := fun h => hn (h ▸ List.mem_cons_self)
    rcases not_word_cases h0 hc with rfl | rfl | rfl | rfl
    · rw [lex_cons, if_pos rfl, tokens_space]
      rfl
    · rw [lex_cons, if_neg (by decide), if_pos rfl, tokens_bar]
      rfl
    · rw [lex_cons, if_neg (by decide), if_neg (by decide), if_pos rfl, tokens_lt]
      rfl
    · rw [tokens, lex_gt, lex_gt]
      cases t with
      | nil => rfl
      | cons d t => by_cases hd : d = GT <;> simp [hd]

theorem tokens_word (hu : ∀ c ∈ u, is_word c = true) (hn : (0 : UInt8) ∉ t) (hstop : is_word (t.headD 0) = false) :
    tokens (u ++ t) = flush u ++ tokens t := by
  rw [tokens, lex_word [] hu, List.nil_append, lex_flush u hn hstop]

theorem tokens_spaces (hu : ∀ c ∈ u, (c == SPACE) = true) (t : List UInt8) : tokens (u ++ t) = tokens t := by
  induction u with
  | nil => rfl
  | cons c u ih =>
    obtain ⟨hc, hu'⟩ := List.forall_mem_cons.mp hu
    rw [beq_iff_eq.mp hc, List.cons_append, tokens_space, ih hu']

theorem Clean.of_append (pre : List Token) (h : Clean (u ++ t)) (htok : tokens (u ++ t) = pre ++ tokens t) : Clean t :=
  ⟨h.apart.right_of_append, (htok ▸ h.named).right_of_append⟩

/-! ## 読みの保存 -/

/-- `p` より前のバイトと NUL は変わらない。 -/
def Kept (p : Nat) (m m' : ByteMem) : Prop := ∀ x, x < p ∨ m x = 0 → m' x = m x

theorem Kept.refl (p : Nat) (m : ByteMem) : Kept p m m := fun _ _ => rfl

theorem Kept.trans {m'' : ByteMem} (h : Kept p m m') (h' : Kept q m' m'') (hpq : p ≤ q) : Kept p m m'' := fun x hx => by
  have hsame := h x hx
  rw [← hsame]
  apply h' x
  cases hx with
  | inl hx => exact .inl (Nat.lt_of_lt_of_le hx hpq)
  | inr hx => exact .inr (hsame.trans hx)

/-- `p` までに終わる文字列。 -/
def Before (m : ByteMem) (p a : Nat) (w : List UInt8) : Prop := CStr m a w ∧ a + w.length ≤ p

theorem Before.kept {a : Nat} (h : Before m p a w) (hk : Kept p m m') (hpq : p ≤ q) : Before m' q a w := by
  refine ⟨⟨fun i hi => ?_, ?_, h.1.nonzero, h.1.fits⟩, Nat.le_trans h.2 hpq⟩
  · rw [hk _ (.inl (by have := h.2; omega)), h.1.bytes i hi]
  · rw [hk _ (.inr h.1.nul), h.1.nul]

/-- 番地 0 は、名前がないことを表す。 -/
def HoldsName (m : ByteMem) (p a : Nat) : Option (List UInt8) → Prop
  | none => a = 0
  | some w => a ≠ 0 ∧ Before m p a w

theorem HoldsName.kept {a : Nat} {o : Option (List UInt8)} (h : HoldsName m p a o) (hk : Kept p m m') (hpq : p ≤ q) :
    HoldsName m' q a o := by
  cases o with
  | none => exact h
  | some w => exact ⟨h.1, h.2.kept hk hpq⟩

/-- 読みかけの段は、`p` までの文字列で `s` と読める。引数は 15 個までである。 -/
structure Holds (m : ByteMem) (p : Nat) (st : Stage) (s : Command) : Prop where
  args : List.Forall₂ (Before m p) st.args (s.args.take (MAX_ARGS - 1))
  in_file : HoldsName m p st.in_file s.in_file
  out_file : HoldsName m p st.out_file s.out_file
  append : st.append = s.append
  background : st.background = s.background

theorem Holds.kept (h : Holds m p st s) (hk : Kept p m m') (hpq : p ≤ q) : Holds m' q st s :=
  ⟨h.args.imp fun _ _ ha => ha.kept hk hpq, h.in_file.kept hk hpq, h.out_file.kept hk hpq, h.append, h.background⟩

/-! ## 走査と切り取り -/

theorem skip_spaces_text (h : CStr m p t) (hn : t.length < LINE_MAX) :
    ∃ q r, skip_spaces m p = some q ∧ CStr m q r ∧ p ≤ q ∧ tokens r = tokens t ∧ r.headD 0 ≠ SPACE ∧ r <:+ t := by
  obtain ⟨u, v, rfl, hu, hv, hscan, hrest⟩ := h.scan_split (p := (· == SPACE)) (by decide) hn
  exact ⟨_, v, hscan, hrest, Nat.le_add_right _ _, (tokens_spaces hu v).symm, by simpa using hv, List.suffix_append u v⟩

/-- 語か名前を切る。次の文字は空白か行の終わりである。 -/
theorem cut_word_text (h : CStr m p t) (hn : t.length < LINE_MAX) (hcl : Clean t) (hhead : is_op (t.headD 0) = false) :
    ∃ w r m' q, cut_word m p = some (m', q) ∧ Before m' q p w ∧ CStr m' q r ∧ Kept p m m' ∧ r <:+ t ∧
      w.length + r.length ≤ t.length ∧ tokens t = flush w ++ tokens r ∧ (w = [] → t.headD 0 ≠ SPACE → t = []) ∧ (is_word (t.headD 0) = true → w ≠ []) := by
  obtain ⟨w, v, rfl, hw, hv, hscan, hrest⟩ := h.scan_split (p := is_word) (by decide) hn
  have hn0 : (0 : UInt8) ∉ v := fun hmem => h.nonzero (List.mem_append_right _ hmem)
  have htok : tokens (w ++ v) = flush w ++ tokens v := tokens_word hw hn0 hv
  have hword : is_word ((w ++ v).headD 0) = true → w ≠ [] := by
    rintro hc rfl
    exact Bool.false_ne_true (hv.symm.trans hc)
  cases v with
  | nil =>
    refine ⟨w, [], m, p + w.length, ?_, ⟨by simpa using h, Nat.le_refl _⟩, hrest, .refl p m, List.suffix_append w [], by simp, htok,
      fun hw0 _ => by simp [hw0], hword⟩
    have hnul : m (p + w.length) = 0 := hrest.nul
    rw [cut_word, hscan, Option.map_some, if_pos hnul]
  | cons c r =>
    have hc : is_word c = false := hv
    have h0 : c ≠ 0 := fun h => hn0 (h ▸ List.mem_cons_self)
    have hop : is_op c = false := by
      cases hlast : w.getLast? with
      | none =>
        obtain rfl : w = [] := List.getLast?_eq_none_iff.mp hlast
        exact hhead
      | some a =>
        have hchain := (List.isChain_append.mp hcl.apart).2.2 a hlast c rfl
        exact hchain (hw a (List.mem_of_getLast? hlast))
    obtain rfl : c = SPACE := (not_word_cases h0 hc).resolve_right fun h =>
      Bool.false_ne_true (hop.symm.trans (is_op_iff.mpr h))
    refine ⟨w, r, m.store8 (p + w.length) 0, p + w.length + 1, ?_, ⟨h.cut, by omega⟩, hrest.tail.store8_before (Nat.lt_succ_self _),
      fun x hx => ?_, ?_, by simp, tokens_space r ▸ htok, fun hw0 hs => ?_, hword⟩
    · have hne : m (p + w.length) ≠ 0 := by
        rw [hrest.head]
        decide
      rw [cut_word, hscan, Option.map_some, if_neg hne]
    · by_cases hxe : x = p + w.length
      · subst hxe
        rw [hrest.head] at hx
        rcases hx with hx | hx
        · omega
        · cases hx
      · exact ByteMem.store8_of_ne hxe
    · exact (List.suffix_cons SPACE r).trans (List.suffix_append w _)
    · subst hw0
      exact absurd (Eq.refl SPACE) hs

/-! ## 一つの段 -/

theorem gather_lt (s : Command) (h : w = [] → seg = []) :
    gather (.lt :: (flush w ++ seg)) s = gather seg { s with in_file := some w } := by
  cases w with
  | nil => rw [h rfl]; rfl
  | cons c w => rfl

theorem gather_gt (s : Command) (h : w = [] → seg = []) :
    gather (.gt :: (flush w ++ seg)) s = gather seg { s with out_file := some w } := by
  cases w with
  | nil => rw [h rfl]; rfl
  | cons c w => rfl

theorem gather_append (s : Command) (h : w = [] → seg = []) :
    gather (.append :: (flush w ++ seg)) s = gather seg { s with append := true, out_file := some w } := by
  cases w with
  | nil => rw [h rfl]; rfl
  | cons c w => rfl

theorem gather_word (s : Command) (h : w ≠ []) : gather (flush w ++ seg) s = gather seg { s with args := s.args ++ [w] } := by
  cases w with
  | nil => exact absurd rfl h
  | cons c w => rfl

theorem bar_notMem_flush (w : List UInt8) : Token.bar ∉ flush w := by
  cases w <;> simp

/-- `<` などの後に演算子は来ない。 -/
theorem named_head {r₀ : Token} (h : (r₀ :: tokens t).IsChain fun r o => r.redirects = true → o.names = true)
    (hr : r₀.redirects = true) : is_op (t.headD 0) = false := by
  cases t with
  | nil => rfl
  | cons c t =>
    by_contra hop
    have hnames : ∀ o ts, tokens (c :: t) = o :: ts → o.names = true := fun o ts htok => by
      rw [htok] at h
      exact (List.isChain_cons_cons.mp h).1 hr
    rcases is_op_iff.mp (by simpa using hop) with rfl | rfl | rfl
    · exact Bool.false_ne_true (hnames _ _ (tokens_bar t))
    · exact Bool.false_ne_true (hnames _ _ (tokens_lt t))
    · by_cases hg : t.headD 0 = GT
      · cases t with
        | nil => cases hg
        | cons d t =>
          obtain rfl : d = GT := hg
          exact Bool.false_ne_true (hnames _ _ (tokens_append t))
      · exact Bool.false_ne_true (hnames _ _ (tokens_gt hg))

theorem Clean.of_suffix (pre : List Token) (h : Clean t) (hr : r <:+ t) (htok : tokens t = pre ++ tokens r) : Clean r := by
  obtain ⟨u, rfl⟩ := hr
  exact h.of_append pre htok

/-- 演算子 `o` の後の、空白と名前。`b` は演算子の番地である。 -/
theorem redirect_text {o : Token} {b : Nat} {u : List UInt8} (h : CStr m p t) (hn : t.length < LINE_MAX) (hcl : Clean u) (hsuf : t <:+ u)
    (htok : tokens u = o :: tokens t) (ho : o.redirects = true) (hb : b < p) :
    ∃ a w r m' q, skip_spaces m p = some a ∧ cut_word m a = some (m', q) ∧ HoldsName m' q a (some w) ∧ CStr m' q r ∧
      Kept b m m' ∧ b ≤ q ∧ r <:+ u ∧ r.length ≤ t.length ∧ tokens u = (o :: flush w) ++ tokens r ∧ (w = [] → r = []) := by
  obtain ⟨a, x, hskip, hx, hpa, htok', hhead, hsuf'⟩ := skip_spaces_text h hn
  have hlen := hsuf'.length_le
  have hclx : Clean x := hcl.of_suffix [o] (hsuf'.trans hsuf) (by rw [htok, ← htok']; rfl)
  have hnamed := hcl.named
  rw [htok, ← htok'] at hnamed
  obtain ⟨w, r, m', q, hcut, hw, hr, hkept, hsuf₁, -, htok₁, hempty, -⟩ := cut_word_text hx (by omega) hclx (named_head hnamed ho)
  have hbq : b ≤ q := by
    have := hw.2
    omega
  refine ⟨a, w, r, m', q, hskip, hcut, ⟨Nat.ne_of_gt (by omega : 0 < a), hw⟩, hr, fun c hc => hkept c (hc.imp (fun h => by omega) id), hbq,
    (hsuf₁.trans hsuf').trans hsuf, Nat.le_trans hsuf₁.length_le hlen, by rw [htok, ← htok', htok₁]; rfl, fun hw0 => ?_⟩
  have hnil := hempty hw0 hhead
  subst hnil
  exact List.suffix_nil.mp hsuf₁

/-- 一つの段を読み終えたとき。`seg` は読んだ語と演算子、`t'` は残りである。 -/
structure SegmentEnd (m : ByteMem) (p : Nat) (t : List UInt8) (s : Command) (m' : ByteMem) (p' : Nat) (st' : Stage)
    (t' : List UInt8) (seg : List Token) : Prop where
  text : CStr m' p' t'
  suffix : t' <:+ t
  stop : t' = [] ∨ ∃ r, t' = BAR :: r
  split : tokens t = seg ++ tokens t'
  bar : .bar ∉ seg
  holds : Holds m' p' st' (gather seg s)
  kept : Kept p m m'
  le : p ≤ p'

/-- 先頭の語や演算子を読んだ後から続ける。 -/
theorem SegmentEnd.extend (pre : List Token) {p' : Nat} {t' : List UInt8} (h : SegmentEnd m₁ q r s₁ m' p' st' t' seg) (hr : r <:+ t)
    (htok : tokens t = pre ++ tokens r) (hpre : .bar ∉ pre) (hgather : gather (pre ++ seg) s = gather seg s₁)
    (hkept : Kept p m m₁) (hpq : p ≤ q) : SegmentEnd m p t s m' p' st' t' (pre ++ seg) where
  text := h.text
  suffix := h.suffix.trans hr
  stop := h.stop
  split := by rw [htok, h.split, List.append_assoc]
  bar := by simp [hpre, h.bar]
  holds := hgather ▸ h.holds
  kept := hkept.trans h.kept hpq
  le := Nat.le_trans hpq h.le

theorem SegmentEnd.done (ht : CStr m p t) (hstop : t.headD 0 = 0 ∨ t.headD 0 = BAR) (hst : Holds m p st s) :
    SegmentEnd m p t s m p st t [] where
  text := ht
  suffix := List.suffix_refl t
  stop := by
    cases t with
    | nil => exact .inl rfl
    | cons c t =>
      have hc : c = 0 ∨ c = BAR := hstop
      exact .inr ⟨t, by rw [hc.resolve_left ht.head_ne]⟩
  split := rfl
  bar := List.not_mem_nil
  holds := hst
  kept := .refl p m
  le := Nat.le_refl p

/-- 引数を加える。 -/
theorem Holds.add_arg {a : Nat} (h : Holds m p st s) (hw : Before m p a w) :
    Holds m p { st with args := if st.args.length < MAX_ARGS - 1 then st.args ++ [a] else st.args }
      { s with args := s.args ++ [w] } := by
  refine ⟨?_, h.in_file, h.out_file, h.append, h.background⟩
  have hlen := h.args.length_eq
  rw [List.length_take] at hlen
  dsimp only
  split
  next hlt =>
    have hone : [w].take (MAX_ARGS - 1 - s.args.length) = [w] := List.take_of_length_le (by simp; omega)
    rw [List.take_append, hone]
    exact List.rel_append h.args (.cons hw .nil)
  next hge =>
    rw [List.take_append_of_le_length (by omega)]
    exact h.args

/-- 空白を読み飛ばした後の一周。 -/
theorem parse_stage_skip (n : Nat) (st : Stage) (hgo : ¬(m p = 0 ∨ m p = BAR)) (hskip : skip_spaces m p = some q) :
    parse_stage (n + 1) m p st =
      if m q = 0 ∨ m q = BAR then some (m, q, st)
      else if m q = LT then
        (skip_spaces m (q + 1)).bind fun a => (cut_word m a).bind fun x => parse_stage n x.1 x.2 { st with in_file := a }
      else if m q = GT then
        (skip_spaces m (if m (q + 1) == GT then q + 2 else q + 1)).bind fun a => (cut_word m a).bind fun x =>
          parse_stage n x.1 x.2 { st with append := st.append || m (q + 1) == GT, out_file := a }
      else (cut_word m q).bind fun x =>
        parse_stage n x.1 x.2 { st with args := if st.args.length < MAX_ARGS - 1 then st.args ++ [q] else st.args } := by
  rw [parse_stage, if_neg hgo, hskip]
  simp only [Option.bind_eq_bind, Option.bind_some]

/-- 内側の `while`。 -/
theorem parse_stage_text (n : Nat) (hn : t.length < n) (ht : CStr m p t) (hp : p ≠ 0) (hmax : t.length < LINE_MAX)
    (hcl : Clean t) (hst : Holds m p st s) :
    ∃ m' p' st' t' seg, parse_stage n m p st = some (m', p', st') ∧ SegmentEnd m p t s m' p' st' t' seg := by
  induction n generalizing m p t st s with
  | zero => exact absurd hn (Nat.not_lt_zero _)
  | succ n ih =>
    by_cases hstop : m p = 0 ∨ m p = BAR
    · refine ⟨m, p, st, t, [], ?_, .done ht (ht.headD ▸ hstop) hst⟩
      rw [parse_stage, if_pos hstop]
    obtain ⟨q, r, hskip, hr, hpq, htok, hspace, hsuf⟩ := skip_spaces_text ht hmax
    have hkeep : Kept p m m := .refl p m
    have hclr : Clean r := hcl.of_suffix [] hsuf htok.symm
    have hlen := hsuf.length_le
    have hheld : Holds m q st s := hst.kept hkeep hpq
    rw [parse_stage_skip n st hstop hskip]
    -- 空白の後から続ければよい
    suffices hrest : ∃ m' p' st' t' seg, _ = some (m', p', st') ∧ SegmentEnd m q r s m' p' st' t' seg by
      obtain ⟨m', p', st', t', seg, hres, hend⟩ := hrest
      exact ⟨m', p', st', t', seg, hres, hend.extend [] hsuf htok.symm List.not_mem_nil rfl hkeep hpq⟩
    have hhead := hr.headD
    split
    next hstop => exact ⟨m, q, st, r, [], rfl, .done hr (hhead ▸ hstop) hheld⟩
    next hgo =>
      cases r with
      | nil => exact absurd (.inl hhead) hgo
      | cons c x =>
        have hchar : m q = c := hr.head
        rw [hchar] at hgo ⊢
        rw [List.length_cons] at hlen
        -- 一つの語か演算子を読んだ後は、帰納法の仮定による
        have hcont : ∀ (pre : List Token) (s₁ : Command) {y : List UInt8} {m₁ : ByteMem} {q₁ : Nat} {st₁ : Stage},
            y <:+ c :: x → y.length ≤ x.length → tokens (c :: x) = pre ++ tokens y → .bar ∉ pre → CStr m₁ q₁ y →
            Kept q m m₁ → q ≤ q₁ →
            Holds m₁ q₁ st₁ s₁ → (∀ seg, (y = [] → seg = []) → gather (pre ++ seg) s = gather seg s₁) →
            ∃ m' p' st' t' seg, parse_stage n m₁ q₁ st₁ = some (m', p', st') ∧
              SegmentEnd m q (c :: x) s m' p' st' t' seg := by
          intro pre s₁ y m₁ q₁ st₁ hyr hylen htok₁ hpre htext hkept hqq hheld₁ hgather
          obtain ⟨m', p', st', t', seg, hres, hend⟩ :=
            ih (by omega) htext (by omega) (by omega) (hclr.of_suffix pre hyr htok₁) hheld₁
          refine ⟨m', p', st', t', pre ++ seg, hres, hend.extend pre hyr htok₁ hpre (hgather seg fun hy0 => ?_) hkept hqq⟩
          have hsplit := hend.split
          rw [hy0, tokens_nil] at hsplit
          exact (List.append_eq_nil_iff.mp hsplit.symm).1
        have hq : q ≠ 0 := by omega
        split
        next hlt =>
          subst hlt
          obtain ⟨a, w, y, m₁, q₁, hskip₁, hcut, hname, hy, hkept, hqq, hsuf₁, hylen, htok₁, hempty⟩ :=
            redirect_text hr.tail (by omega) hclr (List.suffix_cons LT x) (tokens_lt x) rfl (Nat.lt_succ_self q)
          rw [hskip₁, Option.bind_some, hcut, Option.bind_some]
          have hh := hheld.kept hkept hqq
          exact hcont (.lt :: flush w) { s with in_file := some w } hsuf₁ hylen htok₁ (by simp [bar_notMem_flush]) hy hkept hqq
            ⟨hh.args, hname, hh.out_file, hh.append, hh.background⟩ fun seg hseg => gather_lt s fun hw0 => hseg (hempty hw0)
        next hlt =>
          split
          next hgt =>
            subst hgt
            have hx := hr.tail
            cases hg : (m (q + 1) == GT) with
            | true =>
              have hd : x.headD 0 = GT := hx.headD ▸ beq_iff_eq.mp hg
              cases x with
              | nil => cases hd
              | cons d z =>
                obtain rfl : d = GT := hd
                rw [List.length_cons] at hlen
                obtain ⟨a, w, y, m₁, q₁, hskip₁, hcut, hname, hy, hkept, hqq, hsuf₁, hylen, htok₁, hempty⟩ :=
                  redirect_text hx.tail (by omega) hclr ((List.suffix_cons GT z).trans (List.suffix_cons GT _)) (tokens_append z) rfl
                    (by omega : q < q + 1 + 1)
                rw [if_pos rfl, show q + 2 = q + 1 + 1 from rfl, hskip₁, Option.bind_some, hcut, Option.bind_some]
                have hh := hheld.kept hkept hqq
                exact hcont (.append :: flush w) { s with append := true, out_file := some w } hsuf₁ (Nat.le_succ_of_le hylen) htok₁
                  (by simp [bar_notMem_flush]) hy hkept hqq ⟨hh.args, hh.in_file, hname, by simp, hh.background⟩
                  fun seg hseg => gather_append s fun hw0 => hseg (hempty hw0)
            | false =>
              have hd : x.headD 0 ≠ GT := hx.headD ▸ (by simpa using hg)
              obtain ⟨a, w, y, m₁, q₁, hskip₁, hcut, hname, hy, hkept, hqq, hsuf₁, hylen, htok₁, hempty⟩ :=
                redirect_text hx (by omega) hclr (List.suffix_cons GT x) (tokens_gt hd) rfl (Nat.lt_succ_self q)
              rw [if_neg Bool.false_ne_true, hskip₁, Option.bind_some, hcut, Option.bind_some]
              have hh := hheld.kept hkept hqq
              exact hcont (.gt :: flush w) { s with out_file := some w } hsuf₁ hylen htok₁ (by simp [bar_notMem_flush]) hy hkept hqq
                ⟨hh.args, hh.in_file, hname, by simpa using hh.append, hh.background⟩
                fun seg hseg => gather_gt s fun hw0 => hseg (hempty hw0)
          next hgt =>
            have hword : is_word c = true :=
              is_word_iff.mpr ⟨fun h => hgo (.inl h), hspace, fun h => hgo (.inr h), hgt, hlt⟩
            have hop : is_op c = false := by
              by_contra h
              rcases is_op_iff.mp (by simpa using h) with h | h | h
              · exact hgo (.inr h)
              · exact hlt h
              · exact hgt h
            obtain ⟨w, y, m₁, q₁, hcut, hw, hy, hkept, hsuf₁, hwy, htok₁, -, hne⟩ :=
              cut_word_text hr (by rw [List.length_cons]; omega) hclr hop
            rw [hcut, Option.bind_some]
            have hw0 : w ≠ [] := hne hword
            have hqq : q ≤ q₁ := by
              have := hw.2
              omega
            have hpos := List.length_pos_iff.mpr hw0
            rw [List.length_cons] at hwy
            exact hcont (flush w) { s with args := s.args ++ [w] } hsuf₁ (by omega) htok₁ (bar_notMem_flush w) hy hkept hqq
              ((hheld.kept hkept hqq).add_arg hw) fun seg _ => gather_word s hw0

/-! ## 行 -/

theorem commands_bar (hbar : .bar ∉ seg) (ts : List Token) :
    commands (seg ++ .bar :: ts) = (if (gather seg {}).args = [] then [] else [gather seg {}]) ++ commands ts := by
  unfold commands
  have hseg : ∀ x ∈ seg, (x == Token.bar) = false := fun x hx => by
    simpa using fun h : x = .bar => hbar (h ▸ hx)
  rw [List.splitOnP_append_cons_of_forall_mem hseg _ (by simp), List.map_cons, List.filter_cons]
  cases (gather seg {}).args <;> rfl

theorem commands_last (hbar : .bar ∉ seg) :
    commands seg = if (gather seg {}).args = [] then [] else [gather seg {}] := by
  unfold commands
  have hseg : ∀ x ∈ seg, (x == Token.bar) = false := fun x hx => by
    simpa using fun h : x = .bar => hbar (h ▸ hx)
  rw [List.splitOnP_eq_singleton hseg, List.map_singleton, List.filter_cons]
  cases (gather seg {}).args <;> rfl

@[simp] theorem commands_nil : commands [] = [] := rfl

/-- 語のある段だけを加える。 -/
theorem Holds.push {stages : List Stage} {cs : List Command} (hall : List.Forall₂ (Holds m p) stages cs) (h : Holds m p st s) :
    List.Forall₂ (Holds m p) (if 0 < st.args.length then stages ++ [st] else stages) (cs ++ if s.args = [] then [] else [s]) := by
  have hlen := h.args.length_eq
  have hmax : MAX_ARGS = 16 := rfl
  rw [List.length_take] at hlen
  cases hs : s.args with
  | nil =>
    rw [hs, List.length_nil, Nat.min_zero] at hlen
    simpa [hlen] using hall
  | cons a l =>
    rw [hs, List.length_cons] at hlen
    rw [if_pos (by omega), if_neg (List.cons_ne_nil a l)]
    exact List.rel_append hall (.cons h .nil)

theorem Holds.all_kept {stages : List Stage} {cs : List Command} (h : List.Forall₂ (Holds m p) stages cs) (hk : Kept p m m')
    (hpq : p ≤ q) : List.Forall₂ (Holds m' q) stages cs :=
  h.imp fun _ _ hs => hs.kept hk hpq

theorem take_left {α : Type*} {k : Nat} {l l' : List α} (h : l.length = k) : (l ++ l').take k = l := by
  rw [← h, List.take_left]

/-- 外側の `while`。段は 4 つまでである。 -/
theorem parse_stages_text (n : Nat) (hn : t.length < n) (ht : CStr m p t) (hp : p ≠ 0) (hmax : t.length < LINE_MAX)
    (hcl : Clean t) {stages : List Stage} {cs : List Command} (hst : List.Forall₂ (Holds m p) stages cs) (hle : cs.length ≤ MAX_STAGES) :
    ∃ m' p' stages', parse_stages n m p stages = some (m', stages') ∧
      List.Forall₂ (Holds m' p') stages' ((cs ++ commands (tokens t)).take MAX_STAGES) := by
  induction n generalizing m p t stages cs with
  | zero => exact absurd hn (Nat.not_lt_zero _)
  | succ n ih =>
    have hlen := hst.length_eq
    rw [parse_stages]
    split
    next hstop =>
      refine ⟨m, p, stages, rfl, ?_⟩
      cases hstop with
      | inl h0 =>
        cases t with
        | nil => rwa [tokens_nil, commands_nil, List.append_nil, List.take_of_length_le hle]
        | cons c t => exact absurd (ht.head.symm.trans h0) ht.head_ne
      | inr hfull => rwa [take_left (by omega)]
    next hgo =>
      have hempty : Holds m p {} {} := ⟨.nil, rfl, rfl, rfl, rfl⟩
      obtain ⟨m₁, p₁, st, t', seg, hres, hend⟩ := parse_stage_text LINE_MAX hmax ht hp hmax hcl hempty
      have hpush := Holds.push (Holds.all_kept hst hend.kept hend.le) hend.holds
      have hcount : (cs ++ if (gather seg {}).args = [] then [] else [gather seg {}]).length ≤ MAX_STAGES := by
        rw [List.length_append]
        split <;> simp <;> omega
      simp only [hres, Option.bind_eq_bind, Option.bind_some]
      have hslen := hend.suffix.length_le
      rcases hend.stop with rfl | ⟨r, rfl⟩
      · have hnul : m₁ p₁ = 0 := hend.text.nul
        have hsplit := hend.split
        rw [tokens_nil, List.append_nil] at hsplit
        have hpos : 0 < t.length := by
          cases t with
          | nil => exact absurd (.inl ht.nul) hgo
          | cons c t => exact Nat.succ_pos _
        obtain ⟨k, rfl⟩ : ∃ k, n = k + 1 := ⟨n - 1, by omega⟩
        rw [if_neg (by rw [hnul]; decide), hsplit, commands_last hend.bar, parse_stages, if_pos (.inl hnul)]
        refine ⟨m₁, p₁, _, rfl, ?_⟩
        rwa [List.take_of_length_le hcount]
      · have hbar : m₁ p₁ = BAR := hend.text.head
        rw [List.length_cons] at hslen
        obtain ⟨q, x, hskip, hx, hpq, htok, -, hsuf⟩ := skip_spaces_text hend.text.tail (by omega)
        have hxlen := hsuf.length_le
        rw [if_pos hbar, hskip]
        have hclx : Clean x := by
          refine hcl.of_suffix (seg ++ [.bar]) ((hsuf.trans (List.suffix_cons BAR r)).trans hend.suffix) ?_
          rw [hend.split, tokens_bar, htok, List.append_assoc]
          rfl
        obtain ⟨m', p', stages', hres', hall⟩ := ih (by omega) hx (by omega) (by omega) hclx
          (Holds.all_kept hpush (.refl p₁ m₁) (Nat.le_of_succ_le hpq)) hcount
        refine ⟨m', p', stages', hres', ?_⟩
        rwa [hend.split, tokens_bar, commands_bar hend.bar, ← htok, ← List.append_assoc]

/-- 最後の組。 -/
theorem forall₂_concat {α β : Type*} {R : α → β → Prop} {l : List α} {bs : List β} {b : β} (h : List.Forall₂ R l (bs ++ [b])) :
    ∃ as a, l = as ++ [a] ∧ List.Forall₂ R as bs ∧ R a b := by
  induction bs generalizing l with
  | nil =>
    cases h with
    | cons hab hnil =>
      cases hnil
      exact ⟨[], _, rfl, .nil, hab⟩
  | cons c bs ih =>
    cases h with
    | cons hac hl =>
      obtain ⟨as, a, rfl, has, hab⟩ := ih hl
      exact ⟨_ :: as, a, rfl, .cons hac has, hab⟩

theorem Holds.reads (h : Holds m p st s) (hlen : s.args.length ≤ MAX_ARGS - 1) : Reads m st s := by
  have hname : ∀ {a : Nat} {o : Option (List UInt8)}, HoldsName m p a o → ReadsName m a o := fun {a o} ho => by
    cases o with
    | none => exact ho
    | some w => exact ⟨ho.1, ho.2.1⟩
  have hargs := h.args
  rw [List.take_of_length_le hlen] at hargs
  exact ⟨hargs.imp fun _ _ ha => ha.1, hname h.in_file, hname h.out_file, h.append, h.background⟩

theorem all_reads {stages : List Stage} {cs : List Command} (h : List.Forall₂ (Holds m p) stages cs)
    (hlen : ∀ c ∈ cs, c.args.length ≤ MAX_ARGS - 1) : List.Forall₂ (Reads m) stages cs := by
  induction h with
  | nil => exact .nil
  | cons hs _ ih =>
    obtain ⟨hc, hcs⟩ := List.forall_mem_cons.mp hlen
    exact .cons (hs.reads hc) (ih hcs)

/-- `strcmp(a, "&") == 0`。 -/
theorem amp_iff {a : Nat} (h : CStr m a w) : m a = AMP ∧ m (a + 1) = 0 ↔ w = [AMP] := by
  constructor
  · intro ⟨h1, h2⟩
    cases w with
    | nil => exact absurd (h.nul.symm.trans h1) (by decide)
    | cons c w =>
      obtain rfl : c = AMP := h.head.symm.trans h1
      cases w with
      | nil => rfl
      | cons d w => exact absurd (h.tail.head.symm.trans h2) h.tail.head_ne
  · rintro rfl
    exact ⟨h.head, h.tail.nul⟩

/-- 最後の `&`。 -/
theorem set_background_reads {stages : List Stage} {cs : List Command} (h : List.Forall₂ (Reads m) stages cs) :
    List.Forall₂ (Reads m) (set_background m stages) (detach cs) := by
  cases cs using List.reverseRecOn with
  | nil =>
    cases h
    exact .nil
  | append_singleton cs last =>
    obtain ⟨as, st, rfl, has, hst⟩ := forall₂_concat h
    unfold set_background detach
    simp only [List.getLast?_concat, List.dropLast_concat]
    obtain ⟨args, in_file, out_file, append, background⟩ := last
    cases args using List.reverseRecOn with
    | nil =>
      have hnil : st.args = [] := List.forall₂_nil_right_iff.mp hst.args
      simpa [hnil] using h
    | append_singleton ws w =>
      obtain ⟨addrs, a, hargs, haddrs, hw⟩ := forall₂_concat hst.args
      rw [hargs]
      simp only [List.getLast?_concat, List.dropLast_concat, amp_iff hw, Option.some.injEq]
      split
      · exact List.rel_append has (.cons ⟨haddrs, hst.in_file, hst.out_file, hst.append, rfl⟩ .nil)
      · exact h

theorem parse_line_text (hl : CStr m line t) (h0 : line ≠ 0) (hlen : t.length ≤ 255) (hcl : Clean t)
    (hstages : (commands (tokens t)).length ≤ MAX_STAGES)
    (hargs : ∀ c ∈ commands (tokens t), c.args.length ≤ MAX_ARGS - 1) :
    ParsesTo m line (detach (commands (tokens t))) := by
  have hmax : LINE_MAX = 256 := rfl
  obtain ⟨q, r, hskip, hr, hpq, htok, -, hsuf⟩ := skip_spaces_text hl (by omega)
  have hrlen := hsuf.length_le
  rw [← htok] at hstages hargs ⊢
  cases r with
  | nil =>
    have hnul : m q = 0 := hr.nul
    refine ⟨m, [], ?_, .nil⟩
    rw [parse_line, hskip]
    exact if_pos hnul
  | cons c r =>
    have hne : m q ≠ 0 := hr.head ▸ hr.head_ne
    have hclr : Clean (c :: r) := hcl.of_suffix [] hsuf htok.symm
    obtain ⟨m', p', stages, hres, hall⟩ := parse_stages_text LINE_MAX (by omega) hr (by omega) (by omega) hclr .nil (Nat.zero_le _)
    rw [List.nil_append, List.take_of_length_le hstages] at hall
    refine ⟨m', set_background m' stages, ?_, set_background_reads (all_reads hall hargs)⟩
    rw [parse_line, hskip]
    simp only [Option.bind_eq_bind, Option.bind_some]
    rw [if_neg hne, hres]
    rfl

/-! ## 空白の出し入れ -/

/-- 語の途中でも `>>` の間でもない位置で分ける。 -/
theorem lex_append (w : List UInt8) (hn₀ : (0 : UInt8) ∉ u) (hn : (0 : UInt8) ∉ v) (hgt : ¬(u.getLast? = some GT ∧ v.head? = some GT))
    (hb : u = [] ∧ w = [] ∨ is_word (v.headD 0) = false ∨ ∃ a, u.getLast? = some a ∧ is_word a = false) :
    lex w (u ++ v) = lex w u ++ tokens v := by
  induction hk : u.length using Nat.strong_induction_on generalizing u w with
  | _ k ih =>
    subst hk
    cases u with
    | nil =>
      rcases hb with ⟨-, rfl⟩ | hb | ⟨a, ha, -⟩
      · rfl
      · rw [List.nil_append, lex_flush w hn hb]
        rfl
      · cases ha
    | cons c u =>
      -- 空白や演算子の後では、読みかけの語はない
      have hrest : ∀ {u'}, u' <:+ u → lex [] (u' ++ v) = tokens u' ++ tokens v := fun {u'} hu' => by
        cases u' with
        | nil => rfl
        | cons d u' =>
          have hlast : (d :: u').getLast? = (c :: u).getLast? := by
            obtain ⟨x, rfl⟩ := hu'
            simp [List.getLast?_cons, List.getLast?_append]
          refine ih _ (Nat.lt_succ_of_le hu'.length_le) [] (fun h => hn₀ (List.mem_cons_of_mem c (hu'.subset h))) (by rwa [hlast]) (.inr ?_) rfl
          rw [hlast]
          exact hb.resolve_left fun h => List.cons_ne_nil c u h.1
      rw [List.cons_append, lex_cons, lex_cons]
      split
      · rw [hrest (List.suffix_refl u), List.append_assoc]
        rfl
      split
      · rw [hrest (List.suffix_refl u), List.append_assoc]
        rfl
      split
      · rw [hrest (List.suffix_refl u), List.append_assoc]
        rfl
      split
      next hs hbar hlt hg =>
        subst hg
        cases u with
        | nil =>
          cases v with
          | nil => simp
          | cons d v =>
            have hd : d ≠ GT := fun h => hgt ⟨rfl, by rw [h]; rfl⟩
            simp [hd, tokens]
        | cons d u =>
          rw [List.cons_append]
          dsimp only
          split
          · rw [hrest (List.suffix_cons d u), List.append_assoc]
            rfl
          · have h := hrest (List.suffix_refl (d :: u))
            rw [List.cons_append] at h
            rw [h, List.append_assoc]
            rfl
      next hs hbar hlt hg =>
        refine ih _ (Nat.lt_succ_self _) (w ++ [c]) (fun h => hn₀ (List.mem_cons_of_mem c h)) (fun h => hgt ?_) ?_ rfl
        · cases u with
          | nil => cases h.1
          | cons d u => simpa [List.getLast?_cons] using h
        · rcases hb with hb | hb | ⟨a, ha, hword⟩
          · exact absurd hb.1 (List.cons_ne_nil c u)
          · exact .inr (.inl hb)
          · cases u with
            | nil =>
              obtain rfl : c = a := by simpa using ha
              rcases not_word_cases (fun h => hn₀ (h ▸ List.mem_cons_self)) hword with h | h | h | h
              · exact absurd h hs
              · exact absurd h hbar
              · exact absurd h hlt
              · exact absurd h hg
            | cons d u => exact .inr (.inr ⟨a, by simpa [List.getLast?_cons] using ha, hword⟩)

theorem op_not_word (h : is_op c = true) : is_word c = false := by
  rcases is_op_iff.mp h with rfl | rfl | rfl <;> decide

/-- 演算子のとなりに空白を入れても、分け方は変わらない。 -/
theorem tokens_beside (h : Beside u v) (hn : (0 : UInt8) ∉ u ++ v) (k : Nat) :
    tokens (u ++ (List.replicate k SPACE ++ v)) = tokens (u ++ v) := by
  have hu : (0 : UInt8) ∉ u := fun h => hn (List.mem_append_left v h)
  have hv : (0 : UInt8) ∉ v := fun h => hn (List.mem_append_right u h)
  have hsplit : tokens (u ++ v) = tokens u ++ tokens v := by
    refine lex_append [] hu hv h.2 ?_
    rcases h.1 with hop | hop
    · obtain ⟨a, ha, hop⟩ := (Option.any_eq_true _ _).mp hop
      exact .inr (.inr ⟨a, ha, op_not_word hop⟩)
    · obtain ⟨a, ha, hop⟩ := (Option.any_eq_true _ _).mp hop
      refine .inr (.inl ?_)
      rw [List.headD_eq_head?_getD, ha]
      exact op_not_word hop
  cases k with
  | zero => rfl
  | succ k =>
    have hsp : (0 : UInt8) ∉ List.replicate (k + 1) SPACE ++ v := by
      simp only [List.mem_append, not_or]
      exact ⟨fun hmem => absurd (List.eq_of_mem_replicate hmem) (by decide), hv⟩
    have hspaces : ∀ c ∈ List.replicate (k + 1) SPACE, (c == SPACE) = true := fun c hc => by
      simp [List.eq_of_mem_replicate hc]
    rw [hsplit, ← tokens_spaces hspaces v]
    refine lex_append [] hu hsp ?_ (.inr (.inl rfl))
    rintro ⟨-, hhead⟩
    cases hhead

/-- 空白を入れても、語の直後に演算子は来ない。 -/
theorem Clean.beside (h : Clean (u ++ v)) (hb : Beside u v) (hn : (0 : UInt8) ∉ u ++ v) (k : Nat) :
    Clean (u ++ (List.replicate k SPACE ++ v)) := by
  refine ⟨?_, (tokens_beside hb hn k).symm ▸ h.named⟩
  obtain ⟨hu, hv, -⟩ := List.isChain_append.mp h.apart
  have hsp : ∀ c ∈ List.replicate k SPACE, c = SPACE := fun c hc => List.eq_of_mem_replicate hc
  cases k with
  | zero => exact h.apart
  | succ k =>
    refine List.isChain_append.mpr ⟨hu, List.isChain_append.mpr ⟨?_, hv, fun c hc o _ hword => ?_⟩, fun c _ o ho _ => ?_⟩
    · exact List.isChain_replicate_of_rel _ fun hword => by cases hword
    · rw [hsp c (List.mem_of_mem_getLast? hc)] at hword
      cases hword
    · rw [List.replicate_succ, List.cons_append, List.head?_cons, Option.mem_some_iff] at ho
      subst ho
      rfl

/-- 語や名前の直後に演算子が来ない行は、その意味の通りに解析される。演算子のとなりに空白を入れても、その空白を
    除いても、結果は変わらない。 -/
theorem parse_line_clean (m : ByteMem) (line : Nat) (t : List UInt8) (hl : CStr m line t) (h0 : line ≠ 0)
    (hlen : t.length ≤ 255) (hcl : Clean t) (hstages : (commands (tokens t)).length ≤ MAX_STAGES)
    (hargs : ∀ c ∈ commands (tokens t), c.args.length ≤ MAX_ARGS - 1) :
    ParsesTo m line (detach (commands (tokens t))) ∧
      ∀ u v k m' line', t = u ++ v → Beside u v → CStr m' line' (u ++ (List.replicate k SPACE ++ v)) → line' ≠ 0 →
        (u ++ (List.replicate k SPACE ++ v)).length ≤ 255 → ParsesTo m' line' (detach (commands (tokens t))) := by
  refine ⟨parse_line_text hl h0 hlen hcl hstages hargs, fun u v k m' line' huv hb hl' h0' hlen' => ?_⟩
  subst huv
  have htok := tokens_beside hb hl.nonzero k
  rw [← htok] at hstages hargs ⊢
  exact parse_line_text hl' h0' hlen' (hcl.beside hb hl.nonzero k) hstages hargs

/-- 番地 `0x1000` に置いた `a >b`。 -/
def sample_line : ByteMem := fun x => [0x61, 0x20, 0x3E, 0x62].getD (x - 0x1000) 0

theorem parse_line_sample : ParsesTo sample_line 0x1000 [{ args := [[0x61]], out_file := some [0x62] }] :=
  (parse_line_clean sample_line 0x1000 [0x61, 0x20, 0x3E, 0x62] ⟨by decide, by decide, by decide, by decide⟩ (by decide) (by decide)
    ⟨by decide, by decide⟩ (by decide) (by decide)).1

/-- 番地 `0x1000` に置いた `a &`。 -/
def background_line : ByteMem := fun x => [0x61, 0x20, 0x26].getD (x - 0x1000) 0

/-- 最後の `&` は引数にならない。 -/
theorem parse_line_ampersand : CStr background_line 0x1000 [0x61, 0x20, 0x26] ∧
    ¬ParsesTo background_line 0x1000 (plain_commands (tokens [0x61, 0x20, 0x26])) := by
  refine ⟨⟨by decide, by decide, by decide, by decide⟩, ?_⟩
  rintro ⟨m', stages, hres, hall⟩
  have hargs : (parse_line background_line 0x1000).map (fun x => x.2.map fun st => st.args.length) = some [1] := by decide
  have hplain : plain_commands (tokens [0x61, 0x20, 0x26]) = [{ args := [[0x61], [0x26]] }] := by decide
  rw [hres] at hargs
  rw [hplain] at hall
  cases hall with
  | cons hst hnil =>
    cases hnil
    have hlen := hst.args.length_eq
    simp only [Option.map_some, List.map_cons, List.map_nil, hlen] at hargs
    cases hargs

end MyOS.Apps
