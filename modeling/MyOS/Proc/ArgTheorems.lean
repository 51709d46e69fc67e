import MyOS.Lib.Components
import MyOS.Proc.Exec
import Mathlib.Algebra.GroupWithZero.Nat
import Mathlib.Data.List.Forall2

/-!
# `exec` を越えて引数が保たれること

つなぐ、分ける、積む、のそれぞれの結果を示してから合わせる。
-/

namespace MyOS.Proc
open MyOS.Lib

variable {m um b b' user : ByteMem} {a p pos n src esp off : Nat} {w s line : List UInt8} {words ws : List (List UInt8)}
  {args argv ptrs : List Nat}

/-- 空白と NUL を含まない、空でない語。 -/
def Word (w : List UInt8) : Prop := w ≠ [] ∧ SPACE ∉ w ∧ 0 ∉ w

/-- 語を空白でつなぐ。 -/
def join_words (words : List (List UInt8)) : List UInt8 := [SPACE].intercalate words

@[simp] theorem join_words_single (w : List UInt8) : join_words [w] = w := by
  simp [join_words, List.intercalate]

theorem join_words_cons (w v : List UInt8) (ws : List (List UInt8)) :
    join_words (w :: v :: ws) = w ++ SPACE :: join_words (v :: ws) := by
  simp [join_words, List.intercalate]

theorem join_words_length (words : List (List UInt8)) :
    (join_words words).length + 1 = (words.map fun w => w.length + 1).sum + if words = [] then 1 else 0 := by
  induction words with
  | nil => rfl
  | cons w ws ih =>
    cases ws with
    | nil => simp
    | cons v ws =>
      rw [join_words_cons, List.length_append, List.length_cons, List.map_cons, List.sum_cons]
      simp only [reduceCtorEq, ↓reduceIte] at ih ⊢
      omega

theorem zero_notMem_join (h : ∀ w ∈ words, Word w) : 0 ∉ join_words words := by
  induction words with
  | nil => simp [join_words, List.intercalate]
  | cons w ws ih =>
    obtain ⟨hw, hws⟩ := List.forall_mem_cons.mp h
    cases ws with
    | nil =>
      rw [join_words_single]
      exact hw.2.2
    | cons v ws =>
      rw [join_words_cons]
      simp only [List.mem_append, List.mem_cons, not_or]
      exact ⟨hw.2.2, by decide, ih hws⟩

/-! ## つなぐ -/

theorem put_cmdline_eq (b : ByteMem) (c : UInt8) (h : pos < LINE_MAX) :
    put_cmdline b pos c = some (b.write pos [c], pos + 1) := if_pos h

theorem copy_arg_eq (b : ByteMem) (h : CStr m src s) (hpos : pos + s.length ≤ LINE_MAX) (hn : s.length < n) :
    copy_arg m n src b pos = some (b.write pos s, pos + s.length) := by
  induction s generalizing n src b pos with
  | nil =>
    cases n with
    | zero => exact absurd hn (Nat.not_lt_zero _)
    | succ n =>
      have hnul : m src = 0 := h.nul
      rw [copy_arg, if_pos hnul]
      rfl
  | cons c s ih =>
    cases n with
    | zero => exact absurd hn (Nat.not_lt_zero _)
    | succ n =>
      rw [List.length_cons] at hpos hn
      rw [copy_arg, h.head, if_neg h.head_ne, put_cmdline_eq b c (by omega), Option.bind_some]
      dsimp only
      rw [ih _ h.tail (by omega) (by omega), List.length_cons, Nat.add_assoc, Nat.add_comm 1]
      rfl

/-- 二つ目からの語の前には空白を置く。 -/
theorem join_args_tail (i : Nat) (b : ByteMem) (h : List.Forall₂ (CStr m) args words) (hi : 0 < i)
    (hpos : pos + (joined SPACE words).length ≤ LINE_MAX) :
    join_args m i args b pos = some (b.write pos (joined SPACE words), pos + (joined SPACE words).length) := by
  induction h generalizing i b pos with
  | nil => rfl
  | @cons arg w args ws hw _ ih =>
    have hlen : (joined SPACE (w :: ws)).length = 1 + w.length + (joined SPACE ws).length := by
      simp [joined]
      omega
    have hlist : joined SPACE (w :: ws) = [SPACE] ++ (w ++ joined SPACE ws) := by simp [joined]
    rw [hlen] at hpos ⊢
    rw [join_args, if_pos hi, put_cmdline_eq b SPACE (by omega)]
    simp only [Option.bind_eq_bind, Option.bind_some]
    rw [copy_arg_eq _ hw (by omega) (by omega)]
    simp only [Option.bind_some]
    rw [ih _ _ (Nat.succ_pos i) (by omega), hlist, ByteMem.write_append, ByteMem.write_append]
    simp only [List.length_singleton, Option.some.injEq, Prod.mk.injEq, true_and]
    omega

theorem join_words_joined (w : List UInt8) (ws : List (List UInt8)) : join_words (w :: ws) = w ++ joined SPACE ws := by
  induction ws generalizing w with
  | nil => simp [joined]
  | cons v ws ih =>
    rw [join_words_cons, ih]
    rfl

/-- つないだコマンド行が、配列に収まって作られる。 -/
theorem run_stage_cmdline_eq (b : ByteMem) (hargs : List.Forall₂ (CStr m) args words) (hw : ∀ w ∈ words, Word w)
    (hne : words ≠ []) (hlen : (join_words words).length ≤ 255) :
    ∃ b', run_stage_cmdline m args b = some b' ∧ CStr b' 0 (join_words words) := by
  have hnul := zero_notMem_join hw
  cases hargs with
  | nil => exact absurd rfl hne
  | @cons arg w args ws harg hargs =>
    have hmax : LINE_MAX = 256 := rfl
    have hsum : (join_words (w :: ws)).length = w.length + (joined SPACE ws).length := by
      rw [join_words_joined, List.length_append]
    have hjoin : join_args m 0 (arg :: args) b 0 =
        some (b.write 0 (join_words (w :: ws)), (join_words (w :: ws)).length) := by
      rw [join_args, if_neg (Nat.lt_irrefl 0)]
      simp only [Option.bind_eq_bind, Option.bind_some]
      rw [copy_arg_eq _ harg (by omega) (by omega)]
      simp only [Option.bind_some, Nat.zero_add]
      rw [join_args_tail 1 _ hargs Nat.one_pos (by omega), join_words_joined, ByteMem.write_append,
        List.length_append, Nat.zero_add]
    refine ⟨(b.write 0 (join_words (w :: ws))).store8 (join_words (w :: ws)).length 0, ?_, ?_⟩
    · rw [run_stage_cmdline, hjoin]
      simp only [Option.bind_eq_bind, Option.bind_some]
      rw [put_cmdline_eq _ 0 (by omega)]
      rfl
    · have h := ByteMem.write_cstr (a := 0) b hnul (by omega)
      rwa [Nat.zero_add] at h

/-! ## 分ける -/

theorem copy_cmdline_eq (b : ByteMem) (len : Nat) (h : CStr user (a + len) s) (hn : s.length ≤ n) :
    copy_cmdline user a n len b = (b.write len s, len + s.length) := by
  induction s generalizing n len b with
  | nil =>
    cases n with
    | zero => rfl
    | succ n =>
      have hnul : user (a + len) = 0 := h.nul
      rw [copy_cmdline, if_pos hnul]
      rfl
  | cons c s ih =>
    cases n with
    | zero => exact absurd hn (Nat.not_succ_le_zero _)
    | succ n =>
      rw [copy_cmdline, h.head, if_neg h.head_ne, ih _ _ h.tail (Nat.le_of_succ_le_succ hn), List.length_cons,
        Nat.add_assoc, Nat.add_comm 1]
      rfl

theorem Word.not_space (h : Word w) : ∀ c ∈ w, (c != 0 && c != SPACE) = true := fun c hc => by
  simp only [bne_iff_ne, Bool.and_eq_true, ne_eq]
  exact ⟨fun h0 => h.2.2 (h0 ▸ hc), fun hs => h.2.1 (hs ▸ hc)⟩

/-- 語の先頭では、空白を読み飛ばさない。 -/
theorem skip_spaces_word (h : CStr m a (w ++ s)) (hw : Word w) : skip_spaces m a = some a := by
  cases w with
  | nil => exact absurd rfl hw.1
  | cons c w =>
    have hc : c ≠ SPACE := fun hc => hw.2.1 (hc ▸ List.mem_cons_self)
    refine CStr.scan (w := []) h (fun c hc => by cases hc) ?_ (by decide)
    simpa using hc

theorem skip_word_eq (h : CStr m a (w ++ s)) (hw : Word w) (hs : s.headD 0 = 0 ∨ s.headD 0 = SPACE) (hlen : w.length < LINE_MAX) :
    skip_word m a = some (a + w.length) := by
  refine h.scan hw.not_space ?_ hlen
  cases hs with
  | inl hs => rw [hs]; decide
  | inr hs => rw [hs]; decide

/-- その場で分けると、語を順に指す番地が得られる。`p` より前は変わらない。 -/
theorem split_args_eq (hline : CStr b p (join_words words)) (hw : ∀ w ∈ words, Word w) (hne : words ≠ [])
    (hn : words.length ≤ n) (hlen : (join_words words).length < LINE_MAX) (argv : List Nat) :
    ∃ b' ptrs, split_args n p b argv = some (b', argv ++ ptrs) ∧ List.Forall₂ (CStr b') ptrs words ∧
      ∀ x < p, b' x = b x := by
  induction words generalizing n p b argv with
  | nil => exact absurd rfl hne
  | cons w ws ih =>
    obtain ⟨hword, hws⟩ := List.forall_mem_cons.mp hw
    cases n with
    | zero => exact absurd hn (Nat.not_succ_le_zero _)
    | succ n =>
      cases ws with
      | nil =>
        -- 最後の語。次の周で `*p` は NUL である
        rw [join_words_single] at hline hlen
        have hhead : b p ≠ 0 := by
          cases w with
          | nil => exact absurd rfl hword.1
          | cons c w =>
            rw [hline.head]
            exact hline.head_ne
        refine ⟨b, [p], ?_, .cons hline .nil, fun _ _ => rfl⟩
        rw [split_args, if_neg hhead, skip_word_eq (s := []) (by simpa using hline) hword (.inl rfl) hlen]
        simp only [Option.bind_eq_bind, Option.bind_some]
        rw [if_pos hline.nul]
        cases n with
        | zero => rfl
        | succ n => rw [split_args, if_pos hline.nul]
      | cons v ws =>
        rw [join_words_cons] at hline hlen
        rw [List.length_append, List.length_cons] at hlen
        have hhead : b p ≠ 0 := by
          cases w with
          | nil => exact absurd rfl hword.1
          | cons c w =>
            rw [hline.head]
            exact hline.head_ne
        have hspace : b (p + w.length) ≠ 0 := by
          rw [hline.drop.head]
          decide
        have hrest : CStr (b.store8 (p + w.length) 0) (p + w.length + 1) (join_words (v :: ws)) :=
          hline.drop.tail.store8_before (Nat.lt_succ_self _)
        have hskip : skip_spaces (b.store8 (p + w.length) 0) (p + w.length + 1) = some (p + w.length + 1) := by
          have hv : Word v := hws v List.mem_cons_self
          rw [join_words_joined] at hrest
          exact skip_spaces_word hrest hv
        obtain ⟨b', ptrs, hsplit, hptrs, hsame⟩ := ih hrest hws (List.cons_ne_nil v ws) (Nat.le_of_succ_le_succ hn)
          (by omega) (argv ++ [p])
        refine ⟨b', p :: ptrs, ?_, .cons ?_ hptrs, fun x hx => ?_⟩
        · rw [split_args, if_neg hhead, skip_word_eq hline hword (.inr rfl) (by omega)]
          simp only [Option.bind_eq_bind, Option.bind_some]
          rw [if_neg hspace, hskip, Option.bind_some, hsplit, List.append_assoc]
          rfl
        · exact hline.cut.congr fun x _ hx => hsame x (by omega)
        · rw [hsame x (by omega), ByteMem.store8_of_ne (by omega)]

/-- `syscall_exec` は、つないだコマンド行を元の語に分ける。 -/
theorem exec_argv_eq (b : ByteMem) (hline : CStr user a (join_words words)) (hw : ∀ w ∈ words, Word w) (hne : words ≠ [])
    (hn : words.length ≤ 15) (hlen : (join_words words).length ≤ 255) :
    ∃ b' argv, exec_argv user a b = some (b', argv) ∧ List.Forall₂ (CStr b') argv words := by
  have hcopy := copy_cmdline_eq (n := 255) b 0 hline hlen
  have hbuf : CStr ((b.write 0 (join_words words)).store8 (join_words words).length 0) 0 (join_words words) := by
    have h := ByteMem.write_cstr (a := 0) b (zero_notMem_join hw) (by omega)
    rwa [Nat.zero_add] at h
  have hskip : skip_spaces ((b.write 0 (join_words words)).store8 (join_words words).length 0) 0 = some 0 := by
    cases words with
    | nil => exact absurd rfl hne
    | cons w ws =>
      have hword : Word w := hw w List.mem_cons_self
      rw [join_words_joined] at hbuf ⊢
      exact skip_spaces_word hbuf hword
  have hmax : LINE_MAX = 256 := rfl
  obtain ⟨b', argv, hsplit, hargv, -⟩ := split_args_eq hbuf hw hne hn (by omega) []
  refine ⟨b', argv, ?_, hargv⟩
  rw [exec_argv, hcopy]
  dsimp only
  rw [Nat.zero_add, hskip]
  exact hsplit

/-! ## 積む -/

/-- 文字列が要る長さ。 -/
def args_size (words : List (List UInt8)) : Nat := (words.map fun w => w.length + 1).sum

@[simp] theorem args_size_nil : args_size [] = 0 := rfl

@[simp] theorem args_size_cons (w : List UInt8) (ws : List (List UInt8)) :
    args_size (w :: ws) = w.length + 1 + args_size ws := by
  simp [args_size]

theorem args_size_take_le (words : List (List UInt8)) (k : Nat) : args_size (words.take k) ≤ args_size words := by
  induction words generalizing k with
  | nil => simp
  | cons w ws ih =>
    cases k with
    | zero => simp
    | succ k =>
      rw [List.take_succ_cons, args_size_cons, args_size_cons]
      exact Nat.add_le_add_left (ih k) _

theorem args_size_take_succ {k : Nat} (h : k < words.length) :
    args_size (words.take (k + 1)) = args_size (words.take k) + (words[k].length + 1) := by
  unfold args_size
  rw [List.take_succ_eq_append_getElem h, List.map_append, List.sum_append]
  simp

theorem total_str_len_eq (h : List.Forall₂ (CStr b) argv words) (total : Nat) (hlt : total + args_size words < 2 ^ 32) :
    total_str_len b argv total = some (total + args_size words) := by
  induction h generalizing total with
  | nil => rfl
  | @cons s w argv ws hw _ ih =>
    rw [args_size_cons] at hlt ⊢
    have hfits := hw.fits
    rw [total_str_len, hw.scan_nul (by omega)]
    simp only [Option.bind_eq_bind, Option.bind_some]
    rw [Nat.add_sub_cancel_left, add32_eq (by omega), ih _ (by omega)]
    simp only [Option.some.injEq]
    omega

/-- `p` からの並びが、`off` から続く文字列を順に指す。 -/
def Placed (m : ByteMem) : Nat → Nat → List (List UInt8) → Prop
  | _, _, [] => True
  | p, off, w :: ws => m.load32 p = off ∧ CStr m off w ∧ Placed m (p + 4) (off + (w.length + 1)) ws

theorem Placed.get {k : Nat} (h : Placed m p off words) (hk : k < words.length) :
    m.load32 (p + 4 * k) = off + args_size (words.take k) ∧ CStr m (off + args_size (words.take k)) words[k] := by
  induction words generalizing p off k with
  | nil => exact absurd hk (Nat.not_lt_zero k)
  | cons w ws ih =>
    obtain ⟨hload, hstr, hrest⟩ := h
    cases k with
    | zero => exact ⟨hload, hstr⟩
    | succ k =>
      have h := ih hrest (Nat.lt_of_succ_lt_succ hk)
      rw [List.take_succ_cons, args_size_cons, ← Nat.add_assoc, show p + 4 * (k + 1) = p + 4 + 4 * k by omega]
      exact h

theorem Placed.congr {m' : ByteMem} (h : Placed m p off words) (hp : ∀ x, p ≤ x → x < p + 4 * words.length → m' x = m x)
    (hoff : ∀ x, off ≤ x → x < off + args_size words → m' x = m x) : Placed m' p off words := by
  induction words generalizing p off with
  | nil => trivial
  | cons w ws ih =>
    obtain ⟨hload, hstr, hrest⟩ := h
    rw [List.length_cons] at hp
    rw [args_size_cons] at hoff
    exact ⟨(ByteMem.load32_congr fun x hx hx' => hp x hx (by omega)).trans hload,
      hstr.congr fun x hx hx' => hoff x hx (by omega),
      ih hrest (fun x hx hx' => hp x (by omega) (by omega)) fun x hx hx' => hoff x (by omega) (by omega)⟩

/-- 並びと文字列の外は変わらない。 -/
theorem push_args_eq (h : List.Forall₂ (CStr b) argv words) (p off : Nat) (m : ByteMem) (hbelow : p + 4 * words.length ≤ off)
    (hlt : off + args_size words < 2 ^ 32) :
    ∃ m', push_args b argv p off m = some m' ∧ Placed m' p off words ∧
      ∀ x, x < p ∨ p + 4 * words.length ≤ x → x < off ∨ off + args_size words ≤ x → m' x = m x := by
  induction h generalizing p off m with
  | nil => exact ⟨m, rfl, trivial, fun _ _ _ => rfl⟩
  | @cons s w argv ws hw _ ih =>
    rw [List.length_cons] at hbelow ⊢
    rw [args_size_cons] at hlt ⊢
    have hfits := hw.fits
    obtain ⟨m', hpush, hplaced, hsame⟩ := ih (p + 4) (off + (w.length + 1))
      ((m.store32 p off).copyFrom off b s (w.length + 1)) (by omega) (by omega)
    refine ⟨m', ?_, ⟨?_, ?_, hplaced⟩, fun x hx hx' => ?_⟩
    · rw [push_args, hw.scan_nul (by omega)]
      simp only [Option.bind_eq_bind, Option.bind_some]
      rw [Nat.add_sub_cancel_left, add32_eq (by omega), add32_eq (by omega)]
      exact hpush
    · have hword : (m.store32 p off).load32 p = off := ByteMem.load32_store32_self (by omega)
      refine (ByteMem.load32_congr fun x hx hx' => ?_).trans hword
      rw [hsame x (by omega) (by omega), ByteMem.copyFrom_outside (by omega)]
    · exact (ByteMem.copyFrom_cstr (m.store32 p off) hw (by omega)).congr fun x hx hx' => hsame x (by omega) (by omega)
    · rw [hsame x (by omega) (by omega), ByteMem.copyFrom_outside (by omega), ByteMem.store32_of_outside (by omega)]

/-- 文字列の場所と `esp`。どちらも 4 の倍数に切り下げられ、番地の並びの直後に文字列が続く。 -/
theorem stack_layout {n size : Nat} (hn : n ≤ 15) (hsize : size ≤ 256) :
    let str_area := align4 (sub32 (USER_STACK_TOP - 16) size)
    let esp := align4 (sub32 str_area (mul32 (n + 3) 4))
    esp + 4 * (n + 3) = str_area ∧ str_area + size ≤ USER_STACK_TOP - 16 ∧ USER_STACK_TOP - 4 * 4096 ≤ esp := by
  have htop : USER_STACK_TOP = 0xA0000000 := rfl
  intro str_area esp
  have hstr : str_area = (USER_STACK_TOP - 16 - size) / 4 * 4 := by
    simp only [str_area, align4]
    rw [sub32_eq (by omega) (by omega)]
  have hesp : esp = (str_area - (n + 3) * 4) / 4 * 4 := by
    simp only [esp, align4]
    rw [mul32_eq (by omega), sub32_eq (by omega) (by omega)]
  omega

/-- `load_program` が積むスタック。 -/
theorem load_program_args_eq (h : List.Forall₂ (CStr b) argv words) (m : ByteMem) (hn : words.length ≤ 15)
    (hsize : args_size words ≤ 256) :
    ∃ m' esp, load_program_args b argv m = some (m', esp) ∧ ArgStack m' esp words := by
  have htop : USER_STACK_TOP = 0xA0000000 := rfl
  have htotal := total_str_len_eq h 0 (by omega)
  rw [Nat.zero_add] at htotal
  obtain ⟨hbelow, habove, hbottom⟩ := stack_layout hn hsize
  rw [load_program_args, h.length_eq, htotal]
  simp only [Option.bind_eq_bind, Option.bind_some]
  generalize align4 (sub32 (USER_STACK_TOP - 16) (args_size words)) = str_area at *
  generalize align4 (sub32 str_area (mul32 (words.length + 3) 4)) = esp at *
  rw [add32_eq (by omega), add32_eq (by omega), add32_eq (by omega)]
  obtain ⟨m₁, hpush, hplaced, hsame⟩ := push_args_eq h (esp + 4) str_area (m.store32 esp words.length) (by omega)
    (by omega)
  rw [hpush]
  refine ⟨_, esp, rfl, ?_⟩
  generalize hm' : (m₁.store32 (esp + 4 * (1 + words.length)) 0).store32 (esp + 4 * (2 + words.length)) 0 = m'
  have hframe : ∀ x, x < esp + 4 * (words.length + 1) ∨ str_area ≤ x → m' x = m₁ x := fun x hx => by
    rw [← hm', ByteMem.store32_of_outside (by omega), ByteMem.store32_of_outside (by omega)]
  have hplaced' := hplaced.congr (fun x _ hx' => hframe x (.inl (by omega))) fun x hx _ => hframe x (.inr hx)
  have hptr : ∀ {k}, k < words.length → m'.load32 (esp + 4 * (k + 1)) = str_area + args_size (words.take k) := fun {k} hk => by
    rw [← (hplaced'.get hk).1]
    congr 1
    omega
  constructor
  · rw [ByteMem.load32_congr fun x _ hx' => hframe x (.inl (by omega)),
      ByteMem.load32_congr fun x _ hx' => hsame x (.inl (by omega)) (.inl (by omega))]
    exact ByteMem.load32_store32_self (by omega)
  · intro k hk
    rw [hptr hk]
    exact (hplaced'.get hk).2
  · rw [← hm', ByteMem.load32_store32_of_disjoint (.inl (by omega)), Nat.add_comm words.length, Nat.add_comm words.length]
    exact ⟨ByteMem.load32_store32_self (by decide), ByteMem.load32_store32_self (by decide)⟩
  · intro k hk
    rw [hptr hk]
    omega
  · intro j k hk hjk
    have hsucc := args_size_take_succ (Nat.lt_trans hjk hk)
    have hmono := args_size_take_le (words.take k) (j + 1)
    rw [List.take_take, Nat.min_eq_left (show j + 1 ≤ k from hjk)] at hmono
    rw [hptr hk, hptr (Nat.lt_trans hjk hk)]
    omega
  · exact hbottom
  · intro k hk
    have hsucc := args_size_take_succ hk
    have hle := args_size_take_le words (k + 1)
    rw [hptr hk]
    omega

/-- つなぎ、分け、積んだ後のスタックは、元の語を順に指す。 -/
theorem exec_args_survive (words : List (List UInt8)) (h1 : 1 ≤ words.length) (h15 : words.length ≤ 15)
    (hw : ∀ w ∈ words, Word w) (hlen : (join_words words).length ≤ 255) (um shell_buf exec_buf m : ByteMem) (args : List Nat)
    (hargs : List.Forall₂ (CStr um) args words) :
    ∃ line buf argv m' esp, run_stage_cmdline um args shell_buf = some line ∧ exec_argv line 0 exec_buf = some (buf, argv) ∧
      load_program_args buf argv m = some (m', esp) ∧ ArgStack m' esp words := by
  have hne : words ≠ [] := List.length_pos_iff.mp h1
  obtain ⟨line, hjoin, hline⟩ := run_stage_cmdline_eq shell_buf hargs hw hne hlen
  obtain ⟨buf, argv, hsplit, hargv⟩ := exec_argv_eq (a := 0) exec_buf hline hw hne h15 hlen
  have hsize : args_size words ≤ 256 := by
    have h := join_words_length words
    rw [if_neg hne] at h
    unfold args_size
    omega
  obtain ⟨m', esp, hload, hstack⟩ := load_program_args_eq hargv m h15 hsize
  exact ⟨line, buf, argv, m', esp, hjoin, hsplit, hload, hstack⟩

/-- シェルのメモリに置いた `ls` と `-l`。 -/
def ls_mem : ByteMem := fun x => [0x6C, 0x73, 0, 0x2D, 0x6C].getD (x - 0x1000) 0

theorem exec_args_ls : ∃ line buf argv m' esp, run_stage_cmdline ls_mem [0x1000, 0x1003] (fun _ => 0) = some line ∧
    exec_argv line 0 (fun _ => 0) = some (buf, argv) ∧ load_program_args buf argv (fun _ => 0) = some (m', esp) ∧
      ArgStack m' esp [[0x6C, 0x73], [0x2D, 0x6C]] := by
  refine exec_args_survive [[0x6C, 0x73], [0x2D, 0x6C]] (by decide) (by decide) (fun w hw => ?_) (by decide) ls_mem _ _ _
    [0x1000, 0x1003] (.cons ⟨by decide, by decide, by decide, by decide⟩ (.cons ⟨by decide, by decide, by decide, by decide⟩ .nil))
  simp only [List.mem_cons, List.not_mem_nil, or_false] at hw
  rcases hw with rfl | rfl
  · exact ⟨by decide, by decide, by decide⟩
  · exact ⟨by decide, by decide, by decide⟩

end MyOS.Proc
