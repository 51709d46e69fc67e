import MyOS.Drivers.Kbd
import Mathlib.Data.Nat.Bitwise

/-!
# キーボードの定理

修飾キーの状態は鍵の履歴から決まり、読み手に渡すバイトは、履歴が打ち込んだ文字から、満ちていて捨てたものを除いた列である。
-/

namespace MyOS.Drivers
open MyOS.Lib

variable {k k' : Kbd} {s t : KbdRun} {keys : List UInt8} {code : UInt8}

/-! ## 走査コードのビット -/

theorem and_80_eq_zero_iff (code : UInt8) : code &&& 0x80 = 0 ↔ code.toNat < 128 := by
  have hlt := code.toNat_lt
  rw [← UInt8.toNat_inj, UInt8.toNat_and, Nat.and_comm]
  show 2 ^ 7 &&& code.toNat = 0 ↔ _
  rw [Nat.two_pow_and, Nat.testBit_eq_decide_div_mod_eq]
  by_cases h : code.toNat / 2 ^ 7 % 2 = 1
  · simp only [h, decide_true, Bool.toNat_true]
    omega
  · simp only [h, decide_false, Bool.toNat_false]
    omega

theorem and_7f_eq (h : code &&& 0x80 = 0) : code &&& 0x7F = code := by
  rw [and_80_eq_zero_iff] at h
  rw [← UInt8.toNat_inj, UInt8.toNat_and]
  exact (Nat.and_two_pow_sub_one_eq_mod code.toNat 7).trans (Nat.mod_eq_of_lt h)

/-! ## 修飾キー -/

theorem held_cons (p : UInt8 → Bool) : held p (code :: keys) = if p (code &&& 0x7F) then code &&& 0x80 == 0 else held p keys := by
  unfold held
  rw [List.find?_cons]
  cases p (code &&& 0x7F) <;> rfl

/-- 修飾キーの状態は、履歴の通りである。 -/
structure Tracks (k : Kbd) (keys : List UInt8) : Prop where
  shift : k.shift = shift_held keys
  ctrl : k.ctrl = ctrl_held keys
  caps_lock : k.caps_lock = caps_on keys

theorem caps_on_cons : caps_on (code :: keys) = if code = SCANCODE_CAPSLOCK then !caps_on keys else caps_on keys := by
  unfold caps_on
  rw [List.count_cons]
  by_cases h : code = SCANCODE_CAPSLOCK
  · simp only [h, beq_self_eq_true, if_true]
    by_cases hodd : keys.count SCANCODE_CAPSLOCK % 2 = 1
    · simp only [hodd, decide_true, Bool.not_true, decide_eq_false_iff_not]
      omega
    · simp only [hodd, decide_false, Bool.not_false, decide_eq_true_eq]
      omega
  · simp [h]

theorem Tracks.release (h : Tracks k keys) (hcode : code &&& 0x80 ≠ 0) : Tracks (k.release code) (code :: keys) := by
  have hup : (code &&& 0x80 == 0) = false := beq_false_of_ne hcode
  have hcaps : caps_on (code :: keys) = caps_on keys := by
    rw [caps_on_cons, if_neg]
    rintro rfl
    exact hcode rfl
  unfold Kbd.release
  dsimp only
  split
  next hs =>
    have hctrl : (code &&& 0x7F == SCANCODE_CTRL_L) = false := by
      rcases hs with hs | hs <;> rw [hs] <;> rfl
    refine ⟨?_, ?_, h.caps_lock.trans hcaps.symm⟩
    · show false = held _ _
      rw [held_cons, if_pos (by simpa using hs), hup]
    · show k.ctrl = held _ _
      rw [held_cons, hctrl]
      exact h.ctrl
  next hs =>
    have hshift : (code &&& 0x7F == SCANCODE_SHIFT_L || code &&& 0x7F == SCANCODE_SHIFT_R) = false := by simpa using hs
    split
    next hc =>
      refine ⟨?_, ?_, h.caps_lock.trans hcaps.symm⟩
      · show k.shift = held _ _
        rw [held_cons, hshift]
        exact h.shift
      · show false = held _ _
        rw [held_cons, if_pos (by simpa using hc), hup]
    next hc =>
      refine ⟨?_, ?_, h.caps_lock.trans hcaps.symm⟩
      · show k.shift = held _ _
        rw [held_cons, hshift]
        exact h.shift
      · show k.ctrl = held _ _
        rw [held_cons, beq_false_of_ne hc]
        exact h.ctrl

@[simp] theorem Kbd.modify_shift (k : Kbd) (code : UInt8) :
    (k.modify code).shift = if code = SCANCODE_SHIFT_L ∨ code = SCANCODE_SHIFT_R then true else k.shift := by
  unfold Kbd.modify
  dsimp only
  repeat' split
  all_goals rfl

@[simp] theorem Kbd.modify_ctrl (k : Kbd) (code : UInt8) :
    (k.modify code).ctrl = if code = SCANCODE_CTRL_L then true else k.ctrl := by
  unfold Kbd.modify
  dsimp only
  repeat' split
  all_goals rfl

@[simp] theorem Kbd.modify_caps_lock (k : Kbd) (code : UInt8) :
    (k.modify code).caps_lock = if code = SCANCODE_CAPSLOCK then !k.caps_lock else k.caps_lock := by
  unfold Kbd.modify
  dsimp only
  repeat' split
  all_goals rfl

theorem Kbd.modify_rest (k : Kbd) (code : UInt8) : k.modify code =
    { k with shift := (k.modify code).shift, ctrl := (k.modify code).ctrl, caps_lock := (k.modify code).caps_lock } := by
  unfold Kbd.modify
  dsimp only
  repeat' split
  all_goals rfl

theorem Tracks.modify (h : Tracks k keys) (hcode : code &&& 0x80 = 0) : Tracks (k.modify code) (code :: keys) := by
  have hdown : (code &&& 0x80 == 0) = true := beq_iff_eq.mpr hcode
  refine ⟨?_, ?_, ?_⟩
  · rw [Kbd.modify_shift]
    unfold shift_held
    rw [held_cons, and_7f_eq hcode, hdown, h.shift]
    simp [shift_held]
  · rw [Kbd.modify_ctrl]
    unfold ctrl_held
    rw [held_cons, and_7f_eq hcode, hdown, h.ctrl]
    simp [ctrl_held]
  · rw [Kbd.modify_caps_lock, caps_on_cons, h.caps_lock]

/-! ## 一つの割り込み -/

theorem Kbd.queue_length (k : Kbd) : k.queue.length = k.buf_size := ring_length

theorem Kbd.queue_push (ret : UInt8) :
    (k.push ret).queue = if KBD_BUFFER_SZ ≤ k.buf_size then k.queue else k.queue ++ [ret] := by
  unfold Kbd.push
  split
  · rfl
  next h => exact ring_push ret (Nat.not_le.mp h)

theorem key_signal_cons : key_signal (code :: keys) =
    if !ctrl_held (code :: keys) then none
    else if code = SCANCODE_KEY_C then some SIGINT
    else if code = SCANCODE_KEY_Z then some SIGTSTP
    else none := rfl

theorem key_char_cons : key_char (code :: keys) =
    if code &&& 0x80 ≠ 0 ∨ (key_signal (code :: keys)).isSome ∨ kbdus (shift_held (code :: keys)) code = 0 then none
    else some (caps_case (caps_on (code :: keys)) (kbdus (shift_held (code :: keys)) code)) := rfl

theorem key_signal_release (hcode : code &&& 0x80 ≠ 0) : key_signal (code :: keys) = none := by
  have hc : code ≠ SCANCODE_KEY_C := by
    rintro rfl
    exact hcode rfl
  have hz : code ≠ SCANCODE_KEY_Z := by
    rintro rfl
    exact hcode rfl
  rw [key_signal_cons, if_neg hc, if_neg hz, ite_self]

/-- マウスのものでない割り込みの後、修飾キーは履歴の通りで、最後の鍵の文字が輪に加わる。 -/
theorem Tracks.handler {status : UInt8} (h : Tracks k keys) (hstatus : status &&& 0x20 = 0) :
    Tracks (k.keyboard_handler status code).1 (code :: keys) ∧
      (k.keyboard_handler status code).2 = key_signal (code :: keys) ∧
      (k.keyboard_handler status code).1.queue =
        (if KBD_BUFFER_SZ ≤ k.buf_size then k.queue else k.queue ++ (key_char (code :: keys)).toList) ∧
      (k.keyboard_handler status code).1.buf_start = k.buf_start := by
  have hsame : ∀ l : List UInt8, (if KBD_BUFFER_SZ ≤ k.buf_size then l else l ++ ([] : List UInt8)) = l := fun l => by
    rw [List.append_nil, ite_self]
  unfold Kbd.keyboard_handler
  rw [if_neg (by simpa using hstatus)]
  by_cases hcode : code &&& 0x80 = 0
  · rw [if_neg (not_not.mpr hcode)]
    have hm := h.modify hcode
    have hq : (k.modify code).queue = k.queue := by
      unfold Kbd.queue
      rw [Kbd.modify_rest]
    have hsize : (k.modify code).buf_size = k.buf_size := by rw [Kbd.modify_rest]
    have hstart : (k.modify code).buf_start = k.buf_start := by rw [Kbd.modify_rest]
    dsimp only
    rw [hm.ctrl]
    cases hsig : key_signal (code :: keys) with
    | some sig =>
      -- 信号を送る鍵は、文字にならない
      have hchar : key_char (code :: keys) = none := by
        rw [key_char_cons, hsig]
        exact if_pos (.inr (.inl rfl))
      rw [hchar, Option.toList_none, hsame]
      rw [key_signal_cons] at hsig
      split at hsig
      · cases hsig
      next hctrl =>
        have hctrl : ctrl_held (code :: keys) = true := by simpa using hctrl
        split at hsig
        next hc =>
          cases hsig
          rw [if_pos ⟨hctrl, hc⟩]
          exact ⟨hm, rfl, hq, hstart⟩
        next hc =>
          split at hsig
          next hz =>
            cases hsig
            rw [if_neg (fun h => hc h.2), if_pos ⟨hctrl, hz⟩]
            exact ⟨hm, rfl, hq, hstart⟩
          · cases hsig
    | none =>
      have hno : ∀ c, c = SCANCODE_KEY_C ∨ c = SCANCODE_KEY_Z → ¬ (ctrl_held (code :: keys) = true ∧ code = c) := by
        rintro c hc ⟨hctrl, rfl⟩
        rw [key_signal_cons, hctrl] at hsig
        rcases hc with rfl | rfl <;> cases hsig
      rw [if_neg (hno _ (.inl rfl)), if_neg (hno _ (.inr rfl)), hm.shift]
      by_cases hret : kbdus (shift_held (code :: keys)) code = 0
      · have hchar : key_char (code :: keys) = none := by
          rw [key_char_cons]
          exact if_pos (.inr (.inr hret))
        rw [if_pos hret, hchar, Option.toList_none, hsame]
        exact ⟨hm, rfl, hq, hstart⟩
      · have hchar : key_char (code :: keys) =
            some (caps_case (caps_on (code :: keys)) (kbdus (shift_held (code :: keys)) code)) := by
          rw [key_char_cons, hsig]
          exact if_neg (by simp [hcode, hret])
        rw [if_neg hret, hchar]
        refine ⟨?_, rfl, ?_, ?_⟩
        · unfold Kbd.push
          split
          · exact hm
          · exact ⟨hm.shift, hm.ctrl, hm.caps_lock⟩
        · rw [Kbd.queue_push, hsize, hq, hm.caps_lock]
          rfl
        · unfold Kbd.push
          split <;> exact hstart
  · rw [if_pos hcode]
    have hm := h.release hcode
    have hrest : (k.release code).queue = k.queue ∧ (k.release code).buf_start = k.buf_start := by
      unfold Kbd.release
      dsimp only
      repeat' split
      all_goals exact ⟨rfl, rfl⟩
    have hchar : key_char (code :: keys) = none := by
      rw [key_char_cons]
      exact if_pos (.inl hcode)
    rw [hchar, Option.toList_none, hsame]
    exact ⟨hm, (key_signal_release hcode).symm, hrest.1, hrest.2⟩

/-! ## 読み出し -/

/-- 頼まれた数か、輪にある数の少ない方だけ、先頭から読む。 -/
theorem Kbd.read_loop_spec (n : Nat) (k : Kbd) (hstart : k.buf_start < KBD_BUFFER_SZ) :
    (Kbd.read_loop n k).2 = k.queue.take n ∧ (Kbd.read_loop n k).1.queue = k.queue.drop n ∧
      (Kbd.read_loop n k).1.buf_start < KBD_BUFFER_SZ ∧ (Kbd.read_loop n k).1.shift = k.shift ∧
      (Kbd.read_loop n k).1.ctrl = k.ctrl ∧ (Kbd.read_loop n k).1.caps_lock = k.caps_lock := by
  induction n generalizing k with
  | zero => exact ⟨rfl, rfl, hstart, rfl, rfl, rfl⟩
  | succ n ih =>
    rw [Kbd.read_loop]
    split
    next hempty =>
      have hq : k.queue = [] := by
        unfold Kbd.queue ring
        rw [hempty]
        rfl
      exact ⟨by rw [hq]; rfl, by rw [hq]; rfl, hstart, rfl, rfl, rfl⟩
    next hne =>
      obtain ⟨m, hm⟩ : ∃ m, k.buf_size = m + 1 := ⟨k.buf_size - 1, by omega⟩
      have hpop : k.queue = k.kbd_buf k.buf_start :: ring k.kbd_buf KBD_BUFFER_SZ ((k.buf_start + 1) % KBD_BUFFER_SZ) m := by
        unfold Kbd.queue
        rw [hm]
        exact ring_pop hstart
      obtain ⟨hbytes, hrest, hstart', hmods⟩ := ih { k with
        buf_start := (k.buf_start + 1) % KBD_BUFFER_SZ
        buf_size := k.buf_size - 1 } (Nat.mod_lt _ (by decide))
      have hq : Kbd.queue { k with buf_start := (k.buf_start + 1) % KBD_BUFFER_SZ, buf_size := k.buf_size - 1 } =
          ring k.kbd_buf KBD_BUFFER_SZ ((k.buf_start + 1) % KBD_BUFFER_SZ) m := by
        unfold Kbd.queue
        rw [hm, Nat.add_sub_cancel]
      rw [hq] at hbytes hrest
      rw [hpop, List.take_succ_cons, List.drop_succ_cons, ← hbytes]
      exact ⟨rfl, hrest, hstart', hmods⟩

/-! ## 実行 -/

/-- 輪に場所があるときに届いた文字。 -/
def kept (arrived : List (UInt8 × Bool)) : List UInt8 := (arrived.filter fun a => !a.2).map Prod.fst

@[simp] theorem kept_append (l l' : List (UInt8 × Bool)) : kept (l ++ l') = kept l ++ kept l' := by
  simp [kept]

/-- 輪が満ちていたことがなければ、すべて残る。 -/
theorem kept_all {l : List (UInt8 × Bool)} (h : l.countP Prod.snd = 0) : kept l = l.map Prod.fst := by
  rw [List.countP_eq_zero] at h
  unfold kept
  rw [List.filter_eq_self.mpr fun a ha => by simpa using h a ha]

theorem KbdRun.kept_arrival (s : KbdRun) (keys : List UInt8) :
    kept (s.arrival keys) = if KBD_BUFFER_SZ ≤ s.kbd.buf_size then [] else (key_char keys).toList := by
  unfold KbdRun.arrival kept
  cases key_char keys with
  | none => simp
  | some c =>
    by_cases hfull : KBD_BUFFER_SZ ≤ s.kbd.buf_size
    · simp [hfull]
    · simp [hfull]

theorem KbdRun.arrival_fst (s : KbdRun) (keys : List UInt8) : (s.arrival keys).map Prod.fst = (key_char keys).toList := by
  unfold KbdRun.arrival
  cases key_char keys <;> rfl

/-- 実行の途中の状態。 -/
structure KbdInv (s : KbdRun) : Prop where
  tracks : Tracks s.kbd s.keys
  start : s.kbd.buf_start < KBD_BUFFER_SZ
  size : s.kbd.queue.length ≤ KBD_BUFFER_SZ
  kept : s.delivered ++ s.kbd.queue = kept s.arrived
  all : s.arrived.map Prod.fst = typed s.keys
  signals : s.signals = signalled s.keys

theorem KbdInv.typed_all (h : KbdInv s) (hlost : s.lost = 0) : s.delivered ++ s.kbd.queue = typed s.keys := by
  rw [h.kept, kept_all hlost, h.all]

theorem KbdRun.step_irq {status : UInt8} (hstatus : status &&& 0x20 = 0) (s : KbdRun) (code : UInt8) :
    s.step (.irq status code) = some ⟨(s.kbd.keyboard_handler status code).1, code :: s.keys, s.arrived ++ s.arrival (code :: s.keys),
      s.delivered, s.signals ++ (s.kbd.keyboard_handler status code).2.toList⟩ :=
  if_neg (not_not.mpr hstatus)

theorem KbdRun.step_mouse {status : UInt8} (hstatus : status &&& 0x20 ≠ 0) (s : KbdRun) (code : UInt8) :
    s.step (.irq status code) = some s := by
  have hk : s.kbd.keyboard_handler status code = (s.kbd, none) := if_pos hstatus
  unfold KbdRun.step
  dsimp only
  rw [hk, if_pos hstatus]
  simp

theorem KbdRun.irq_delivered {status : UInt8} (h : s.step (.irq status code) = some t) : t.delivered = s.delivered := by
  by_cases hstatus : status &&& 0x20 = 0
  · rw [KbdRun.step_irq hstatus] at h
    cases h
    rfl
  · rw [KbdRun.step_mouse hstatus] at h
    cases h
    rfl

theorem KbdInv.irq (h : KbdInv s) (status code : UInt8) (ht : s.step (.irq status code) = some t) : KbdInv t := by
  by_cases hstatus : status &&& 0x20 = 0
  · obtain ⟨htr, hsig, hq, hstart⟩ : Tracks (s.kbd.keyboard_handler status code).1 (code :: s.keys) ∧ _ :=
      h.tracks.handler hstatus
    obtain rfl := Option.some.inj ((KbdRun.step_irq hstatus s code).symm.trans ht)
    have hkept := s.kept_arrival (code :: s.keys)
    refine ⟨htr, hstart ▸ h.start, ?_, ?_, ?_, ?_⟩
    · dsimp only
      rw [hq]
      split
      · exact h.size
      next hfull =>
        have hone : (key_char (code :: s.keys)).toList.length ≤ 1 := by
          cases key_char (code :: s.keys) <;> simp
        rw [List.length_append, Kbd.queue_length]
        omega
    · dsimp only
      rw [hq, kept_append, hkept, ← h.kept]
      -- 満ちていれば、文字は捨てられる
      by_cases hfull : KBD_BUFFER_SZ ≤ s.kbd.buf_size
      · rw [if_pos hfull, if_pos hfull, List.append_nil]
      · rw [if_neg hfull, if_neg hfull, List.append_assoc]
    · dsimp only
      rw [List.map_append, h.all, s.arrival_fst]
      rfl
    · dsimp only
      rw [hsig, h.signals]
      rfl
  · obtain rfl := Option.some.inj ((KbdRun.step_mouse hstatus s code).symm.trans ht)
    exact h

theorem KbdInv.read (h : KbdInv s) (size units : Nat) (ht : s.step (.read size units) = some t) : KbdInv t := by
  cases ht
  obtain ⟨hbytes, hrest, hstart, hshift, hctrl, hcaps⟩ := Kbd.read_loop_spec (mul32 size units) s.kbd h.start
  have hsame : (s.delivered ++ (Kbd.read_loop (mul32 size units) s.kbd).2) ++ (Kbd.read_loop (mul32 size units) s.kbd).1.queue =
      s.delivered ++ s.kbd.queue := by
    rw [hbytes, hrest, List.append_assoc, List.take_append_drop]
  refine ⟨⟨hshift.trans h.tracks.shift, hctrl.trans h.tracks.ctrl, hcaps.trans h.tracks.caps_lock⟩, hstart, ?_, hsame.trans h.kept,
    h.all, h.signals⟩
  show (Kbd.read_loop (mul32 size units) s.kbd).1.queue.length ≤ _
  rw [hrest, List.length_drop]
  exact Nat.le_trans (Nat.sub_le _ _) h.size

theorem KbdInv.install (kbd_buf : Nat → UInt8) : KbdInv (.install kbd_buf) :=
  ⟨⟨rfl, rfl, rfl⟩, (by decide : 0 < KBD_BUFFER_SZ), Nat.zero_le _, rfl, rfl, rfl⟩

theorem KbdInv.run {ok : KbdRun → KbdEvent → Prop} (hrun : Steps KbdRun.step ok s t) (h : KbdInv s) : KbdInv t := by
  refine hrun.inv (fun s e t hs _ he => ?_) h
  cases e with
  | irq status code => exact hs.irq status code he
  | read size units => exact hs.read size units he

/-- 割り込みと読み出しをどう並べても、渡したバイトと輪に残るバイトは、打ち込まれた文字のうち、届いたときに輪に場所のあったものを、届いた
    順に並べた列である。`Ctrl+C` と `Ctrl+Z` は押すたびに一つの信号になる。 -/
theorem keys_delivered (kbd_buf : Nat → UInt8) (h : Steps KbdRun.step (fun _ _ => True) (.install kbd_buf) s) :
    s.delivered ++ s.kbd.queue = (s.arrived.filter fun a => !a.2).map Prod.fst ∧ s.arrived.map Prod.fst = typed s.keys ∧
      s.kbd.queue.length ≤ KBD_BUFFER_SZ ∧ s.signals = signalled s.keys := by
  have hinv := (KbdInv.install kbd_buf).run h
  exact ⟨hinv.kept, hinv.all, hinv.size, hinv.signals⟩

/-- `Ctrl+C` を押し、`h` を打って読む。 -/
def interrupt_then_h : Trace (exec KbdRun.step (.install fun _ => 0)) (fun s =>
    s.keys = [0x23, 0x9D, 0xAE, 0x2E, 0x1D] ∧ s.delivered = [0x68] ∧ s.arrived = [(0x68, false)]) :=
  ⟨[.irq 1 0x1D, .irq 1 0x2E, .irq 1 0xAE, .irq 1 0x9D, .irq 1 0x23, .read 1 1], by decide +kernel⟩

theorem keys_delivered_interrupt_then_h : ∃ s : KbdRun, s.delivered = [0x68] ∧ s.delivered ++ s.kbd.queue = typed s.keys ∧
    s.signals = [SIGINT] := by
  obtain ⟨s, hs, hkeys, hdel, harr⟩ := interrupt_then_h.steps
  obtain ⟨hkept, hall, -, hsig⟩ := keys_delivered (fun _ => 0) hs
  refine ⟨s, hdel, hkept.trans (Eq.trans ?_ hall), hsig.trans ?_⟩
  · rw [harr]
    rfl
  · rw [hkeys]
    decide

/-! ## 文字を打つ -/

/-- シフトも `Ctrl` も押していない。 -/
structure Lifted (keys : List UInt8) : Prop where
  shift : shift_held keys = false
  ctrl : ctrl_held keys = false

/-- 文字の鍵は修飾キーではない。 -/
theorem char_key {shift : Bool} (h : kbdus shift code ≠ 0) :
    (code == SCANCODE_SHIFT_L || code == SCANCODE_SHIFT_R) = false ∧ (code == SCANCODE_CTRL_L) = false ∧
      code ≠ SCANCODE_CAPSLOCK := by
  have hne : ∀ c, kbdus true c = 0 → kbdus false c = 0 → code ≠ c := by
    rintro c ht hf rfl
    cases shift
    · exact h hf
    · exact h ht
  rw [beq_false_of_ne (hne SCANCODE_SHIFT_L (by decide) (by decide)), beq_false_of_ne (hne SCANCODE_SHIFT_R (by decide) (by decide)),
    beq_false_of_ne (hne SCANCODE_CTRL_L (by decide) (by decide))]
  exact ⟨rfl, rfl, hne SCANCODE_CAPSLOCK (by decide) (by decide)⟩

theorem or_80_and {code : UInt8} (h : code &&& 0x80 = 0) :
    (code ||| 0x80) &&& 0x80 = 0x80 ∧ (code ||| 0x80) &&& 0x7F = code := by
  have hdist : ∀ z : UInt8, (code ||| 0x80) &&& z = (code &&& z) ||| (0x80 &&& z) := fun z =>
    UInt8.toBitVec_inj.mp BitVec.and_or_distrib_right
  rw [hdist, hdist, h, and_7f_eq h]
  exact ⟨by decide, UInt8.or_zero⟩

/-- 文字の鍵を押して離すと、その文字が打たれ、修飾キーは変わらない。 -/
theorem typed_tap (hcode : code &&& 0x80 = 0) (hctrl : ctrl_held keys = false) (hret : kbdus (shift_held keys) code ≠ 0) :
    typed ((tap code).reverse ++ keys) = typed keys ++ [caps_case (caps_on keys) (kbdus (shift_held keys) code)] ∧
      shift_held ((tap code).reverse ++ keys) = shift_held keys ∧ ctrl_held ((tap code).reverse ++ keys) = false ∧
      caps_on ((tap code).reverse ++ keys) = caps_on keys := by
  obtain ⟨hs, hc, hl⟩ := char_key hret
  obtain ⟨hup, hlow⟩ := or_80_and hcode
  have hl' : code ||| 0x80 ≠ SCANCODE_CAPSLOCK := fun h => by
    rw [h] at hup
    exact absurd hup (by decide)
  have hshift : shift_held (code :: keys) = shift_held keys := by
    unfold shift_held
    rw [held_cons, and_7f_eq hcode, hs]
    rfl
  have hctrl' : ctrl_held (code :: keys) = false := by
    unfold ctrl_held at hctrl ⊢
    rw [held_cons, and_7f_eq hcode, hc]
    exact hctrl
  have hchar : key_char (code :: keys) = some (caps_case (caps_on keys) (kbdus (shift_held keys) code)) := by
    rw [key_char_cons, key_signal_cons, hctrl', hshift, caps_on_cons, if_neg hl]
    exact if_neg (by simp [hcode, hret])
  have hrelease : key_char ((code ||| 0x80) :: code :: keys) = none := by
    rw [key_char_cons]
    exact if_pos (.inl (by rw [hup]; decide))
  refine ⟨?_, ?_, ?_, ?_⟩
  · show typed keys ++ (key_char (code :: keys)).toList ++ (key_char ((code ||| 0x80) :: code :: keys)).toList = _
    rw [hchar, hrelease]
    simp
  · show held _ ((code ||| 0x80) :: code :: keys) = _
    rw [held_cons, hlow, hs]
    exact hshift
  · show held _ ((code ||| 0x80) :: code :: keys) = _
    rw [held_cons, hlow, hc]
    exact hctrl'
  · show caps_on ((code ||| 0x80) :: code :: keys) = _
    rw [caps_on_cons, if_neg hl', caps_on_cons, if_neg hl]

theorem find_key_spec {caps shift : Bool} {c : UInt8} (h : find_key caps c = some (shift, code)) :
    code &&& 0x80 = 0 ∧ kbdus shift code ≠ 0 ∧ caps_case caps (kbdus shift code) = c := by
  have hmem := List.mem_of_find?_eq_some h
  have hp := List.find?_some h
  simp only [List.mem_flatMap, List.mem_map, List.mem_range, Prod.mk.injEq] at hmem
  obtain ⟨-, -, n, hn, -, rfl⟩ := hmem
  refine ⟨(and_80_eq_zero_iff _).mpr ?_, of_decide_eq_true hp⟩
  rw [UInt8.toNat_ofNat']
  omega

/-- 一文字を打つ。 -/
theorem Lifted.press {c : UInt8} (h : Lifted keys) (hc : (find_key (caps_on keys) c).isSome) :
    typed ((press (caps_on keys) c).reverse ++ keys) = typed keys ++ [c] ∧
      Lifted ((press (caps_on keys) c).reverse ++ keys) ∧ caps_on ((press (caps_on keys) c).reverse ++ keys) = caps_on keys := by
  obtain ⟨⟨shift, code⟩, hkey⟩ := Option.isSome_iff_exists.mp hc
  obtain ⟨hcode, hret, hcase⟩ := find_key_spec hkey
  unfold Drivers.press
  rw [hkey]
  cases shift with
  | false =>
    rw [← h.shift] at hret hcase
    obtain ⟨ht, hs, hctrl, hcaps⟩ := typed_tap hcode h.ctrl hret
    rw [hcase] at ht
    exact ⟨ht, ⟨hs.trans h.shift, hctrl⟩, hcaps⟩
  | true =>
    -- シフトを押して、打って、離す
    have hcaps₁ : caps_on (SCANCODE_SHIFT_L :: keys) = caps_on keys := by rw [caps_on_cons, if_neg (by decide)]
    have hshift₁ : shift_held (SCANCODE_SHIFT_L :: keys) = true := by
      unfold shift_held
      rw [held_cons]
      rfl
    have hctrl₁ : ctrl_held (SCANCODE_SHIFT_L :: keys) = false := by
      have := h.ctrl
      unfold ctrl_held at this ⊢
      rw [held_cons]
      exact this
    have htyped₁ : typed (SCANCODE_SHIFT_L :: keys) = typed keys := by
      have : key_char (SCANCODE_SHIFT_L :: keys) = none := by
        rw [key_char_cons, hshift₁]
        exact if_pos (.inr (.inr (by decide)))
      show typed keys ++ (key_char (SCANCODE_SHIFT_L :: keys)).toList = _
      rw [this]
      exact List.append_nil _
    rw [← hshift₁] at hret hcase
    obtain ⟨ht, -, hctrl, hcaps⟩ := typed_tap hcode hctrl₁ hret
    rw [hcaps₁, hcase, htyped₁] at ht
    have hlist : (if true then SCANCODE_SHIFT_L :: tap code ++ [SCANCODE_SHIFT_L ||| 0x80] else tap code).reverse ++ keys =
        (SCANCODE_SHIFT_L ||| 0x80) :: ((tap code).reverse ++ SCANCODE_SHIFT_L :: keys) := by simp [tap]
    have hnone : key_char ((SCANCODE_SHIFT_L ||| 0x80) :: ((tap code).reverse ++ SCANCODE_SHIFT_L :: keys)) = none := by
      rw [key_char_cons]
      exact if_pos (.inl (by decide))
    dsimp only
    rw [hlist]
    refine ⟨?_, ⟨?_, ?_⟩, ?_⟩
    · show typed _ ++ (key_char _).toList = _
      rw [hnone, ht]
      exact List.append_nil _
    · unfold shift_held
      rw [held_cons]
      rfl
    · unfold ctrl_held at hctrl ⊢
      rw [held_cons]
      exact hctrl
    · rw [caps_on_cons, if_neg (by decide), hcaps, hcaps₁]

theorem Lifted.type (h : Lifted keys) (text : List UInt8) (htext : ∀ c ∈ text, (find_key (caps_on keys) c).isSome) :
    typed ((text.flatMap (Drivers.press (caps_on keys))).reverse ++ keys) = typed keys ++ text := by
  induction text generalizing keys with
  | nil => simp
  | cons c text ih =>
    obtain ⟨ht, hl, hcaps⟩ := h.press (htext c List.mem_cons_self)
    have := ih hl fun c hc => by
      rw [hcaps]
      exact htext c (List.mem_cons_of_mem _ hc)
    rw [hcaps, ht] at this
    rw [List.flatMap_cons, List.reverse_append, List.append_assoc, this, List.append_assoc]
    rfl

theorem typed_prefix (l keys : List UInt8) : ∃ more, typed (l ++ keys) = typed keys ++ more := by
  induction l with
  | nil => exact ⟨[], (List.append_nil _).symm⟩
  | cons code l ih =>
    obtain ⟨more, hmore⟩ := ih
    refine ⟨more ++ (key_char (code :: (l ++ keys))).toList, ?_⟩
    rw [← List.append_assoc, ← hmore]
    rfl

/-- 続けて打った文字は、輪に入る限り、そのまま輪に加わる。 -/
theorem KbdInv.exec_irqs (h : KbdInv s) (codes : List UInt8) {text : List UInt8}
    (htext : typed (codes.reverse ++ s.keys) = typed s.keys ++ text)
    (hroom : s.kbd.queue.length + text.length ≤ KBD_BUFFER_SZ) :
    ∃ t, exec KbdRun.step s (codes.map (.irq 1)) = some t ∧ KbdInv t ∧ t.kbd.queue = s.kbd.queue ++ text ∧
      t.delivered = s.delivered ∧ t.lost = s.lost := by
  induction codes generalizing s text with
  | nil =>
    have hnil : text = [] := (List.append_right_eq_self.mp htext.symm)
    exact ⟨s, rfl, h, by simp [hnil], rfl, rfl⟩
  | cons code codes ih =>
    have hlist : (code :: codes).reverse ++ s.keys = codes.reverse ++ (code :: s.keys) := by simp
    obtain ⟨more, hmore⟩ := typed_prefix codes.reverse (code :: s.keys)
    have hsplit : text = (key_char (code :: s.keys)).toList ++ more := by
      rw [hlist, hmore] at htext
      exact (List.append_cancel_left ((List.append_assoc _ _ _).symm.trans htext)).symm
    obtain ⟨-, -, hq, -⟩ : Tracks (s.kbd.keyboard_handler 1 code).1 (code :: s.keys) ∧ _ := h.tracks.handler (by decide)
    have hstep := KbdRun.step_irq (by decide : (1 : UInt8) &&& 0x20 = 0) s code
    have hlen := s.kbd.queue_length
    have hkept : (s.arrival (code :: s.keys)).countP Prod.snd = 0 ∧
        (s.kbd.keyboard_handler 1 code).1.queue = s.kbd.queue ++ (key_char (code :: s.keys)).toList := by
      unfold KbdRun.arrival
      cases hc : key_char (code :: s.keys) with
      | none =>
        rw [hc] at hq
        exact ⟨rfl, by simpa using hq⟩
      | some c =>
        -- 文字になる鍵には、まだ場所がある
        rw [hsplit, hc] at hroom
        simp only [Option.toList_some, List.cons_append, List.nil_append, List.length_cons] at hroom
        have hnot : ¬ KBD_BUFFER_SZ ≤ s.kbd.buf_size := by omega
        rw [if_neg hnot, hc] at hq
        exact ⟨by simp [hnot], hq⟩
    obtain ⟨t, ht, hinv, htq, hdel, hlost⟩ := ih (h.irq 1 code hstep) hmore (by
      dsimp only
      rw [hsplit] at hroom
      rw [hkept.2, List.length_append]
      rw [List.length_append] at hroom
      omega)
    dsimp only at htq
    refine ⟨t, ?_, hinv, ?_, hdel, hlost.trans ?_⟩
    · rw [List.map_cons, exec, hstep]
      exact ht
    · rw [htq, hkept.2, hsplit, List.append_assoc]
    · unfold KbdRun.lost
      rw [List.countP_append, hkept.1, Nat.add_zero]

/-- 打てる文字だけの文章を、輪に入る長さで打つと、次の読み出しはその文章を、すでに輪にあった文字の後に返す。 -/
theorem typing_reads_back (kbd_buf : Nat → UInt8) (h : Steps KbdRun.step (fun _ _ => True) (.install kbd_buf) s)
    (hl : Lifted s.keys) (text : List UInt8) (htext : ∀ c ∈ text, (find_key (caps_on s.keys) c).isSome)
    (hroom : s.kbd.queue.length + text.length ≤ KBD_BUFFER_SZ) :
    ∃ t u, exec KbdRun.step s ((text.flatMap (press (caps_on s.keys))).map (.irq 1)) = some t ∧
      t.step (.read KBD_BUFFER_SZ 1) = some u ∧ u.delivered = s.delivered ++ s.kbd.queue ++ text ∧ u.lost = s.lost := by
  have hinv := (KbdInv.install kbd_buf).run h
  obtain ⟨t, ht, htinv, hq, hdel, hlost⟩ := hinv.exec_irqs _ (hl.type text htext) hroom
  obtain ⟨hbytes, -⟩ := Kbd.read_loop_spec (mul32 KBD_BUFFER_SZ 1) t.kbd htinv.start
  refine ⟨t, _, ht, rfl, ?_, hlost⟩
  show t.delivered ++ (Kbd.read_loop (mul32 KBD_BUFFER_SZ 1) t.kbd).2 = _
  have hmul : mul32 KBD_BUFFER_SZ 1 = KBD_BUFFER_SZ := by decide
  rw [hbytes, hdel, hmul, List.take_of_length_le htinv.size, hq, List.append_assoc]

/-- 印字できるどの文字も、`Caps Lock` の状態によらず打てる。 -/
theorem find_key_printable (caps : Bool) {c : UInt8} (hlo : 0x20 ≤ c) (hhi : c ≤ 0x7E) : (find_key caps c).isSome := by
  have hall : ∀ caps, (List.range 95).all (fun n => (find_key caps (UInt8.ofNat (n + 0x20))).isSome) = true := by decide +kernel
  have hc : UInt8.ofNat (c.toNat - 0x20 + 0x20) = c := by
    rw [UInt8.le_iff_toNat_le] at hlo
    have h20 : (0x20 : UInt8).toNat = 0x20 := rfl
    rw [Nat.sub_add_cancel (h20 ▸ hlo)]
    exact UInt8.ofNat_toNat
  have := List.all_eq_true.mp (hall caps) (c.toNat - 0x20) (List.mem_range.mpr (by
    rw [UInt8.le_iff_toNat_le] at hhi
    have h7e : (0x7E : UInt8).toNat = 0x7E := rfl
    omega))
  rwa [hc] at this

/-- 二文字を打って読む。 -/
theorem typing_reads_hi : ∃ t u, exec KbdRun.step (.install fun _ => 0) (([0x48, 0x69].flatMap (press false)).map (.irq 1)) = some t ∧
    t.step (.read KBD_BUFFER_SZ 1) = some u ∧ u.delivered = [0x48, 0x69] ∧ u.lost = 0 :=
  typing_reads_back (fun _ => 0) (.refl _) ⟨rfl, rfl⟩ [0x48, 0x69] (fun c hc => by
    rcases List.mem_pair.mp hc with rfl | rfl
    · exact find_key_printable _ (by decide) (by decide)
    · exact find_key_printable _ (by decide) (by decide)) (by decide)

end MyOS.Drivers
