import MyOS.Kilb.Print
import Mathlib.Data.Nat.Digits.Lemmas

/-!
# カーネルの書式付きの出力が、バッファに収まる条件

数の変換の書く位置は、桁の数と幅で決まる。どの数の変換も収まるとき、またそのときに限り、書く位置はバッファの中にある。
-/

namespace MyOS.Kilb
open MyOS.Lib Output

variable {base val size : Int} {start n k cursz : Nat} {o o₁ : Output}

/-! ## 数の変換 -/

theorem digit_loop_wrote (hb : 1 < base.natAbs) (h : Wrote o o₁ start cursz) (hn : (Nat.digits base.natAbs val.natAbs).length < n) :
    ∃ o₂, digit_loop base start n val cursz o₁ = some (cursz + (Nat.digits base.natAbs val.natAbs).length, o₂) ∧
      Wrote o o₂ start (cursz + (Nat.digits base.natAbs val.natAbs).length) := by
  induction n generalizing val cursz o₁ with
  | zero => exact absurd hn (Nat.not_lt_zero _)
  | succ n ih =>
    rw [digit_loop]
    by_cases hval : val = 0
    · rw [if_pos hval, hval]
      exact ⟨o₁, by simp, by simpa using h⟩
    · have hdiv : (val.tdiv base).natAbs = val.natAbs / base.natAbs := Int.natAbs_tdiv val base
      rw [if_neg hval]
      rw [Nat.digits_def' hb (Int.natAbs_pos.2 hval), ← hdiv, List.length_cons] at hn ⊢
      have := ih (h.set (digit (val.tmod base))) (Nat.lt_of_succ_lt_succ hn)
      rwa [Nat.add_assoc, Nat.add_comm 1] at this

theorem zero_fill_wrote (h : Wrote o o₁ start cursz) (k : Nat) : Wrote o (zero_fill start k cursz o₁) start (cursz + k) := by
  induction k generalizing cursz o₁ with
  | zero => exact h
  | succ k ih =>
    have := ih (h.set ZERO)
    rwa [Nat.add_assoc, Nat.add_comm 1] at this

theorem reverse_wrote (h : Wrote o o₁ start cursz) (is : List Nat) (his : ∀ i ∈ is, i < cursz) :
    Wrote o (is.foldl (swap start cursz) o₁) start cursz := by
  induction is generalizing o₁ with
  | nil => exact h
  | cons i is ih =>
    have hi := his i List.mem_cons_self
    refine ih ?_ fun j hj => his j (List.mem_cons_of_mem i hj)
    exact (h.again (by omega) (by omega) _).again (by omega) (by omega) _

theorem print_digits_wrote (hb : 1 < base.natAbs) (hval : val.natAbs < 2 ^ 32) (size : Int) (o : Output) (start : Nat) :
    ∃ o', print_digits start val base size o = some (digits_length val base size, o') ∧
      Wrote o o' start (digits_length val base size) := by
  have hlen : (Nat.digits base.natAbs val.natAbs).length < 33 := by
    rw [Nat.lt_succ_iff, Nat.digits_length_le_iff hb]
    exact Nat.lt_of_lt_of_le hval (Nat.pow_le_pow_left hb 32)
  obtain ⟨o₁, ho₁, hw⟩ := digit_loop_wrote hb (.refl o start) hlen
  have hsum : 0 + (Nat.digits base.natAbs val.natAbs).length +
      (size - (0 + (Nat.digits base.natAbs val.natAbs).length : Nat)).toNat = digits_length val base size := by
    unfold digits_length
    omega
  have hfill := zero_fill_wrote hw (size - (0 + (Nat.digits base.natAbs val.natAbs).length : Nat)).toNat
  rw [hsum] at hfill
  have hrange : ∀ i ∈ List.range (digits_length val base size / 2), i < digits_length val base size := fun i hi => by
    have := List.mem_range.1 hi
    omega
  exact ⟨_, by simp only [print_digits, ho₁, hsum, Option.bind_eq_bind, Option.bind_some], reverse_wrote hfill _ hrange⟩

theorem print_uint_wrote (size : Int) (hb : 1 < base.natAbs) {v : Nat} (hv : v < 2 ^ 32) (o : Output) :
    ∃ o', print_uint v base size o = some ((Directive.uint v base size).length, o') ∧
      Wrote o o' o.pos (Directive.uint v base size).length :=
  print_digits_wrote hb (by rwa [Int.natAbs_natCast]) size o o.pos

/-- 符号を書いた後、`INT_MIN` も同じ桁の数を書く。 -/
theorem print_int_wrote (size : Int) (hval : -2 ^ 31 ≤ val) (hval' : val < 2 ^ 31) (o : Output) :
    ∃ o', print_int val 10 size o = some ((Directive.int val size).length, o') ∧ Wrote o o' o.pos (Directive.int val size).length := by
  by_cases hneg : val < 0
  · have habs : ((val * -1).bmod (2 ^ 32)).natAbs = val.natAbs := by
      by_cases hmin : val = -2 ^ 31
      · subst hmin
        rfl
      · rw [Int.bmod_eq_of_le (by omega) (by omega)]
        omega
    have hlt : ((val * -1).bmod (2 ^ 32)).natAbs < 2 ^ 32 := by
      rw [habs]
      omega
    have hlen : (Directive.int val size).length = 1 + digits_length ((val * -1).bmod (2 ^ 32)) 10 size := by
      simp only [Directive.length, digits_length, if_pos hneg, habs]
    obtain ⟨o', ho', hw⟩ := print_digits_wrote (by decide : 1 < (10 : Int).natAbs) hlt size (o.set o.pos MINUS) (o.pos + 1)
    rw [hlen, print_int, if_pos hneg, ho']
    exact ⟨o', rfl, hw.after_set⟩
  · have hlen : (Directive.int val size).length = digits_length val 10 size := by simp [Directive.length, hneg]
    rw [hlen, print_int, if_neg hneg]
    exact print_digits_wrote (by decide) (by omega) size o o.pos

/-! ## 上限を調べて置く文字 -/

variable {bufsize limit : Nat} {s : List UInt8}

/-- `n` 個の文字を、上限を調べて置いた。 -/
structure Guarded (limit : Nat) (o o' : Output) (n : Nat) : Prop where
  pos : o'.pos = if o.pos < limit then min limit (o.pos + n) else o.pos
  below : ∀ m, limit ≤ m → o.Below m → o'.Below m
  grows : ∀ m, o'.Below m → o.Below m

theorem put_guarded (limit : Nat) (o : Output) (c : UInt8) : Guarded limit o (o.put limit c) 1 := by
  unfold Output.put
  split
  next hroom =>
    refine ⟨?_, fun m hm hb => below_push.2 ⟨by omega, hb⟩, fun m hb => (below_push.1 hb).2⟩
    rw [if_pos hroom, push_pos]
    omega
  next hstop => exact ⟨(if_neg hstop).symm, fun _ _ => id, fun _ => id⟩

theorem puts_guarded (s : List UInt8) (o : Output) : Guarded limit o (s.foldl (Output.put limit) o) s.length := by
  induction s generalizing o with
  | nil =>
    refine ⟨?_, fun _ _ => id, fun _ => id⟩
    split
    next hroom =>
      simp
      omega
    next => rfl
  | cons c s ih =>
    have h := put_guarded limit o c
    have hs := ih (o.put limit c)
    refine ⟨?_, fun m hm hb => hs.below m hm (h.below m hm hb), fun m hb => h.grows m (hs.grows m hb)⟩
    rw [List.foldl_cons, hs.pos, h.pos, List.length_cons]
    split
    next => split <;> omega
    next => rfl

/-! ## 書式の部分 -/

variable {d : Directive} {ds : List Directive}

/-- 書式から読んだ部分。 -/
def Directive.Valid : Directive → Prop
  | uint v base _ => v < 2 ^ 32 ∧ 1 < base.natAbs
  | int val _ => -2 ^ 31 ≤ val ∧ val < 2 ^ 31
  | _ => True

/-- 一つの部分を書いた結果。書いた位置が `bufsize` より小さいことと、収まることが一致する。 -/
structure Emitted (bufsize : Nat) (d : Directive) (o o' : Output) : Prop where
  grows : ∀ m, o'.Below m → o.Below m
  below_iff : o.pos ≤ bufsize → o.Below bufsize → (o'.Below bufsize ↔ d.Fits bufsize o.pos)
  pos : o.pos ≤ bufsize → d.Fits bufsize o.pos → o'.pos = d.next (bufsize - 1) o.pos ∧ o'.pos ≤ bufsize

theorem emitted_of_guarded {o' : Output} (h : Guarded (bufsize - 1) o o' d.length) (hfits : d.Fits bufsize o.pos)
    (hnext : d.next (bufsize - 1) o.pos = if o.pos < bufsize - 1 then min (bufsize - 1) (o.pos + d.length) else o.pos) :
    Emitted bufsize d o o' := by
  refine ⟨h.grows, fun _ hb => iff_of_true (h.below bufsize (Nat.sub_le _ _) hb) hfits, fun hpos _ => ?_⟩
  rw [hnext, h.pos]
  refine ⟨rfl, ?_⟩
  split <;> omega

/-- 数の変換。 -/
theorem emitted_of_wrote {o' : Output} {len : Nat} (h : Wrote o o' o.pos len) (hbuf : bufsize < 2 ^ 32)
    (hfits : o.pos ≤ bufsize → (d.Fits bufsize o.pos ↔ len = 0 ∨ o.pos + len ≤ bufsize))
    (hnext : d.next (bufsize - 1) o.pos = o.pos + len) : Emitted bufsize d o { o' with pos := add32 o'.pos len } := by
  refine ⟨fun m hb => ((h.below m).1 hb).1, fun hpos hb => ?_, fun hpos hfit => ?_⟩
  · rw [hfits hpos]
    exact ⟨fun hb' => ((h.below _).1 hb').2, fun hfit => (h.below _).2 ⟨hb, hfit⟩⟩
  · have hfit' := (hfits hpos).1 hfit
    have hsum : add32 o'.pos len = o.pos + len := by rw [h.pos, add32_eq (by omega)]
    exact ⟨hsum.trans hnext.symm, hsum.symm ▸ (by omega : o.pos + len ≤ bufsize)⟩

theorem emit_emitted (hd : d.Valid) (hbuf : bufsize < 2 ^ 32) (o : Output) :
    ∃ o', d.emit (bufsize - 1) o = some o' ∧ Emitted bufsize d o o' := by
  cases d with
  | byte c => exact ⟨_, rfl, emitted_of_guarded (put_guarded _ o c) trivial rfl⟩
  | str s => exact ⟨_, rfl, emitted_of_guarded (puts_guarded s o) trivial rfl⟩
  | uint v base size =>
    obtain ⟨o', ho', hw⟩ := print_uint_wrote size hd.2 hd.1 o
    exact ⟨_, by rw [Directive.emit, ho']; rfl, emitted_of_wrote hw hbuf (fun _ => Iff.rfl) rfl⟩
  | int val size =>
    simp only [Directive.emit]
    by_cases hroom : o.pos < bufsize - 1
    · obtain ⟨o', ho', hw⟩ := print_int_wrote size hd.1 hd.2 o
      rw [if_pos hroom, ho']
      refine ⟨_, rfl, emitted_of_wrote hw hbuf (fun _ => ?_) (if_pos hroom)⟩
      simp only [Directive.Fits, hroom, true_imp_iff]
      omega
    · rw [if_neg hroom]
      refine ⟨o, rfl, fun _ => id, fun _ hb => iff_of_true hb fun h => absurd h hroom, fun hpos _ => ⟨?_, hpos⟩⟩
      exact (if_neg hroom).symm

section
variable {mem : Nat → Option UInt8} {args : Nat → Nat} {fmt : Nat → UInt8} {i ap i' ap' : Nat}

theorem directive_valid (hargs : ∀ k, args k < 2 ^ 32) (h : directive mem args fmt n i ap = some (d, i', ap')) : d.Valid := by
  have hword := hargs ap
  have hint : -2 ^ 31 ≤ (args ap : Int).bmod (2 ^ 32) ∧ (args ap : Int).bmod (2 ^ 32) < 2 ^ 31 :=
    ⟨Int.le_bmod (by decide), Int.bmod_lt (by decide)⟩
  unfold directive at h
  split at h
  next =>
    cases h
    trivial
  next =>
    obtain ⟨⟨sz, j⟩, -, h⟩ := Option.bind_eq_some_iff.1 h
    dsimp only at h
    -- 一つの場合に、一つの部分を返す
    split at h
    next => cases h; trivial
    split at h
    next => cases h; exact hint
    split at h
    next => cases h; exact ⟨hword, by decide⟩
    split at h
    next =>
      split at h
      next => cases h; exact ⟨hword, by decide⟩
      split at h <;> (cases h; exact ⟨hword, by decide⟩)
    split at h
    next =>
      obtain ⟨s, -, hs⟩ := Option.map_eq_some_iff.1 h
      cases hs
      trivial
    split at h <;> (cases h; trivial)

theorem loop_result (mem : Nat → Option UInt8) (fmt : Nat → UInt8) (hargs : ∀ k, args k < 2 ^ 32)
    (hbuf : bufsize < 2 ^ 32) (n i ap : Nat) (o : Output) :
    match directives mem args fmt n i ap with
    | none => vsnprintf_loop mem args fmt (bufsize - 1) n i ap o = none
    | some ds => ∃ o', vsnprintf_loop mem args fmt (bufsize - 1) n i ap o = some o' ∧ (∀ m, o'.Below m → o.Below m) ∧
        (o.pos ≤ bufsize → o.Below bufsize → (o'.Below bufsize ↔ Fits bufsize o.pos ds)) := by
  induction n generalizing i ap o with
  | zero => rfl
  | succ n ih =>
    rw [directives, vsnprintf_loop]
    by_cases hend : fmt i = 0
    · simp only [hend, if_true]
      exact ⟨o, rfl, fun _ => id, fun _ hb => iff_of_true hb trivial⟩
    · rw [if_neg hend, if_neg hend]
      cases hdir : directive mem args fmt n i ap with
      | none => rfl
      | some r =>
        obtain ⟨d, j, aq⟩ := r
        obtain ⟨o₁, ho₁, hemit⟩ := emit_emitted (directive_valid hargs hdir) hbuf o
        have hrest := ih j aq o₁
        cases hds : directives mem args fmt n j aq with
        | none =>
          rw [hds] at hrest
          simp [ho₁, hds, hrest]
        | some ds =>
          rw [hds] at hrest
          obtain ⟨o₂, ho₂, hgrow, hiff⟩ := hrest
          simp only [Option.bind_eq_bind, Option.bind_some, hds, ho₁, ho₂]
          refine ⟨o₂, rfl, fun m hb => hemit.grows m (hgrow m hb), fun hpos hb => ?_⟩
          have hhead := hemit.below_iff hpos hb
          refine ⟨fun hb₂ => ?_, fun hfits => ?_⟩
          · have hb₁ := hgrow bufsize hb₂
            obtain ⟨hnext, hle⟩ := hemit.pos hpos (hhead.1 hb₁)
            exact ⟨hhead.1 hb₁, hnext ▸ (hiff hle hb₁).1 hb₂⟩
          · obtain ⟨hnext, hle⟩ := hemit.pos hpos hfits.1
            exact (hiff hle (hhead.2 hfits.1)).2 (hnext ▸ hfits.2)

/-- `vsnprintf` は戻り、バッファの中だけに書き、NUL で終わる文字列を残す。 -/
def Safe (mem : Nat → Option UInt8) (args : Nat → Nat) (fmt : Nat → UInt8) (buf : ByteMem) (bufsize : Nat) : Prop :=
  ∃ n o, vsnprintf mem args fmt buf bufsize n = some o ∧ o.Below bufsize ∧ ∃ i < bufsize, o.buf i = 0

/-- `n` 回までのループで読む部分が、すべて収まる。 -/
theorem vsnprintf_result (hargs : ∀ k, args k < 2 ^ 32) (hbuf : bufsize < 2 ^ 32) (hpos : 1 ≤ bufsize) (buf : ByteMem) (n : Nat) :
    (∃ o, vsnprintf mem args fmt buf bufsize n = some o ∧ o.Below bufsize ∧ ∃ i < bufsize, o.buf i = 0) ↔
      ∃ ds, directives mem args fmt n 0 0 = some ds ∧ Fits bufsize 0 ds := by
  have hne : bufsize ≠ 0 := by omega
  have h := loop_result mem fmt hargs hbuf n 0 0 ⟨buf, 0, []⟩
  unfold vsnprintf
  rw [if_neg hne]
  cases hds : directives mem args fmt n 0 0 with
  | none =>
    rw [hds] at h
    simp [h]
  | some ds =>
    rw [hds] at h
    obtain ⟨o, ho, -, hiff⟩ := h
    have hend : (if o.pos < bufsize then o.pos else bufsize - 1) < bufsize := by
      split <;> omega
    have hfits := hiff (Nat.zero_le _) fun _ hmem => absurd hmem List.not_mem_nil
    simp only [ho, Option.map_some, Option.some.injEq, exists_eq_left']
    rw [← hfits]
    exact ⟨fun h => (below_set.1 h.1).2, fun h => ⟨below_set.2 ⟨hend, h⟩, _, hend, ByteMem.store8_self⟩⟩

theorem vsnprintf_safe_iff (mem : Nat → Option UInt8) (args : Nat → Nat) (fmt : Nat → UInt8) (buf : ByteMem) (bufsize : Nat)
    (hargs : ∀ k, args k < 2 ^ 32) (hbuf : bufsize < 2 ^ 32) (hpos : 1 ≤ bufsize) :
    Safe mem args fmt buf bufsize ↔ ∃ n ds, directives mem args fmt n 0 0 = some ds ∧ Fits bufsize 0 ds :=
  exists_congr fun n => vsnprintf_result hargs hbuf hpos buf n

end

/-! ## 実行例 -/

/-- 書式 `"%0…x"`。 -/
def hex_fmt (width : List UInt8) (i : Nat) : UInt8 := (PERCENT :: ZERO :: width ++ [LETTER_X]).getD i 0

/-- `"%08x"` の 255 は、大きさ 16 のバッファに収まる。 -/
theorem vsnprintf_safe_hex : Safe (fun _ => none) (fun _ => 255) (hex_fmt [0x38]) (fun _ => 0xFF) 16 := by
  refine (vsnprintf_safe_iff (fun _ => none) (fun _ => 255) (hex_fmt [0x38]) (fun _ => 0xFF) 16 (fun _ => by decide) (by decide)
    (by decide)).2 ⟨8, [.uint 255 16 8], rfl, ?_, trivial⟩
  simp [Directive.Fits, Directive.length, digits_length]

theorem directives_wide (n : Nat) : directives (fun _ => none) (fun _ => 0) (hex_fmt [0x32, 0x30, 0x30, 0x30]) (n + 7) 0 0 =
    some [.uint 0 16 2000] := rfl

/-- `"%02000x"` は、`BUFFER_SIZE` のバッファの外に書く。 -/
theorem vsnprintf_overflows : ¬ Safe (fun _ => none) (fun _ => 0) (hex_fmt [0x32, 0x30, 0x30, 0x30]) (fun _ => 0xFF) BUFFER_SIZE := by
  rintro ⟨n, h⟩
  obtain ⟨ds, hds, hfits⟩ := (vsnprintf_result (fun _ => by decide) (by decide) (by decide) (fun _ => 0xFF) n).1 h
  match n with
  | 0 | 1 | 2 | 3 | 4 | 5 | 6 => cases hds
  | n + 7 =>
    rw [directives_wide] at hds
    cases hds
    simp [Fits, Directive.Fits, Directive.length, digits_length, BUFFER_SIZE] at hfits

end MyOS.Kilb
