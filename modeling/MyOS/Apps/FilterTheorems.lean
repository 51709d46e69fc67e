import MyOS.Apps.Filters
import MyOS.Libc.PrintTheorems
import MyOS.Libc.String
import MyOS.Lib.Components
import Mathlib.Data.List.TakeDrop

/-!
# 入力を読んで書くアプリケーションの定理

入力がどのような区切りで届いても、読み切ったバイトは同じで、書くバイトはその行だけで決まる。
-/

namespace MyOS.Filters
open MyOS.Lib Libc

variable {cmd : String} {alloc : Nat → Bool} {src : Source} {data out : List UInt8} {chunks : List (List UInt8)} {max_lines : Nat} {c₀ : UInt8}

/-! ## 入力 -/

/-- 入力が `data` を空でない区切りで届ける。 -/
inductive Delivers : Source → List UInt8 → Prop
  | stdin (cs : List (List UInt8)) : (∀ c ∈ cs, c ≠ []) → Delivers (.stdin cs) cs.flatten
  | file (name : List UInt8) (cs : List (List UInt8)) : (∀ c ∈ cs, c ≠ []) → Delivers (.file name cs.flatten.length cs) cs.flatten

/-- `int` のあふれない大きさ。 -/
def MAX_INPUT : Nat := 2 ^ 30

/-- `r` は `x` か、`malloc` か `realloc` の失敗である。 -/
def RunsTo {α : Type} (cmd : String) (alloc : Nat → Bool) (r : Run α) (P : α → Prop) : Prop :=
  (∃ x, r = .ok x ∧ P x) ∨ r = .error (no_memory cmd) ∧ ∃ n, alloc n = false

theorem RunsTo.bind {α β : Type} {r : Run α} {f : α → Run β} {P : α → Prop} {Q : β → Prop} (h : RunsTo cmd alloc r P)
    (hf : ∀ x, P x → RunsTo cmd alloc (f x) Q) : RunsTo cmd alloc (r >>= f) Q := by
  rcases h with ⟨x, rfl, hx⟩ | ⟨rfl, halloc⟩
  · exact hf x hx
  · exact .inr ⟨rfl, halloc⟩

theorem RunsTo.mono {α : Type} {r : Run α} {P Q : α → Prop} (h : RunsTo cmd alloc r P) (hPQ : ∀ x, P x → Q x) : RunsTo cmd alloc r Q :=
  h.imp_left fun ⟨x, hx, hP⟩ => ⟨x, hx, hPQ x hP⟩

theorem RunsTo.total {α : Type} {r : Run α} {P : α → Prop} (h : RunsTo cmd (fun _ => true) r P) : ∃ x, r = .ok x ∧ P x := by
  rcases h with h | ⟨-, n, hn⟩
  · exact h
  · cases hn

theorem grow_loop_runs {need n cap : Nat} (hneed : need ≤ MAX_INPUT) (hcap : 0 < cap) (hn : need ≤ cap + n) :
    RunsTo cmd alloc (grow_loop cmd alloc need n cap) fun cap' => need ≤ cap' ∧ 0 < cap' := by
  induction n generalizing cap with
  | zero => exact .inl ⟨cap, rfl, hn, hcap⟩
  | succ n ih =>
    rw [grow_loop]
    unfold MAX_INPUT at hneed
    split
    next hlt =>
      rw [if_neg (by omega)]
      split
      · exact ih (by omega) (by omega)
      next hfail => exact .inr ⟨rfl, cap * 2, by simpa using hfail⟩
    next hle => exact .inl ⟨cap, rfl, Nat.le_of_not_lt hle, hcap⟩

/-- 区切りは順につながり、書き込みは確保した範囲に収まる。 -/
theorem read_loop_runs {cap : Nat} (hchunks : ∀ c ∈ chunks, c ≠ []) (hcap : data.length ≤ cap ∧ 0 < cap)
    (hlen : (data ++ chunks.flatten).length ≤ MAX_INPUT) :
    RunsTo cmd alloc (read_loop cmd alloc cap data chunks) (· = data ++ chunks.flatten) := by
  induction chunks generalizing cap data with
  | nil => exact .inl ⟨data, rfl, by simp⟩
  | cons c cs ih =>
    obtain ⟨hc, hcs⟩ := List.forall_mem_cons.mp hchunks
    rw [List.flatten_cons, ← List.append_assoc] at hlen ⊢
    have hneed : data.length + c.length ≤ MAX_INPUT := by
      rw [List.length_append, List.length_append] at hlen
      omega
    rw [read_loop, if_neg (by simpa using hc)]
    refine (grow_loop_runs hneed hcap.2 (by omega)).bind fun cap' hcap' => ?_
    rw [append_chunk, if_neg (by omega)]
    exact ih hcs ⟨by rw [List.length_append]; exact hcap'.1, hcap'.2⟩ hlen

theorem fread_loop_eq (hchunks : ∀ c ∈ chunks, c ≠ []) :
    fread_loop (data ++ chunks.flatten).length data chunks = data ++ chunks.flatten := by
  induction chunks generalizing data with
  | nil => simp [fread_loop]
  | cons c cs ih =>
    obtain ⟨hc, hcs⟩ := List.forall_mem_cons.mp hchunks
    have hpos := List.length_pos_iff.mpr hc
    have htake : c.take ((data ++ (c :: cs).flatten).length - data.length) = c := by
      refine List.take_of_length_le ?_
      simp
    rw [fread_loop, if_pos (by simp; omega)]
    dsimp only
    rw [htake, if_neg (by simpa using hc), List.flatten_cons, ← List.append_assoc]
    exact ih hcs

/-- どの区切りで届いても、同じバイトを読み切る。失敗するのは、メモリを確保できないときだけである。 -/
theorem load_runs (h : Delivers src data) (hlen : data.length ≤ MAX_INPUT) :
    RunsTo cmd alloc (load cmd alloc src) (· = data) := by
  cases h with
  | stdin cs hchunks =>
    rw [load]
    split
    · exact read_loop_runs hchunks ⟨Nat.zero_le _, by decide⟩ hlen
    next hfail => exact .inr ⟨rfl, 512, by simpa using hfail⟩
  | file name cs hchunks =>
    rw [load]
    split
    next hzero => exact .inl ⟨[], rfl, (List.length_eq_zero_iff.mp hzero).symm⟩
    · split
      · exact .inl ⟨_, rfl, (fread_loop_eq hchunks : fread_loop ([] ++ cs.flatten).length [] cs = _)⟩
      next hfail => exact .inr ⟨rfl, _, by simpa using hfail⟩

/-! ## head -/

variable {pattern line : List UInt8} {fs : List UInt8 → Option (Nat × List (List UInt8))}

theorem match_at_iff {j : Nat} (h : j + pattern.length ≤ line.length) :
    match_at line pattern j = true ↔ (line.drop j).take pattern.length = pattern := by
  have hget : ∀ k < pattern.length, (line.getD (j + k) 0 == pattern.getD k 0) = true ↔
      ((line.drop j).take pattern.length)[k]? = pattern[k]? := by
    intro k hk
    have hj : j + k < line.length := by omega
    rw [List.getElem?_take_of_lt hk, List.getElem?_drop, List.getElem?_eq_getElem hj, List.getElem?_eq_getElem hk,
      List.getD_eq_getElem?_getD, List.getD_eq_getElem?_getD, List.getElem?_eq_getElem hj, List.getElem?_eq_getElem hk]
    simp
  have hlen : ((line.drop j).take pattern.length).length = pattern.length := by
    rw [List.length_take, List.length_drop]
    omega
  unfold match_at
  rw [List.all_eq_true]
  constructor
  · intro hall
    refine List.ext_getElem? fun k => ?_
    by_cases hk : k < pattern.length
    · exact (hget k hk).mp (hall k (List.mem_range.mpr hk))
    · rw [List.getElem?_eq_none (by omega), List.getElem?_eq_none (by omega)]
  · intro heq k hk
    exact (hget k (List.mem_range.mp hk)).mpr (by rw [heq])

/-- 一致するのは、行が `pattern` を含むときである。 -/
theorem match_line_iff : match_line pattern line = true ↔ pattern <:+: line := by
  unfold match_line
  rw [Bool.and_eq_true, decide_eq_true_eq, List.any_eq_true]
  constructor
  · rintro ⟨hle, j, hj, hat⟩
    have hj := List.mem_range.mp hj
    have htake := (match_at_iff (by omega)).mp hat
    refine ⟨line.take j, (line.drop j).drop pattern.length, ?_⟩
    conv_rhs => rw [← List.take_append_drop j line, ← List.take_append_drop pattern.length (line.drop j), htake]
    rw [List.append_assoc]
  · rintro ⟨pre, post, rfl⟩
    have hlen : (pre ++ pattern ++ post).length = pre.length + pattern.length + post.length := by
      rw [List.length_append, List.length_append]
    refine ⟨by omega, pre.length, List.mem_range.mpr (by omega), (match_at_iff (by omega)).mpr ?_⟩
    rw [List.append_assoc, List.drop_left, List.take_left]

/-- `grep` の三重の繰り返しは、`strstr` と同じ行に一致する。`strstr` は最初の位置を返す。 -/
theorem grep_matches_strstr {m : ByteMem} {a b : Nat} (hline : CStr m a line) (hpattern : CStr m b pattern) (ha : a ≠ 0) :
    ∃ r, strstr m a b = some r ∧ (match_line pattern line = true ↔ r ≠ 0) ∧
      (r ≠ 0 → ∃ k, r = a + k ∧ pattern <+: line.drop k ∧ ∀ j < k, ¬ pattern <+: line.drop j) := by
  rcases strstr_finds hline hpattern with ⟨hr, hno⟩ | ⟨k, hr, hat, hbefore⟩
  · exact ⟨0, hr, iff_of_false (mt match_line_iff.mp hno) (by simp), fun h => absurd rfl h⟩
  · refine ⟨a + k, hr, iff_of_true (match_line_iff.mpr ?_) (by omega), fun _ => ⟨k, rfl, hat, hbefore⟩⟩
    exact hat.isInfix.trans (List.drop_suffix k line).isInfix

/-- `0x1000` の `xab` から、`0x2000` の `ab` を探す。 -/
def two_strings : ByteMem := ByteMem.write (ByteMem.write (fun _ => 0) 0x1000 [0x78, 0x61, 0x62]) 0x2000 [0x61, 0x62]

theorem grep_matches_strstr_second : ∃ r, strstr two_strings 0x1000 0x2000 = some r ∧
    (match_line [0x61, 0x62] [0x78, 0x61, 0x62] = true ↔ r ≠ 0) := by
  have hline : CStr two_strings 0x1000 [0x78, 0x61, 0x62] := ⟨by decide, by decide, by decide, by decide⟩
  have hpattern : CStr two_strings 0x2000 [0x61, 0x62] := ⟨by decide, by decide, by decide, by decide⟩
  obtain ⟨r, hr, hiff, -⟩ := grep_matches_strstr hline hpattern (by decide)
  exact ⟨r, hr, hiff⟩

variable {stdin : List (List UInt8)} {argv : List (List UInt8)} {e : Exit}

/-- 終わったときに書いたものと値。 -/
def finished : Run Exit → Option Exit
  | .ok e => some e
  | .error (.exit e) => some e
  | .error .overflow => none

end MyOS.Filters
