import MyOS.Lib.CString
import MyOS.Lib.Components

/-!
# `strtok`（libc の string.c）

呼び出しの間に続きの番地を覚え、文字列をその場で切る。0 は `NULL` である。

`none` は、文字列に終わりがないことを表す。番地は 32 ビットなので、それより長くは進まない。
-/

namespace MyOS.Libc
open MyOS.Lib

/-- メモリと、静的な変数 `strtok_next`。 -/
structure Strtok where
  mem : ByteMem
  strtok_next : Nat

/-- 外側の `while`。`next` は `strtok_next` である。メモリ、`strtok_next`、戻り値を返す。 -/
def strtok_loop (delim : List UInt8) : Nat → Nat → Nat → ByteMem → Option (ByteMem × Nat × Nat)
  | 0, _, _, _ => none
  | n + 1, start, next, m =>
      if m next = 0 then some (m, 0, if start ≠ 0 ∧ m start ≠ 0 then start else 0)
      else if delim.contains (m next) then
        let m := m.store8 next 0
        let next := next + 1
        if start ≠ next - 1 then some (m, next, start) else strtok_loop delim n next next m
      else strtok_loop delim n start (next + 1) m

def strtok (delim : List UInt8) (s : Strtok) (str : Nat) : Option (Strtok × Nat) :=
  let strtok_next := if str ≠ 0 then str else s.strtok_next
  if strtok_next = 0 then some (s, 0)
  else (strtok_loop delim (2 ^ 32) strtok_next strtok_next s.mem).map fun (m, next, ret) => (⟨m, next⟩, ret)

/-- `strtok(str, delim)` から、`strtok(NULL, delim)` が `NULL` を返すまでの呼び出しが、順に `ws` を返す。 -/
inductive Tokens (delim : List UInt8) : Strtok → Nat → List (List UInt8) → Strtok → Prop
  | last {s s' : Strtok} {str : Nat} : strtok delim s str = some (s', 0) → Tokens delim s str [] s'
  | next {s s' t : Strtok} {str ret : Nat} {w : List UInt8} {ws : List (List UInt8)} : strtok delim s str = some (s', ret) → ret ≠ 0 →
      CStr s'.mem ret w → Tokens delim s' 0 ws t → Tokens delim s str (w :: ws) t

/-! ## 定理 -/

variable {delim pre r : List UInt8} {m : ByteMem} {start n : Nat} {s t u : Strtok} {str : Nat} {ws ws' : List (List UInt8)}

/-- 続きの文字列。覚えた番地が 0 なら、もうない。 -/
def Rest (s : Strtok) (r : List UInt8) : Prop := s.strtok_next = 0 ∧ r = [] ∨ s.strtok_next ≠ 0 ∧ CStr s.mem s.strtok_next r

/-- 一回の呼び出しの結果。残りの続きの列の先頭を返す。 -/
inductive Cut (delim : List UInt8) (ws : List (List UInt8)) (n : Nat) : ByteMem × Nat × Nat → Prop
  | last {m : ByteMem} : ws = [] → Cut delim ws n (m, 0, 0)
  | next {m : ByteMem} {next ret : Nat} {w r : List UInt8} : ret ≠ 0 → CStr m ret w → ws = w :: runs delim.contains r → Rest ⟨m, next⟩ r →
      r.length < n → Cut delim ws n (m, next, ret)

theorem Cut.mono {k : Nat} {res : ByteMem × Nat × Nat} (h : Cut delim ws n res) (hk : n ≤ k) : Cut delim ws k res := by
  cases h with
  | last h => exact .last h
  | next hret hw hws hrest hlt => exact .next hret hw hws hrest (Nat.lt_of_lt_of_le hlt hk)

/-- 続きの途中から、残りの `r` を調べるループ。`pre` は `start` からの区切りでない文字である。 -/
theorem strtok_loop_spec (delim pre : List UInt8) (hn : r.length < n) (hstart : start ≠ 0) (hpre : CStr m start (pre ++ r))
    (hword : ∀ c ∈ pre, delim.contains c = false) :
    ∃ res, strtok_loop delim n start (start + pre.length) m = some res ∧
      Cut delim (runs delim.contains (pre ++ r)) (pre ++ r).length res := by
  induction r generalizing n start pre m with
  | nil =>
    obtain ⟨n, rfl⟩ : ∃ k, n = k + 1 := ⟨n - 1, by simp at hn; omega⟩
    rw [List.append_nil] at hpre ⊢
    rw [strtok_loop, if_pos hpre.nul, runs_last hword]
    cases pre with
    | nil =>
      have hnul : m start = 0 := hpre.nul
      simp only [hnul, ne_eq, not_true_eq_false, and_false, ↓reduceIte]
      exact ⟨_, rfl, .last rfl⟩
    | cons c pre =>
      have hhead : m start ≠ 0 := hpre.head ▸ hpre.head_ne
      rw [if_pos ⟨hstart, hhead⟩]
      exact ⟨_, rfl, .next hstart hpre (by simp) (.inl ⟨rfl, rfl⟩) (Nat.succ_pos _)⟩
  | cons c r ih =>
    obtain ⟨n, rfl⟩ : ∃ k, n = k + 1 := ⟨n - 1, by simp at hn; omega⟩
    have hrest := hpre.drop
    have hlt : r.length < n := Nat.lt_of_succ_lt_succ hn
    rw [strtok_loop, hrest.head, if_neg hrest.head_ne]
    cases hdelim : delim.contains c with
    | false =>
      have hlist : pre ++ c :: r = pre ++ [c] ++ r := by simp
      have hnext : start + pre.length + 1 = start + (pre ++ [c]).length := by simp [Nat.add_assoc]
      rw [if_neg Bool.false_ne_true, hnext, hlist]
      rw [hlist] at hpre
      refine ih (pre ++ [c]) hlt hstart hpre fun x hx => ?_
      cases List.mem_append.mp hx with
      | inl hx => exact hword x hx
      | inr hx => rw [List.mem_singleton.mp hx, hdelim]
    | true =>
      have hafter : CStr (m.store8 (start + pre.length) 0) (start + pre.length + 1) r :=
        hrest.tail.store8_before (Nat.lt_succ_self _)
      rw [if_pos rfl, runs_append_sep hword hdelim]
      dsimp only
      rw [Nat.add_sub_cancel]
      cases pre with
      | nil =>
        -- 区切りの続き
        obtain ⟨res, hloop, hcut⟩ := ih [] hlt (Nat.succ_ne_zero start) hafter fun x hx => by cases hx
        refine ⟨res, ?_, hcut.mono (Nat.le_succ _)⟩
        simpa using hloop
      | cons d pre =>
        have hne : start ≠ start + (d :: pre).length := by simp
        rw [if_pos hne]
        refine ⟨_, rfl, .next hstart hpre.cut (by simp) (.inr ⟨Nat.succ_ne_zero _, hafter⟩) ?_⟩
        simp
        omega

/-- 一回の呼び出し。 -/
theorem strtok_spec (delim : List UInt8) (h : if str ≠ 0 then CStr s.mem str r else Rest s r) :
    ∃ t ret, strtok delim s str = some (t, ret) ∧ Cut delim (runs delim.contains r) r.length (t.mem, t.strtok_next, ret) := by
  unfold strtok
  have hcall : ∀ a, a ≠ 0 → CStr s.mem a r → ∃ t ret,
      (strtok_loop delim (2 ^ 32) a a s.mem).map (fun (m, next, ret) => ((⟨m, next⟩ : Strtok), ret)) = some (t, ret) ∧
        Cut delim (runs delim.contains r) r.length (t.mem, t.strtok_next, ret) := by
    intro a ha hs
    obtain ⟨⟨m, next, ret⟩, hloop, hcut⟩ := strtok_loop_spec delim [] (n := 2 ^ 32)
      (Nat.lt_of_le_of_lt (Nat.le_add_left _ a) hs.fits) ha hs fun x hx => by cases hx
    exact ⟨⟨m, next⟩, ret, by rw [show a + ([] : List UInt8).length = a from rfl] at hloop; rw [hloop]; rfl, hcut⟩
  by_cases hstr : str ≠ 0
  · rw [if_pos hstr] at h ⊢
    rw [if_neg hstr]
    exact hcall str hstr h
  · rw [if_neg hstr] at h ⊢
    rcases h with ⟨hnull, rfl⟩ | ⟨hnext, hs⟩
    · rw [if_pos hnull]
      exact ⟨s, 0, rfl, by rw [hnull]; exact .last rfl⟩
    · rw [if_neg hnext]
      exact hcall s.strtok_next hnext hs

/-- 呼び出しを繰り返すと、続きを順に返して終わる。 -/
theorem tokens_runs (delim : List UInt8) (h : if str ≠ 0 then CStr s.mem str r else Rest s r) :
    ∃ t, Tokens delim s str (runs delim.contains r) t ∧ t.strtok_next = 0 := by
  induction hlen : r.length using Nat.strong_induction_on generalizing s str r with
  | _ n ih =>
    obtain ⟨⟨m, next⟩, ret, hcall, hcut⟩ := strtok_spec delim h
    cases hcut with
    | last hnone =>
      rw [hnone]
      exact ⟨_, .last hcall, rfl⟩
    | @next _ _ _ w r' hret hw hws hrest hlt =>
      have hnull : if (0 : Nat) ≠ 0 then CStr m 0 r' else Rest ⟨m, next⟩ r' := by simpa using hrest
      have hrun : ∃ t, Tokens delim ⟨m, next⟩ 0 (runs delim.contains r') t ∧ t.strtok_next = 0 := ih _ (hlen ▸ hlt) hnull rfl
      obtain ⟨t, htokens, ht⟩ := hrun
      rw [hws]
      exact ⟨t, .next hcall hret hw htokens, ht⟩

theorem Tokens.unique (h : Tokens delim s str ws t) (h' : Tokens delim s str ws' u) : ws = ws' ∧ t = u := by
  induction h generalizing ws' u with
  | last hcall =>
    cases h' with
    | last hcall' =>
      cases hcall.symm.trans hcall'
      exact ⟨rfl, rfl⟩
    | next hcall' hret => cases hcall.symm.trans hcall'; exact absurd rfl hret
  | next hcall hret hw _ ih =>
    cases h' with
    | last hcall' => cases hcall.symm.trans hcall'; exact absurd rfl hret
    | next hcall' _ hw' h' =>
      cases hcall.symm.trans hcall'
      obtain ⟨hws, ht⟩ := ih h'
      exact ⟨by rw [hw.unique hw', hws], ht⟩

/-- `strtok` は、区切りでない文字の極大な続きを順に返し、その後は新しい文字列まで `NULL` を返す。 -/
theorem strtok_runs (delim r : List UInt8) (m : ByteMem) (str old : Nat) (hstr : str ≠ 0) (hr : CStr m str r) :
    ∃ t, Tokens delim ⟨m, old⟩ str (runs delim.contains r) t ∧
      (∀ ws u, Tokens delim ⟨m, old⟩ str ws u → ws = runs delim.contains r ∧ u = t) ∧
      ∀ delim' m', strtok delim' ⟨m', t.strtok_next⟩ 0 = some (⟨m', t.strtok_next⟩, 0) := by
  have hnew : if str ≠ 0 then CStr m str r else Rest ⟨m, old⟩ r := by simpa [hstr] using hr
  obtain ⟨t, htokens, ht⟩ := tokens_runs delim (s := ⟨m, old⟩) hnew
  refine ⟨t, htokens, fun ws u hws => hws.unique htokens, fun delim' m' => ?_⟩
  simp [strtok, ht]

/-- 番地 `0x1000` に置いた `,a,,b`。 -/
def sample_mem : ByteMem := fun x => [0x2C, 0x61, 0x2C, 0x2C, 0x62].getD (x - 0x1000) 0

theorem strtok_sample : ∃ t, Tokens [0x2C] ⟨sample_mem, 0⟩ 0x1000 [[0x61], [0x62]] t := by
  have hruns : runs [0x2C].contains [0x2C, 0x61, 0x2C, 0x2C, 0x62] = [[(0x61 : UInt8)], [0x62]] := by decide
  obtain ⟨t, htokens, -⟩ := strtok_runs [0x2C] [0x2C, 0x61, 0x2C, 0x2C, 0x62] sample_mem 0x1000 0 (by decide)
    ⟨by decide, by decide, by decide, by decide⟩
  rw [hruns] at htokens
  exact ⟨t, htokens⟩

end MyOS.Libc
