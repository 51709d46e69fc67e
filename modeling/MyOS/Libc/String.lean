import MyOS.Lib.CString
import Mathlib.Data.List.Infix

/-!
# string.c（libc）

重なる範囲の `memmove` と、部分文字列を探す `strstr`。`none` は、文字列に終わりがないことを表す。
-/

namespace MyOS.Libc
open MyOS.Lib

/-- `d[i] = s[i];` -/
def copy_byte (d s : Nat) (m : ByteMem) (i : Nat) : ByteMem := m.store8 (d + i) (m (s + i))

/-- 負の `count` では何も写さない。 -/
def memmove (m : ByteMem) (d s : Nat) (count : Int) : ByteMem :=
  if d < s then (List.range count.toNat).foldl (copy_byte d s) m else (List.range count.toNat).reverse.foldl (copy_byte d s) m

def strlen (m : ByteMem) (str : Nat) : Option Nat := (scan (· != 0) m (2 ^ 32) str).map (· - str)

/-- `n` は残りの回数である。 -/
def strncmp (m : ByteMem) : Nat → Nat → Nat → Int
  | 0, _, _ => 0
  | n + 1, s1, s2 =>
    if m s1 ≠ m s2 then (m s1).toNat - (m s2).toNat
    else if m s1 = 0 then 0
    else strncmp m n (s1 + 1) (s2 + 1)

def strstr_loop (m : ByteMem) (needle nlen : Nat) : Nat → Nat → Option Nat
  | 0, _ => none
  | fuel + 1, haystack =>
    if m haystack = 0 then some 0
    else if strncmp m nlen haystack needle = 0 then some haystack
    else strstr_loop m needle nlen fuel (haystack + 1)

/-- 0 は `NULL` である。 -/
def strstr (m : ByteMem) (haystack needle : Nat) : Option Nat :=
  if m needle = 0 then some haystack
  else do
    let nlen ← strlen m needle
    strstr_loop m needle nlen (2 ^ 32) haystack

/-! ## memmove -/

variable {m : ByteMem} {a b d s n : Nat} {hay needle : List UInt8}

theorem copy_forward (hlt : d < s) (n : Nat) : (List.range n).foldl (copy_byte d s) m = m.copyFrom d m s n := by
  induction n with
  | zero =>
    funext x
    exact (if_neg (by omega)).symm
  | succ n ih =>
    rw [List.range_succ, List.foldl_append, ih, List.foldl_cons, List.foldl_nil]
    funext x
    -- 前から写すと、これから読むバイトはまだ元のままである
    have hsrc : m.copyFrom d m s n (s + n) = m (s + n) := if_neg (by omega)
    unfold copy_byte
    rw [hsrc]
    by_cases hx : x = d + n
    · rw [hx, ByteMem.store8_self, ByteMem.copyFrom, if_pos (by omega), Nat.add_sub_cancel_left]
    · rw [ByteMem.store8_of_ne hx]
      unfold ByteMem.copyFrom
      by_cases hin : d ≤ x ∧ x < d + n
      · rw [if_pos hin, if_pos (by omega)]
      · rw [if_neg hin, if_neg (by omega)]

/-- 後ろから `k` 個を写した後。 -/
theorem copy_backward (hle : s ≤ d) (k : Nat) {m' : ByteMem} (hm : ∀ x, x < d + k → m' x = m x) :
    ∀ x, (List.range k).reverse.foldl (copy_byte d s) m' x = if d ≤ x ∧ x < d + k then m (s + (x - d)) else m' x := by
  induction k generalizing m' with
  | zero =>
    intro x
    exact (if_neg (by omega)).symm
  | succ k ih =>
    intro x
    rw [List.range_succ, List.reverse_append, List.reverse_singleton, List.singleton_append, List.foldl_cons]
    have hsrc : m' (s + k) = m (s + k) := hm _ (by omega)
    have hnext : ∀ y, y < d + k → copy_byte d s m' k y = m y := fun y hy => by
      unfold copy_byte
      rw [ByteMem.store8_of_ne (by omega), hm y (by omega)]
    rw [ih hnext]
    by_cases hin : d ≤ x ∧ x < d + k
    · rw [if_pos hin, if_pos (by omega)]
    · rw [if_neg hin]
      unfold copy_byte
      by_cases hx : x = d + k
      · rw [hx, ByteMem.store8_self, if_pos (by omega), hsrc, Nat.add_sub_cancel_left]
      · rw [ByteMem.store8_of_ne hx, if_neg (by omega)]

/-- 範囲がどう重なっても、元のバイトを写し、ほかのバイトを変えない。 -/
theorem memmove_copies (m : ByteMem) (d s : Nat) (count : Int) : memmove m d s count = m.copyFrom d m s count.toNat := by
  unfold memmove
  split
  next hlt => exact copy_forward hlt _
  next hge =>
    funext x
    exact copy_backward (Nat.le_of_not_lt hge) _ (fun _ _ => rfl) x

/-! ## strstr -/

theorem strlen_eq (h : CStr m a hay) : strlen m a = some hay.length := by
  have hfits := h.fits
  rw [strlen, h.scan_nul (by omega), Option.map_some, Nat.add_sub_cancel_left]

/-- 比べる長さが `needle` の長さなら、0 になるのは先頭にあるときである。 -/
theorem strncmp_eq_zero (h : CStr m a hay) (hn : CStr m b needle) : strncmp m needle.length a b = 0 ↔ needle <+: hay := by
  induction needle generalizing a b hay with
  | nil => exact iff_of_true rfl (List.nil_prefix)
  | cons c needle ih =>
    rw [List.length_cons, strncmp, hn.head]
    have hc := hn.head_ne
    cases hay with
    | nil =>
      have hnul : m a = 0 := h.nul
      have hpos : c.toNat ≠ 0 := fun h0 => hc (UInt8.toNat_inj.mp h0)
      rw [hnul, if_pos (Ne.symm hc)]
      refine iff_of_false (fun hdiff => hpos ?_) (by simp)
      have : (0 : UInt8).toNat = 0 := rfl
      omega
    | cons x hay =>
      rw [h.head]
      by_cases hx : x = c
      · subst hx
        rw [if_neg (by simp), if_neg hc, ih h.tail hn.tail, List.cons_prefix_cons]
        simp
      · rw [if_pos hx]
        refine iff_of_false (fun hdiff => hx ?_) (fun hpre => hx (List.cons_prefix_cons.mp hpre).1.symm)
        exact UInt8.toNat_inj.mp (by omega)

/-- 前から探した位置。 -/
theorem strstr_loop_finds (h : CStr m a hay) (hn : CStr m b needle) (hne : needle ≠ []) {fuel : Nat} (hfuel : hay.length < fuel) :
    (strstr_loop m b needle.length fuel a = some 0 ∧ ¬ needle <:+: hay) ∨
      ∃ k, strstr_loop m b needle.length fuel a = some (a + k) ∧ needle <+: hay.drop k ∧ ∀ j < k, ¬ needle <+: hay.drop j := by
  induction hay generalizing a fuel with
  | nil =>
    obtain ⟨fuel, rfl⟩ : ∃ f, fuel = f + 1 := ⟨fuel - 1, by simp at hfuel; omega⟩
    have hnul : m a = 0 := h.nul
    exact .inl ⟨by rw [strstr_loop, if_pos hnul], mt List.infix_nil.mp hne⟩
  | cons c hay ih =>
    obtain ⟨fuel, rfl⟩ : ∃ f, fuel = f + 1 := ⟨fuel - 1, by omega⟩
    rw [strstr_loop, h.head, if_neg h.head_ne]
    by_cases hpre : needle <+: c :: hay
    · rw [if_pos ((strncmp_eq_zero h hn).mpr hpre)]
      exact .inr ⟨0, rfl, hpre, fun j hj => absurd hj (Nat.not_lt_zero j)⟩
    · rw [if_neg (mt (strncmp_eq_zero h hn).mp hpre)]
      rcases ih h.tail (Nat.lt_of_succ_lt_succ hfuel) with ⟨hnone, hno⟩ | ⟨k, hk, hat, hbefore⟩
      · exact .inl ⟨hnone, mt List.infix_cons_iff.mp (not_or.mpr ⟨hpre, hno⟩)⟩
      · refine .inr ⟨k + 1, by rw [hk, Nat.add_assoc, Nat.add_comm 1], hat, fun j hj => ?_⟩
        cases j with
        | zero => exact hpre
        | succ j => exact hbefore j (Nat.lt_of_succ_lt_succ hj)

/-- 見つけるのは最初の位置である。 -/
theorem strstr_finds (h : CStr m a hay) (hn : CStr m b needle) :
    (strstr m a b = some 0 ∧ ¬ needle <:+: hay) ∨
      ∃ k, strstr m a b = some (a + k) ∧ needle <+: hay.drop k ∧ ∀ j < k, ¬ needle <+: hay.drop j := by
  cases needle with
  | nil =>
    have hnul : m b = 0 := hn.nul
    exact .inr ⟨0, by rw [strstr, if_pos hnul]; rfl, List.nil_prefix, fun j hj => absurd hj (Nat.not_lt_zero j)⟩
  | cons c needle =>
    have hfits := h.fits
    have hdef : strstr m a b = strstr_loop m b (c :: needle).length (2 ^ 32) a := by
      rw [strstr, hn.head, if_neg hn.head_ne, strlen_eq hn]
      rfl
    rw [hdef]
    exact strstr_loop_finds h hn (List.cons_ne_nil c needle) (by omega)

end MyOS.Libc
