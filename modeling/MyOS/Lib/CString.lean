import MyOS.Lib.Bytes
import Mathlib.Data.List.TakeWhile

/-!
# メモリの中の文字列

NUL で終わる文字列と、その走査（`while (p(*a)) a++`）と書き込み。番地は 32 ビットの中にある。
-/

namespace MyOS.Lib

def SPACE : UInt8 := 0x20
def NEWLINE : UInt8 := 0x0A

/-- 番地 `a` に文字列 `s` がある。 -/
structure CStr (m : ByteMem) (a : Nat) (s : List UInt8) : Prop where
  bytes : ∀ i (h : i < s.length), m (a + i) = s[i]
  nul : m (a + s.length) = 0
  nonzero : 0 ∉ s
  fits : a + s.length < 2 ^ 32

variable {m m' : ByteMem} {a : Nat} {c : UInt8} {s t : List UInt8}

namespace CStr

theorem head (h : CStr m a (c :: s)) : m a = c := h.bytes 0 (Nat.succ_pos _)

theorem head_ne (h : CStr m a (c :: s)) : c ≠ 0 := fun hc => h.nonzero (hc ▸ List.mem_cons_self)

theorem tail (h : CStr m a (c :: s)) : CStr m (a + 1) s := by
  have hfits := h.fits
  have hnul := h.nul
  rw [List.length_cons] at hfits hnul
  refine ⟨fun i hi => ?_, ?_, fun hmem => h.nonzero (List.mem_cons_of_mem c hmem), by omega⟩
  · rw [show a + 1 + i = a + (i + 1) by omega]
    exact h.bytes (i + 1) (Nat.succ_lt_succ hi)
  · rwa [show a + 1 + s.length = a + (s.length + 1) by omega]

/-- 一つの番地には、一つの文字列がある。 -/
theorem unique (h : CStr m a s) (h' : CStr m a t) : s = t := by
  induction s generalizing a t with
  | nil =>
    cases t with
    | nil => rfl
    | cons d t => exact absurd (h'.head.symm.trans h.nul) h'.head_ne
  | cons c s ih =>
    cases t with
    | nil => exact absurd (h.head.symm.trans h'.nul) h.head_ne
    | cons d t => rw [h.head.symm.trans h'.head, ih h.tail h'.tail]

/-- 文字列のバイトが同じなら、同じ文字列がある。 -/
theorem congr (h : CStr m a s) (hsame : ∀ x, a ≤ x → x ≤ a + s.length → m' x = m x) : CStr m' a s :=
  ⟨fun i hi => (hsame _ (Nat.le_add_right a i) (Nat.add_le_add_left (Nat.le_of_lt hi) a)).trans (h.bytes i hi),
    (hsame _ (Nat.le_add_right a _) (Nat.le_refl _)).trans h.nul, h.nonzero, h.fits⟩

/-- 後ろの部分。 -/
theorem drop (h : CStr m a (s ++ t)) : CStr m (a + s.length) t := by
  induction s generalizing a with
  | nil => exact h
  | cons c s ih =>
    have hlen : a + (c :: s).length = a + 1 + s.length := by
      rw [List.length_cons]
      omega
    rw [hlen]
    exact ih h.tail

/-- NUL を書いて、前の部分を切り取る。 -/
theorem cut (h : CStr m a (s ++ t)) : CStr (m.store8 (a + s.length) 0) a s := by
  have hfits := h.fits
  rw [List.length_append] at hfits
  refine ⟨fun i hi => ?_, ByteMem.store8_self, fun hmem => h.nonzero (List.mem_append_left t hmem), by omega⟩
  rw [ByteMem.store8_of_ne (by omega), h.bytes i (by rw [List.length_append]; omega), List.getElem_append_left hi]

/-- 文字列の前のバイトは、書き換えてよい。 -/
theorem store8_before {x : Nat} {v : UInt8} (h : CStr m a s) (hx : x < a) : CStr (m.store8 x v) a s :=
  h.congr fun _ hy _ => ByteMem.store8_of_ne (by omega)

end CStr

/-! ## 走査と書き込み -/

/-- `p` が成り立つ間、番地を進める。`n` 回で止まらなければ `none`。 -/
def scan (p : UInt8 → Bool) (m : ByteMem) : Nat → Nat → Option Nat
  | 0, _ => none
  | n + 1, a => if p (m a) then scan p m n (a + 1) else some a

/-- 番地 `a` からバイトの列を書く。 -/
def ByteMem.write (m : ByteMem) (a : Nat) : List UInt8 → ByteMem
  | [] => m
  | c :: s => (m.store8 a c).write (a + 1) s

/-- 別のメモリ `src` からの `memcpy`。 -/
def ByteMem.copyFrom (m : ByteMem) (dst : Nat) (src : ByteMem) (a n : Nat) : ByteMem :=
  fun b => if dst ≤ b ∧ b < dst + n then src (a + (b - dst)) else m b

variable {p : UInt8 → Bool} {m src : ByteMem} {a b k n dst : Nat} {s t w : List UInt8}

/-- `k` 個のバイトの後で止まる。 -/
theorem scan_eq (hw : ∀ i < k, p (m (a + i)) = true) (hstop : p (m (a + k)) = false) (hk : k < n) :
    scan p m n a = some (a + k) := by
  induction k generalizing a n with
  | zero =>
    cases n with
    | zero => exact absurd hk (Nat.not_lt_zero 0)
    | succ n =>
      rw [Nat.add_zero] at hstop
      simp [scan, hstop]
  | succ k ih =>
    cases n with
    | zero => exact absurd hk (Nat.not_lt_zero _)
    | succ n =>
      have hhead : p (m a) = true := hw 0 (Nat.succ_pos k)
      have hnext : ∀ i, a + 1 + i = a + (i + 1) := fun i => by omega
      rw [scan, if_pos hhead, ← hnext k]
      apply ih
      · intro i hi
        rw [hnext]
        exact hw (i + 1) (Nat.succ_lt_succ hi)
      · rw [hnext]
        exact hstop
      · exact Nat.lt_of_succ_lt_succ hk

/-- 止まる番地があれば、そこまでに止まる。 -/
theorem scan_before (hstop : p (m (a + k)) = false) (hk : k < n) :
    ∃ j ≤ k, scan p m n a = some (a + j) ∧ p (m (a + j)) = false := by
  induction k generalizing a n with
  | zero => exact ⟨0, Nat.le_refl 0, scan_eq (fun i hi => absurd hi (Nat.not_lt_zero i)) hstop hk, hstop⟩
  | succ k ih =>
    cases n with
    | zero => exact absurd hk (Nat.not_lt_zero _)
    | succ n =>
      have hnext : ∀ i, a + 1 + i = a + (i + 1) := fun i => by omega
      cases hhead : p (m a) with
      | false => exact ⟨0, Nat.zero_le _, by simp [scan, hhead], hhead⟩
      | true =>
        rw [← hnext] at hstop
        obtain ⟨j, hj, hscan, hpj⟩ := ih hstop (Nat.lt_of_succ_lt_succ hk)
        rw [hnext] at hscan hpj
        exact ⟨j + 1, Nat.succ_le_succ hj, by rw [scan, if_pos hhead, hscan], hpj⟩

namespace CStr

/-- 続きの先頭のバイト。続きが空なら NUL である。 -/
theorem headD (h : CStr m a s) : m a = s.headD 0 := by
  cases s with
  | nil => exact h.nul
  | cons c s => exact h.head

theorem getElem_append (h : CStr m a (w ++ t)) (hk : k < w.length) : m (a + k) = w[k] := by
  rw [h.bytes k (by rw [List.length_append]; omega), List.getElem_append_left hk]

/-- `p` が成り立つ部分 `w` を読み飛ばす。 -/
theorem scan (h : CStr m a (w ++ t)) (hw : ∀ c ∈ w, p c = true) (ht : p (t.headD 0) = false) (hn : w.length < n) :
    scan p m n a = some (a + w.length) := by
  refine scan_eq (fun i hi => ?_) ?_ hn
  · rw [h.getElem_append hi]
    exact hw _ (List.getElem_mem hi)
  · rw [h.drop.headD]
    exact ht

/-- 文字列の終わりまで進む。 -/
theorem scan_nul (h : CStr m a s) (hn : s.length < n) : Lib.scan (· != 0) m n a = some (a + s.length) := by
  refine CStr.scan (t := []) (by simpa using h) (fun c hc => ?_) (by simp) hn
  simpa using fun h0 : c = 0 => h.nonzero (h0 ▸ hc)

/-- `p` が成り立つ極大な部分を読み飛ばす。 -/
theorem scan_split (h : CStr m a s) (h0 : p 0 = false) (hn : s.length < n) :
    ∃ u v, s = u ++ v ∧ (∀ c ∈ u, p c = true) ∧ p (v.headD 0) = false ∧
      Lib.scan p m n a = some (a + u.length) ∧ CStr m (a + u.length) v := by
  have hsplit := (List.takeWhile_append_dropWhile (p := p) (l := s)).symm
  have hstop : p ((s.dropWhile p).headD 0) = false := by
    cases hv : s.dropWhile p with
    | nil => exact h0
    | cons c v =>
      have h := List.head?_dropWhile_not p s
      rw [hv] at h
      exact h
  have hlen : (s.takeWhile p).length < n := Nat.lt_of_le_of_lt (List.takeWhile_sublist p).length_le hn
  have hcat : CStr m a (s.takeWhile p ++ s.dropWhile p) := hsplit ▸ h
  exact ⟨_, _, hsplit, fun c hc => List.mem_takeWhile_imp hc, hstop,
    hcat.scan (fun c hc => List.mem_takeWhile_imp hc) hstop hlen, hcat.drop⟩

end CStr

namespace ByteMem

@[simp] theorem write_nil (m : ByteMem) (a : Nat) : m.write a [] = m := rfl

theorem write_append (m : ByteMem) (a : Nat) (s t : List UInt8) :
    m.write a (s ++ t) = (m.write a s).write (a + s.length) t := by
  induction s generalizing m a with
  | nil => rfl
  | cons c s ih =>
    rw [List.cons_append, write, write, ih, List.length_cons, Nat.add_assoc, Nat.add_comm 1]

theorem write_outside (h : b < a ∨ a + s.length ≤ b) : m.write a s b = m b := by
  induction s generalizing m a with
  | nil => rfl
  | cons c s ih =>
    rw [List.length_cons] at h
    rw [write, ih (by omega), store8_of_ne (by omega)]

theorem write_at (h : k < s.length) : m.write a s (a + k) = s[k] := by
  induction s generalizing m a k with
  | nil => exact absurd h (Nat.not_lt_zero k)
  | cons c s ih =>
    cases k with
    | zero => rw [write, write_outside (by omega), Nat.add_zero, store8_self]; rfl
    | succ k =>
      rw [write, show a + (k + 1) = a + 1 + k by omega, ih (Nat.lt_of_succ_lt_succ h)]
      rfl

/-- 書いた列の後に NUL を書くと、文字列になる。 -/
theorem write_cstr (m : ByteMem) (hs : 0 ∉ s) (hfits : a + s.length < 2 ^ 32) :
    CStr ((m.write a s).store8 (a + s.length) 0) a s :=
  ⟨fun i hi => by rw [store8_of_ne (by omega), write_at hi], store8_self, hs, hfits⟩

theorem copyFrom_outside (h : b < dst ∨ dst + n ≤ b) : m.copyFrom dst src a n b = m b := if_neg (by omega)

theorem copyFrom_at (h : k < n) : m.copyFrom dst src a n (dst + k) = src (a + k) := by
  unfold copyFrom
  rw [if_pos (by omega), Nat.add_sub_cancel_left]

/-- 終わりの NUL も写すと、同じ文字列になる。 -/
theorem copyFrom_cstr (m : ByteMem) (h : CStr src a s) (hfits : dst + s.length < 2 ^ 32) :
    CStr (m.copyFrom dst src a (s.length + 1)) dst s :=
  ⟨fun i hi => by rw [copyFrom_at (Nat.lt_succ_of_lt hi), h.bytes i hi],
    by rw [copyFrom_at (Nat.lt_succ_self _), h.nul], h.nonzero, hfits⟩

end ByteMem

end MyOS.Lib
