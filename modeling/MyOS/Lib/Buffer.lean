import Mathlib.Data.List.DropRight
import Mathlib.Data.List.Induction
import Mathlib.Data.List.TakeWhile
import Mathlib.Tactic.Common

/-!
# 大きさの決まった配列

配列の外を読み書きすると `none` になる。列を写すループは、書く位置の上限か、元の列の終わりで止まる。
-/

namespace MyOS.Lib

abbrev Buffer (n : Nat) := Vector UInt8 n

namespace Buffer

variable {m n : Nat}

/-- `b[i] = c;` -/
def put (b : Buffer n) (i : Nat) (c : UInt8) : Option (Buffer n) := if h : i < n then some (b.set i c h) else none

/-- `while (src[i] && j < limit) dst[j++] = src[i++];` 終わるまでの回数は `fuel` より小さい。 -/
def copy_str (src : Buffer m) (limit : Nat) : Nat → Nat → Nat → Buffer n → Option (Buffer n × Nat)
  | 0, _, _, _ => none
  | fuel + 1, i, j, dst => do
      let c ← src[i]?
      if c ≠ 0 ∧ j < limit then
        let dst ← dst.put j c
        copy_str src limit fuel (i + 1) (j + 1) dst
      else some (dst, j)

/-- `for (; i < stop && j < limit; i++) dst[j++] = src[i];` -/
def copy_range (src : Buffer m) (stop limit : Nat) : Nat → Nat → Nat → Buffer n → Option (Buffer n × Nat)
  | 0, _, _, _ => none
  | fuel + 1, i, j, dst =>
      if i < stop ∧ j < limit then do
        let c ← src[i]?
        let dst ← dst.put j c
        copy_range src stop limit fuel (i + 1) (j + 1) dst
      else some (dst, j)

/-- `while (src[i] && src[i] != sep) i++;` -/
def find (src : Buffer m) (sep : UInt8) : Nat → Nat → Option Nat
  | 0, _ => none
  | fuel + 1, i => do
      let c ← src[i]?
      if c ≠ 0 ∧ c ≠ sep then find src sep fuel (i + 1) else some i

/-- `while (j > 0 && src[j - 1] != sep) j--;` -/
def find_back (src : Buffer m) (sep : UInt8) : Nat → Option Nat
  | 0 => some 0
  | j + 1 => do
      let c ← src[j]?
      if c ≠ sep then find_back src sep j else some (j + 1)

/-- 位置 `i` から列 `s` がある。 -/
def At (b : Buffer n) : Nat → List UInt8 → Prop
  | _, [] => True
  | i, c :: s => b[i]? = some c ∧ At b (i + 1) s

variable {b b' dst : Buffer n} {src : Buffer m} {i limit fuel : Nat} {c sep : UInt8} {s t d : List UInt8}

/-! ## 列の読み書き -/

theorem at_append : At b i (s ++ t) ↔ At b i s ∧ At b (i + s.length) t := by
  induction s generalizing i with
  | nil => simp [At]
  | cons c s ih =>
    rw [List.cons_append, At, At, ih, and_assoc, List.length_cons, Nat.add_assoc, Nat.add_comm 1]

theorem At.congr (h : At b i s) (hsame : ∀ j, i ≤ j → j < i + s.length → b'[j]? = b[j]?) : At b' i s := by
  induction s generalizing i with
  | nil => trivial
  | cons c s ih =>
    rw [List.length_cons] at hsame
    exact ⟨(hsame i le_rfl (by omega)).trans h.1, ih h.2 fun j hj hlt => hsame j (by omega) (by omega)⟩

theorem At.lt (h : At b i (c :: s)) : i < n := by
  by_contra hlt
  cases (Vector.getElem?_eq_none (Nat.not_lt.1 hlt)).symm.trans h.1

theorem At.length_le (h : At b i (s ++ [c])) : i + s.length < n := (at_append.1 h).2.lt

/-- NUL があれば、文字列がある。 -/
theorem exists_string {k : Nat} (h : b[k]? = some 0) (hi : i ≤ k) : ∃ s, At b i (s ++ [0]) ∧ 0 ∉ s := by
  obtain ⟨r, rfl⟩ := Nat.exists_eq_add_of_le hi
  induction r generalizing i with
  | zero => exact ⟨[], ⟨h, trivial⟩, List.not_mem_nil⟩
  | succ r ih =>
    have hlt : i + (r + 1) < n := At.lt (s := []) ⟨h, trivial⟩
    by_cases hc : b[i] = 0
    · exact ⟨[], ⟨(Vector.getElem?_eq_getElem (by omega)).trans (congrArg some hc), trivial⟩, List.not_mem_nil⟩
    · rw [Nat.add_comm r, ← Nat.add_assoc] at h
      obtain ⟨s, hs, h0⟩ := ih h (Nat.le_add_right ..)
      exact ⟨b[i] :: s, ⟨Vector.getElem?_eq_getElem (by omega), hs⟩, List.not_mem_cons_of_ne_of_not_mem (Ne.symm hc) h0⟩

/-- 列の次の位置に書く。 -/
theorem At.put (hd : At b 0 d) (h : d.length < n) (c : UInt8) : ∃ b', b.put d.length c = some b' ∧ At b' 0 (d ++ [c]) := by
  refine ⟨_, dif_pos h, at_append.2 ⟨hd.congr fun j _ hj => ?_, ?_, trivial⟩⟩
  · exact Vector.getElem?_set_ne h (by omega)
  · rw [Nat.zero_add]
    exact Vector.getElem?_set_self h

theorem append_take_cons (h : d.length < limit) :
    d ++ [c] ++ s.take (limit - (d ++ [c]).length) = d ++ (c :: s).take (limit - d.length) := by
  obtain ⟨k, hk⟩ := Nat.exists_eq_succ_of_ne_zero (Nat.sub_ne_zero_of_lt h)
  rw [List.append_assoc, List.length_append, List.length_singleton, ← Nat.sub_sub, hk]
  rfl

/-! ## ループ -/

theorem copy_str_eq (hsrc : At src i (s ++ [0])) (h0 : 0 ∉ s) (hd : At dst 0 d) (hlimit : limit ≤ n) (hfuel : s.length < fuel) :
    ∃ dst', copy_str src limit fuel i d.length dst = some (dst', (d ++ s.take (limit - d.length)).length) ∧
      At dst' 0 (d ++ s.take (limit - d.length)) := by
  induction s generalizing i d dst fuel with
  | nil =>
    obtain ⟨fuel, rfl⟩ := Nat.exists_eq_succ_of_ne_zero (Nat.ne_of_gt hfuel)
    refine ⟨dst, ?_, by simpa using hd⟩
    rw [copy_str, hsrc.1]
    simp
  | cons c s ih =>
    obtain ⟨fuel, rfl⟩ := Nat.exists_eq_succ_of_ne_zero (Nat.ne_of_gt (Nat.lt_of_le_of_lt (Nat.zero_le _) hfuel))
    have hc : c ≠ 0 := fun h => h0 (h ▸ List.mem_cons_self)
    rw [copy_str, show src[i]? = some c from hsrc.1]
    simp only [Option.bind_eq_bind, Option.bind_some]
    by_cases hlt : d.length < limit
    · obtain ⟨b, hput, hb⟩ := hd.put (Nat.lt_of_lt_of_le hlt hlimit) c
      obtain ⟨dst', hrun, hdst'⟩ := ih (hsrc.2) (fun h => h0 (List.mem_cons_of_mem c h)) hb
        (Nat.lt_of_succ_lt_succ hfuel)
      rw [append_take_cons hlt] at hrun hdst'
      rw [if_pos ⟨hc, hlt⟩, hput]
      simp only [Option.bind_some]
      rw [show (d ++ [c]).length = d.length + 1 from List.length_append] at hrun
      exact ⟨dst', hrun, hdst'⟩
    · have hzero : limit - d.length = 0 := by omega
      rw [if_neg fun h => hlt h.2, hzero, List.take_zero, List.append_nil]
      exact ⟨dst, rfl, hd⟩

theorem copy_range_eq (hsrc : At src i s) (hd : At dst 0 d) (hlimit : limit ≤ n) (hfuel : s.length < fuel) :
    ∃ dst', copy_range src (i + s.length) limit fuel i d.length dst = some (dst', (d ++ s.take (limit - d.length)).length) ∧
      At dst' 0 (d ++ s.take (limit - d.length)) := by
  induction s generalizing i d dst fuel with
  | nil =>
    obtain ⟨fuel, rfl⟩ := Nat.exists_eq_succ_of_ne_zero (Nat.ne_of_gt hfuel)
    refine ⟨dst, ?_, by simpa using hd⟩
    rw [copy_range]
    simp
  | cons c s ih =>
    obtain ⟨fuel, rfl⟩ := Nat.exists_eq_succ_of_ne_zero (Nat.ne_of_gt (Nat.lt_of_le_of_lt (Nat.zero_le _) hfuel))
    rw [copy_range, List.length_cons]
    by_cases hlt : d.length < limit
    · obtain ⟨b, hput, hb⟩ := hd.put (Nat.lt_of_lt_of_le hlt hlimit) c
      obtain ⟨dst', hrun, hdst'⟩ := ih hsrc.2 hb (Nat.lt_of_succ_lt_succ hfuel)
      rw [append_take_cons hlt] at hrun hdst'
      rw [if_pos ⟨by omega, hlt⟩, hsrc.1]
      simp only [Option.bind_eq_bind, Option.bind_some, hput]
      rw [show (d ++ [c]).length = d.length + 1 from List.length_append, Nat.add_assoc, Nat.add_comm 1] at hrun
      exact ⟨dst', hrun, hdst'⟩
    · have hzero : limit - d.length = 0 := by omega
      rw [if_neg fun h => hlt h.2, hzero, List.take_zero, List.append_nil]
      exact ⟨dst, rfl, hd⟩

theorem find_eq (hsrc : At src i (s ++ [0])) (h0 : 0 ∉ s) (hfuel : s.length < fuel) :
    find src sep fuel i = some (i + (s.takeWhile (· ≠ sep)).length) := by
  induction s generalizing i fuel with
  | nil =>
    obtain ⟨fuel, rfl⟩ := Nat.exists_eq_succ_of_ne_zero (Nat.ne_of_gt hfuel)
    rw [find, hsrc.1]
    simp
  | cons c s ih =>
    obtain ⟨fuel, rfl⟩ := Nat.exists_eq_succ_of_ne_zero (Nat.ne_of_gt (Nat.lt_of_le_of_lt (Nat.zero_le _) hfuel))
    have hc : c ≠ 0 := fun h => h0 (h ▸ List.mem_cons_self)
    rw [find, show src[i]? = some c from hsrc.1]
    simp only [Option.bind_eq_bind, Option.bind_some]
    by_cases hsep : c = sep
    · rw [if_neg fun h => h.2 hsep, List.takeWhile_cons_of_neg (by simpa using hsep)]
      rfl
    · rw [if_pos ⟨hc, hsep⟩, List.takeWhile_cons_of_pos (by simpa using hsep), List.length_cons,
        ih (hsrc.2) (fun h => h0 (List.mem_cons_of_mem c h)) (Nat.lt_of_succ_lt_succ hfuel),
        Nat.add_assoc, Nat.add_comm 1]

theorem find_back_eq (h : At b 0 d) : find_back b sep d.length = some (d.rdropWhile (· ≠ sep)).length := by
  induction d using List.reverseRecOn with
  | nil => rfl
  | append_singleton d c ih =>
    obtain ⟨hd, hc⟩ := at_append.1 h
    rw [Nat.zero_add] at hc
    rw [List.length_append, List.length_singleton, find_back, hc.1]
    simp only [Option.bind_eq_bind, Option.bind_some]
    by_cases hsep : c = sep
    · rw [if_neg (not_not.2 hsep), List.rdropWhile_concat_neg _ _ _ (by simpa using hsep)]
      simp
    · rw [if_pos hsep, List.rdropWhile_concat_pos _ _ _ (by simpa using hsep), ih hd]

end Buffer

end MyOS.Lib
