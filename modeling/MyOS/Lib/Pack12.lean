import MyOS.Lib.Bytes

/-!
# 12 ビットの項目を詰めたバイト列

二つの項目が三つのバイトを分け合う。項目 `c` は、バイト `c + c / 2` から始まる。
-/

namespace MyOS.Lib.Pack12

variable {m : ByteMem} {c d v : Nat}

def offset (c : Nat) : Nat := c + c / 2

def get12 (m : ByteMem) (c : Nat) : Nat :=
  if c % 2 = 1 then (m (offset c)).toNat / 16 + 16 * (m (offset c + 1)).toNat
  else (m (offset c)).toNat + 256 * ((m (offset c + 1)).toNat % 16)

/-- 隣の項目と分け合うバイトでは、相手の 4 ビットを残す。 -/
def set12 (m : ByteMem) (c v : Nat) : ByteMem := fun i =>
  if i = offset c + 1 then
    if c % 2 = 1 then UInt8.ofNat (v / 16)
    else UInt8.ofNat ((m i).toNat / 16 * 16 + v / 256 % 16)
  else if i = offset c then
    if c % 2 = 1 then UInt8.ofNat ((m i).toNat % 16 + v % 16 * 16)
    else UInt8.ofNat v
  else m i

theorem set12_fst : (set12 m c v (offset c)).toNat =
    if c % 2 = 1 then (m (offset c)).toNat % 16 + v % 16 * 16 else v % 256 := by
  unfold set12
  rw [if_neg (by omega), if_pos rfl]
  split <;> rw [UInt8.toNat_ofNat']
  omega

theorem set12_snd : (set12 m c v (offset c + 1)).toNat =
    if c % 2 = 1 then v / 16 % 256 else (m (offset c + 1)).toNat / 16 * 16 + v / 256 % 16 := by
  have h1 := (m (offset c + 1)).toNat_lt
  unfold set12
  rw [if_pos rfl]
  split <;> rw [UInt8.toNat_ofNat']
  omega

theorem set12_of_ne {i : Nat} (h0 : i ≠ offset c) (h1 : i ≠ offset c + 1) : set12 m c v i = m i := by
  unfold set12
  rw [if_neg h1, if_neg h0]

theorem get12_set12_self : get12 (set12 m c v) c = v % 4096 := by
  unfold get12
  rw [set12_fst, set12_snd]
  split <;> omega

/-- 0 だった項目を書いて 0 に戻すと、元の列に戻る。 -/
theorem set12_restore (h : get12 m c = 0) : set12 (set12 m c v) c 0 = m := by
  have h0 := (m (offset c)).toNat_lt
  have h1 := (m (offset c + 1)).toNat_lt
  unfold get12 at h
  funext i
  by_cases hi1 : i = offset c + 1
  · subst hi1
    apply UInt8.toNat_inj.mp
    rw [set12_snd, set12_snd]
    split_ifs at h ⊢ <;> omega
  · by_cases hi0 : i = offset c
    · subst hi0
      apply UInt8.toNat_inj.mp
      rw [set12_fst, set12_fst]
      split_ifs at h ⊢ <;> omega
    · rw [set12_of_ne hi0 hi1, set12_of_ne hi0 hi1]

theorem get12_set12_apart (h : offset d + 1 < offset c ∨ offset c + 1 < offset d) :
    get12 (set12 m c v) d = get12 m d := by
  unfold get12
  rw [set12_of_ne (by omega) (by omega), set12_of_ne (by omega) (by omega)]

theorem get12_set12_of_ne (hne : d ≠ c) : get12 (set12 m c v) d = get12 m d := by
  by_cases hapart : offset d + 1 < offset c ∨ offset c + 1 < offset d
  · exact get12_set12_apart hapart
  -- 残りは、偶数番の項目とその次の奇数番の項目である。
  have hadj : d % 2 = 0 ∧ c = d + 1 ∨ c % 2 = 0 ∧ d = c + 1 := by
    unfold offset at hapart
    omega
  rcases hadj with ⟨heven, rfl⟩ | ⟨heven, rfl⟩
  · have hoff : offset (d + 1) = offset d + 1 := by unfold offset; omega
    have hfst := set12_fst (m := m) (c := d + 1) (v := v)
    rw [hoff, if_pos (by omega)] at hfst
    unfold get12
    rw [if_neg (by omega), if_neg (by omega), hfst, set12_of_ne (by omega) (by omega)]
    omega
  · have hoff : offset (c + 1) = offset c + 1 := by unfold offset; omega
    have hsnd := set12_snd (m := m) (c := c) (v := v)
    rw [if_neg (by omega)] at hsnd
    unfold get12
    rw [if_pos (by omega), if_pos (by omega), hoff, hsnd, set12_of_ne (by omega) (by omega)]
    omega

end MyOS.Lib.Pack12
