import MyOS.Fat.Chain
import MyOS.Lib.Pack12

/-!
# 表の項目の読み書き

ビット演算で書かれた項目の読み書きを、詰めた 12 ビットの列の読み書きとして言い直す。
-/

namespace MyOS.Fat
open MyOS.Lib Pack12

variable {fs : Fs} {c d : Nat} {v : UInt16}

/-! ## ビット演算 -/

theorem nibble_or (lo hi i : Nat) (h : lo < 2 ^ i) : lo ||| hi <<< i = lo + hi * 2 ^ i := by
  rw [Nat.or_comm, ← Nat.shiftLeft_add_eq_or_of_lt h, Nat.shiftLeft_eq, Nat.add_comm]

theorem and_0F (n : Nat) : n &&& 15 = n % 16 :=
  Nat.and_two_pow_sub_one_eq_mod n 4

theorem and_FF (n : Nat) : n &&& 255 = n % 256 :=
  Nat.and_two_pow_sub_one_eq_mod n 8

set_option maxRecDepth 8000 in
theorem and_F0 {n : Nat} (h : n < 256) : n &&& 240 = (n / 16) <<< 4 := by
  have hall : ∀ n < 256, n &&& 240 = (n / 16) <<< 4 := by decide
  exact hall n h

/-! ## 項目 -/

theorem fat_entry_raw_toNat (fs : Fs) (c : Nat) : (fat_entry_raw fs c).toNat = get12 (cacheByte fs) c := by
  unfold fat_entry_raw get12 offset
  have h0 := (cacheByte fs (c + c / 2)).toNat_lt
  have h1 := (cacheByte fs (c + c / 2 + 1)).toNat_lt
  by_cases hodd : c % 2 = 1
  · have hor := nibble_or ((cacheByte fs (c + c / 2)).toNat / 16)
      (cacheByte fs (c + c / 2 + 1)).toNat 4 (by omega)
    have hlt : (cacheByte fs (c + c / 2 + 1)).toNat <<< 4 < 65536 := by
      rw [Nat.shiftLeft_eq]
      omega
    simp only [hodd, if_true]
    simp only [UInt16.toNat_or, UInt8.toNat_toUInt16, UInt8.toNat_shiftRight, UInt16.toNat_shiftLeft,
      UInt8.reduceToNat, UInt16.reduceToNat, Nat.reduceMod, Nat.shiftRight_eq_div_pow, Nat.reducePow,
      Nat.mod_eq_of_lt hlt, hor]
    omega
  · have hor := nibble_or (cacheByte fs (c + c / 2)).toNat
      ((cacheByte fs (c + c / 2 + 1)).toNat % 16) 8 (by omega)
    have hlt : ((cacheByte fs (c + c / 2 + 1)).toNat % 16) <<< 8 < 65536 := by
      rw [Nat.shiftLeft_eq]
      omega
    simp only [hodd, if_false]
    simp only [UInt16.toNat_or, UInt8.toNat_toUInt16, UInt8.toNat_and, UInt16.toNat_shiftLeft,
      UInt8.reduceToNat, UInt16.reduceToNat, Nat.reduceMod, and_0F, Nat.reducePow,
      Nat.mod_eq_of_lt hlt, hor]
    omega

/-- 奇数番の項目の下位 4 ビットを、前の項目と分け合うバイトに入れる。 -/
theorem share_low (b : UInt8) (v : UInt16) :
    (b &&& (0x0F : UInt8)) ||| ((v &&& (0x0F : UInt16)) <<< 4).toUInt8 =
      UInt8.ofNat (b.toNat % 16 + v.toNat % 16 * 16) := by
  have hor := nibble_or (b.toNat % 16) (v.toNat % 16) 4 (by omega)
  have hlt : (v.toNat % 16) <<< 4 < 256 := by
    rw [Nat.shiftLeft_eq]
    omega
  apply UInt8.toNat_inj.mp
  simp only [UInt8.toNat_or, UInt8.toNat_and, UInt16.toNat_toUInt8, UInt16.toNat_and,
    UInt16.toNat_shiftLeft, UInt8.reduceToNat, UInt16.reduceToNat, Nat.reduceMod, and_0F,
    Nat.reducePow, UInt8.toNat_ofNat']
  rw [Nat.mod_eq_of_lt (a := (v.toNat % 16) <<< 4) (b := 65536) (by omega), Nat.mod_eq_of_lt hlt, hor]
  omega

/-- 偶数番の項目の上位 4 ビットを、次の項目と分け合うバイトに入れる。 -/
theorem share_high (b : UInt8) (v : UInt16) :
    (b &&& (0xF0 : UInt8)) ||| ((v >>> 8) &&& (0x0F : UInt16)).toUInt8 =
      UInt8.ofNat (b.toNat / 16 * 16 + v.toNat / 256 % 16) := by
  have hb := b.toNat_lt
  have hor := nibble_or (v.toNat / 256 % 16) (b.toNat / 16) 4 (by omega)
  apply UInt8.toNat_inj.mp
  simp only [UInt8.toNat_or, UInt8.toNat_and, UInt16.toNat_toUInt8, UInt16.toNat_and,
    UInt16.toNat_shiftRight, UInt8.reduceToNat, UInt16.reduceToNat, Nat.reduceMod, and_0F,
    and_F0 hb, Nat.shiftRight_eq_div_pow, Nat.reducePow, UInt8.toNat_ofNat']
  rw [Nat.mod_eq_of_lt (a := v.toNat / 256 % 16) (by omega), Nat.or_comm, hor]
  omega

theorem getD_setIfInBounds {a : Array UInt8} {i j : Nat} {x : UInt8} (hi : i < a.size) :
    (a.setIfInBounds i x).getD j 0 = if j = i then x else a.getD j 0 := by
  simp only [Array.getD_eq_getD_getElem?, Array.getElem?_setIfInBounds]
  by_cases h : i = j
  · subst h
    simp [hi]
  · simp [h, Ne.symm h]

/-- 項目の書き込みは、詰めた列の書き込みである。 -/
theorem cacheByte_set_fat_entry (h : offset c + 1 < fs.fat_cache.size) :
    cacheByte (fat12_set_fat_entry fs c v) = set12 (cacheByte fs) c v.toNat := by
  funext i
  unfold fat12_set_fat_entry cacheByte set12
  simp only [show c + c / 2 = offset c from rfl]
  rw [getD_setIfInBounds (by simpa using h), getD_setIfInBounds (by omega)]
  by_cases hi1 : i = offset c + 1
  · subst hi1
    rw [if_pos rfl, if_pos rfl, share_high]
    congr 1
    apply UInt8.toNat_inj.mp
    simp [Nat.shiftRight_eq_div_pow]
  · rw [if_neg hi1, if_neg hi1]
    by_cases hi0 : i = offset c
    · subst hi0
      rw [if_pos rfl, if_pos rfl, share_low]
      congr 1
      apply UInt8.toNat_inj.mp
      simp [and_FF]
    · rw [if_neg hi0, if_neg hi0]

/-! ## 読み書きの関係 -/

theorem get_fat_entry_eq : fat12_get_fat_entry fs c =
    if 0xFF7 ≤ (fat_entry_raw fs c).toNat then 0xFFFF else (fat_entry_raw fs c).toNat := by
  simp only [fat12_get_fat_entry]
  split_ifs <;> omega

theorem get_fat_entry_eq_zero : fat12_get_fat_entry fs c = 0 ↔ fat_entry_raw fs c = 0 := by
  rw [get_fat_entry_eq, ← UInt16.toNat_inj]
  split
  · simp only [UInt16.reduceToNat]
    omega
  · simp

theorem get_fat_entry_congr {fs' : Fs} (h : fat_entry_raw fs' c = fat_entry_raw fs c) :
    fat12_get_fat_entry fs' c = fat12_get_fat_entry fs c := by
  unfold fat12_get_fat_entry
  rw [h]

theorem fat_entry_raw_set (h : offset c + 1 < fs.fat_cache.size) :
    (fat_entry_raw (fat12_set_fat_entry fs c v) c).toNat = v.toNat % 4096 := by
  rw [fat_entry_raw_toNat, cacheByte_set_fat_entry h, get12_set12_self]

theorem fat_entry_raw_set_self (h : offset c + 1 < fs.fat_cache.size) (hv : v.toNat < 4096) :
    fat_entry_raw (fat12_set_fat_entry fs c v) c = v := by
  apply UInt16.toNat_inj.mp
  rw [fat_entry_raw_set h, Nat.mod_eq_of_lt hv]

theorem fat_entry_raw_set_of_ne (h : offset c + 1 < fs.fat_cache.size) (hne : d ≠ c) :
    fat_entry_raw (fat12_set_fat_entry fs c v) d = fat_entry_raw fs d := by
  apply UInt16.toNat_inj.mp
  rw [fat_entry_raw_toNat, fat_entry_raw_toNat, cacheByte_set_fat_entry h, get12_set12_of_ne hne]

/-- 二つのバイトのほかは変わらない。 -/
theorem fat_cache_set_of_ne {i : Nat} (h0 : i ≠ offset c) (h1 : i ≠ offset c + 1) :
    (fat12_set_fat_entry fs c v).fat_cache[i]? = fs.fat_cache[i]? := by
  exact (Array.getElem?_setIfInBounds_ne (Ne.symm h1)).trans (Array.getElem?_setIfInBounds_ne (Ne.symm h0))

theorem fat_cache_size_set : (fat12_set_fat_entry fs c v).fat_cache.size = fs.fat_cache.size := by
  simp [fat12_set_fat_entry]

end MyOS.Fat
