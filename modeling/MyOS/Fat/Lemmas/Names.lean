import MyOS.Fat.Effects
import MyOS.Fat.Lemmas.Entry
import Mathlib.Data.List.TakeWhile

/-!
# 名前の比較と 8.3 形式

`strcasecmp_fat` が 0 を返すのは、大文字にすると等しいときである。8.3 形式の名前は、項目に書くと大文字になって戻る。
-/

namespace MyOS.Fat
open MyOS.Lib

variable {m : ByteMem} {a c : Nat} {attr : UInt8} {x y : UInt8} {s t name base ext : List UInt8}

/-! ## 比較 -/

theorem charVal_injective (h : charVal x = charVal y) : x = y := by
  have hx := x.toNat_lt
  have hy := y.toNat_lt
  refine UInt8.toNat_inj.mp ?_
  unfold charVal at h
  split_ifs at h <;> omega

theorem charVal_ne_zero (h : x ≠ 0) : charVal x ≠ 0 := fun heq =>
  h (charVal_injective (heq.trans (by decide)))

theorem strcasecmp_fat_eq_zero (hs : 0 ∉ s) (ht : 0 ∉ t) : strcasecmp_fat s t = 0 ↔ s.map upper = t.map upper := by
  induction s generalizing t with
  | nil =>
      cases t with
      | nil => simp [strcasecmp_fat]
      | cons y t =>
          have hy := charVal_ne_zero (x := y) (fun h => ht (by simp [h]))
          simp [strcasecmp_fat, hy]
  | cons x s ih =>
      cases t with
      | nil =>
          have hx := charVal_ne_zero (x := x) (fun h => hs (by simp [h]))
          simp [strcasecmp_fat, hx]
      | cons y t =>
          have hrec := ih (t := t) (fun h => hs (by simp [h])) (fun h => ht (by simp [h]))
          rw [strcasecmp_fat, List.map_cons, List.map_cons, List.cons.injEq]
          split_ifs with hne
          · have hsub : charVal (upper x) - charVal (upper y) ≠ 0 := fun h => hne (charVal_injective (by omega))
            simp [hsub, hne]
          · rw [hrec]
            simp [not_not.mp hne]

theorem entry_to_name_no_zero (m : ByteMem) (a : Nat) : 0 ∉ fat12_entry_to_name m a := by
  intro h
  have h0 := List.mem_takeWhile_imp h
  simp at h0

/-! ## 8.3 形式 -/

theorem upper_special (x : UInt8) : (upper x = 0 ↔ x = 0) ∧ (upper x = 0x20 ↔ x = 0x20) ∧
    (upper x = 0x2E ↔ x = 0x2E) ∧ (upper x = 0xE5 ↔ x = 0xE5) ∧ upper (upper x) = upper x := by
  have hall : ∀ n : Fin 256, (upper (UInt8.ofNat n) = 0 ↔ UInt8.ofNat n = 0) ∧
      (upper (UInt8.ofNat n) = 0x20 ↔ UInt8.ofNat n = 0x20) ∧ (upper (UInt8.ofNat n) = 0x2E ↔ UInt8.ofNat n = 0x2E) ∧
      (upper (UInt8.ofNat n) = 0xE5 ↔ UInt8.ofNat n = 0xE5) ∧
      upper (upper (UInt8.ofNat n)) = upper (UInt8.ofNat n) := by decide +kernel
  have hx := hall ⟨x.toNat, x.toNat_lt⟩
  rwa [UInt8.ofNat_toNat] at hx

theorem map_upper_upper (s : List UInt8) : (s.map upper).map upper = s.map upper := by
  rw [List.map_map]
  exact List.map_congr_left fun x _ => (upper_special x).2.2.2.2

theorem zero_notMem_map_upper (h : 0 ∉ s) : 0 ∉ s.map upper := by
  intro hmem
  obtain ⟨x, hx, hx0⟩ := List.mem_map.mp hmem
  exact h ((upper_special x).1.mp hx0 ▸ hx)

theorem takeWhile_pad {n : Nat} (h : 0x20 ∉ s) : (pad n s).takeWhile (· ≠ 0x20) = s := by
  unfold pad
  rw [List.takeWhile_append_of_pos fun x hx => by
    rw [decide_eq_true_eq]
    rintro rfl
    exact h hx]
  cases n - s.length with
  | zero => simp
  | succ k => simp [List.replicate_succ]

theorem head_pad (h : s ≠ []) (n : Nat) : (pad n s).head? = s.head? := by
  cases s with
  | nil => exact absurd rfl h
  | cons x s => rfl

/-- 書いた項目の名前の欄は、8.3 形式にした名前である。 -/
theorem entry_name_write : Entry.name (Entry.write m a (new_entry name attr c)) a = (fat12_name_to_83 name).1 := by
  obtain ⟨h8, -⟩ := name_to_83_length name
  refine List.ext_getElem (by simp [Entry.name, h8]) fun k hk hk' => ?_
  have hlt : k < 8 := by rwa [h8] at hk'
  simp only [Entry.name, List.getElem_map, List.getElem_range]
  rw [entry_write_at _ (by unfold sizeofDirEntry; omega), new_entry_name hlt, List.getD_eq_getElem?_getD,
    List.getElem?_eq_getElem hk', Option.getD_some]

theorem entry_ext_write : Entry.ext (Entry.write m a (new_entry name attr c)) a = (fat12_name_to_83 name).2 := by
  obtain ⟨-, h3⟩ := name_to_83_length name
  refine List.ext_getElem (by simp [Entry.ext, h3]) fun k hk hk' => ?_
  have hlt : k < 3 := by rwa [h3] at hk'
  simp only [Entry.ext, List.getElem_map, List.getElem_range, Nat.add_assoc]
  rw [entry_write_at _ (by unfold sizeofDirEntry; omega), new_entry_ext hlt, List.getD_eq_getElem?_getD,
    List.getElem?_eq_getElem hk', Option.getD_some]

/-- 8.3 形式の名前は、二つの欄に分かれる。 -/
theorem name_to_83_eq (hbase : base.length ≤ 8) (hext : ext.length ≤ 3) (hdot : 0x2E ∉ base) :
    fat12_name_to_83 (base ++ (if ext = [] then [] else 0x2E :: ext)) =
      (pad 8 (base.map upper), pad 3 (ext.map upper)) := by
  have htake : (base ++ (if ext = [] then [] else 0x2E :: ext)).takeWhile (· ≠ 0x2E) = base := by
    rw [List.takeWhile_append_of_pos fun x hx => by
      rw [decide_eq_true_eq]
      rintro rfl
      exact hdot hx]
    split_ifs <;> simp
  unfold fat12_name_to_83
  rw [htake, List.take_of_length_le hbase]
  simp only [List.drop_left]
  split_ifs with hnil
  · rw [hnil]
  · simp only [List.take_of_length_le hext]

/-- 8.3 形式にするときに、大文字にする。 -/
theorem name_to_83_upper (name : List UInt8) : fat12_name_to_83 (name.map upper) = fat12_name_to_83 name := by
  have htake : (name.map upper).takeWhile (· ≠ 0x2E) = (name.takeWhile (· ≠ 0x2E)).map upper := by
    rw [List.takeWhile_map]
    congr 2
    funext x
    exact decide_eq_decide.mpr (not_congr (upper_special x).2.2.1)
  unfold fat12_name_to_83
  rw [htake]
  simp only [← List.map_take, List.length_map, ← List.map_drop, map_upper_upper]
  cases name.drop ((name.takeWhile (· ≠ 0x2E)).take 8).length with
  | nil => rfl
  | cons x rest =>
      by_cases hdot : x = 0x2E
      · subst hdot
        rw [List.map_cons, show upper 0x2E = 0x2E from rfl]
        simp only [← List.map_take, map_upper_upper]
      · have hdot' : upper x ≠ 0x2E := mt (upper_special x).2.2.1.mp hdot
        simp [hdot, hdot']

/-- 読み戻した名前は、書いた場所にも、属性にも、クラスタにもよらない。 -/
theorem entry_to_name_write : fat12_entry_to_name (Entry.write m a (new_entry name attr c)) a =
    cstr (if (fat12_name_to_83 name).2.head? ≠ some 0x20 then (fat12_name_to_83 name).1.takeWhile (· ≠ 0x20) ++
      0x2E :: (fat12_name_to_83 name).2.takeWhile (· ≠ 0x20) else (fat12_name_to_83 name).1.takeWhile (· ≠ 0x20)) := by
  unfold fat12_entry_to_name
  rw [entry_name_write, entry_ext_write]

theorem Name83.valid (hname : Name83 name) : Valid83 name := by
  obtain ⟨base, ext, heq, hne, hbase, hext, hchars, -⟩ := hname
  exact ⟨base, ext, heq, hne, hbase, hext, hchars⟩

theorem Valid83.no_zero (hname : Valid83 name) : 0 ∉ name := by
  obtain ⟨base, ext, rfl, -, -, -, hchars⟩ := hname
  intro h
  rcases List.mem_append.mp h with h | h
  · exact (hchars 0 (by simp [h])).1 rfl
  · split_ifs at h
    · cases h
    · rcases List.mem_cons.mp h with h | h
      · cases h
      · exact (hchars 0 (by simp [h])).1 rfl

/-- 欄に書いた名前は、大文字になって戻る。 -/
theorem Valid83.decoded (hname : Valid83 name) (hfirst : Entry.name m a = (fat12_name_to_83 name).1)
    (hlast : Entry.ext m a = (fat12_name_to_83 name).2) : fat12_entry_to_name m a = name.map upper := by
  have hzero := zero_notMem_map_upper hname.no_zero
  obtain ⟨base, ext, rfl, hne, hbase, hext, hchars⟩ := hname
  have hnot : ∀ x : UInt8, (x = 0x20 ∨ x = 0x2E) → x ∉ base ∧ x ∉ ext := by
    intro x hx
    constructor <;>
    · intro hmem
      obtain ⟨-, h20, h2E⟩ := hchars x (by simp [hmem])
      rcases hx with rfl | rfl
      · exact h20 rfl
      · exact h2E rfl
  have hspace : ∀ s : List UInt8, 0x20 ∉ s → 0x20 ∉ s.map upper := by
    intro s hs hmem
    obtain ⟨x, hx, hx0⟩ := List.mem_map.mp hmem
    exact hs ((upper_special x).2.1.mp hx0 ▸ hx)
  unfold fat12_entry_to_name cstr
  rw [hfirst, hlast, name_to_83_eq hbase hext (hnot 0x2E (by simp)).1]
  simp only
  rw [takeWhile_pad (hspace base (hnot 0x20 (by simp)).1), takeWhile_pad (hspace ext (hnot 0x20 (by simp)).2)]
  have hself : (if (pad 3 (ext.map upper)).head? ≠ some 0x20 then base.map upper ++ 0x2E :: ext.map upper
      else base.map upper) = (base ++ (if ext = [] then [] else 0x2E :: ext)).map upper := by
    by_cases hnil : ext = []
    · subst hnil
      simp [pad]
    · have hhead : (pad 3 (ext.map upper)).head? ≠ some 0x20 := by
        rw [head_pad (by simpa using hnil)]
        intro h
        exact hspace ext (hnot 0x20 (by simp)).2 (List.mem_of_head? h)
      rw [if_pos hhead, if_neg hnil, List.map_append, List.map_cons]
      rfl
  rw [hself]
  refine List.takeWhile_eq_self_iff.mpr fun x hx => ?_
  rw [decide_eq_true_eq]
  rintro rfl
  exact hzero hx

theorem Name83.decoded (hname : Name83 name) :
    fat12_entry_to_name (Entry.write m a (new_entry name attr c)) a = name.map upper :=
  hname.valid.decoded entry_name_write entry_ext_write

theorem head_name_to_83 (hne : name ≠ []) : (new_entry name attr c).getD 0 0 =
    if name.head? = some 0x2E then 0x20 else upper (name.headD 0) := by
  rw [new_entry_name (by decide)]
  unfold fat12_name_to_83 pad
  cases name with
  | nil => exact absurd rfl hne
  | cons x rest =>
      by_cases hx : x = 0x2E
      · subst hx
        simp
      · rw [List.takeWhile_cons_of_pos (by simpa using hx)]
        simp [hx]

/-- 新しい項目は、空きでも終わりでもない。 -/
theorem Kept83.first_write (hname : Kept83 name) :
    Entry.write m a (new_entry name attr c) a ≠ 0 ∧ Entry.write m a (new_entry name attr c) a ≠ 0xE5 := by
  rw [write_first]
  refine ⟨new_entry_first hname.ne_nil hname.no_zero, ?_⟩
  rw [head_name_to_83 hname.ne_nil]
  split_ifs with hdot
  · decide
  · intro h
    have hx := (upper_special _).2.2.2.1.mp h
    refine hname.first ?_
    cases name with
    | nil => exact absurd rfl hname.ne_nil
    | cons x rest => exact congrArg some hx

theorem Kept83.name_write (hname : Kept83 name) :
    fat12_entry_to_name (Entry.write m a (new_entry name attr c)) a = name.map upper := by
  rw [entry_to_name_write, ← hname.decoded, entry_to_name_write]

theorem Name83.no_zero (hname : Name83 name) : 0 ∉ name := hname.valid.no_zero

theorem Name83.ne_nil (hname : Name83 name) : name ≠ [] := by
  obtain ⟨base, ext, rfl, hne, -⟩ := hname
  exact fun h => hne (List.append_eq_nil_iff.mp h).1

/-- 8.3 形式の名前は変わらない。 -/
theorem Name83.kept (hname : Name83 name) : Kept83 name := by
  refine ⟨hname.ne_nil, hname.no_zero, hname.decoded, ?_⟩
  obtain ⟨base, ext, rfl, hne, -, -, -, hhead⟩ := hname
  cases base with
  | nil => exact absurd rfl hne
  | cons x base => exact hhead

end MyOS.Fat
