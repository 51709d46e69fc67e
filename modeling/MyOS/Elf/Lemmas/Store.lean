import MyOS.Elf.Memory
import MyOS.Mem.Lemmas.Mapped

/-! 利用者の番地への書き込み。ページ表は変わらず、書いた番地のバイトだけが変わる。`Loader` の書き込みも同じ結果になる。 -/

namespace MyOS.Elf
open MyOS.Lib MyOS.Mem

variable {m m' : Phys} {own : Nat → Prop} {byte : Nat → UInt8} {dst i n x y : Nat} {v : UInt8}

theorem translate_eq (m : Phys) (x : Nat) :
    translate m x = (mapping m (x / 4096)).map fun b => b.1 + x % 4096 := by
  have hpd : x / 4096 / 1024 = pd_index x := by
    unfold pd_index
    omega
  have hpt : x / 4096 % 1024 = pt_index x := rfl
  unfold translate mapping page_of_entry page_entry dir_entry table_at word pte_at dir_entry word pde
  rw [hpd, hpt]
  dsimp only
  cases present (m.ram.load32 (m.cur_page_dir + 4 * pd_index x)) with
  | false => rfl
  | true =>
    rw [Bool.true_and, if_pos rfl]
    split <;> rfl

/-- `own` のページの `dst` から `n` バイトに、`byte` を書いた。 -/
structure Written (own : Nat → Prop) (byte : Nat → UInt8) (dst n : Nat) (m m' : Phys) : Prop where
  owned : Owned m' own
  pages : SamePages m m'
  bitmap : m'.mem_bitmap = m.mem_bitmap
  bytes : ∀ y, y < 2 ^ 32 → own (y / 4096) →
    user_byte m' y = if dst ≤ y ∧ y < dst + n then some (byte (y - dst)) else user_byte m y

/-- 一つのバイト。 -/
theorem user_store_spec (h : Owned m own) (hx : x < 2 ^ 32) (ho : own (x / 4096))
    (hmap : (mapping m (x / 4096)).isSome = true) : ∃ m', user_store m x v = some m' ∧ Owned m' own ∧ SamePages m m' ∧
      m'.mem_bitmap = m.mem_bitmap ∧
      ∀ y, y < 2 ^ 32 → own (y / 4096) → user_byte m' y = if y = x then some v else user_byte m y := by
  obtain ⟨⟨f, flags⟩, hf⟩ := Option.isSome_iff_exists.mp hmap
  have hp : x / 4096 < 2 ^ 20 := by omega
  have hback : Backing m own f := ⟨x / 4096, flags, hp, ho, hf⟩
  have hal := hback.aligned
  unfold Aligned at hal
  -- 書くブロックは、ディレクトリでも表でもない
  have hs : SamePages m { m with ram := m.ram.store8 (f + x % 4096) v } := by
    refine h.same_pages rfl rfl fun g hg a ha => ByteMem.store8_of_ne ?_
    rintro rfl
    have hne := div_ne hal (h.structural_aligned hg) fun heq => (h.backing f hback).2 (heq ▸ hg)
    omega
  refine ⟨_, by rw [user_store, translate_eq, hf]; rfl, h.congr hs fun g hg => h.used hg, hs, rfl, fun y hy hoy => ?_⟩
  have hpy : y / 4096 < 2 ^ 20 := by omega
  unfold user_byte
  rw [hs.mapping (y / 4096) hpy]
  cases hg : mapping m (y / 4096) with
  | none =>
    rw [if_neg]
    · rfl
    · rintro rfl
      cases hf.symm.trans hg
  | some page =>
    obtain ⟨g, gflags⟩ := page
    have halg := mapping_aligned hg
    unfold Aligned at halg
    dsimp only [Option.map_some]
    by_cases hyx : y = x
    · subst hyx
      cases hf.symm.trans hg
      rw [if_pos rfl, ByteMem.store8_self]
    · rw [if_neg hyx, ByteMem.store8_of_ne]
      intro heq
      have hgf : g = f := by omega
      subst hgf
      have hpage := h.page_inj _ _ _ _ _ hpy hp hoy ho hg hf
      omega

/-- 残りの `n` バイト。 -/
theorem user_write_spec (byte : Nat → UInt8) (dst n i : Nat) (h : Owned m own) (hend : dst + i + n ≤ 2 ^ 32)
    (hown : ∀ y, dst + i ≤ y → y < dst + i + n → own (y / 4096))
    (hmap : ∀ y, dst + i ≤ y → y < dst + i + n → (mapping m (y / 4096)).isSome = true) :
    ∃ m', user_write byte dst n i m = some m' ∧ Owned m' own ∧ SamePages m m' ∧ m'.mem_bitmap = m.mem_bitmap ∧
      ∀ y, y < 2 ^ 32 → own (y / 4096) →
        user_byte m' y = if dst + i ≤ y ∧ y < dst + i + n then some (byte (y - dst)) else user_byte m y := by
  induction n generalizing m i with
  | zero => exact ⟨m, rfl, h, .refl m, rfl, fun y _ _ => (if_neg (by omega)).symm⟩
  | succ n ih =>
    have hdst : add32 dst i = dst + i := add32_eq (by omega)
    obtain ⟨m₁, hstore, ho₁, hs₁, hb₁, hbytes₁⟩ := user_store_spec (v := byte i) h (x := dst + i) (by omega)
      (hown _ (Nat.le_refl _) (by omega)) (hmap _ (Nat.le_refl _) (by omega))
    obtain ⟨m₂, hwrite, ho₂, hs₂, hb₂, hbytes₂⟩ := ih (i + 1) ho₁ (by omega)
      (fun y hy hlt => hown y (by omega) (by omega))
      (fun y hy hlt => by rw [hs₁.mapping _ (by omega)]; exact hmap y (by omega) (by omega))
    refine ⟨m₂, ?_, ho₂, hs₁.trans hs₂, hb₂.trans hb₁, fun y hy hoy => ?_⟩
    · rw [user_write, hdst, hstore]
      exact hwrite
    · rw [hbytes₂ y hy hoy, hbytes₁ y hy hoy]
      by_cases hyi : y = dst + i
      · subst hyi
        have hsub : dst + i - dst = i := Nat.add_sub_cancel_left dst i
        rw [if_neg (by omega), if_pos rfl, if_pos (by omega), hsub]
      · rw [if_neg hyi]
        refine if_congr ?_ rfl rfl
        omega

/-- `dst` から `n` バイトを書く。 -/
theorem user_write_all (byte : Nat → UInt8) (dst n : Nat) (h : Owned m own) (hend : dst + n ≤ 2 ^ 32)
    (hown : ∀ y, dst ≤ y → y < dst + n → own (y / 4096))
    (hmap : ∀ y, dst ≤ y → y < dst + n → (mapping m (y / 4096)).isSome = true) :
    ∃ m', user_write byte dst n 0 m = some m' ∧ Written own byte dst n m m' := by
  obtain ⟨m', hwrite, ho, hs, hb, hbytes⟩ := user_write_spec byte dst n 0 h hend hown hmap
  exact ⟨m', hwrite, ho, hs, hb, hbytes⟩

/-- 続けて書く。 -/
theorem Written.append {byte' : Nat → UInt8} {k : Nat} {m₁ : Phys} (h : Written own byte dst n m m₁)
    (h' : Written own byte' (dst + n) k m₁ m') :
    Written own (fun i => if i < n then byte i else byte' (i - n)) dst (n + k) m m' := by
  refine ⟨h'.owned, h.pages.trans h'.pages, h'.bitmap.trans h.bitmap, fun y hy ho => ?_⟩
  rw [h'.bytes y hy ho, h.bytes y hy ho]
  by_cases hfirst : dst ≤ y ∧ y < dst + n
  · rw [if_neg (by omega), if_pos hfirst, if_pos (by omega), if_pos (by omega)]
  · by_cases hnext : dst + n ≤ y ∧ y < dst + n + k
    · have hsub : y - dst - n = y - (dst + n) := by omega
      rw [if_pos hnext, if_pos (by omega), if_neg (by omega), hsub]
    · rw [if_neg hnext, if_neg hfirst, if_neg (by omega)]

theorem Written.congr {byte' : Nat → UInt8} (h : Written own byte dst n m m') (hsame : ∀ i, i < n → byte' i = byte i) :
    Written own byte' dst n m m' := by
  refine ⟨h.owned, h.pages, h.bitmap, fun y hy ho => ?_⟩
  rw [h.bytes y hy ho]
  split
  next hin => rw [hsame _ (by omega)]
  next => rfl

/-! ## 二つの見方の対応 -/

variable {s : Loader} {t : Phys} {f : File} {off a count : Nat}

/-- `s` は、`t` のメモリを、今のディレクトリを通して見たものである。 -/
structure Seen (own : Nat → Prop) (s : Loader) (t : Phys) : Prop where
  owned : Owned t own
  pages : SamePages s.space.phys t
  bytes : ∀ y, y < 2 ^ 32 → own (y / 4096) → ∀ v, user_byte t y = some v → s.mem y = v

theorem mapped_iff (hend : a + n ≤ 2 ^ 32) :
    s.mapped a n = true ↔ ∀ y, a ≤ y → y < a + n → (mapping s.space.phys (y / 4096)).isSome = true := by
  induction n generalizing a with
  | zero => exact iff_of_true rfl fun y hy hlt => by omega
  | succ n ih =>
    have hhead : (translate s.space.phys a).isSome = (mapping s.space.phys (a / 4096)).isSome := by
      rw [translate_eq, Option.isSome_map]
    unfold Loader.mapped
    rw [Bool.and_eq_true, hhead]
    cases n with
    | zero =>
      refine ⟨fun h y hy hlt => ?_, fun h => ⟨h a (Nat.le_refl a) (by omega), rfl⟩⟩
      obtain rfl : y = a := by omega
      exact h.1
    | succ n =>
      rw [add32_eq (by omega), ih (by omega)]
      constructor
      · rintro ⟨h, hrest⟩ y hy hlt
        by_cases hya : y = a
        · exact hya ▸ h
        · exact hrest y (by omega) (by omega)
      · exact fun h => ⟨h a (Nat.le_refl a) (by omega), fun y hy hlt => h y (by omega) (by omega)⟩

/-- ページのない番地が一つでもあれば、書き込みは途中で止まる。 -/
theorem user_write_none (byte : Nat → UInt8) (dst n i : Nat) (h : Owned m own) (hend : dst + i + n ≤ 2 ^ 32)
    (hown : ∀ y, dst + i ≤ y → y < dst + i + n → own (y / 4096))
    (hun : ∃ y, dst + i ≤ y ∧ y < dst + i + n ∧ mapping m (y / 4096) = none) : user_write byte dst n i m = none := by
  induction n generalizing m i with
  | zero =>
    obtain ⟨y, hy, hlt, -⟩ := hun
    omega
  | succ n ih =>
    unfold user_write
    rw [add32_eq (by omega)]
    by_cases hhead : (mapping m ((dst + i) / 4096)).isSome = true
    · obtain ⟨m₁, hstore, ho₁, hs₁, -, -⟩ := user_store_spec (v := byte i) h (x := dst + i) (by omega)
        (hown _ (Nat.le_refl _) (by omega)) hhead
      obtain ⟨y, hy, hlt, hy'⟩ := hun
      have hne : y ≠ dst + i := by
        rintro rfl
        rw [hy'] at hhead
        cases hhead
      rw [hstore, Option.bind_some]
      exact ih (i + 1) ho₁ (by omega) (fun y hy hlt => hown y (by omega) (by omega))
        ⟨y, by omega, by omega, by rw [hs₁.mapping _ (by omega), hy']⟩
    · have hnone : user_store m (dst + i) (byte i) = none := by
        unfold user_store
        rw [translate_eq, Option.not_isSome_iff_eq_none.mp hhead]
        rfl
      rw [hnone, Option.bind_none]

theorem write_at {m : ByteMem} (hend : dst + i + n ≤ 2 ^ 32) (y : Nat) : Loader.write byte dst n i m y =
    if dst + i ≤ y ∧ y < dst + i + n then byte (y - dst) else m y := by
  induction n generalizing i m with
  | zero => exact (if_neg (by omega)).symm
  | succ n ih =>
    have hdst : add32 dst i = dst + i := add32_eq (by omega)
    unfold Loader.write
    rw [ih (by omega), hdst]
    by_cases hy : y = dst + i
    · subst hy
      have hsub : dst + i - dst = i := Nat.add_sub_cancel_left dst i
      rw [if_neg (by omega), if_pos (by omega), ByteMem.store8_self, hsub]
    · rw [ByteMem.store8_of_ne hy]
      refine if_congr ?_ rfl rfl
      omega

/-- `dst` から `n` バイトの書き込みは、どちらの見方でも同じ結果になる。 -/
theorem Seen.write (h : Seen own s t) (hend : dst + n ≤ 2 ^ 32) (hown : ∀ y, dst ≤ y → y < dst + n → own (y / 4096)) :
    Option.Rel (Seen own) (if s.mapped dst n then some { s with mem := Loader.write byte dst n 0 s.mem } else none)
      (user_write byte dst n 0 t) := by
  have hpage : ∀ y, dst ≤ y → y < dst + n → mapping t (y / 4096) = mapping s.space.phys (y / 4096) :=
    fun y _ hlt => h.pages.mapping _ (by omega)
  by_cases hmap : s.mapped dst n = true
  · have hall := (mapped_iff hend).mp hmap
    obtain ⟨t', hwrite, hw⟩ := user_write_all byte dst n h.owned hend hown fun y hy hlt => by
      rw [hpage y hy hlt]
      exact hall y hy hlt
    rw [if_pos hmap, hwrite]
    refine .some ⟨hw.owned, h.pages.trans hw.pages, fun y hy ho v hv => ?_⟩
    rw [hw.bytes y hy ho] at hv
    dsimp only
    rw [write_at (by omega), Nat.add_zero]
    by_cases hin : dst ≤ y ∧ y < dst + n
    · rw [if_pos hin] at hv ⊢
      exact Option.some.inj hv
    · rw [if_neg hin] at hv ⊢
      exact h.bytes y hy ho v hv
  · rw [if_neg hmap, user_write_none byte dst n 0 h.owned (by omega) (fun y hy hlt => hown y (by omega) (by omega))]
    · exact .none
    · by_contra hcon
      push Not at hcon
      refine hmap ((mapped_iff hend).mpr fun y hy hlt => ?_)
      rw [← hpage y hy hlt]
      exact Option.isSome_iff_ne_none.mpr (hcon y (by omega) (by omega))

theorem Seen.read_fs (h : Seen own s t) (hend : dst + f.count off n ≤ 2 ^ 32)
    (hown : ∀ y, dst ≤ y → y < dst + f.count off n → own (y / 4096)) :
    Option.Rel (Seen own) (s.read_fs f off n dst) (user_read_fs t f off n dst) :=
  h.write hend hown

theorem Seen.memset (h : Seen own s t) (hend : dst + count ≤ 2 ^ 32)
    (hown : ∀ y, dst ≤ y → y < dst + count → own (y / 4096)) :
    Option.Rel (Seen own) (s.memset dst count) (user_memset t dst count) := by
  unfold Loader.memset user_memset
  split
  · exact h.write hend hown
  · exact .some h

end MyOS.Elf
