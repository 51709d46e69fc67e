import MyOS.Fat.Lemmas.Tracked

/-!
# 項目の追加と削除

新しい項目の各欄と、項目を一つ加えたり消したりしたときの不変性。
-/

namespace MyOS.Fat
open MyOS.Lib ByteMem

variable {fs fs' : Fs} {H H' D : Set Nat} {own own' : Nat → Nat} {hs hs' : Set Handle} {a b c i inode : Nat}
  {m m' : ByteMem} {h : Handle} {g : Group} {gs : List Group} {name : List UInt8} {attr : UInt8}

/-! ## 新しい項目の欄 -/

theorem entry_write_at (bytes : List UInt8) {k : Nat} (hk : k < sizeofDirEntry) :
    Entry.write m a bytes (a + k) = bytes.getD k 0 := by
  unfold Entry.write
  rw [if_pos (by omega), Nat.add_sub_cancel_left]

theorem entry_write_outside (bytes : List UInt8) {x : Nat} (hx : x < a ∨ a + 32 ≤ x) :
    Entry.write m a bytes x = m x := by
  unfold Entry.write sizeofDirEntry
  rw [if_neg (by omega)]

theorem new_entry_name {k : Nat} (hk : k < 8) :
    (new_entry name attr c).getD k 0 = (fat12_name_to_83 name).1.getD k 0 := by
  obtain ⟨h8, h3⟩ := name_to_83_length name
  unfold new_entry
  simp only [List.append_assoc]
  rw [List.getD_eq_getElem?_getD, List.getElem?_append_left (by omega), ← List.getD_eq_getElem?_getD]

theorem new_entry_ext {k : Nat} (hk : k < 3) :
    (new_entry name attr c).getD (8 + k) 0 = (fat12_name_to_83 name).2.getD k 0 := by
  obtain ⟨h8, h3⟩ := name_to_83_length name
  unfold new_entry
  simp only [List.append_assoc]
  rw [List.getD_eq_getElem?_getD, List.getElem?_append_right (by omega), h8, Nat.add_sub_cancel_left,
    List.getElem?_append_left (by omega), ← List.getD_eq_getElem?_getD]

theorem new_entry_attr : (new_entry name attr c).getD 11 0 = attr := by
  obtain ⟨h8, h3⟩ := name_to_83_length name
  unfold new_entry
  simp only [List.append_assoc]
  rw [List.getD_eq_getElem?_getD, List.getElem?_append_right (by omega),
    List.getElem?_append_right (by omega), h8, h3]
  rfl

theorem attributes_new (m : ByteMem) (a : Nat) :
    Entry.attributes (Entry.write m a (new_entry name attr c)) a = attr := by
  unfold Entry.attributes
  rw [entry_write_at _ (by decide), new_entry_attr]

theorem upper_ne_zero {x : UInt8} (h : x ≠ 0) : upper x ≠ 0 := by
  have hall : ∀ n : Fin 256, UInt8.ofNat n ≠ 0 → upper (UInt8.ofNat n) ≠ 0 := by decide +kernel
  have hx := hall ⟨x.toNat, x.toNat_lt⟩
  rw [UInt8.ofNat_toNat] at hx
  exact hx h

/-- 名前の最初の文字は 0 にならない。 -/
theorem new_entry_first (hne : name ≠ []) (h0 : 0 ∉ name) : (new_entry name attr c).getD 0 0 ≠ 0 := by
  rw [new_entry_name (by decide)]
  unfold fat12_name_to_83 pad
  cases name with
  | nil => exact absurd rfl hne
  | cons x rest =>
      by_cases hx : x = 0x2E
      · subst hx
        simp
      · have hx0 : x ≠ 0 := fun h => h0 (by simp [h])
        rw [List.takeWhile_cons_of_pos (by simpa using hx)]
        simpa using upper_ne_zero hx0

theorem write_first (m : ByteMem) (a : Nat) : Entry.write m a (new_entry name attr c) a =
    (new_entry name attr c).getD 0 0 := by
  have h := entry_write_at (m := m) (a := a) (new_entry name attr c) (k := 0) (by decide)
  rwa [Nat.add_zero] at h

/-! ## 追加 -/

theorem Tracked.mono (hT : Tracked fs H D own hs) (hsub : hs' ⊆ hs) : Tracked fs H D own hs' :=
  { hT with handle := fun h hh => hT.handle h (hsub hh) }

/-- 表の確保は、どの持ち主も変えない。 -/
theorem Tracked.allocate (hT : Tracked fs H D own hs) (hr : InRange fs c) (hfree : fat_entry_raw fs c = 0)
    (a : Nat) : Tracked (fat12_set_fat_entry fs c 0xFFF) (insert c H) D (Function.update own c a) hs ∧
      c ∈ insert c H \ D ∧ c ∉ H := by
  have hnot : c ∉ H := by
    intro hmem
    obtain ⟨l, hl, -⟩ := hT.fat.chains.chain c hmem
    exact hT.fat.entry_ne_zero hmem hl hl.mem_head hfree
  have hkeep : ∀ x b, x ∈ H \ D → own x = b → x ∈ insert c H ∧ Function.update own c a x = b := by
    intro x b hx ho
    refine ⟨Set.mem_insert_of_mem c hx.1, ?_⟩
    have hne : x ≠ c := by
      rintro rfl
      exact hnot hx.1
    rw [Function.update_of_ne hne]
    exact ho
  have hc := Changes.allocate hT.fat hT.dirs hr hfree
  refine ⟨hT.change hc (fun b _ _ hmem ho => hkeep _ _ hmem ho) ?_ ?_ (fun h hh => ?_),
    ⟨Set.mem_insert c H, fun hD => hnot (hT.dirs hD)⟩, hnot⟩
  · rintro a ⟨⟩
  · rintro a ⟨⟩
  · exact (hT.handle h hh).keep hc.shape hc.owned (fun _ _ => rfl) (fun hmem ho => hkeep _ _ hmem ho)

/-- 空いていた項目に、新しい項目を書く。 -/
theorem Tracked.add_entry (hT : Tracked fs H D own hs) (ha : IsSlot fs D a) (hnot : ¬ Used fs.disk a)
    (hc : c < 65536) (hf : attr &&& (0x10 : UInt8) = 0 → c = 0 ∨ c ∈ H \ D ∧ own c = a)
    (hd : attr &&& (0x10 : UInt8) ≠ 0 → c ∈ D) :
    Tracked { fs with disk := Entry.write fs.disk a (new_entry name attr c) } H D own hs := by
  have hch : Changes fs { fs with disk := Entry.write fs.disk a (new_entry name attr c) } H H D {a} :=
    Changes.entry hT.fat hT.dirs ha (fun x hx => entry_write_outside _ hx)
  refine hT.change hch (fun b _ _ hmem ho => ⟨hmem.1, ho⟩) ?_ ?_ (fun h hh => ?_)
  · rintro a' rfl hfile
    rw [first_cluster_new attr hc]
    refine hf ?_
    have := hfile.2.2
    unfold IsFile at this
    rwa [attributes_new] at this
  · rintro a' rfl hdir
    rw [first_cluster_new attr hc]
    refine Or.inr (hd ?_)
    have := hdir.2.2
    unfold IsFile at this
    rwa [attributes_new] at this
  · have hok := hT.handle h hh
    have hne : h.slot ∉ ({a} : Set Nat) := by
      rintro rfl
      exact hnot hok.entry.2.1
    exact hok.keep hch.shape hch.owned (hch.head hok.entry.1 hne) (fun hmem ho => ⟨hmem.1, ho⟩)

/-- 有効な項目から得たノード。 -/
theorem Tracked.opened (hT : Tracked fs H D own hs) (ha : FileAt fs D a) (u : Bool) :
    HandleOk fs H D own ⟨fat12_make_node fs.disk a, a, u⟩ :=
  ⟨ha, rfl, hT.file a ha, Nat.two_pow_pos 32, load32_lt _ _⟩

theorem Tracked.flush (hT : Tracked fs H D own hs) : Tracked (fat12_flush_fat fs) H D own hs := by
  have hself : Changes fs fs H H D ∅ := ⟨.refl fs, hT.fat, hT.dirs, fun _ _ => rfl, fun _ => Iff.rfl, fun _ _ _ _ _ => rfl⟩
  have hc := hself.flush hT.layout (hT.fat.chains.mono hT.dirs)
  refine hT.change hc (fun b _ _ hmem ho => ⟨hmem.1, ho⟩) ?_ ?_ (fun h hh => ?_)
  · rintro a ⟨⟩
  · rintro a ⟨⟩
  · have hok := hT.handle h hh
    exact hok.keep hc.shape hc.owned (hc.head hok.entry.1 (by simp)) (fun hmem ho => ⟨hmem.1, ho⟩)

/-! ## 削除 -/

theorem not_used_erased (m : ByteMem) (a : Nat) : ¬ Used (store8 m a 0xE5) a := by
  intro h
  exact h.2.1 store8_self

/-- 項目 `a` を消し、その鎖を解放した。消した項目のノードは、もう追わない。 -/
structure Unlinked (fs fs' : Fs) (H H' D : Set Nat) (own : Nat → Nat) (hs : Set Handle) (a : Nat) : Prop where
  file : FileAt fs D a
  disk : fs'.disk = store8 fs.disk a 0xE5
  heads : H' ⊆ H
  chains : ∀ x ∈ H', ∀ l, Follows (fatNext fs) x l → Follows (fatNext fs') x l
  changes : Changes fs fs' H H' D {a}
  tracked : Tracked fs' H' D own { h | h ∈ hs ∧ h.slot ≠ a }

theorem Tracked.unlink (hT : Tracked fs H D own hs) (ha : FileAt fs D a) :
    ∃ fs' H', (if Entry.first_cluster fs.disk a ≥ 2 then
        fat12_free_cluster_chain { fs with disk := store8 fs.disk a 0xE5 } (Entry.first_cluster fs.disk a)
      else some { fs with disk := store8 fs.disk a 0xE5 }) = some fs' ∧ Unlinked fs fs' H H' D own hs a := by
  have hentry : Changes fs { fs with disk := store8 fs.disk a 0xE5 } H H D {a} :=
    Changes.entry hT.fat hT.dirs ha.1 (fun x hx => store8_of_ne (by omega))
  have hT₁ : Tracked { fs with disk := store8 fs.disk a 0xE5 } H D own { h | h ∈ hs ∧ h.slot ≠ a } := by
    refine hT.change hentry (fun b _ _ hmem ho => ⟨hmem.1, ho⟩) ?_ ?_ (fun h hh => ?_)
    · rintro a' rfl hfile
      exact absurd hfile.2.1 (not_used_erased _ _)
    · rintro a' rfl hdir
      exact absurd hdir.2.1 (not_used_erased _ _)
    · have hok := hT.handle h hh.1
      exact hok.keep hentry.shape hentry.owned (hentry.head hok.entry.1 hh.2) (fun hmem ho => ⟨hmem.1, ho⟩)
  rcases hT.file a ha with h0 | ⟨hmem, hown⟩
  · rw [h0, if_neg (by decide)]
    exact ⟨_, H, rfl, ha, rfl, Set.Subset.rfl, fun _ _ _ hl => hl, hentry, hT₁⟩
  · have hr : 2 ≤ Entry.first_cluster fs.disk a := by
      obtain ⟨l, hl, -⟩ := hT.fat.chains.chain _ hmem.1
      exact (hT.fat.chains.dom_of_mem hmem.1 hl hl.mem_head).1
    rw [if_pos hr]
    generalize Entry.first_cluster fs.disk a = c at *
    obtain ⟨fs', hrun, hdisk, hc, hchains⟩ := Changes.free hT₁.fat hT.dirs hmem
    -- 消した鎖の持ち主は `a` なので、ほかの項目とノードの鎖は残る。
    have hkeep : ∀ x b, b ≠ a → x ∈ H \ D → own x = b → x ∈ H \ {c} ∧ own x = b := by
      intro x b hne hx ho
      refine ⟨⟨hx.1, ?_⟩, ho⟩
      rintro rfl
      exact hne (ho.symm.trans hown)
    refine ⟨fs', _, hrun, ha, hdisk, Set.sdiff_subset, hchains, hentry.trans (hc.mono (Set.empty_subset _)),
      hT₁.change hc (fun b _ hfile hmem' ho => hkeep _ b ?_ hmem' ho) ?_ ?_ (fun h hh => ?_)⟩
    · rintro rfl
      exact absurd hfile.2.1 (not_used_erased _ _)
    · rintro a ⟨⟩
    · rintro a ⟨⟩
    · have hok := hT₁.handle h hh
      exact hok.keep hc.shape hc.owned (hc.head hok.entry.1 (by simp)) (fun hmem' ho => hkeep _ _ hh.2 hmem' ho)

end MyOS.Fat
