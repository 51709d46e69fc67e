import Mathlib.Data.List.Pairwise
import MyOS.Mem.Lemmas.Areas
import MyOS.Mem.Lemmas.Fork

/-! 領域のリスト。領域は重ならない。 -/

namespace MyOS.Mem
open MyOS.Lib

variable {m m' m₀ m₁ : Phys} {P D i j virt n : Nat} {got : Nat → Nat → Prop} {l l' : List Vma} {v w : Vma}

/-! ## `fork` -/

theorem Tables.held (h : Tables m) : Held m m.cur_page_dir := by
  have htable : ∀ i, user_table m.ram m.cur_page_dir i = true → Live m (.table i) :=
    fun i hut => user_table_present hut
  refine ⟨h.zero, h.aligned, h.used .dir trivial, fun i _ hut => h.used _ (htable i hut), fun i j _ hj hup => ?_⟩
  unfold user_page at hup
  obtain ⟨hut, hpu⟩ := Bool.and_eq_true_iff.mp hup
  exact h.used (.page i j) ⟨htable i hut, hj, (Bool.and_eq_true_iff.mp hpu).1⟩

/-- 写した先のディレクトリでも、使い道ごとにブロックは異なる。 -/
theorem Copying.tables (hP : Held m₀ P) (hc : Cloned m₀ m₁ P D 1024) (h : Copying m₀ m₁ m P D got) : Tables m := by
  have hcur := h.cur
  have htable : ∀ {i}, Live m (.table i) → i < 1024 ∧ user_table m₀.ram P i = true ∧ table_at m i = table_of m₁ D i := by
    rintro i ⟨hi, hp⟩
    have hi' : i < 1024 := Nat.lt_trans hi (by decide)
    unfold dir_entry at hp
    rw [hcur] at hp
    refine ⟨hi', ?_, ?_⟩
    · rw [← h.child_table hc hi']
      simp [user_table, hi, hp]
    · rw [table_at, dir_entry, hcur, h.dir i hi', table_of]
  have hpage : ∀ {i j}, Live m (.page i j) → i < 1024 ∧ j < 1024 ∧ got i j ∧
      page_entry m i j = word m.ram (table_of m₁ D i) j := by
    rintro i j ⟨ht, hj, hp⟩
    obtain ⟨hi, hut, heq⟩ := htable ht
    have hentry : page_entry m i j = word m.ram (table_of m₁ D i) j := by rw [page_entry, heq]
    refine ⟨hi, hj, ?_, hentry⟩
    by_contra hg
    rw [hentry, h.blank i j hi hj hut hg] at hp
    cases hp
  -- 表とディレクトリは `m₁` で使われていて、ページは `m₁` で空いていた
  have hused : ∀ s, Live m s → Used m (frame m s) ∧ ((∀ i j, s ≠ .page i j) → Used m₁ (frame m s)) ∧
      ((∃ i j, s = .page i j) → ¬ Used m₁ (frame m s)) := by
    intro s hs
    cases s with
    | dir =>
      rw [frame, hcur]
      refine ⟨h.used D hc.dir.used, fun _ => hc.dir.used, ?_⟩
      rintro ⟨_, _, hne⟩
      cases hne
    | table i =>
      obtain ⟨hi, hut, heq⟩ := htable hs
      rw [frame, heq]
      refine ⟨h.used _ (table_used hc hi hut), fun _ => table_used hc hi hut, ?_⟩
      rintro ⟨_, _, hne⟩
      cases hne
    | page i j =>
      obtain ⟨hi, hj, hg, heq⟩ := hpage hs
      rw [frame, heq]
      have hf := (h.page i j hi hj hg).2.fresh
      exact ⟨hf.used, fun hne => absurd rfl (hne i j), fun _ hu => by cases hu.symm.trans hf.free⟩
  refine ⟨h.kept.used 0 hP.zero, by rw [hcur]; exact hc.dir.aligned, fun s hs => (hused s hs).1,
    fun s s' hs hs' heq => ?_⟩
  have hkind : ∀ {i j}, s = .page i j → ∃ i' j', s' = .page i' j' := by
    intro i j hp
    by_contra hne
    refine (hused s hs).2.2 ⟨i, j, hp⟩ (heq ▸ (hused s' hs').2.1 fun i' j' hs' => hne ⟨i', j', hs'⟩)
  have hkind' : ∀ {i j}, s' = .page i j → ∃ i' j', s = .page i' j' := by
    intro i j hp
    by_contra hne
    refine (hused s' hs').2.2 ⟨i, j, hp⟩ (heq ▸ (hused s hs).2.1 fun i' j' hs => hne ⟨i', j', hs⟩)
  cases s with
  | page i j =>
    obtain ⟨i', j', rfl⟩ := hkind rfl
    obtain ⟨hi, hj, hg, he⟩ := hpage hs
    obtain ⟨hi', hj', hg', he'⟩ := hpage hs'
    rw [frame, frame, he, he'] at heq
    obtain ⟨rfl, rfl⟩ := h.inj i j i' j' hi hj hi' hj' hg hg' heq
    rfl
  | dir =>
    cases s' with
    | dir => rfl
    | table k =>
      obtain ⟨hk, hut, he⟩ := htable hs'
      rw [frame, frame, he, hcur] at heq
      exact absurd heq.symm (hc.table k hk hk hut).ne
    | page k l =>
      obtain ⟨_, _, hne⟩ := hkind' rfl
      cases hne
  | table i =>
    obtain ⟨hi, hut, he⟩ := htable hs
    cases s' with
    | dir =>
      rw [frame, frame, he, hcur] at heq
      exact absurd heq (hc.table i hi hi hut).ne
    | table k =>
      obtain ⟨hk, hut', he'⟩ := htable hs'
      rw [frame, frame, he, he'] at heq
      rw [hc.inj i k hi hk hi hk hut hut' heq]
    | page k l =>
      obtain ⟨_, _, hne⟩ := hkind' rfl
      cases hne

theorem fork_phys (s : Space) (child : Bool) :
    (fork s child).phys = set_page_dir (fork_space s.phys s.phys.cur_page_dir).1
      (if child then (fork_space s.phys s.phys.cur_page_dir).2
        else (fork_space s.phys s.phys.cur_page_dir).1.cur_page_dir) := by
  unfold fork
  generalize fork_space s.phys s.phys.cur_page_dir = r
  obtain ⟨m, d⟩ := r
  cases child <;> rfl

/-- `fork` の後は、親としても子としても、使い道ごとにブロックは異なる。親の項目は変わらない。 -/
theorem Tables.fork {s : Space} (h : Tables s.phys)
    (hfree : 1 + table_count s.phys.ram s.phys.cur_page_dir ≤ free_count s.phys) :
    Unmoved s.phys (fork s false).phys ∧ Tables (fork s true).phys := by
  obtain ⟨m₁, hc, m₂, ⟨got, hcopy, -⟩, heq⟩ := fork_space_progress h.held hfree
  rw [fork_phys, fork_phys, heq]
  refine ⟨h.kept ⟨hcopy.kept.bytes, hcopy.kept.used⟩ rfl, ?_⟩
  have hsame : ∀ D, m₂.cur_page_dir = D → set_page_dir (set_page_dir m₂ s.phys.cur_page_dir) D = m₂ := by
    rintro D rfl
    rfl
  rw [if_pos rfl, hsame _ hcopy.cur]
  exact hcopy.tables h.held hc

/-! ## リスト -/

/-- 二つの領域は重ならない。 -/
def Apart (v w : Vma) : Prop := v.end ≤ w.start ∨ w.end ≤ v.start

instance : DecidableRel Apart := fun v w => inferInstanceAs (Decidable (v.end ≤ w.start ∨ w.end ≤ v.start))

def Vma.Sound (v : Vma) : Prop := v.start % 4096 = 0 ∧ v.end % 4096 = 0 ∧ v.start < v.end

instance : DecidablePred Vma.Sound := fun v =>
  inferInstanceAs (Decidable (v.start % 4096 = 0 ∧ v.end % 4096 = 0 ∧ v.start < v.end))

/-- 領域はページの境にあり、空でなく、互いに重ならない。 -/
def WellFormed (l : List Vma) : Prop := (∀ v ∈ l, v.Sound) ∧ l.Pairwise Apart

instance : DecidablePred WellFormed := fun l =>
  inferInstanceAs (Decidable ((∀ v ∈ l, v.Sound) ∧ l.Pairwise Apart))

def InRegion (l : List Vma) (w : Nat) : Prop := ∃ v ∈ l, v.start ≤ w ∧ w < v.end

instance : Std.Symm Apart := ⟨fun _ _ h => h.symm⟩

theorem WellFormed.apart (h : WellFormed l) (hv : v ∈ l) (hw : w ∈ l) (hne : v ≠ w) : Apart v w :=
  h.2.forall hv hw hne

theorem WellFormed.append (h : WellFormed l) (hv : v.Sound) (hapart : ∀ w ∈ l, Apart w v) : WellFormed (l ++ [v]) := by
  refine ⟨fun w hw => ?_, List.pairwise_append.mpr ⟨h.2, List.pairwise_singleton _ _, fun w hw u hu => ?_⟩⟩
  · rcases List.mem_append.mp hw with hw | hw
    · exact h.1 w hw
    · rw [List.mem_singleton.mp hw]
      exact hv
  · rw [List.mem_singleton.mp hu]
    exact hapart w hw

theorem WellFormed.sublist (h : WellFormed l) (hs : l'.Sublist l) : WellFormed l' :=
  ⟨fun v hv => h.1 v (hs.subset hv), h.2.sublist hs⟩

/-- 領域の一つを、ほかに重ならないように伸ばす。 -/
theorem WellFormed.grow {l₁ l₂ : List Vma} {last : Nat} (h : WellFormed (l₁ ++ v :: l₂)) (ha : last % 4096 = 0)
    (hle : v.end ≤ last) (hroom : ∀ w ∈ l₁ ++ v :: l₂, w.end ≤ v.end ∨ last ≤ w.start) :
    WellFormed (l₁ ++ { v with «end» := last } :: l₂) := by
  have hv := h.1 v (by simp)
  have hfar : ∀ w ∈ l₁ ++ v :: l₂, Apart v w → w.Sound → Apart { v with «end» := last } w := by
    intro w hw hvw hsound
    have := hroom w hw
    unfold Apart Vma.Sound at *
    dsimp only
    omega
  obtain ⟨h₁, h₂, h₁₂⟩ := List.pairwise_append.mp h.2
  obtain ⟨hv₂, h₂⟩ := List.pairwise_cons.mp h₂
  refine ⟨fun w hw => ?_, List.pairwise_append.mpr ⟨h₁, List.pairwise_cons.mpr ⟨fun w hw => ?_, h₂⟩,
    fun w hw u hu => ?_⟩⟩
  · rcases List.mem_append.mp hw with hw | hw
    · exact h.1 w (by simp [hw])
    · rcases List.mem_cons.mp hw with rfl | hw
      · unfold Vma.Sound at hv ⊢
        dsimp only
        omega
      · exact h.1 w (by simp [hw])
  · have hmem : w ∈ l₁ ++ v :: l₂ := by simp [hw]
    exact hfar w hmem (hv₂ w hw) (h.1 w hmem)
  · rcases List.mem_cons.mp hu with rfl | hu
    · have hmem : w ∈ l₁ ++ v :: l₂ := by simp [hw]
      exact (hfar w hmem (h₁₂ w hw v (by simp)).symm (h.1 w hmem)).symm
    · exact h₁₂ w hw u (by simp [hu])

/-! ## `mmap` の探索 -/

/-- `base` から先で、どの領域にも重ならない範囲。 -/
def Gap (l : List Vma) (base len a : Nat) : Prop :=
  base ≤ a ∧ a + len ≤ KERNEL_VIRTUAL_BASE ∧ ∀ v ∈ l, a + len ≤ v.start ∨ v.end ≤ a

theorem overlaps_eq {addr len : Nat} (h : addr + len < 2 ^ 32) :
    overlaps addr len v = false ↔ addr + len ≤ v.start ∨ v.end ≤ addr := by
  unfold overlaps
  rw [Nat.mod_eq_of_lt h, Bool.not_eq_false', Bool.or_eq_true, decide_eq_true_eq, decide_eq_true_eq]

/-- 一巡の結果。動いたなら、ある領域の終わりを越えて、ある領域の終わりに止まる。 -/
structure Scanned (l : List Vma) (len addr r : Nat) : Prop where
  ge : addr ≤ r
  free : r = addr → ∀ v ∈ l, overlaps addr len v = false
  past : r = addr ∨ ∃ v ∈ l, addr < v.end ∧ v.end ≤ r
  stop : r = addr ∨ ∃ v ∈ l, r = v.end

section

variable {len a addr : Nat}

theorem overlaps_end (h : overlaps addr len v = true) : addr < v.end := by
  unfold overlaps at h
  simp only [Bool.not_eq_true', Bool.or_eq_false_iff, decide_eq_false_iff_not] at h
  omega

theorem mmap_scan_cons (len addr : Nat) (v : Vma) (l : List Vma) :
    mmap_scan len addr (v :: l) = mmap_scan len (if overlaps addr len v then v.end else addr) l := rfl

theorem mmap_scan_spec (len addr : Nat) (l : List Vma) : Scanned l len addr (mmap_scan len addr l) := by
  induction l generalizing addr with
  | nil => exact ⟨Nat.le_refl _, fun _ _ hv => absurd hv List.not_mem_nil, .inl rfl, .inl rfl⟩
  | cons v l ih =>
    have hmem : v ∈ v :: l := List.mem_cons_self ..
    rw [mmap_scan_cons]
    cases hov : overlaps addr len v with
    | false =>
      have h := ih addr
      refine ⟨h.ge, fun heq w hw => ?_, h.past.imp id fun ⟨w, hw, hr⟩ => ⟨w, List.mem_cons_of_mem _ hw, hr⟩,
        h.stop.imp id fun ⟨w, hw, hr⟩ => ⟨w, List.mem_cons_of_mem _ hw, hr⟩⟩
      rcases List.mem_cons.mp hw with rfl | hw
      · exact hov
      · exact h.free heq w hw
    | true =>
      have hlt := overlaps_end hov
      have h := ih v.end
      have hge := h.ge
      rw [if_pos rfl]
      refine ⟨by omega, fun heq => by omega, .inr ⟨v, hmem, hlt, hge⟩, .inr ?_⟩
      rcases h.stop with heq | ⟨w, hw, hr⟩
      · exact ⟨v, hmem, heq⟩
      · exact ⟨w, List.mem_cons_of_mem _ hw, hr⟩

/-- まだ越えていない領域の数より多くは回らない。止まった番地は、どの領域にも重ならない。 -/
theorem mmap_search_spec (len : Nat) (hfuel : l.countP (fun v => decide (addr < v.end)) < n) :
    addr ≤ mmap_search len l n addr ∧ (∀ v ∈ l, overlaps (mmap_search len l n addr) len v = false) ∧
      (mmap_search len l n addr = addr ∨ ∃ v ∈ l, mmap_search len l n addr = v.end) := by
  induction n generalizing addr with
  | zero => omega
  | succ n ih =>
    have h := mmap_scan_spec len addr l
    have hge := h.ge
    rw [mmap_search]
    split
    next heq => exact ⟨Nat.le_refl _, h.free heq, .inl rfl⟩
    next hne =>
      obtain ⟨v, hv, hlt, hend⟩ := h.past.resolve_left hne
      have hless := countP_lt_of_mem (p := fun v => decide (addr < v.end))
        (q := fun v => decide (mmap_scan len addr l < v.end)) (a := v) (l := l)
        (fun u _ hu => by have := of_decide_eq_true hu; simp only [decide_eq_true_eq]; omega)
        hv (by simpa using hlt) (by simpa using hend)
      have hlater : l.countP (fun v => decide (mmap_scan len addr l < v.end)) < n := by omega
      obtain ⟨hle, hfree, hs⟩ := ih hlater
      refine ⟨by omega, hfree, .inr ?_⟩
      rcases hs with hs | hs
      · obtain ⟨w, hw, heq⟩ := h.stop.resolve_left hne
        exact ⟨w, hw, hs.trans heq⟩
      · exact hs

variable (hlt : a + len < 2 ^ 32) (hfree : ∀ v ∈ l, a + len ≤ v.start ∨ v.end ≤ a)
include hlt hfree

/-- 範囲に重ならない番地より先へは進まない。 -/
theorem mmap_scan_le (hl : ∀ v ∈ l', v ∈ l) (hle : addr ≤ a) : mmap_scan len addr l' ≤ a := by
  induction l' generalizing addr with
  | nil => exact hle
  | cons v l' ih =>
    rw [mmap_scan_cons]
    refine ih (fun w hw => hl w (List.mem_cons_of_mem _ hw)) ?_
    split
    next hov =>
      have hfar := hfree v (hl v (List.mem_cons_self ..))
      have hnear : ¬ (addr + len ≤ v.start ∨ v.end ≤ addr) := fun hc => by
        cases hov.symm.trans ((overlaps_eq (by omega)).mpr hc)
      omega
    next => exact hle

theorem mmap_search_le (hle : addr ≤ a) : mmap_search len l n addr ≤ a := by
  induction n generalizing addr with
  | zero => exact hle
  | succ n ih =>
    rw [mmap_search]
    split
    · exact hle
    · exact ih (mmap_scan_le hlt hfree (fun _ => id) hle)

end

end MyOS.Mem
