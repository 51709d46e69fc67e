import MyOS.Mem.AreaTheorems
import MyOS.Mem.Lemmas.Owned

/-! 領域を順に割り当てるのに要るブロックの数。ページと、その途中で作る表を数える。 -/

namespace MyOS.Mem
open MyOS.Lib

variable {m m' : Phys} {s : Space} {own : Nat → Prop} {tables tables' : Nat → Bool} {l l' : List Nat} {zero : Bool}
  {start size n p : Nat}

/-- `tables` の表があるとき、ページの列を順に写すのに要るブロックの数。 -/
def frames_needed (tables : Nat → Bool) : List Nat → Nat
  | [] => 0
  | w :: l => (if tables (w / 1024) then 1 else 2) + frames_needed (fun k => tables k || k == w / 1024) l

/-- 今のディレクトリにある表。 -/
def tables_of (m : Phys) (k : Nat) : Bool := present (dir_entry m k)

/-- 列を写した後の表。 -/
def tables_after (tables : Nat → Bool) (l : List Nat) (k : Nat) : Bool := tables k || l.any fun w => k == w / 1024

theorem frames_needed_congr (h : ∀ w ∈ l, tables (w / 1024) = tables' (w / 1024)) :
    frames_needed tables l = frames_needed tables' l := by
  induction l generalizing tables tables' with
  | nil => rfl
  | cons w l ih =>
    rw [frames_needed, frames_needed, h w List.mem_cons_self, ih]
    intro v hv
    rw [h v (List.mem_cons_of_mem _ hv)]

/-- 写した後に残りの列に要る数。 -/
theorem PagesAdded.frames_needed (h : PagesAdded m m' own zero p n) (hl : ∀ w ∈ l, w < 2 ^ 20) :
    Mem.frames_needed (tables_of m') l = Mem.frames_needed (tables_after (tables_of m) (List.range' p n)) l := by
  refine frames_needed_congr fun w hw => ?_
  have hk : w / 1024 < 1024 := by
    have := hl w hw
    omega
  rw [Bool.eq_iff_iff, tables_of, h.dir_iff _ hk]
  unfold tables_after tables_of
  rw [Bool.or_eq_true, List.any_eq_true]
  refine or_congr_right ⟨?_, ?_⟩
  · rintro ⟨j, hj, heq⟩
    exact ⟨p + j, List.mem_range'.mpr ⟨j, hj, by omega⟩, beq_iff_eq.mpr heq.symm⟩
  · rintro ⟨v, hv, heq⟩
    obtain ⟨j, hj, rfl⟩ := List.mem_range'.mp hv
    exact ⟨j, hj, by simpa using (beq_iff_eq.mp heq).symm⟩

end MyOS.Mem

/-! 続くページを外す。 -/

namespace MyOS.Mem
open MyOS.Lib

variable {m m' : Phys} {a e k n p virt w : Nat}

/-- 項目から外しても、ディレクトリは変わらない。 -/
theorem Separate.unmap_address_dir (hs : Separate m) (hvirt : virt < 2 ^ 32) : SameDir m (Mem.unmap_address m virt) := by
  cases hp : present (dir_entry m (pd_index virt)) with
  | false =>
    have heq : Mem.unmap_address m virt = m := if_neg (Bool.eq_false_iff.mp hp)
    rw [heq]
    exact ⟨rfl, rfl, fun _ _ => rfl⟩
  | true =>
    obtain ⟨hram, hcur, hkernel⟩ := release_words m none (mapping m (virt / 4096))
    have hstore : ((release m none (mapping m (virt / 4096))).store32
        (table_at m (pd_index virt) + 4 * pt_index virt) 0).ram =
          m.ram.store32 (table_at m (pd_index virt) + 4 * pt_index virt) 0 := by
      unfold Phys.store32
      rw [hram]
    rw [unmap_address_release hp]
    exact ⟨hcur, hkernel, (hs.store_page (pd_index_lt hvirt) pt_index_lt hp (by decide) hstore hcur hkernel).2.1⟩

/-- 二つの項目が同じ表を指すことはない。 -/
def TablesApart (m : Phys) : Prop :=
  ∀ k k', k < 1024 → k' < 1024 → present (dir_entry m k) = true → present (dir_entry m k') = true →
    table_at m k = table_at m k' → k = k'

theorem SameDir.tables_apart (h : SameDir m m') (ht : TablesApart m) : TablesApart m' := by
  intro k k' hk hk' hp hp' heq
  rw [h.dir k hk] at hp
  rw [h.dir k' hk'] at hp'
  rw [h.table hk, h.table hk'] at heq
  exact ht k k' hk hk' hp hp' heq

theorem TablesApart.same_entry (h : TablesApart m) (hw : w < 2 ^ 20) (hp : p < 2 ^ 20) : SameEntry m w p ↔ w = p := by
  refine ⟨?_, .inl⟩
  rintro (heq | ⟨hmod, hpw, hpp, heq⟩)
  · exact heq
  · have := h _ _ (by omega) (by omega) hpw hpp heq
    omega

theorem unmap_pages_next (n p : Nat) (m : Phys) (hp : p + (n + 1) ≤ 2 ^ 20) :
    unmap_pages (n + 1) (p * 4096) m = unmap_pages n ((p + 1) * 4096) (unmap_address m (p * 4096)) := by
  cases n with
  | zero => rw [unmap_pages, unmap_pages, unmap_pages]
  | succ n =>
    have hsum : p * 4096 + BLOCK_SIZE = (p + 1) * 4096 := by
      unfold BLOCK_SIZE
      omega
    rw [unmap_pages, hsum, Nat.mod_eq_of_lt (by omega)]

/-- 範囲のページだけがなくなる。 -/
theorem Separate.unmap_pages (hs : Separate m) (ht : TablesApart m) (hp : p + n ≤ 2 ^ 20) (hw : w < 2 ^ 20) :
    mapping (Mem.unmap_pages n (p * 4096) m) w = if p ≤ w ∧ w < p + n then none else mapping m w := by
  induction n generalizing p m with
  | zero =>
    rw [if_neg (by omega)]
    rfl
  | succ n ih =>
    have hvirt : p * 4096 < 2 ^ 32 := by omega
    have hdiv : p * 4096 / 4096 = p := by omega
    have hup := hs.unmap_address hvirt
    have hmap := hup.mapping w hw
    rw [hdiv, if_congr (ht.same_entry hw (by omega)) rfl rfl] at hmap
    rw [unmap_pages_next n p m hp, ih hup.separate ((hs.unmap_address_dir hvirt).tables_apart ht) (by omega), hmap]
    by_cases hin : p + 1 ≤ w ∧ w < p + 1 + n
    · rw [if_pos hin, if_pos (by omega)]
    · rw [if_neg hin]
      exact if_congr (by omega) rfl rfl

/-! ## 0 を書く -/

theorem load32_store_zero {ram : ByteMem} (ha : a % 4 = 0) (hk : k % 4 = 0) :
    (ram.store32 a 0).load32 k = if k = a then 0 else ram.load32 k := by
  split
  next h =>
    subst h
    exact ByteMem.load32_store32_self (by decide)
  next h => exact ByteMem.load32_store32_of_disjoint (by omega)

theorem word_store_zero (ha : a % 4 = 0) {b i : Nat} (hb : Aligned b) :
    word (m.store32 a 0).ram b i = if b + 4 * i = a then 0 else word m.ram b i := by
  unfold Aligned at hb
  exact load32_store_zero ha (by omega)

section zero
variable (hcur : Aligned m.cur_page_dir)
include hcur

/-- 項目に 0 を書いても、なかったページは現れない。 -/
theorem mapping_store_zero (ha : a % 4 = 0) (h : mapping m w = none) : mapping (m.store32 a 0) w = none := by
  have hdir : dir_entry (m.store32 a 0) (w / 1024) =
      if m.cur_page_dir + 4 * (w / 1024) = a then 0 else dir_entry m (w / 1024) := word_store_zero ha hcur
  unfold mapping at h ⊢
  by_cases hd : m.cur_page_dir + 4 * (w / 1024) = a
  · rw [hdir, if_pos hd]
    rfl
  · rw [if_neg hd] at hdir
    rw [hdir]
    by_cases hp : present (dir_entry m (w / 1024)) = true
    · rw [if_pos hp] at h ⊢
      rw [page_entry, table_at, hdir, word_store_zero ha (aligned_page_addr _)]
      split
      · rfl
      · exact h
    · rw [if_neg hp]

/-- 0 を書いた項目のページはない。 -/
theorem mapping_store_zero_self :
    mapping (m.store32 (table_at m (pd_index virt) + 4 * pt_index virt) 0) (virt / 4096) = none := by
  have hal := aligned_table m (pd_index virt)
  unfold Aligned at hal
  have ha : (table_at m (pd_index virt) + 4 * pt_index virt) % 4 = 0 := by omega
  obtain ⟨hd, hm⟩ := virt_div virt
  generalize hslot : table_at m (pd_index virt) + 4 * pt_index virt = a at *
  have hdir : dir_entry (m.store32 a 0) (pd_index virt) =
      if m.cur_page_dir + 4 * pd_index virt = a then 0 else dir_entry m (pd_index virt) := word_store_zero ha hcur
  unfold mapping
  rw [hd, hm, hdir]
  by_cases hself : m.cur_page_dir + 4 * pd_index virt = a
  · rw [if_pos hself]
    rfl
  · rw [if_neg hself] at hdir ⊢
    have hentry : page_entry (m.store32 a 0) (pd_index virt) (pt_index virt) = 0 := by
      rw [page_entry, table_at, hdir, word_store_zero ha (aligned_page_addr _)]
      exact if_pos hslot
    rw [hentry]
    exact ite_self _

/-- 外したページはない。ほかのなかったページも現れない。 -/
theorem unmap_address_none : mapping (unmap_address m virt) (virt / 4096) = none ∧
    ∀ w, mapping m w = none → mapping (unmap_address m virt) w = none := by
  cases hp : present (dir_entry m (pd_index virt)) with
  | false =>
    have heq : unmap_address m virt = m := if_neg (Bool.eq_false_iff.mp hp)
    rw [heq]
    exact ⟨mapping_absent hp, fun _ => id⟩
  | true =>
    have hw := release_words m none (mapping m (virt / 4096))
    have hcur' : Aligned (release m none (mapping m (virt / 4096))).cur_page_dir := by
      rw [hw.cur]
      exact hcur
    rw [unmap_address_release hp, ← hw.table]
    refine ⟨mapping_store_zero_self hcur', fun w hnone => mapping_store_zero hcur' ?_ ?_⟩
    · have hal := aligned_table (release m none (mapping m (virt / 4096))) (pd_index virt)
      unfold Aligned at hal
      omega
    · rw [hw.mapping]
      exact hnone

omit hcur in
theorem unmap_address_cur (m : Phys) (virt : Nat) : (unmap_address m virt).cur_page_dir = m.cur_page_dir := by
  unfold unmap_address
  split
  · dsimp only
    split
    · exact (free_blocks_ram m _).2
    · rfl
  · rfl

/-- どんな表でも、範囲のページはすべてなくなる。 -/
theorem unmap_pages_none (hp : p + n ≤ 2 ^ 20) :
    (∀ w, p ≤ w → w < p + n → mapping (unmap_pages n (p * 4096) m) w = none) ∧
      ∀ w, mapping m w = none → mapping (unmap_pages n (p * 4096) m) w = none := by
  induction n generalizing p m with
  | zero => exact ⟨fun w hw hlt => absurd hlt (Nat.not_lt.mpr hw), fun _ => id⟩
  | succ n ih =>
    have hdiv : p * 4096 / 4096 = p := by omega
    obtain ⟨hself, hkeep⟩ : mapping (unmap_address m (p * 4096)) (p * 4096 / 4096) = none ∧ _ := unmap_address_none hcur
    rw [hdiv] at hself
    obtain ⟨hin, hout⟩ := ih (m := unmap_address m (p * 4096)) (p := p + 1)
      (by rw [unmap_address_cur]; exact hcur) (by omega)
    rw [unmap_pages_next n p m hp]
    refine ⟨fun w hw hlt => ?_, fun w hnone => hout w (hkeep w hnone)⟩
    by_cases hwp : w = p
    · subst hwp
      exact hout w hself
    · exact hin w (by omega) (by omega)

end zero

end MyOS.Mem
