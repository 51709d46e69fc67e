import MyOS.Mem.Virt
import MyOS.Mem.Lemmas.Pages

/-! ページを一枚ずつ足す。割り当てに失敗しても、前に足したページより後は空いたままである。 -/

namespace MyOS.Mem
open MyOS.Lib

variable {m m' m₀ : Phys} {base f i j k lo n p pd phys start t virt w : Nat}

/-- ディレクトリと表は使われている。`lo` から上の表は、ブロック 0 にあるもののほか、ほかの項目と分け合わない。 -/
structure Directory (m : Phys) (lo : Nat) : Prop where
  separate : Separate m
  zero : Used m 0
  cur : Used m m.cur_page_dir ∧ m.cur_page_dir ≠ 0
  kernel : Used m m.kernel_page_dir ∧ m.kernel_page_dir ≠ 0
  table : ∀ k, k < 1024 → present (dir_entry m k) = true → Used m (table_at m k)
  own : ∀ k k', lo ≤ k → k < 1024 → k' < 1024 → present (dir_entry m k) = true → present (dir_entry m k') = true →
    table_at m k = table_at m k' → k = k' ∨ table_at m k = 0

/-- ページ `p` から上は空いていて、ブロック 0 の表は、すでに足したページの表である。 -/
structure Growing (m : Phys) (lo p : Nat) : Prop where
  directory : Directory m lo
  unmapped : ∀ w, p ≤ w → w < 2 ^ 20 → mapping m w = none
  below : ∀ k, k < 1024 → present (dir_entry m k) = true → table_at m k = 0 → k * 1024 < p

/-- ブロック 0 に表がない。 -/
def NoZeroTable (m : Phys) : Prop := ∀ k, k < 1024 → present (dir_entry m k) = true → table_at m k ≠ 0

/-- 割り当ての失敗では 0 が返る。 -/
theorem alloc_blocks_zero_or (m : Phys) :
    (alloc_blocks m).2 = 0 ∧ free_count m = 0 ∨ m.mem_bitmap ((alloc_blocks m).2 / 4096) = true := by
  rcases alloc_blocks_cases m with ⟨heq, h⟩ | ha
  · rw [heq]
    exact .inl ⟨rfl, h⟩
  · exact .inr ha.fresh.free

theorem alloc_blocks_used (m : Phys) {a : Nat} (h : Used m a) : Used (alloc_blocks m).1 a := by
  rcases alloc_blocks_cases m with ⟨heq, -⟩ | ha
  · rw [heq]
    exact h
  · exact ha.kept.used a h

/-- 使っているブロックは、0 でなければ割り当てられない。 -/
theorem alloc_blocks_ne {a : Nat} (h : Used m a) (h0 : a ≠ 0) : (alloc_blocks m).2 ≠ a := by
  rintro rfl
  rcases alloc_blocks_zero_or m with ⟨hz, -⟩ | hf
  · exact h0 hz
  · cases h.symm.trans hf

theorem alloc_blocks_count (m : Phys) : free_count (alloc_blocks m).1 = free_count m - 1 := by
  rcases alloc_blocks_cases m with ⟨heq, h⟩ | ha
  · rw [heq, h]
  · have := ha.count
    omega

theorem alloc_blocks_words (m : Phys) : SameWords m (alloc_blocks m).1 := by
  obtain ⟨hram, hcur, hkernel, -⟩ := alloc_blocks_rest m
  exact ⟨hram, hcur, hkernel⟩

theorem SameWords.table (h : SameWords m m') (k : Nat) : table_at m' k = table_at m k := by
  rw [table_at, table_at, h.dir]

theorem Directory.alloc (h : Directory m lo) : Directory (alloc_blocks m).1 lo := by
  have hs := alloc_blocks_words m
  refine ⟨hs.separate h.separate, alloc_blocks_used m h.zero, ?_, ?_, fun k hk hp => ?_, fun k k' hlo hk hk' hp hp' => ?_⟩
  · rw [hs.cur]
    exact ⟨alloc_blocks_used m h.cur.1, h.cur.2⟩
  · rw [hs.kernel]
    exact ⟨alloc_blocks_used m h.kernel.1, h.kernel.2⟩
  · rw [hs.dir] at hp
    rw [hs.table]
    exact alloc_blocks_used m (h.table k hk hp)
  · rw [hs.dir] at hp hp'
    rw [hs.table, hs.table]
    exact h.own k k' hlo hk hk' hp hp'

theorem Growing.alloc (h : Growing m lo p) : Growing (alloc_blocks m).1 lo p := by
  have hs := alloc_blocks_words m
  refine ⟨h.directory.alloc, fun w hw hlt => ?_, fun k hk hp ht => ?_⟩
  · rw [hs.mapping]
    exact h.unmapped w hw hlt
  · rw [hs.dir] at hp
    rw [hs.table] at ht
    exact h.below k hk hp ht

theorem Directory.apart (h : Directory m lo) : ApartTable m :=
  ⟨alloc_blocks_ne h.cur.1 h.cur.2, alloc_blocks_ne h.kernel.1 h.kernel.2⟩

theorem Directory.fresh (h : Directory m lo) (hz : NoZeroTable m) : FreshTable m :=
  ⟨h.apart, fun k hk hp => (alloc_blocks_ne (h.table k hk hp) (hz k hk hp)).symm⟩

/-! ## 空いているページに写す -/

/-- 表を開いて、ページ `p` の項目を書いた。 -/
structure MapsNew (m m' : Phys) (p : Nat) (new : Option (Nat × Nat)) : Prop extends HasTable m m' (p / 1024) where
  mapping : ∀ w, w / 1024 < 1024 →
    Mem.mapping m' w = if SameEntry m' w p then new else if Wiped m (p / 1024) w then none else Mem.mapping m w

theorem SameEntry.congr (h : ∀ k, k < 1024 → dir_entry m' k = dir_entry m k) (hw : w / 1024 < 1024)
    (hp : p / 1024 < 1024) : SameEntry m' w p ↔ SameEntry m w p := by
  unfold SameEntry table_at
  rw [h _ hw, h _ hp]

/-- 空いているページでは、前のブロックはない。 -/
theorem Separate.map_new (hs : Separate m) (hf : ApartTable m) (hvirt : virt < 2 ^ 32)
    (hnone : Mem.mapping m (virt / 4096) = none) (ha : Aligned f) (hlt : f < 2 ^ 32) :
    MapsNew m (map_address m virt f) (virt / 4096) (some (f, PAGE_PRESENT ||| PAGE_RW)) := by
  obtain ⟨ho, haddr⟩ := hs.get_page (fun _ => hf) hvirt (.inl rfl)
  have hpd := pd_index_lt hvirt
  have hp : virt / 4096 / 1024 < 1024 := by
    rw [(virt_div virt).1]
    exact hpd
  have hv : f + 3 < 2 ^ 32 := by
    unfold Aligned at ha
    omega
  have hflags : page_addr f ||| PAGE_PRESENT ||| PAGE_RW = f + 3 := by
    rw [ha.page_addr_eq, Nat.or_assoc]
    exact or_flags ha (by decide)
  have hempty : Mem.mapping (Mem.get_page m virt 0).1 (virt / 4096) = none := by
    rw [ho.mapping _ hp, hnone, ite_self]
  have hkeep : replace_page (Mem.get_page m virt 0).1 (Mem.get_page m virt 0).2 f = (Mem.get_page m virt 0).1 := by
    rw [replace_page_release, haddr, ← mapping_virt ho.here, hempty]
    rfl
  have heq : map_address m virt f = (Mem.get_page m virt 0).1.store32 (Mem.get_page m virt 0).2 (f + 3) := by
    rw [← hflags, map_address]
    dsimp only
    rw [hkeep]
  rw [heq, haddr]
  generalize (Mem.get_page m virt 0).1 = mo at *
  have hram : (mo.store32 (table_at mo (pd_index virt) + 4 * pt_index virt) (f + 3)).ram =
      mo.ram.store32 (table_at mo (pd_index virt) + 4 * pt_index virt) (f + 3) := rfl
  obtain ⟨hsep, hdir, hmap⟩ := ho.separate.store_page hpd pt_index_lt ho.here hv hram rfl rfl
  rw [← (virt_div virt).1] at ho
  refine ⟨⟨hsep, ho.cur, ho.kernel, ho.bitmap, ?_, fun k hk hne => (hdir k hk).trans (ho.dir k hk hne), ?_⟩, fun w hw => ?_⟩
  · rw [hdir _ hp]
    exact ho.here
  · rw [table_at, hdir _ hp]
    exact ho.table
  · have hsame := SameEntry.congr (w := w) (p := virt / 4096) hdir hw hp
    rw [hmap w hw, virt_index, page_of_entry_add ha (by decide) rfl, ho.mapping w hw]
    by_cases h : SameEntry mo w (virt / 4096)
    · rw [if_pos h, if_pos (hsame.mpr h)]
      rfl
    · rw [if_neg h, if_neg fun h' => h (hsame.mp h')]

section
variable {new : Option (Nat × Nat)}

theorem HasTable.used (h : HasTable m m' pd) {a : Nat} (hu : Used m a) : Used m' a := by
  unfold Used
  rw [h.bitmap]
  split
  · exact hu
  · exact alloc_blocks_used m hu

theorem HasTable.count (h : HasTable m m' pd) :
    free_count m' = free_count m - if present (dir_entry m pd) then 0 else 1 := by
  have hb := h.bitmap
  cases hp : present (dir_entry m pd) with
  | true =>
    rw [hp, if_pos rfl] at hb
    rw [free_count_congr hb, if_pos rfl, Nat.sub_zero]
  | false =>
    rw [hp, if_neg (by decide)] at hb
    rw [free_count_congr hb, if_neg (by decide)]
    exact alloc_blocks_count m

theorem HasTable.dir_iff (h : HasTable m m' pd) (hk : k < 1024) :
    present (dir_entry m' k) = true ↔ present (dir_entry m k) = true ∨ k = pd := by
  by_cases hkp : k = pd
  · subst hkp
    exact iff_of_true h.here (.inr rfl)
  · rw [h.dir k hk hkp]
    simp [hkp]

/-- 表の番地は、新しい表のほかは変わらない。 -/
theorem HasTable.table_eq (h : HasTable m m' pd) (hk : k < 1024) (hp : present (dir_entry m k) = true) :
    table_at m' k = table_at m k := by
  by_cases hkp : k = pd
  · subst hkp
    rw [h.table, if_pos hp]
  · exact h.table_of_ne hk hkp

/-- 新しい表は、割り当てたブロックにある。 -/
theorem HasTable.table_new (h : HasTable m m' pd) (hk : k < 1024) (hp : present (dir_entry m' k) = true)
    (hnot : present (dir_entry m k) = false) : k = pd ∧ table_at m' k = (alloc_blocks m).2 := by
  have hkp : k = pd := by
    rcases (h.dir_iff hk).mp hp with h' | h'
    · cases hnot.symm.trans h'
    · exact h'
  refine ⟨hkp, ?_⟩
  subst hkp
  rw [h.table, hnot]
  rfl

theorem alloc_blocks_used_self (m : Phys) (h : Used m 0) : Used (alloc_blocks m).1 (alloc_blocks m).2 := by
  rcases alloc_blocks_cases m with ⟨heq, -⟩ | ha
  · rw [heq]
    exact h
  · exact ha.fresh.used

theorem Directory.map_new (h : Directory m lo) (hm : MapsNew m m' p new) : Directory m' lo := by
  refine ⟨hm.separate, hm.used h.zero, ?_, ?_, fun k hk hp => ?_, fun k k' hlo hk hk' hp hp' heq => ?_⟩
  · rw [hm.cur]
    exact ⟨hm.used h.cur.1, h.cur.2⟩
  · rw [hm.kernel]
    exact ⟨hm.used h.kernel.1, h.kernel.2⟩
  · cases hold : present (dir_entry m k) with
    | true =>
      rw [hm.table_eq hk hold]
      exact hm.used (h.table k hk hold)
    | false =>
      obtain ⟨rfl, ht⟩ := hm.table_new hk hp hold
      rw [ht]
      unfold Used
      rw [hm.bitmap, hold]
      exact alloc_blocks_used_self m h.zero
  · cases hold : present (dir_entry m k) with
    | true =>
      rw [hm.table_eq hk hold] at heq ⊢
      cases hold' : present (dir_entry m k') with
      | true =>
        rw [hm.table_eq hk' hold'] at heq
        exact h.own k k' hlo hk hk' hold hold' heq
      | false =>
        rw [(hm.table_new hk' hp' hold').2] at heq
        right
        by_contra hne
        exact alloc_blocks_ne (h.table k hk hold) hne heq.symm
    | false =>
      obtain ⟨hkp, ht⟩ := hm.table_new hk hp hold
      rw [ht] at heq ⊢
      cases hold' : present (dir_entry m k') with
      | true =>
        rw [hm.table_eq hk' hold'] at heq
        right
        by_contra hne
        rw [heq] at hne
        exact alloc_blocks_ne (h.table k' hk' hold') hne heq
      | false => exact .inl (hkp.trans (hm.table_new hk' hp' hold').1.symm)

/-- 次のページから上は空いたままである。 -/
theorem Growing.map_new (h : Growing m lo p) (hlo : lo ≤ p / 1024) (hp : p < 2 ^ 20) (hm : MapsNew m m' p new) :
    Growing m' lo (p + 1) := by
  have hdir := h.directory.map_new hm
  have hpd : p / 1024 < 1024 := by omega
  have hbelow : ∀ k, k < 1024 → present (dir_entry m' k) = true → table_at m' k = 0 → k * 1024 < p + 1 := by
    intro k hk hpk ht
    cases hold : present (dir_entry m k) with
    | true =>
      rw [hm.table_eq hk hold] at ht
      have := h.below k hk hold ht
      omega
    | false =>
      obtain ⟨rfl, -⟩ := hm.table_new hk hpk hold
      omega
  refine ⟨hdir, fun w hw hlt => ?_, hbelow⟩
  have hw' : w / 1024 < 1024 := by omega
  have hnot : ¬ SameEntry m' w p := by
    rintro (rfl | ⟨hmod, hpw, hpp, heq⟩)
    · omega
    · rcases hdir.own (p / 1024) (w / 1024) hlo hpd hw' hpp hpw heq.symm with hk | hz
      · omega
      · have := hbelow (w / 1024) hw' hpw (heq.trans hz)
        omega
  rw [hm.mapping w hw', if_neg hnot, h.unmapped w (by omega) hlt, ite_self]

/-- ブロック 0 に表がなければ、写像は一点だけ変わる。 -/
theorem Growing.map_new_mapping (h : Growing m lo p) (hz : NoZeroTable m) (hlo : lo ≤ p / 1024) (hp : p < 2 ^ 20)
    (hm : MapsNew m m' p new) (hw : w < 2 ^ 20) : Mem.mapping m' w = if w = p then new else Mem.mapping m w := by
  have hw' : w / 1024 < 1024 := by omega
  have hpd : p / 1024 < 1024 := by omega
  have hwiped : ¬ Wiped m (p / 1024) w := fun ⟨_, hpw, heq⟩ => (h.directory.fresh hz).table _ hw' hpw heq
  have hsame : SameEntry m' w p ↔ w = p := by
    refine ⟨?_, .inl⟩
    rintro (heq | ⟨hmod, hpw, hpp, heq⟩)
    · exact heq
    · by_cases hk : w / 1024 = p / 1024
      · omega
      · rw [hm.dir _ hw' hk] at hpw
        rw [hm.table_eq hw' hpw] at heq
        cases hold : present (dir_entry m (p / 1024)) with
        | true =>
          rw [hm.table_eq hpd hold] at heq
          rcases h.directory.own _ _ hlo hpd hw' hold hpw heq.symm with hk' | hz'
          · exact absurd hk'.symm hk
          · exact absurd hz' (hz _ hpd hold)
        | false =>
          rw [(hm.table_new hpd hpp hold).2] at heq
          exact absurd heq.symm (alloc_blocks_ne (h.directory.table _ hw' hpw) (hz _ hw' hpw))
  rw [hm.mapping w hw', if_neg hwiped]
  by_cases h' : w = p
  · rw [if_pos h', if_pos (hsame.mpr h')]
  · rw [if_neg h', if_neg fun hs => h' (hsame.mp hs)]

theorem NoZeroTable.map_new (hz : NoZeroTable m) (hm : MapsNew m m' p new)
    (hroom : present (dir_entry m (p / 1024)) = true ∨ (alloc_blocks m).2 ≠ 0) : NoZeroTable m' := by
  intro k hk hp
  cases hold : present (dir_entry m k) with
  | true =>
    rw [hm.table_eq hk hold]
    exact hz k hk hold
  | false =>
    obtain ⟨rfl, ht⟩ := hm.table_new hk hp hold
    rw [ht]
    exact hroom.resolve_left (by rw [hold]; decide)

end

/-! ## 一枚足す -/

/-- 足したページの項目。 -/
def kernel_page (block : Nat) : Option (Nat × Nat) := some (block, PAGE_PRESENT ||| PAGE_RW)

theorem Growing.map_block (h : Growing m lo p) (hp : p < 2 ^ 20) :
    MapsNew (alloc_blocks m).1 (Mem.map_block m (p * 4096)) p (kernel_page (alloc_blocks m).2) := by
  obtain ⟨-, -, -, hal, hlt⟩ := alloc_blocks_rest m
  have ha := h.alloc
  have hdiv : p * 4096 / 4096 = p := by omega
  have hvirt : p * 4096 < 2 ^ 32 := by omega
  have hm := ha.directory.separate.map_new ha.directory.apart hvirt
    (by rw [hdiv]; exact ha.unmapped p (Nat.le_refl p) hp) hal (by omega)
  rw [hdiv] at hm
  exact hm

/-- 足すページの表がなければ一つ、ページに一つ使う。 -/
theorem Growing.map_block_count (h : Growing m lo p) (hp : p < 2 ^ 20) :
    free_count (Mem.map_block m (p * 4096)) =
      free_count m - 1 - if present (dir_entry m (p / 1024)) then 0 else 1 := by
  rw [(h.map_block hp).count, alloc_blocks_count, (alloc_blocks_words m).dir]

theorem Growing.map_block_next (h : Growing m lo p) (hlo : lo ≤ p / 1024) (hp : p < 2 ^ 20) :
    Growing (Mem.map_block m (p * 4096)) lo (p + 1) :=
  h.alloc.map_new hlo hp (h.map_block hp)

theorem NoZeroTable.alloc (h : NoZeroTable m) : NoZeroTable (alloc_blocks m).1 := by
  intro k hk hp
  have hs := alloc_blocks_words m
  rw [hs.dir] at hp
  rw [hs.table]
  exact h k hk hp

theorem Growing.map_block_mapping (h : Growing m lo p) (hz : NoZeroTable m) (hlo : lo ≤ p / 1024) (hp : p < 2 ^ 20)
    (hw : w < 2 ^ 20) :
    mapping (Mem.map_block m (p * 4096)) w = if w = p then kernel_page (alloc_blocks m).2 else mapping m w := by
  rw [h.alloc.map_new_mapping hz.alloc hlo hp (h.map_block hp) hw, (alloc_blocks_words m).mapping]

/-! ## 続けて足す -/

theorem map_blocks_succ (m : Phys) (base start n : Nat) :
    map_blocks m base start (n + 1) =
      map_block (map_blocks m base start n) (add32 base (mul32 (start + n) BLOCK_SIZE)) := by
  unfold map_blocks
  rw [List.range_succ, List.foldl_append]
  rfl

/-- `n` 枚足した後の状態。割り当てに失敗しても成り立つ。 -/
structure Run (m₀ m : Phys) (lo p n : Nat) : Prop where
  growing : Growing m lo (p + n)
  count : free_count m = free_count m₀ - (n + tables_needed m₀ p n)
  dir : ∀ k, k < 1024 →
    (present (dir_entry m k) = true ↔ present (dir_entry m₀ k) = true ∨ ∃ j, j < n ∧ (p + j) / 1024 = k)
  used : ∀ a, Used m₀ a → Used m a

/-- 表の最初のページでは、その表をまだ開いていない。 -/
theorem visited_iff (p n : Nat) :
    (∃ j, j < n ∧ (p + j) / 1024 = (p + n) / 1024) ↔ n ≠ 0 ∧ (p + n) % 1024 ≠ 0 := by
  constructor
  · rintro ⟨j, hj, heq⟩
    omega
  · rintro ⟨hn, hmod⟩
    exact ⟨n - 1, by omega, by omega⟩

theorem Run.step (h : Run m₀ m lo p n) (hlo : lo ≤ p / 1024) (hp : p + n < 2 ^ 20) :
    Run m₀ (map_block m ((p + n) * 4096)) lo p (n + 1) := by
  have hlo' : lo ≤ (p + n) / 1024 := by omega
  have hm := h.growing.map_block hp
  have hpd : (p + n) / 1024 < 1024 := by omega
  refine ⟨h.growing.map_block_next hlo' hp, ?_, fun k hk => ?_, fun a ha => ?_⟩
  · have hvisit : present (dir_entry m ((p + n) / 1024)) = true ↔
        present (dir_entry m₀ ((p + n) / 1024)) = true ∨ n ≠ 0 ∧ (p + n) % 1024 ≠ 0 := by
      rw [h.dir _ hpd, visited_iff]
    rw [h.growing.map_block_count hp, h.count]
    show _ = _ - (n + 1 + (tables_needed m₀ p n +
      if present (dir_entry m₀ ((p + n) / 1024)) = true ∨ n ≠ 0 ∧ (p + n) % 1024 ≠ 0 then 0 else 1))
    by_cases hv : present (dir_entry m ((p + n) / 1024)) = true
    · rw [if_pos hv, if_pos (hvisit.mp hv)]
      omega
    · rw [if_neg hv, if_neg fun hc => hv (hvisit.mpr hc)]
      omega
  · rw [hm.dir_iff hk, (alloc_blocks_words m).dir, h.dir k hk, or_assoc]
    refine or_congr_right ⟨?_, ?_⟩
    · rintro (⟨j, hj, heq⟩ | rfl)
      · exact ⟨j, by omega, heq⟩
      · exact ⟨n, by omega, rfl⟩
    · rintro ⟨j, hj, heq⟩
      by_cases hjn : j = n
      · subst hjn
        exact .inr heq.symm
      · exact .inl ⟨j, by omega, heq⟩
  · exact hm.used (alloc_blocks_used m (h.used a ha))

/-- 足すページの番地は折り返さない。 -/
def Straight (base start p n : Nat) : Prop :=
  ∀ i, i < n → add32 base (mul32 (start + i) BLOCK_SIZE) = (p + i) * 4096

theorem Growing.run (h : Growing m lo p) (hlo : lo ≤ p / 1024) (hp : p + n ≤ 2 ^ 20)
    (hs : Straight base start p n) : Run m (map_blocks m base start n) lo p n := by
  induction n with
  | zero =>
    refine ⟨h, (Nat.sub_zero _).symm, fun k _ => ?_, fun _ => id⟩
    show present (dir_entry m k) = true ↔ _
    simp
  | succ n ih =>
    rw [map_blocks_succ, hs n (Nat.lt_succ_self n)]
    exact (ih (by omega) fun i hi => hs i (by omega)).step hlo (by omega)

/-! ## すべてのページにブロックがある -/

/-- 足したページは、空いていた別々のブロックに写り、ほかのページは変わらない。 -/
structure Backs (m₀ m : Phys) (frame : Nat → Nat) (p n : Nat) : Prop where
  mapping : ∀ w, w < 2 ^ 20 →
    Mem.mapping m w = if p ≤ w ∧ w < p + n then kernel_page (frame (w - p)) else Mem.mapping m₀ w
  free : ∀ j, j < n → m₀.mem_bitmap (frame j / 4096) = true
  used : ∀ j, j < n → Used m (frame j)
  inj : ∀ j j', j < n → j' < n → frame j = frame j' → j = j'

theorem Backs.step {frame : Nat → Nat} (h : Backs m₀ m frame p n) (hr : Run m₀ m lo p n) (hz : NoZeroTable m)
    (hlo : lo ≤ p / 1024) (hp : p + n < 2 ^ 20) (hcount : 0 < free_count m) (hframe : frame n = (alloc_blocks m).2) :
    Backs m₀ (map_block m ((p + n) * 4096)) frame p (n + 1) := by
  have ha := alloc_blocks_some hcount
  have hm := hr.growing.map_block hp
  have hlast : ∀ j, j < n → frame j ≠ frame n := by
    intro j hj heq
    rw [hframe] at heq
    exact ha.fresh.ne_of_used (h.used j hj) heq
  refine ⟨fun w hw => ?_, fun j hj => ?_, fun j hj => ?_, fun j j' hj hj' heq => ?_⟩
  · rw [hr.growing.map_block_mapping hz (by omega) hp hw, h.mapping w hw, ← hframe]
    by_cases hwn : w = p + n
    · subst hwn
      rw [if_pos rfl, if_pos (by omega), Nat.add_sub_cancel_left]
    · rw [if_neg hwn]
      exact if_congr (by omega) rfl rfl
  · by_cases hjn : j = n
    · -- いま空いているブロックは、はじめから空いている
      subst hjn
      rw [hframe]
      cases hf : m₀.mem_bitmap ((alloc_blocks m).2 / 4096) with
      | true => rfl
      | false => exact absurd rfl (ha.fresh.ne_of_used (hr.used _ hf))
    · exact h.free j (by omega)
  · by_cases hjn : j = n
    · subst hjn
      rw [hframe]
      exact hm.used ha.fresh.used
    · exact hm.used (alloc_blocks_used m (h.used j (by omega)))
  · by_cases hjn : j = n <;> by_cases hjn' : j' = n
    · omega
    · subst hjn
      exact absurd heq.symm (hlast j' (by omega))
    · subst hjn'
      exact absurd heq (hlast j (by omega))
    · exact h.inj j j' (by omega) (by omega) heq

/-- 表を作るブロックもあれば、ブロック 0 に表はできない。 -/
theorem Run.no_zero (hr : Run m₀ m lo p n) (hz : NoZeroTable m) (hzero : Used m 0) (hp : p + n < 2 ^ 20)
    (hcount : present (dir_entry m ((p + n) / 1024)) = true ∨ 2 ≤ free_count m) :
    NoZeroTable (map_block m ((p + n) * 4096)) := by
  refine hz.alloc.map_new (hr.growing.map_block hp) ?_
  rw [(alloc_blocks_words m).dir]
  refine hcount.imp_right fun h2 => ?_
  have ha := alloc_blocks_some (m := (alloc_blocks m).1) (by rw [alloc_blocks_count]; omega)
  exact (ha.fresh.ne_of_used (alloc_blocks_used m hzero)).symm

theorem block_at_eq (m : Phys) (base start i : Nat) :
    block_at m base start (start + i) = (alloc_blocks (map_blocks m base start i)).2 := by
  rw [block_at, Nat.add_sub_cancel_left]

/-- ページと表のブロックが足りる。 -/
theorem Growing.backs (h : Growing m lo p) (hz : NoZeroTable m) (hlo : lo ≤ p / 1024) (hp : p + n ≤ 2 ^ 20)
    (hs : Straight base start p n) (hcount : n + tables_needed m p n ≤ free_count m) :
    Backs m (map_blocks m base start n) (fun j => block_at m base start (start + j)) p n ∧
      NoZeroTable (map_blocks m base start n) := by
  induction n with
  | zero =>
    refine ⟨⟨fun w _ => ?_, fun j hj => ?_, fun j hj => ?_, fun j j' hj => ?_⟩, hz⟩
    · rw [if_neg (by omega)]
      rfl
    all_goals omega
  | succ n ih =>
    have hs' : Straight base start p n := fun i hi => hs i (by omega)
    have hmiss : tables_needed m p n ≤ tables_needed m p (n + 1) := Nat.le_add_right _ _
    obtain ⟨hb, hz'⟩ := ih (by omega) hs' (by omega)
    have hr := h.run hlo (by omega) hs'
    have hrc := hr.count
    rw [map_blocks_succ, hs n (Nat.lt_succ_self n)]
    refine ⟨hb.step hr hz' hlo (by omega) (by omega) (block_at_eq ..), ?_⟩
    refine hr.no_zero hz' (hr.used 0 h.directory.zero) (by omega) ?_
    by_cases hpd : present (dir_entry (map_blocks m base start n) ((p + n) / 1024)) = true
    · exact .inl hpd
    · right
      rw [hr.dir _ (by omega), visited_iff] at hpd
      have hone : tables_needed m p (n + 1) = tables_needed m p n + 1 := congrArg _ (if_neg hpd)
      omega

/-- 最後のページの表は、ブロック 0 にあってもよい。 -/
theorem Growing.backs_last (h : Growing m lo p) (hz : NoZeroTable m) (hlo : lo ≤ p / 1024) (hp : p + (n + 1) ≤ 2 ^ 20)
    (hs : Straight base start p (n + 1)) (hcount : n + 1 + tables_needed m p n ≤ free_count m) :
    Backs m (map_blocks m base start (n + 1)) (fun j => block_at m base start (start + j)) p (n + 1) := by
  have hs' : Straight base start p n := fun i hi => hs i (by omega)
  obtain ⟨hb, hz'⟩ := h.backs hz hlo (by omega) hs' (by omega)
  have hr := h.run hlo (by omega) hs'
  have hrc := hr.count
  rw [map_blocks_succ, hs n (Nat.lt_succ_self n)]
  exact hb.step hr hz' hlo (by omega) (by omega) (block_at_eq ..)

/-- 足りなければ、最後のページはブロック 0 に写る。 -/
theorem Growing.last_zero (h : Growing m lo p) (hlo : lo ≤ p / 1024) (hp : p + (n + 1) ≤ 2 ^ 20)
    (hs : Straight base start p (n + 1)) (hcount : free_count m < n + 1 + tables_needed m p n) :
    mapping (map_blocks m base start (n + 1)) (p + n) = kernel_page 0 := by
  have hs' : Straight base start p n := fun i hi => hs i (by omega)
  have hr := h.run hlo (by omega) hs'
  have hrc := hr.count
  rw [map_blocks_succ, hs n (Nat.lt_succ_self n)]
  have hm := hr.growing.map_block (by omega)
  have hzero : (alloc_blocks (map_blocks m base start n)).2 = 0 := by
    rcases alloc_blocks_cases (map_blocks m base start n) with ⟨heq, -⟩ | ha
    · rw [heq]
    · have := ha.count
      omega
  rw [hm.mapping _ (by omega), if_pos (.inl rfl), hzero]

end MyOS.Mem
