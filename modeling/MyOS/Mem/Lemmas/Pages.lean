import MyOS.Mem.Lemmas.Tables

/-! 今のディレクトリを、ページ番号からブロックと下位のビットへの部分写像として見る。 -/

namespace MyOS.Mem
open MyOS.Lib

variable {m m' : Phys} {a e f i j k p t v w phys virt : Nat}

/-- 項目の指すブロックと、下位のビット。 -/
def page_of_entry (e : Nat) : Option (Nat × Nat) := if present e then some (page_addr e, e % 4096) else none

/-- ページ番号 `p` のページ。 -/
def mapping (m : Phys) (p : Nat) : Option (Nat × Nat) :=
  if present (dir_entry m (p / 1024)) then page_of_entry (page_entry m (p / 1024) (p % 1024)) else none

/-- 二つのページの項目が、物理メモリの同じ語である。 -/
def SameEntry (m : Phys) (w p : Nat) : Prop :=
  w = p ∨ w % 1024 = p % 1024 ∧ present (dir_entry m (w / 1024)) = true ∧
    present (dir_entry m (p / 1024)) = true ∧ table_at m (w / 1024) = table_at m (p / 1024)

instance : Decidable (SameEntry m w p) := inferInstanceAs (Decidable (_ ∨ _))

/-- 表のブロックは、今のディレクトリのものでもカーネルのディレクトリのものでもない。 -/
structure Separate (m : Phys) : Prop where
  cur : Aligned m.cur_page_dir
  kernel : Aligned m.kernel_page_dir
  table : ∀ k, k < 1024 → present (dir_entry m k) = true →
    table_at m k ≠ m.cur_page_dir ∧ table_at m k ≠ m.kernel_page_dir

/-- 新しい表になるブロックは、ディレクトリに使われていない。 -/
structure ApartTable (m : Phys) : Prop where
  cur : (alloc_blocks m).2 ≠ m.cur_page_dir
  kernel : (alloc_blocks m).2 ≠ m.kernel_page_dir

/-- 新しい表になるブロックは、ディレクトリにも表にも使われていない。 -/
structure FreshTable (m : Phys) : Prop extends ApartTable m where
  table : ∀ k, k < 1024 → present (dir_entry m k) = true → table_at m k ≠ (alloc_blocks m).2

/-- 使っているディレクトリと表は、新しい表にならない。 -/
theorem FreshTable.of_used (hcount : 0 < free_count m) (hcur : Used m m.cur_page_dir)
    (hkernel : Used m m.kernel_page_dir)
    (htable : ∀ k, k < 1024 → present (dir_entry m k) = true → Used m (table_at m k)) : FreshTable m := by
  have hf := (alloc_blocks_some hcount).fresh
  exact ⟨⟨(hf.ne_of_used hcur).symm, (hf.ne_of_used hkernel).symm⟩, fun k hk hp => hf.ne_of_used (htable k hk hp)⟩

/-- 割り当てが変えるのは割り当て表だけである。 -/
theorem alloc_blocks_rest (m : Phys) :
    (alloc_blocks m).1.ram = m.ram ∧ (alloc_blocks m).1.cur_page_dir = m.cur_page_dir ∧
      (alloc_blocks m).1.kernel_page_dir = m.kernel_page_dir ∧ Aligned (alloc_blocks m).2 ∧
        (alloc_blocks m).2 + 7 < 2 ^ 32 := by
  rcases alloc_blocks_cases m with ⟨heq, -⟩ | ha
  · rw [heq]
    exact ⟨rfl, rfl, rfl, rfl, show 0 + 7 < 2 ^ 32 by decide⟩
  · have hal := ha.fresh.aligned
    have hlt := ha.fresh.lt
    refine ⟨ha.ram, by rw [ha.rest], by rw [ha.rest], hal, ?_⟩
    unfold Aligned at hal
    omega

/-- ページ表のほうだけが同じ状態。 -/
structure SameWords (m m' : Phys) : Prop where
  ram : m'.ram = m.ram
  cur : m'.cur_page_dir = m.cur_page_dir
  kernel : m'.kernel_page_dir = m.kernel_page_dir

theorem SameWords.dir (h : SameWords m m') (k : Nat) : dir_entry m' k = dir_entry m k := by
  unfold dir_entry
  rw [h.ram, h.cur]

theorem SameWords.separate (h : SameWords m m') (hs : Separate m) : Separate m' := by
  refine ⟨h.cur ▸ hs.cur, h.kernel ▸ hs.kernel, fun k hk hp => ?_⟩
  rw [h.dir] at hp
  rw [table_at, h.dir, h.cur, h.kernel]
  exact hs.table k hk hp

theorem SameWords.mapping (h : SameWords m m') : Mem.mapping m' p = Mem.mapping m p := by
  unfold Mem.mapping page_entry table_at
  rw [h.dir, h.ram]

theorem free_blocks_words (m : Phys) (a : Nat) : SameWords m (free_blocks m a) := by
  unfold free_blocks
  dsimp only
  split
  · exact ⟨rfl, rfl, rfl⟩
  · split <;> exact ⟨rfl, rfl, rfl⟩

/-! ## 表を開く -/

/-- 新しい表のブロックがほかの表と同じなら、その表は消される。 -/
def Wiped (m : Phys) (pd p : Nat) : Prop :=
  present (dir_entry m pd) = false ∧ present (dir_entry m (p / 1024)) = true ∧
    table_at m (p / 1024) = (alloc_blocks m).2

instance {pd : Nat} : Decidable (Wiped m pd p) := inferInstanceAs (Decidable (_ ∧ _))

/-- `pd` の表がある。なければ割り当てた。 -/
structure HasTable (m m' : Phys) (pd : Nat) : Prop where
  separate : Separate m'
  cur : m'.cur_page_dir = m.cur_page_dir
  kernel : m'.kernel_page_dir = m.kernel_page_dir
  bitmap : m'.mem_bitmap = if present (dir_entry m pd) then m.mem_bitmap else (alloc_blocks m).1.mem_bitmap
  here : present (dir_entry m' pd) = true
  dir : ∀ k, k < 1024 → k ≠ pd → dir_entry m' k = dir_entry m k
  table : table_at m' pd = if present (dir_entry m pd) then table_at m pd else (alloc_blocks m).2

/-- 表を開いただけで、ページは書いていない。 -/
structure Opened (m m' : Phys) (pd : Nat) : Prop extends HasTable m m' pd where
  mapping : ∀ p, p / 1024 < 1024 → Mem.mapping m' p = if Wiped m pd p then none else Mem.mapping m p

theorem Separate.opened_self (h : Separate m) {pd : Nat} (hp : present (dir_entry m pd) = true) : Opened m m pd := by
  refine ⟨⟨h, rfl, rfl, by rw [if_pos hp], hp, fun _ _ _ => rfl, by rw [if_pos hp]⟩, fun p _ => ?_⟩
  rw [if_neg]
  rintro ⟨hc, -⟩
  cases hc.symm.trans hp

/-- ほかの表が消されなければ、写像は変わらない。 -/
theorem Opened.mapping_fresh {pd : Nat} (h : Opened m m' pd)
    (hf : present (dir_entry m pd) = false → FreshTable m) (hp : p / 1024 < 1024) :
    Mem.mapping m' p = Mem.mapping m p := by
  rw [h.mapping p hp, if_neg]
  rintro ⟨hpd, hpp, heq⟩
  exact (hf hpd).table _ hp hpp heq

theorem HasTable.table_of_ne {pd : Nat} (h : HasTable m m' pd) (hk : k < 1024) (hne : k ≠ pd) :
    table_at m' k = table_at m k := by
  rw [table_at, table_at, h.dir k hk hne]

theorem Opened.same_fresh (h : Opened m m' (p / 1024)) (hf : present (dir_entry m (p / 1024)) = false → FreshTable m)
    (hw : w / 1024 < 1024) : SameEntry m' w p ↔ SameEntry m w p := by
  by_cases hpd : w / 1024 = p / 1024
  · -- 同じ表の中では、添字が同じときに限る
    have hself : ∀ n, SameEntry n w p ↔ w = p := by
      intro n
      refine ⟨?_, .inl⟩
      rintro (heq | ⟨hmod, -⟩)
      · exact heq
      · omega
    rw [hself, hself]
  · have hdir := h.dir _ hw hpd
    have htable := h.table_of_ne hw hpd
    have hne : w ≠ p := fun heq => hpd (by rw [heq])
    unfold SameEntry
    rw [hdir, htable, h.table]
    cases hp : present (dir_entry m (p / 1024)) with
    | true => simp [h.here]
    | false =>
      simp only [hne, false_or, Bool.false_eq_true, if_false, false_and, and_false, iff_false]
      rintro ⟨-, hpw, -, heq⟩
      exact (hf hp).table _ hw hpw heq

/-- 新しい表を置いた状態。 -/
def with_table (m : Phys) (pd e : Nat) : Phys :=
  let m' := ((alloc_blocks m).1.clear (alloc_blocks m).2).store32 (m.cur_page_dir + 4 * pd) e
  if KERNEL_PAGE_NUMBER ≤ pd then m'.store32 (m.kernel_page_dir + 4 * pd) e else m'

theorem get_page_absent (hp : present (dir_entry m (pd_index virt)) = false) (hf : f = 0 ∨ f = PAGE_USER) :
    get_page m virt f =
      (with_table m (pd_index virt) ((alloc_blocks m).2 + (3 + f)), (alloc_blocks m).2 + 4 * pt_index virt) := by
  obtain ⟨-, hcur, hkernel, hal, -⟩ := alloc_blocks_rest m
  have hlt : 3 + f < 4096 := by
    rcases hf with rfl | rfl <;> decide
  have he : (alloc_blocks m).2 ||| (PAGE_PRESENT ||| PAGE_RW) ||| f = (alloc_blocks m).2 + (3 + f) := by
    rw [Nat.or_assoc]
    rcases hf with rfl | rfl
    · exact or_flags hal (by decide)
    · exact or_flags hal (by decide)
  have hnot : ¬ present (pde m.ram m.cur_page_dir (pd_index virt)) = true := Bool.eq_false_iff.mp hp
  rw [get_page, if_neg hnot]
  dsimp only
  rw [he, page_addr_add hal hlt, with_table, ← hcur, ← hkernel]
  rfl

/-- 新しい表を置いた後の語。 -/
theorem word_with_table (hs : Separate m) {pd b : Nat} (hpd : pd < 1024) (hb : Aligned b) (hj : j < 1024)
    (he : e < 2 ^ 32) :
    word (with_table m pd e).ram b j =
      if (b = m.cur_page_dir ∨ KERNEL_PAGE_NUMBER ≤ pd ∧ b = m.kernel_page_dir) ∧ j = pd then e
      else if b = (alloc_blocks m).2 then 0 else word m.ram b j := by
  obtain ⟨hram, -, -, hal, -⟩ := alloc_blocks_rest m
  have hbase : word (((alloc_blocks m).1.clear (alloc_blocks m).2).store32 (m.cur_page_dir + 4 * pd) e).ram b j =
      if b = m.cur_page_dir ∧ j = pd then e else if b = (alloc_blocks m).2 then 0 else word m.ram b j := by
    rw [word_store32 hs.cur hb hpd hj he, word_clear hal hb hj, hram]
  unfold with_table
  dsimp only
  by_cases hk : KERNEL_PAGE_NUMBER ≤ pd
  · rw [if_pos hk, word_store32 hs.kernel hb hpd hj he, hbase]
    by_cases hjp : j = pd <;> by_cases hbc : b = m.cur_page_dir <;> by_cases hbk : b = m.kernel_page_dir <;>
      simp [hk, hjp, hbc, hbk]
  · rw [if_neg hk, hbase]
    simp [hk]

theorem dir_with_table (hs : Separate m) (hf : ApartTable m) {pd : Nat} (hpd : pd < 1024) (hk : k < 1024)
    (he : e < 2 ^ 32) : dir_entry (with_table m pd e) k = if k = pd then e else dir_entry m k := by
  have hcur : (with_table m pd e).cur_page_dir = m.cur_page_dir := by
    obtain ⟨-, hcur, -⟩ := alloc_blocks_rest m
    unfold with_table
    dsimp only
    split <;> exact hcur
  unfold dir_entry
  rw [hcur, word_with_table hs hpd hs.cur hk he, if_neg (Ne.symm hf.cur)]
  simp

/-- 新しい表は空で、ほかの表は変わらない。 -/
theorem page_with_table (hs : Separate m) (hf : ApartTable m) {pd : Nat} (hpd : pd < 1024) (hk : k < 1024)
    (hj : j < 1024) (ha : Aligned a) (hlt : f < 4096) (hta : (alloc_blocks m).2 = a) (he : a + f < 2 ^ 32)
    (hp : k ≠ pd → present (dir_entry m k) = true) :
    table_at (with_table m pd (a + f)) k = (if k = pd then a else table_at m k) ∧
      page_entry (with_table m pd (a + f)) k j = if k = pd ∨ table_at m k = a then 0 else page_entry m k j := by
  have htable : table_at (with_table m pd (a + f)) k = if k = pd then a else table_at m k := by
    rw [table_at, dir_with_table hs hf hpd hk he]
    split
    · exact page_addr_add ha hlt
    · rfl
  refine ⟨htable, ?_⟩
  unfold page_entry
  rw [htable]
  by_cases hkp : k = pd
  · rw [if_pos hkp, if_pos (.inl hkp), word_with_table hs hpd ha hj he, if_pos hta.symm, if_neg]
    rintro ⟨hc | ⟨-, hc⟩, -⟩
    · exact hf.cur (hta.trans hc)
    · exact hf.kernel (hta.trans hc)
  · obtain ⟨hc, hk'⟩ := hs.table k hk (hp hkp)
    rw [if_neg hkp, word_with_table hs hpd (aligned_table m k) hj he, hta, if_neg]
    · simp [hkp]
    · rintro ⟨h | ⟨-, h⟩, -⟩
      · exact hc h
      · exact hk' h

theorem with_table_dirs (m : Phys) (pd e : Nat) :
    (with_table m pd e).cur_page_dir = m.cur_page_dir ∧ (with_table m pd e).kernel_page_dir = m.kernel_page_dir := by
  obtain ⟨-, hcur, hkernel, -⟩ := alloc_blocks_rest m
  unfold with_table
  dsimp only
  split <;> exact ⟨hcur, hkernel⟩

theorem with_table_bitmap (m : Phys) (pd e : Nat) : (with_table m pd e).mem_bitmap = (alloc_blocks m).1.mem_bitmap := by
  unfold with_table
  dsimp only
  split <;> rfl

/-- 空の表を置いても、表の変わらないページは変わらない。 -/
theorem Separate.opened_new (hs : Separate m) (hf : ApartTable m) {pd : Nat} (hpd : pd < 1024)
    (hp : present (dir_entry m pd) = false) (hlt : f < 4096) (hpf : present f = true)
    (he : (alloc_blocks m).2 + f < 2 ^ 32) : Opened m (with_table m pd ((alloc_blocks m).2 + f)) pd := by
  obtain ⟨-, -, -, hal, -⟩ := alloc_blocks_rest m
  obtain ⟨hcur, hkernel⟩ := with_table_dirs m pd ((alloc_blocks m).2 + f)
  have hdir : ∀ k, k < 1024 → dir_entry (with_table m pd ((alloc_blocks m).2 + f)) k =
      if k = pd then (alloc_blocks m).2 + f else dir_entry m k := fun k hk => dir_with_table hs hf hpd hk he
  have hpage : ∀ k j, k < 1024 → j < 1024 → (k ≠ pd → present (dir_entry m k) = true) → _ :=
    fun k j hk hj => page_with_table hs hf hpd hk hj hal hlt rfl he
  have hself : present (dir_entry (with_table m pd ((alloc_blocks m).2 + f)) pd) = true := by
    rw [hdir pd hpd, if_pos rfl, present_add hal hlt]
    exact hpf
  have hold : ∀ k, k < 1024 → k ≠ pd → dir_entry (with_table m pd ((alloc_blocks m).2 + f)) k = dir_entry m k :=
    fun k hk hne => (hdir k hk).trans (if_neg hne)
  refine ⟨⟨⟨hcur ▸ hs.cur, hkernel ▸ hs.kernel, fun k hk hpk => ?_⟩, hcur, hkernel, ?_, hself, hold, ?_⟩,
    fun p hlp => ?_⟩
  · rw [hcur, hkernel]
    by_cases hk' : k = pd
    · rw [(hpage k 0 hk (by decide) fun h => absurd hk' h).1, if_pos hk']
      exact ⟨hf.cur, hf.kernel⟩
    · rw [hold k hk hk'] at hpk
      rw [(hpage k 0 hk (by decide) fun _ => hpk).1, if_neg hk']
      exact hs.table k hk hpk
  · rw [with_table_bitmap, hp]
    rfl
  · rw [(hpage pd 0 hpd (by decide) fun h => absurd rfl h).1, if_pos rfl, hp]
    rfl
  · have hj : p % 1024 < 1024 := Nat.mod_lt _ (by decide)
    unfold Mem.mapping
    by_cases hk' : p / 1024 = pd
    · have hor : pd = pd ∨ table_at m pd = (alloc_blocks m).2 := .inl rfl
      rw [hk', hself, hp, (hpage pd _ hpd hj fun h => absurd rfl h).2, if_pos hor]
      simp [page_of_entry, present]
    · rw [hold _ hlp hk']
      by_cases hpk : present (dir_entry m (p / 1024)) = true
      · rw [if_pos hpk, if_pos hpk, (hpage _ _ hlp hj fun _ => hpk).2]
        by_cases ht : table_at m (p / 1024) = (alloc_blocks m).2
        · have hor : p / 1024 = pd ∨ table_at m (p / 1024) = (alloc_blocks m).2 := .inr ht
          rw [if_pos hor, if_pos ⟨hp, hpk, ht⟩]
          simp [page_of_entry, present]
        · rw [if_neg fun h => h.elim hk' ht, if_neg fun h => ht h.2.2]
      · rw [if_neg hpk, if_neg hpk, ite_self]

/-- 項目の番地を返す。 -/
theorem Separate.get_page (hs : Separate m) (hf : present (dir_entry m (pd_index virt)) = false → ApartTable m)
    (hvirt : virt < 2 ^ 32) (h : f = 0 ∨ f = PAGE_USER) :
    Opened m (Mem.get_page m virt f).1 (pd_index virt) ∧
      (Mem.get_page m virt f).2 = table_at (Mem.get_page m virt f).1 (pd_index virt) + 4 * pt_index virt := by
  have hpd : pd_index virt < 1024 := by
    unfold pd_index
    omega
  by_cases hp : present (dir_entry m (pd_index virt)) = true
  · rw [get_page_present hp]
    exact ⟨hs.opened_self hp, rfl⟩
  · have hp := Bool.eq_false_iff.mpr hp
    obtain ⟨-, -, -, hal, hlt⟩ := alloc_blocks_rest m
    have hflags : 3 + f < 4096 ∧ present (3 + f) = true ∧ 3 + f ≤ 7 := by
      rcases h with rfl | rfl <;> decide
    obtain ⟨hf₁, hf₂, hf₃⟩ := hflags
    have he : (alloc_blocks m).2 + (3 + f) < 2 ^ 32 := by omega
    have htable := page_with_table (j := 0) hs (hf hp) hpd hpd (by decide) hal hf₁ rfl he fun h => absurd rfl h
    rw [get_page_absent hp h]
    refine ⟨hs.opened_new (hf hp) hpd hp hf₁ hf₂ he, ?_⟩
    rw [htable.1, if_pos rfl]

/-! ## 項目を書く -/

/-- 項目を書き換えた。同じ語を項目とするページだけが変わる。 -/
theorem Separate.store_page (hs : Separate m) {pd pt : Nat} (hpd : pd < 1024) (hpt : pt < 1024)
    (hp : present (dir_entry m pd) = true) (hv : v < 2 ^ 32) (hram : m'.ram = m.ram.store32 (table_at m pd + 4 * pt) v)
    (hcur : m'.cur_page_dir = m.cur_page_dir) (hkernel : m'.kernel_page_dir = m.kernel_page_dir) :
    Separate m' ∧ (∀ k, k < 1024 → dir_entry m' k = dir_entry m k) ∧ ∀ w, w / 1024 < 1024 →
      Mem.mapping m' w = if SameEntry m w (pd * 1024 + pt) then page_of_entry v else Mem.mapping m w := by
  have hdir : ∀ k, k < 1024 → dir_entry m' k = dir_entry m k := by
    intro k hk
    unfold dir_entry
    rw [hram, hcur, word_store (aligned_table m pd) hs.cur hpt hk hv, if_neg]
    rintro ⟨hc, -⟩
    exact (hs.table pd hpd hp).1 hc.symm
  have htable : ∀ k, k < 1024 → table_at m' k = table_at m k := fun k hk => by rw [table_at, table_at, hdir k hk]
  have hdiv : (pd * 1024 + pt) / 1024 = pd := by omega
  have hmod : (pd * 1024 + pt) % 1024 = pt := by omega
  refine ⟨⟨hcur ▸ hs.cur, hkernel ▸ hs.kernel, fun k hk hpk => ?_⟩, hdir, fun w hw => ?_⟩
  · rw [hdir k hk] at hpk
    rw [htable k hk, hcur, hkernel]
    exact hs.table k hk hpk
  · have hj : w % 1024 < 1024 := Nat.mod_lt _ (by decide)
    unfold Mem.mapping page_entry
    rw [hdir _ hw, htable _ hw, hram, word_store (aligned_table m pd) (aligned_table m _) hpt hj hv]
    by_cases hpw : present (dir_entry m (w / 1024)) = true
    · have hiff : SameEntry m w (pd * 1024 + pt) ↔ table_at m (w / 1024) = table_at m pd ∧ w % 1024 = pt := by
        unfold SameEntry
        rw [hdiv, hmod]
        constructor
        · rintro (rfl | ⟨h, -, -, heq⟩)
          · rw [hdiv]
            exact ⟨rfl, hmod⟩
          · exact ⟨heq, h⟩
        · rintro ⟨heq, h⟩
          exact .inr ⟨h, hpw, hp, heq⟩
      rw [if_pos hpw]
      by_cases hsame : SameEntry m w (pd * 1024 + pt)
      · rw [if_pos hsame, if_pos (hiff.mp hsame)]
      · rw [if_neg hsame, if_neg fun h => hsame (hiff.mpr h), if_pos hpw]
    · have hnot : ¬ SameEntry m w (pd * 1024 + pt) := by
        rintro (rfl | ⟨-, h, -⟩)
        · rw [hdiv] at hpw
          exact hpw hp
        · exact hpw h
      rw [if_neg hpw, if_neg hnot, if_neg hpw]

/-! ## 前のページ -/

/-- 前にあったページの、0 でも `keep` でもないブロックを解放する。 -/
def release (m : Phys) (keep : Option Nat) : Option (Nat × Nat) → Phys
  | none => m
  | some (block, _) => if block = 0 ∨ keep = some block then m else free_blocks m block

theorem virt_index (virt : Nat) : pd_index virt * 1024 + pt_index virt = virt / 4096 := by
  unfold pd_index pt_index
  omega

theorem virt_div (virt : Nat) : virt / 4096 / 1024 = pd_index virt ∧ virt / 4096 % 1024 = pt_index virt := by
  unfold pd_index pt_index
  omega

theorem pd_index_lt (h : virt < 2 ^ 32) : pd_index virt < 1024 := by
  unfold pd_index
  omega

/-- 表があるページの写像。 -/
theorem mapping_virt (h : present (dir_entry m (pd_index virt)) = true) :
    mapping m (virt / 4096) = page_of_entry (m.ram.load32 (table_at m (pd_index virt) + 4 * pt_index virt)) := by
  obtain ⟨hd, hm⟩ := virt_div virt
  rw [mapping, hd, hm, if_pos h]
  rfl

theorem mapping_absent (h : present (dir_entry m (pd_index virt)) = false) : mapping m (virt / 4096) = none := by
  obtain ⟨hd, -⟩ := virt_div virt
  rw [mapping, hd, h]
  rfl

theorem release_words (m : Phys) (keep : Option Nat) (old : Option (Nat × Nat)) :
    SameWords m (release m keep old) := by
  cases old with
  | none => exact ⟨rfl, rfl, rfl⟩
  | some page =>
    unfold release
    dsimp only
    split
    · exact ⟨rfl, rfl, rfl⟩
    · exact free_blocks_words m page.1

theorem replace_page_release (m : Phys) (page phys : Nat) :
    replace_page m page phys = release m (some phys) (page_of_entry (m.ram.load32 page)) := by
  unfold replace_page page_of_entry
  dsimp only
  by_cases hp : present (m.ram.load32 page) = true
  · rw [if_pos hp]
    unfold release
    by_cases h₀ : page_addr (m.ram.load32 page) = 0
    · simp [h₀]
    · by_cases hk : page_addr (m.ram.load32 page) = phys
      · simp [hk]
      · simp [h₀, hk, hp, Ne.symm hk]
  · simp [hp, release]

theorem page_of_entry_add (ha : Aligned a) {f : Nat} (hf : f < 4096) (hp : present f = true) :
    page_of_entry (a + f) = some (a, f) := by
  rw [page_of_entry, present_add ha hf, if_pos hp, page_addr_add ha hf]
  unfold Aligned at ha
  have hmod : (a + f) % 4096 = f := by omega
  rw [hmod]

end MyOS.Mem
