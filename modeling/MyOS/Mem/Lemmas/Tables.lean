import MyOS.Mem.Lemmas.Copy
import MyOS.Mem.Vmm

/-! 今のディレクトリのユーザの側。ディレクトリと表とページは、それぞれ別のブロックを使う。 -/

namespace MyOS.Mem
open MyOS.Lib

variable {m m' : Phys} {a b i j v t virt : Nat}

/-- ディレクトリの項目と表の番地、ページの項目。 -/
def dir_entry (m : Phys) (i : Nat) : Nat := word m.ram m.cur_page_dir i
def table_at (m : Phys) (i : Nat) : Nat := page_addr (dir_entry m i)
def page_entry (m : Phys) (i j : Nat) : Nat := word m.ram (table_at m i) j

/-- ブロックの使い道。 -/
inductive Slot
  | dir
  | table (i : Nat)
  | page (i j : Nat)
deriving DecidableEq

def Live (m : Phys) : Slot → Prop
  | .dir => True
  | .table i => i < KERNEL_PAGE_NUMBER ∧ present (dir_entry m i) = true
  | .page i j => (i < KERNEL_PAGE_NUMBER ∧ present (dir_entry m i) = true) ∧ j < 1024 ∧
      present (page_entry m i j) = true

def frame (m : Phys) : Slot → Nat
  | .dir => m.cur_page_dir
  | .table i => table_at m i
  | .page i j => page_addr (page_entry m i j)

structure Tables (m : Phys) : Prop where
  zero : Used m 0
  aligned : Aligned m.cur_page_dir
  used : ∀ s, Live m s → Used m (frame m s)
  inj : ∀ s s', Live m s → Live m s' → frame m s = frame m s' → s = s'

theorem aligned_table (m : Phys) (i : Nat) : Aligned (table_at m i) := aligned_page_addr _

theorem Tables.frame_aligned (h : Tables m) (s : Slot) : Aligned (frame m s) := by
  cases s with
  | dir => exact h.aligned
  | table i => exact aligned_page_addr _
  | page i j => exact aligned_page_addr _

theorem Tables.table_ne_dir (h : Tables m) (hi : Live m (.table i)) : table_at m i ≠ m.cur_page_dir := fun heq =>
  Slot.noConfusion (h.inj (.table i) .dir hi trivial heq)

/-- 使い道 `x` のほかは前の状態と同じである。 -/
theorem Tables.change (h : Tables m) (x : Slot) (hzero : Used m' 0) (hcur : m'.cur_page_dir = m.cur_page_dir)
    (hold : ∀ s, Live m' s → s ≠ x → Live m s ∧ frame m' s = frame m s)
    (hused : ∀ s, Live m s → s ≠ x → Used m' (frame m s))
    (hnew : Live m' x → Used m' (frame m' x) ∧ ∀ s, Live m s → s ≠ x → frame m s ≠ frame m' x) : Tables m' := by
  refine ⟨hzero, by rw [hcur]; exact h.aligned, fun s hs => ?_, fun s s' hs hs' heq => ?_⟩
  · by_cases hne : s = x
    · subst hne
      exact (hnew hs).1
    · obtain ⟨hs, hf⟩ := hold s hs hne
      rw [hf]
      exact hused s hs hne
  · by_cases hne : s = x <;> by_cases hne' : s' = x
    · rw [hne, hne']
    · subst hne
      obtain ⟨hl', hf'⟩ := hold s' hs' hne'
      rw [hf'] at heq
      exact absurd heq.symm ((hnew hs).2 s' hl' hne')
    · subst hne'
      obtain ⟨hl, hf⟩ := hold s hs hne
      rw [hf] at heq
      exact absurd heq ((hnew hs').2 s hl hne)
    · obtain ⟨hl, hf⟩ := hold s hs hne
      obtain ⟨hl', hf'⟩ := hold s' hs' hne'
      rw [hf, hf'] at heq
      exact h.inj s s' hl hl' heq

/-- 表の項目を一つ書き換えた状態の項目。 -/
theorem Tables.store_words (h : Tables m) (hi : Live m (.table i)) (hj : j < 1024) (hv : v < 2 ^ 32)
    (hram : m'.ram = m.ram.store32 (table_at m i + 4 * j) v) (hcur : m'.cur_page_dir = m.cur_page_dir) :
    (∀ k, k < 1024 → dir_entry m' k = dir_entry m k) ∧
      ∀ k l, Live m (.table k) → l < 1024 →
        page_entry m' k l = if k = i ∧ l = j then v else page_entry m k l := by
  have hdir : ∀ k, k < 1024 → dir_entry m' k = dir_entry m k := by
    intro k hk
    unfold dir_entry
    rw [hram, hcur, word_store (aligned_table m i) h.aligned hj hk hv,
      if_neg fun hc => h.table_ne_dir hi hc.1.symm]
  refine ⟨hdir, fun k l hk hl => ?_⟩
  have hk' : k < 1024 := Nat.lt_trans hk.1 (by decide)
  have htab : table_at m' k = table_at m k := by rw [table_at, table_at, hdir k hk']
  unfold page_entry
  rw [htab, hram, word_store (aligned_table m i) (aligned_table m k) hj hl hv]
  by_cases hki : k = i
  · subst hki
    simp
  · have hne : table_at m k ≠ table_at m i := fun hc =>
      hki (by simpa using h.inj (.table k) (.table i) hk hi hc)
    rw [if_neg fun hc => hne hc.1, if_neg fun hc => hki hc.1]

/-- 項目を一つ書き換えても、ほかのブロックの使い道は変わらない。 -/
theorem Tables.store (h : Tables m) (hi : Live m (.table i)) (hj : j < 1024) (hv : v < 2 ^ 32)
    (hram : m'.ram = m.ram.store32 (table_at m i + 4 * j) v) (hcur : m'.cur_page_dir = m.cur_page_dir)
    (hzero : Used m' 0) (hused : ∀ s, Live m s → s ≠ .page i j → Used m' (frame m s))
    (hnew : present v = true → Used m' (page_addr v) ∧
      ∀ s, Live m s → s ≠ .page i j → frame m s ≠ page_addr v) : Tables m' := by
  obtain ⟨hdir, hpage⟩ := h.store_words hi hj hv hram hcur
  have htable : ∀ {k}, k < KERNEL_PAGE_NUMBER → dir_entry m' k = dir_entry m k :=
    fun hk => hdir _ (Nat.lt_trans hk (by decide))
  -- ほかの使い道は、前の状態のものと同じである
  have hold : ∀ s, Live m' s → s ≠ .page i j → Live m s ∧ frame m' s = frame m s := by
    intro s hs hne
    cases s with
    | dir => exact ⟨trivial, hcur⟩
    | table k =>
      obtain ⟨hk, hp⟩ := hs
      rw [htable hk] at hp
      exact ⟨⟨hk, hp⟩, by rw [frame, frame, table_at, table_at, htable hk]⟩
    | page k l =>
      obtain ⟨⟨hk, hp⟩, hl, hp'⟩ := hs
      rw [htable hk] at hp
      have heq := hpage k l ⟨hk, hp⟩ hl
      rw [if_neg fun hc => hne (by rw [hc.1, hc.2])] at heq
      rw [heq] at hp'
      exact ⟨⟨⟨hk, hp⟩, hl, hp'⟩, by rw [frame, frame, heq]⟩
  have hself : Live m' (.page i j) → present v = true ∧ frame m' (.page i j) = page_addr v := by
    rintro ⟨-, -, hp⟩
    rw [hpage i j hi hj, if_pos ⟨rfl, rfl⟩] at hp
    exact ⟨hp, by rw [frame, hpage i j hi hj, if_pos ⟨rfl, rfl⟩]⟩
  refine h.change (.page i j) hzero hcur hold hused fun hs => ?_
  obtain ⟨hp, hf⟩ := hself hs
  rw [hf]
  exact hnew hp

/-- 仮想番地の項目。 -/
def entry (m : Phys) (virt : Nat) : Nat :=
  if present (dir_entry m (pd_index virt)) then page_entry m (pd_index virt) (pt_index virt) else 0

/-- ページ `virt` のほかの項目は変わらない。 -/
def SameExcept (m m' : Phys) (virt : Nat) : Prop :=
  ∀ w, w < KERNEL_VIRTUAL_BASE → w / 4096 ≠ virt / 4096 → entry m' w = entry m w

theorem pd_index_user (h : virt < KERNEL_VIRTUAL_BASE) : pd_index virt < KERNEL_PAGE_NUMBER := by
  unfold KERNEL_VIRTUAL_BASE at h
  unfold pd_index KERNEL_PAGE_NUMBER
  omega

theorem pt_index_lt : pt_index virt < 1024 := Nat.mod_lt _ (by decide)

theorem page_index_ne {w : Nat} (h : w / 4096 ≠ virt / 4096) :
    ¬ (pd_index w = pd_index virt ∧ pt_index w = pt_index virt) := by
  unfold pd_index pt_index
  omega

theorem Tables.store_entry (h : Tables m) (hi : Live m (.table (pd_index virt))) (hv : v < 2 ^ 32)
    (hram : m'.ram = m.ram.store32 (table_at m (pd_index virt) + 4 * pt_index virt) v)
    (hcur : m'.cur_page_dir = m.cur_page_dir) : SameExcept m m' virt := by
  intro w hw hne
  obtain ⟨hdir, hpage⟩ := h.store_words hi pt_index_lt hv hram hcur
  have hk := pd_index_user hw
  unfold entry
  rw [hdir _ (Nat.lt_trans hk (by decide))]
  split
  next hp => rw [hpage _ _ ⟨hk, hp⟩ pt_index_lt, if_neg (page_index_ne hne)]
  next => rfl

/-! ## 解放 -/

theorem free_blocks_ram (m : Phys) (a : Nat) :
    (free_blocks m a).ram = m.ram ∧ (free_blocks m a).cur_page_dir = m.cur_page_dir := by
  unfold free_blocks
  dsimp only
  split
  · exact ⟨rfl, rfl⟩
  · split <;> exact ⟨rfl, rfl⟩

theorem free_blocks_bitmap (m : Phys) (a : Nat) :
    (free_blocks m a).mem_bitmap = m.mem_bitmap ∨
      (free_blocks m a).mem_bitmap = fun b => if b = a / 4096 then true else m.mem_bitmap b := by
  unfold free_blocks
  dsimp only
  split
  · exact .inl rfl
  · split
    · exact .inl rfl
    · exact .inr rfl

theorem free_blocks_used (h : Used m b) (hne : b / 4096 ≠ a / 4096) : Used (free_blocks m a) b := by
  unfold Used at h ⊢
  rcases free_blocks_bitmap m a with heq | heq
  · rw [heq]
    exact h
  · rw [heq]
    dsimp only
    rw [if_neg hne]
    exact h

/-- 解放で空きは減らない。 -/
theorem free_blocks_count (m : Phys) (a : Nat) : free_count m ≤ free_count (free_blocks m a) := by
  unfold free_count
  refine List.countP_mono_left fun b _ hb => ?_
  rcases free_blocks_bitmap m a with heq | heq
  · rw [heq]
    exact hb
  · rw [heq]
    dsimp only
    split
    · rfl
    · exact hb

/-! ## 新しい表 -/

/-- 空の表を割り当てて、ディレクトリの項目 `i` に置いた。 -/
theorem Tables.new_table_words (h : Tables m) (hi : i < 1024) (ha : Allocates m m' t) :
    (∀ k, k < 1024 → dir_entry ((m'.clear t).store32 (m.cur_page_dir + 4 * i) (t + 7)) k =
      if k = i then t + 7 else dir_entry m k) ∧
    ∀ c k, Aligned c → c ≠ m.cur_page_dir → k < 1024 →
      word ((m'.clear t).store32 (m.cur_page_dir + 4 * i) (t + 7)).ram c k = if c = t then 0 else word m.ram c k := by
  have htlt : t + 7 < 2 ^ 32 := by
    have h₁ := ha.fresh.lt
    have h₂ := ha.fresh.aligned
    unfold Aligned at h₂
    omega
  have hcur : ((m'.clear t).store32 (m.cur_page_dir + 4 * i) (t + 7)).cur_page_dir = m.cur_page_dir := by
    show m'.cur_page_dir = m.cur_page_dir
    rw [ha.rest]
  have hw := fun (c k : Nat) (hc : Aligned c) (hk : k < 1024) =>
    word_new_table (m := m) (D := m.cur_page_dir) h.aligned hi ha hc hk htlt
  have hDt : m.cur_page_dir ≠ t := ha.fresh.ne_of_used (h.used .dir trivial)
  refine ⟨fun k hk => ?_, fun c k hc hne hk => ?_⟩
  · unfold dir_entry
    rw [hcur, hw _ k h.aligned hk]
    by_cases hki : k = i
    · simp [hki]
    · simp [hki, hDt]
  · rw [hw c k hc hk, if_neg fun hcon => hne hcon.1]

/-- 新しい表のほかは、前の状態と同じである。 -/
theorem Tables.new_table_old (h : Tables m) (hi : i < KERNEL_PAGE_NUMBER) (ha : Allocates m m' t) (s : Slot)
    (hs : Live ((m'.clear t).store32 (m.cur_page_dir + 4 * i) (t + 7)) s) (hne : s ≠ .table i) :
    Live m s ∧ frame ((m'.clear t).store32 (m.cur_page_dir + 4 * i) (t + 7)) s = frame m s := by
  have hi' : i < 1024 := Nat.lt_trans hi (by decide)
  obtain ⟨hdir, hword⟩ := h.new_table_words hi' ha
  have hcur : ((m'.clear t).store32 (m.cur_page_dir + 4 * i) (t + 7)).cur_page_dir = m.cur_page_dir := by
    show m'.cur_page_dir = m.cur_page_dir
    rw [ha.rest]
  generalize (m'.clear t).store32 (m.cur_page_dir + 4 * i) (t + 7) = m₁ at *
  cases s with
  | dir => exact ⟨trivial, hcur⟩
  | table k =>
    obtain ⟨hk, hpk⟩ := hs
    have hki : k ≠ i := fun hc => hne (by rw [hc])
    have heq := hdir k (Nat.lt_trans hk (by decide))
    rw [if_neg hki] at heq
    rw [heq] at hpk
    exact ⟨⟨hk, hpk⟩, by rw [frame, frame, table_at, table_at, heq]⟩
  | page k l =>
    obtain ⟨⟨hk, hpk⟩, hl, hpl⟩ := hs
    have heq := hdir k (Nat.lt_trans hk (by decide))
    by_cases hki : k = i
    · -- 新しい表にページはない
      rw [if_pos hki] at heq
      rw [page_entry, table_at, heq, page_addr_add ha.fresh.aligned (by decide),
        hword t l ha.fresh.aligned (ha.fresh.ne_of_used (h.used .dir trivial)).symm hl, if_pos rfl] at hpl
      cases hpl
    · rw [if_neg hki] at heq
      rw [heq] at hpk
      have hlive : Live m (.table k) := ⟨hk, hpk⟩
      have hentry : page_entry m₁ k l = page_entry m k l := by
        rw [page_entry, table_at, heq]
        refine (hword _ l (aligned_table m k) (h.table_ne_dir hlive) hl).trans (if_neg ?_)
        exact ha.fresh.ne_of_used (h.used _ hlive)
      rw [hentry] at hpl
      exact ⟨⟨hlive, hl, hpl⟩, by rw [frame, frame, hentry]⟩

theorem Tables.new_table_frame (h : Tables m) (hi : i < KERNEL_PAGE_NUMBER) (ha : Allocates m m' t) :
    frame ((m'.clear t).store32 (m.cur_page_dir + 4 * i) (t + 7)) (.table i) = t := by
  have hi' : i < 1024 := Nat.lt_trans hi (by decide)
  rw [frame, table_at, (h.new_table_words hi' ha).1 i hi', if_pos rfl]
  exact page_addr_add ha.fresh.aligned (by decide)

theorem Tables.new_table (h : Tables m) (hi : i < KERNEL_PAGE_NUMBER) (ha : Allocates m m' t) :
    Tables ((m'.clear t).store32 (m.cur_page_dir + 4 * i) (t + 7)) := by
  have hused : ∀ c, Used m c → Used ((m'.clear t).store32 (m.cur_page_dir + 4 * i) (t + 7)) c :=
    fun c hu => ha.kept.used c hu
  refine h.change (.table i) (hused 0 h.zero) ?_ (h.new_table_old hi ha)
    (fun s hs _ => hused _ (h.used s hs)) fun _ => ?_
  · show m'.cur_page_dir = m.cur_page_dir
    rw [ha.rest]
  · rw [h.new_table_frame hi ha]
    exact ⟨ha.fresh.used, fun s hs _ => ha.fresh.ne_of_used (h.used s hs)⟩

/-- 空の表を置いても、どの番地の項目も変わらない。 -/
theorem Tables.new_table_entry (h : Tables m) (hi : i < KERNEL_PAGE_NUMBER)
    (hp : present (dir_entry m i) = false) (ha : Allocates m m' t) {w : Nat} (hw : w < KERNEL_VIRTUAL_BASE) :
    entry ((m'.clear t).store32 (m.cur_page_dir + 4 * i) (t + 7)) w = entry m w := by
  have hi' : i < 1024 := Nat.lt_trans hi (by decide)
  have hk := pd_index_user hw
  obtain ⟨hdir, hword⟩ := h.new_table_words hi' ha
  have hd := hdir (pd_index w) (Nat.lt_trans hk (by decide))
  unfold entry
  by_cases hki : pd_index w = i
  · rw [hki, if_pos rfl] at hd
    rw [hki, hd, if_pos, page_entry, table_at, hd, page_addr_add ha.fresh.aligned (by decide),
      hword t _ ha.fresh.aligned (ha.fresh.ne_of_used (h.used .dir trivial)).symm pt_index_lt, if_pos rfl, hp]
    · rfl
    · rw [present_add ha.fresh.aligned (by decide)]
      rfl
  · rw [if_neg hki] at hd
    rw [hd]
    split
    next hpk =>
      have hlive : Live m (.table (pd_index w)) := ⟨hk, hpk⟩
      rw [page_entry, table_at, hd]
      refine (hword _ _ (aligned_table m _) (h.table_ne_dir hlive) pt_index_lt).trans (if_neg ?_)
      exact ha.fresh.ne_of_used (h.used _ hlive)
    next => rfl

/-! ## ほかのブロックの書き換え -/

/-- 使っているブロックが変わらなければ、使い道も項目も変わらない。 -/
structure Unmoved (m m' : Phys) : Prop where
  tables : Tables m'
  live : ∀ s, Live m' s ↔ Live m s
  frame_eq : ∀ s, Live m s → frame m' s = frame m s
  dir_eq : ∀ k, k < 1024 → dir_entry m' k = dir_entry m k
  entry_eq : ∀ w, w < KERNEL_VIRTUAL_BASE → entry m' w = entry m w

theorem Tables.kept (h : Tables m) (hk : Kept m m') (hcur : m'.cur_page_dir = m.cur_page_dir) : Unmoved m m' := by
  have hdir : ∀ k, k < 1024 → dir_entry m' k = dir_entry m k := by
    intro k hk'
    rw [dir_entry, hcur]
    exact hk.word h.aligned (h.used .dir trivial) hk'
  have hdir' : ∀ {k}, k < KERNEL_PAGE_NUMBER → dir_entry m' k = dir_entry m k :=
    fun hk' => hdir _ (Nat.lt_trans hk' (by decide))
  have hpage : ∀ k l, Live m (.table k) → l < 1024 → page_entry m' k l = page_entry m k l := by
    intro k l hlive hl
    rw [page_entry, table_at, hdir' hlive.1]
    exact hk.word (aligned_table m k) (h.used _ hlive) hl
  have hlive : ∀ s, Live m' s ↔ Live m s := by
    intro s
    cases s with
    | dir => exact Iff.rfl
    | table k =>
      refine and_congr_right fun hk' => ?_
      rw [hdir' hk']
    | page k l =>
      have htab : k < KERNEL_PAGE_NUMBER ∧ present (dir_entry m' k) = true ↔ Live m (.table k) :=
        and_congr_right fun hk' => by rw [hdir' hk']
      rw [Live, Live, htab]
      refine and_congr_right fun ht => and_congr_right fun hl => ?_
      rw [hpage k l ht hl]
  have hframe : ∀ s, Live m s → frame m' s = frame m s := by
    intro s hs
    cases s with
    | dir => exact hcur
    | table k => rw [frame, frame, table_at, table_at, hdir' hs.1]
    | page k l => rw [frame, frame, hpage k l hs.1 hs.2.1]
  refine ⟨⟨hk.used 0 h.zero, by rw [hcur]; exact h.aligned, fun s hs => ?_, fun s s' hs hs' heq => ?_⟩, hlive,
    hframe, hdir, fun w hw => ?_⟩
  · have hs := (hlive s).mp hs
    rw [hframe s hs]
    exact hk.used _ (h.used s hs)
  · have hs := (hlive s).mp hs
    have hs' := (hlive s').mp hs'
    rw [hframe s hs, hframe s' hs'] at heq
    exact h.inj s s' hs hs' heq
  · have hk' := pd_index_user hw
    unfold entry
    rw [hdir' hk']
    split
    next hp => exact hpage _ _ ⟨hk', hp⟩ pt_index_lt
    next => rfl

/-! ## 項目の番地 -/

/-- `get_page` は、項目のある表を置いたか、そのままの状態を返した。 -/
structure GotPage (m m' : Phys) (virt a : Nat) : Prop where
  tables : Tables m'
  live : Live m' (.table (pd_index virt))
  addr : a = table_at m' (pd_index virt) + 4 * pt_index virt
  cur : m'.cur_page_dir = m.cur_page_dir
  used : ∀ c, Used m c → Used m' c
  frame_new : ∀ s, Live m' s → Live m s ∧ frame m' s = frame m s ∨ ¬ Used m (frame m' s)
  entry_eq : ∀ w, w < KERNEL_VIRTUAL_BASE → entry m' w = entry m w
  dir_eq : ∀ k, k < 1024 → k ≠ pd_index virt → dir_entry m' k = dir_entry m k
  count : free_count m ≤ free_count m' + (if present (dir_entry m (pd_index virt)) then 0 else 1)

theorem get_page_missing (hvirt : pd_index virt < KERNEL_PAGE_NUMBER)
    (hp : present (dir_entry m (pd_index virt)) = false) (ha : Allocates m (alloc_blocks m).1 (alloc_blocks m).2) :
    get_page m virt PAGE_USER =
      (((alloc_blocks m).1.clear (alloc_blocks m).2).store32 (m.cur_page_dir + 4 * pd_index virt)
        ((alloc_blocks m).2 + 7), (alloc_blocks m).2 + 4 * pt_index virt) := by
  have hcur : (alloc_blocks m).1.cur_page_dir = m.cur_page_dir := by rw [ha.rest]
  have he : (alloc_blocks m).2 ||| (PAGE_PRESENT ||| PAGE_RW) ||| PAGE_USER = (alloc_blocks m).2 + 7 := by
    rw [Nat.or_assoc]
    exact or_flags ha.fresh.aligned (by decide)
  unfold dir_entry word at hp
  unfold get_page pde
  simp only [hp, he, Nat.not_le.mpr hvirt, if_false, page_addr_add ha.fresh.aligned (f := 7) (by decide)]
  rw [if_neg (by decide)]
  show (((alloc_blocks m).1.clear _).store32 ((alloc_blocks m).1.cur_page_dir + _) _, _) = _
  rw [hcur]

theorem Tables.get_page (h : Tables m) (hvirt : virt < KERNEL_VIRTUAL_BASE)
    (hroom : present (dir_entry m (pd_index virt)) = true ∨ 0 < free_count m) :
    GotPage m (Mem.get_page m virt PAGE_USER).1 virt (Mem.get_page m virt PAGE_USER).2 := by
  have hk := pd_index_user hvirt
  by_cases hp : present (dir_entry m (pd_index virt)) = true
  · rw [get_page_present hp]
    exact ⟨h, ⟨hk, hp⟩, rfl, rfl, fun _ => id, fun s hs => .inl ⟨hs, rfl⟩, fun _ _ => rfl, fun _ _ _ => rfl,
      Nat.le_add_right _ _⟩
  · have hp : present (dir_entry m (pd_index virt)) = false := Bool.eq_false_iff.mpr hp
    have ha := alloc_blocks_some (m := m) (hroom.resolve_left (by rw [hp]; decide))
    have hk' : pd_index virt < 1024 := Nat.lt_trans hk (by decide)
    obtain ⟨hdir, -⟩ := h.new_table_words hk' ha
    have hself := hdir _ hk'
    rw [if_pos rfl] at hself
    have htab := h.new_table hk ha
    rw [get_page_missing hk hp ha]
    refine ⟨htab, ⟨hk, ?_⟩, ?_, ?_, fun c hc => ha.kept.used c hc, fun s hs => ?_,
      fun w hw => h.new_table_entry hk hp ha hw, fun k hk hne => (hdir k hk).trans (if_neg hne), ?_⟩
    · rw [hself, present_add ha.fresh.aligned (by decide)]
      rfl
    · rw [table_at, hself, page_addr_add ha.fresh.aligned (by decide)]
    · show (alloc_blocks m).1.cur_page_dir = m.cur_page_dir
      rw [ha.rest]
    · by_cases hne : s = .table (pd_index virt)
      · subst hne
        rw [h.new_table_frame hk ha]
        refine .inr fun hu => ?_
        cases hu.symm.trans ha.fresh.free
      · exact .inl (h.new_table_old hk ha s hs hne)
    · have hfc : free_count (((alloc_blocks m).1.clear (alloc_blocks m).2).store32
          (m.cur_page_dir + 4 * pd_index virt) ((alloc_blocks m).2 + 7)) = free_count (alloc_blocks m).1 :=
        free_count_congr rfl
      have hcount := ha.count
      rw [hp, if_neg (by decide), hfc]
      omega

/-! ## 一つのページ -/

theorem replace_page_eq (m : Phys) (page phys : Nat) :
    replace_page m page phys = m ∨ present (m.ram.load32 page) = true ∧ page_addr (m.ram.load32 page) ≠ 0 ∧
      replace_page m page phys = free_blocks m (page_addr (m.ram.load32 page)) := by
  unfold replace_page
  dsimp only
  split
  next h => exact .inr ⟨h.1, h.2.1, rfl⟩
  next => exact .inl rfl

/-- 項目の前のブロックだけを、解放したかもしれない。 -/
def Releases (m m' : Phys) (e : Nat) : Prop :=
  m' = m ∨ present e = true ∧ page_addr e ≠ 0 ∧ m' = free_blocks m (page_addr e)

theorem Releases.rest {e : Nat} (h : Releases m m' e) :
    m'.ram = m.ram ∧ m'.cur_page_dir = m.cur_page_dir ∧ free_count m ≤ free_count m' := by
  rcases h with rfl | ⟨-, -, rfl⟩
  · exact ⟨rfl, rfl, Nat.le_refl _⟩
  · exact ⟨(free_blocks_ram m _).1, (free_blocks_ram m _).2, free_blocks_count m _⟩

theorem Releases.used {e : Nat} (h : Releases m m' e) (ha : Aligned a) (hu : Used m a)
    (hne : present e = true → a ≠ page_addr e) : Used m' a := by
  rcases h with rfl | ⟨hp, -, rfl⟩
  · exact hu
  · exact free_blocks_used hu (div_ne ha (aligned_page_addr _) (hne hp))

/-- 前のブロックを解放して、項目を書いた。 -/
theorem Tables.write_page (h : Tables m) (hi : Live m (.table i)) (hj : j < 1024)
    (hr : Releases m m' (page_entry m i j)) (hv : v < 2 ^ 32)
    (hnew : present v = true → Used m (page_addr v) ∧ ∀ s, Live m s → frame m s ≠ page_addr v) :
    Tables (m'.store32 (table_at m i + 4 * j) v) := by
  obtain ⟨hram, hcur, -⟩ := hr.rest
  have hpage : present (page_entry m i j) = true → Live m (.page i j) := fun hp => ⟨hi, hj, hp⟩
  refine h.store hi hj hv ?_ hcur ?_ (fun s hs hne => ?_) fun hp => ?_
  · show m'.ram.store32 _ _ = _
    rw [hram]
  · rcases hr with rfl | ⟨-, hne, rfl⟩
    · exact h.zero
    · exact free_blocks_used h.zero (div_ne (a := 0) rfl (aligned_page_addr _) hne.symm)
  · refine hr.used (h.frame_aligned s) (h.used s hs) fun hp hc => hne ?_
    exact h.inj s (.page i j) hs (hpage hp) hc
  · obtain ⟨hu, hne⟩ := hnew hp
    exact ⟨hr.used (aligned_page_addr _) hu fun hp hc => hne _ (hpage hp) hc.symm, fun s hs _ => hne s hs⟩

/-- ページを写した。ほかのページの項目は変わらない。 -/
structure MapsPage (m m' : Phys) (virt : Nat) : Prop where
  tables : Tables m'
  same : SameExcept m m' virt
  here : present (dir_entry m' (pd_index virt)) = true
  dir_eq : ∀ k, k < 1024 → k ≠ pd_index virt → dir_entry m' k = dir_entry m k
  count : free_count m ≤ free_count m' + (if present (dir_entry m (pd_index virt)) then 0 else 1)

/-- 前のブロックを解放してから書くので、空きは減らない。 -/
theorem Tables.map_address_user (h : Tables m) (hvirt : virt < KERNEL_VIRTUAL_BASE)
    (hroom : present (dir_entry m (pd_index virt)) = true ∨ 0 < free_count m)
    (ha : Aligned a) (hlt : a < 2 ^ 32) (hu : Used m a) (hne : ∀ s, Live m s → frame m s ≠ a) :
    MapsPage m (Mem.map_address_user m virt a) virt := by
  obtain ⟨htab, hlive, haddr, hcur, hused, hnew, hentry, hdir, hcount⟩ := h.get_page hvirt hroom
  have heq : Mem.map_address_user m virt a =
      (replace_page (Mem.get_page m virt PAGE_USER).1 (Mem.get_page m virt PAGE_USER).2 a).store32
        (Mem.get_page m virt PAGE_USER).2 (a + 7) := by
    unfold Mem.map_address_user
    rw [ha.page_addr_eq, user_entry ha]
  rw [heq]
  generalize Mem.get_page m virt PAGE_USER = r at *
  obtain ⟨m₁, page⟩ := r
  dsimp only at *
  subst haddr
  have hne₁ : ∀ s, Live m₁ s → frame m₁ s ≠ a := by
    intro s hs hc
    rcases hnew s hs with ⟨hs', hf⟩ | hf
    · exact hne s hs' (hf.symm.trans hc)
    · exact hf (hc ▸ hu)
  have hpa : page_addr (a + 7) = a := page_addr_add ha (by decide)
  have hv : a + 7 < 2 ^ 32 := by
    unfold Aligned at ha
    omega
  have hr : Releases m₁ (replace_page m₁ (table_at m₁ (pd_index virt) + 4 * pt_index virt) a)
      (page_entry m₁ (pd_index virt) (pt_index virt)) := replace_page_eq m₁ _ a
  generalize replace_page m₁ (table_at m₁ (pd_index virt) + 4 * pt_index virt) a = m₂ at *
  obtain ⟨hram, hcur₂, hcount₂⟩ := hr.rest
  have hram' : (m₂.store32 (table_at m₁ (pd_index virt) + 4 * pt_index virt) (a + 7)).ram =
      m₁.ram.store32 (table_at m₁ (pd_index virt) + 4 * pt_index virt) (a + 7) := by
    show m₂.ram.store32 _ _ = _
    rw [hram]
  obtain ⟨hdir₂, -⟩ := htab.store_words hlive pt_index_lt hv hram' hcur₂
  have hk' : pd_index virt < 1024 := Nat.lt_trans hlive.1 (by decide)
  refine ⟨htab.write_page hlive pt_index_lt hr hv fun _ => ?_, fun w hw hne => ?_, ?_, fun k hk hne => ?_, ?_⟩
  · rw [hpa]
    exact ⟨hused a hu, hne₁⟩
  · rw [htab.store_entry hlive hv hram' hcur₂ w hw hne]
    exact hentry w hw
  · rw [hdir₂ _ hk']
    exact hlive.2
  · rw [hdir₂ k hk]
    exact hdir k hk hne
  · have hfc : free_count (m₂.store32 (table_at m₁ (pd_index virt) + 4 * pt_index virt) (a + 7)) = free_count m₂ :=
      free_count_congr rfl
    omega

end MyOS.Mem
