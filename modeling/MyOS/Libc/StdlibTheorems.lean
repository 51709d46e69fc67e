import MyOS.Lib.Count
import MyOS.Libc.Stdlib
import Mathlib.Data.List.Pairwise

/-!
# 確保した塊は、互いに重ならない

塊の列を `heap_base` からたどった見出しの列とし、見出しの書き換えが他の塊に及ばないことを示す。
-/

namespace MyOS.Libc
open MyOS.Lib

/-- 見出しの番地と、記録された広さ。 -/
structure Block where
  h : Nat
  size : Nat
  deriving DecidableEq

namespace Block

/-- 中身の番地。 -/
def ptr (b : Block) : Nat := b.h + HEADER

/-- 終わりの番地。 -/
def fin (b : Block) : Nat := b.h + HEADER + b.size

def Apart (b c : Block) : Prop := b.fin ≤ c.h ∨ c.fin ≤ b.h

instance : Std.Symm Apart := ⟨fun _ _ => Or.symm⟩

end Block

/-- 番地 0 は `NULL` である。 -/
def pointer (a : Nat) : Option Nat := if a = 0 then none else some a

/-- 見出しの列が `hs` である。 -/
def Headers (s : Heap) (hs : List Nat) : Prop := Linked (fun h => pointer (header_next s.mem h)) (pointer s.heap_base) hs

/-- 塊の列 `bs` が、見出しの列につながっている。 -/
structure Chained (s : Heap) (bs : List Block) : Prop where
  headers : Headers s (bs.map Block.h)
  last : pointer s.last_alloc = (bs.map Block.h).getLast?
  size : ∀ b ∈ bs, header_size s.mem b.h = b.size
  apart : bs.Pairwise Block.Apart
  inside : ∀ b ∈ bs, 0 < b.h ∧ b.fin ≤ 2 ^ 32

variable {s s' : Heap} {bs bs' : List Block} {b c d : Block} {m m' : ByteMem} {n brk q x v : Nat}

theorem pointer_eq_some {a : Nat} (h : pointer a = some x) : a = x ∧ a ≠ 0 := by
  unfold pointer at h
  split at h
  next => cases h
  next hne => exact ⟨Option.some.inj h, hne⟩

theorem pointer_of_pos {a : Nat} (h : 0 < a) : pointer a = some a := if_neg (by omega)

/-! ## 見出しの読み書き -/

/-- 見出しが変わらなければ、読む値も変わらない。 -/
theorem header_congr {h : Nat} (hm : ∀ x, h ≤ x → x < h + HEADER → m' x = m x) :
    header_size m' h = header_size m h ∧ header_free m' h = header_free m h ∧ header_next m' h = header_next m h := by
  unfold HEADER at hm
  exact ⟨ByteMem.load32_congr fun x h₁ h₂ => hm x (by omega) (by omega), ByteMem.load32_congr fun x h₁ h₂ => hm x (by omega) (by omega),
    ByteMem.load32_congr fun x h₁ h₂ => hm x (by omega) (by omega)⟩

theorem header_size_set_free (m : ByteMem) (h v : Nat) : header_size (m.store32 (h + 4) v) h = header_size m h :=
  ByteMem.load32_store32_of_disjoint (by omega)

theorem header_next_set_free (m : ByteMem) (h v : Nat) : header_next (m.store32 (h + 4) v) h = header_next m h :=
  ByteMem.load32_store32_of_disjoint (by omega)

theorem header_free_set_free (m : ByteMem) (h : Nat) (hv : v < 2 ^ 32) : header_free (m.store32 (h + 4) v) h = v :=
  ByteMem.load32_store32_self hv

theorem write_header_outside {h : Nat} (hx : x < h ∨ h + HEADER ≤ x) : write_header m h n x = m x := by
  unfold HEADER at hx
  unfold write_header
  rw [ByteMem.store32_of_outside (by omega), ByteMem.store32_of_outside (by omega), ByteMem.store32_of_outside (by omega)]

theorem header_write_header (m : ByteMem) (h : Nat) (hn : n < 2 ^ 32) :
    header_size (write_header m h n) h = n ∧ header_free (write_header m h n) h = 0 ∧ header_next (write_header m h n) h = 0 := by
  unfold write_header header_size header_free header_next
  refine ⟨?_, ?_, ByteMem.load32_store32_self (by decide)⟩
  · rw [ByteMem.load32_store32_of_disjoint (by omega), ByteMem.load32_store32_of_disjoint (by omega), ByteMem.load32_store32_self hn]
  · rw [ByteMem.load32_store32_of_disjoint (by omega), ByteMem.load32_store32_self (by decide)]

theorem header_lt_fin (b : Block) (hx : x < b.h + HEADER) : x < b.fin := Nat.lt_of_lt_of_le hx (Nat.le_add_right _ _)

/-- 見出しの語 `i` は、重ならない塊に及ばない。 -/
theorem set_word_apart {i : Nat} (hi : i + 4 ≤ HEADER) (hapart : c.Apart b) (v : Nat) (hx : b.h ≤ x) (hx' : x < b.fin) :
    m.store32 (c.h + i) v x = m x := by
  unfold Block.Apart Block.fin at hapart
  unfold Block.fin at hx'
  exact ByteMem.store32_of_outside (by omega)

/-! ## 塊の列 -/

namespace Chained

theorem apart_of_ne (h : Chained s bs) (hb : b ∈ bs) (hc : c ∈ bs) (hne : b ≠ c) : b.Apart c :=
  h.apart.forall hb hc hne

/-- 見出しの番地は、塊を一つに決める。 -/
theorem eq_of_h (h : Chained s bs) (hb : b ∈ bs) (hc : c ∈ bs) (heq : b.h = c.h) : b = c := by
  by_contra hne
  have hapart := h.apart_of_ne hb hc hne
  unfold Block.Apart Block.fin HEADER at hapart
  omega

/-- 見出しの外を書き換えても、列は変わらない。 -/
theorem frame (h : Chained s bs) (hm : ∀ b ∈ bs, ∀ x, b.h ≤ x → x < b.h + HEADER → m' x = s.mem x) :
    Chained { s with mem := m' } bs := by
  refine ⟨h.headers.congr fun a ha => ?_, h.last, fun b hb => ?_, h.apart, h.inside⟩
  · obtain ⟨b, hb, rfl⟩ := List.mem_map.1 ha
    rw [(header_congr (hm b hb)).2.2]
  · exact (header_congr (hm b hb)).1.trans (h.size b hb)

/-- 別の塊は、`b` の印を書いても変わらない。 -/
theorem set_free_other (h : Chained s bs) (hb : b ∈ bs) (hc : c ∈ bs) (hne : b ≠ c) (v : Nat) (hx : c.h ≤ x) (hx' : x < c.fin) :
    s.mem.store32 (b.h + 4) v x = s.mem x :=
  set_word_apart (by decide) (h.apart_of_ne hb hc hne) v hx hx'

theorem set_free_header (h : Chained s bs) (hb : b ∈ bs) (hc : c ∈ bs) (hne : b ≠ c) (v : Nat) :
    header_size (s.mem.store32 (b.h + 4) v) c.h = header_size s.mem c.h ∧
      header_free (s.mem.store32 (b.h + 4) v) c.h = header_free s.mem c.h ∧
      header_next (s.mem.store32 (b.h + 4) v) c.h = header_next s.mem c.h :=
  header_congr fun _ hx hx' => h.set_free_other hb hc hne v hx (header_lt_fin c hx')

theorem set_free (h : Chained s bs) (hb : b ∈ bs) (v : Nat) : Chained { s with mem := s.mem.store32 (b.h + 4) v } bs := by
  refine ⟨h.headers.congr fun a ha => ?_, h.last, fun c hc => ?_, h.apart, h.inside⟩
  · obtain ⟨c, hc, rfl⟩ := List.mem_map.1 ha
    by_cases hne : b = c
    · subst hne
      rw [header_next_set_free]
    · rw [(h.set_free_header hb hc hne v).2.2]
  · by_cases hne : b = c
    · subst hne
      exact (header_size_set_free _ _ _).trans (h.size b hb)
    · exact (h.set_free_header hb hc hne v).1.trans (h.size c hc)

end Chained

/-- 空きの探索は、列をたどり終えて止まる。 -/
theorem find_free_result {head : Nat} {hs : List Nat} (h : Linked (fun h => pointer (header_next m h)) (pointer head) hs) {k : Nat}
    (hk : hs.length < k) :
    ∃ r, find_free m n k head = some r ∧ (r = 0 ∨ r ∈ hs ∧ header_free m r ≠ 0 ∧ n ≤ header_size m r) := by
  induction hs generalizing head k with
  | nil =>
    cases k with
    | zero => exact absurd hk (Nat.not_lt_zero _)
    | succ k =>
      have hnull : head = 0 := by
        by_contra hne
        cases (if_neg hne).symm.trans h
      exact ⟨0, by simp [find_free, hnull], .inl rfl⟩
  | cons a hs ih =>
    cases k with
    | zero => exact absurd hk (Nat.not_lt_zero _)
    | succ k =>
      obtain ⟨rfl, hne⟩ := pointer_eq_some h.1
      rw [find_free, if_neg hne]
      split
      next hfree => exact ⟨head, rfl, .inr ⟨List.mem_cons_self, hfree⟩⟩
      next =>
        obtain ⟨r, hr, hcase⟩ := ih h.2 (Nat.lt_of_succ_lt_succ hk)
        exact ⟨r, hr, hcase.imp id fun hin => ⟨List.mem_cons_of_mem _ hin.1, hin.2⟩⟩

/-! ## `malloc` -/

namespace Chained

theorem length_lt (h : Chained s bs) : (bs.map Block.h).length < 2 ^ 32 := by
  refine Nat.lt_of_le_of_lt (h.headers.length_le fun a ha => ?_) (by decide : 2 ^ 32 - 12 + 1 < 2 ^ 32)
  obtain ⟨b, hb, rfl⟩ := List.mem_map.1 ha
  have hfin := (h.inside b hb).2
  unfold Block.fin HEADER at hfin
  omega

end Chained

/-- 新しい塊の見出しは、重ならない塊に及ばない。 -/
theorem write_header_apart (hapart : c.Apart b) (n : Nat) : ∀ x, b.h ≤ x → x < b.fin → write_header m c.h n x = m x := by
  intro x hx hx'
  unfold Block.Apart Block.fin at hapart
  unfold Block.fin at hx'
  exact write_header_outside (by omega)

theorem header_set_next (m : ByteMem) (h : Nat) (hv : v < 2 ^ 32) :
    header_size (m.store32 (h + 8) v) h = header_size m h ∧ header_free (m.store32 (h + 8) v) h = header_free m h ∧
      header_next (m.store32 (h + 8) v) h = v :=
  ⟨ByteMem.load32_store32_of_disjoint (by omega), ByteMem.load32_store32_of_disjoint (by omega), ByteMem.load32_store32_self hv⟩

namespace Chained

/-- 列が空のとき、新しい塊が先頭になる。 -/
theorem first (hpos : 0 < c.h) (hfin : c.fin ≤ 2 ^ 32) : Chained ⟨write_header m c.h c.size, c.h, c.h⟩ [c] := by
  have hsize : c.size < 2 ^ 32 := by
    unfold Block.fin HEADER at hfin
    omega
  obtain ⟨hs, -, hnext⟩ := header_write_header m c.h hsize
  refine ⟨⟨pointer_of_pos hpos, congrArg pointer hnext⟩, pointer_of_pos hpos, fun b hb => ?_, List.pairwise_singleton _ _, fun b hb => ?_⟩
  · rw [List.mem_singleton.1 hb]
    exact hs
  · rw [List.mem_singleton.1 hb]
    exact ⟨hpos, hfin⟩

/-- 列の最後の塊 `a` の後に、新しい塊を加える。 -/
theorem append {a : Block} {pre : List Block} (h : Chained s (pre ++ [a])) (hnew : ∀ b ∈ pre ++ [a], c.Apart b) (hpos : 0 < c.h)
    (hfin : c.fin ≤ 2 ^ 32) :
    Chained ⟨(write_header s.mem c.h c.size).store32 (a.h + 8) c.h, s.heap_base, c.h⟩ (pre ++ [a] ++ [c]) := by
  have hsize : c.size < 2 ^ 32 ∧ c.h < 2 ^ 32 := by
    unfold Block.fin HEADER at hfin
    omega
  have ha : a ∈ pre ++ [a] := List.mem_append_right _ (List.mem_singleton_self a)
  have hother : ∀ b ∈ pre, a.Apart b := fun b hb => Or.symm ((List.pairwise_append.1 h.apart).2.2 b hb a (List.mem_singleton_self a))
  obtain ⟨hcsize, -, hcnext⟩ := header_write_header s.mem c.h hsize.1
  obtain ⟨hasize, -, hanext⟩ := header_set_next (write_header s.mem c.h c.size) a.h hsize.2
  -- `c` の見出しと `a` の `next` のほかは変わらない
  have hnext : 8 + 4 ≤ HEADER := Nat.le_refl _
  obtain ⟨hckeep, -, hckeep'⟩ := header_congr fun x hx hx' =>
    set_word_apart (m := write_header s.mem c.h c.size) hnext (Or.symm (hnew a ha)) c.h hx (header_lt_fin c hx')
  have hkeep : ∀ b ∈ pre ++ [a], ∀ x, b.h ≤ x → x < b.h + HEADER → write_header s.mem c.h c.size x = s.mem x := fun b hb x hx hx' =>
    write_header_apart (hnew b hb) c.size x hx (header_lt_fin b hx')
  have hpre : ∀ b ∈ pre, ∀ x, b.h ≤ x → x < b.h + HEADER → (write_header s.mem c.h c.size).store32 (a.h + 8) c.h x = s.mem x :=
    fun b hb x hx hx' => (set_word_apart hnext (hother b hb) c.h hx (header_lt_fin b hx')).trans
      (hkeep b (List.mem_append_left _ hb) x hx hx')
  have hheaders := h.headers
  unfold Headers at hheaders
  rw [List.map_append] at hheaders
  refine ⟨?_, ?_, ?_, ?_, ?_⟩
  · unfold Headers
    rw [List.map_append, List.map_append]
    refine hheaders.append ((congrArg pointer hanext).trans (pointer_of_pos hpos)) (congrArg pointer (hckeep'.trans hcnext)) ?_
    intro y hy
    obtain ⟨b, hb, rfl⟩ := List.mem_map.1 hy
    exact congrArg pointer (header_congr (hpre b hb)).2.2
  · simpa using pointer_of_pos hpos
  · intro b hb
    rcases List.mem_append.1 hb with hb' | hb'
    · rcases List.mem_append.1 hb' with hpre' | hlast
      · exact (header_congr (hpre b hpre')).1.trans (h.size b hb')
      · rw [List.mem_singleton.1 hlast]
        exact (hasize.trans (header_congr (hkeep a ha)).1).trans (h.size a ha)
    · rw [List.mem_singleton.1 hb']
      exact hckeep.trans hcsize
  · exact List.pairwise_append.2 ⟨h.apart, List.pairwise_singleton _ _, fun b hb d hd => List.mem_singleton.1 hd ▸ Or.symm (hnew b hb)⟩
  · intro b hb
    rcases List.mem_append.1 hb with hb' | hb'
    · exact h.inside b hb'
    · rw [List.mem_singleton.1 hb']
      exact ⟨hpos, hfin⟩

/-- 前の塊は、最後の塊の `next` のほかは変わらない。 -/
theorem append_keep {a : Block} {pre : List Block} (h : Chained s (pre ++ [a])) (hnew : ∀ b ∈ pre ++ [a], c.Apart b)
    (hb : b ∈ pre ++ [a]) (hx : b.h ≤ x) (hx' : x < b.fin) (hnext : x < b.h + 8 ∨ b.h + HEADER ≤ x) :
    (write_header s.mem c.h c.size).store32 (a.h + 8) v x = s.mem x := by
  have hwrite : write_header s.mem c.h c.size x = s.mem x := write_header_apart (hnew b hb) c.size x hx hx'
  rw [← hwrite]
  by_cases hba : b = a
  · subst hba
    unfold HEADER at hnext
    exact ByteMem.store32_of_outside (by omega)
  · exact set_word_apart (by decide) (h.apart_of_ne (List.mem_append_right _ (List.mem_singleton_self a)) hb (Ne.symm hba)) v hx hx'

end Chained

/-- 広さ `n` を頼み、`q` を返した呼び出しの結果。`t` のほかの確保した塊は変わらない。 -/
structure Effect (s : Heap) (bs : List Block) (t n brk : Nat) (s' : Heap) (q : Nat) (bs' : List Block) : Prop where
  chained : Chained s' bs'
  sub : ∀ b ∈ bs, b ∈ bs'
  new : ∀ b ∈ bs', b ∈ bs ∨ b = ⟨brk, n⟩ ∧ brk ≠ SBRK_FAILED
  keep : ∀ b ∈ bs, b.ptr ≠ t → header_free s.mem b.h = 0 → ∀ x, b.ptr ≤ x → x < b.fin → s'.mem x = s.mem x
  flags : ∀ b ∈ bs, b.ptr ≠ t → header_free s.mem b.h = 0 → header_free s'.mem b.h = 0
  grant : q ≠ 0 → ∃ c ∈ bs', q = c.ptr ∧ n ≤ c.size ∧ header_free s'.mem c.h = 0 ∧ (c ∈ bs → header_free s.mem c.h ≠ 0 ∨ c.ptr = t)

namespace Effect

variable {t : Nat}

theorem none (h : Chained s bs) : Effect s bs t n brk s 0 bs :=
  ⟨h, fun _ => id, fun _ => .inl, fun _ _ _ _ _ _ _ => rfl, fun _ _ _ => id, fun hne => absurd rfl hne⟩

/-- 塊 `c` の印だけを書く。 -/
theorem set_free (h : Chained s bs) (hc : c ∈ bs) (hlive : header_free s.mem c.h ≠ 0 ∨ c.ptr = t)
    (hgrant : q ≠ 0 → v = 0 ∧ q = c.ptr ∧ n ≤ c.size) :
    Effect s bs t n brk { s with mem := s.mem.store32 (c.h + 4) v } q bs := by
  have hother : ∀ b ∈ bs, b.ptr ≠ t → header_free s.mem b.h = 0 → c ≠ b := fun b hb hbt hb0 hcb =>
    (hcb ▸ hlive).elim (fun hne => hne hb0) hbt
  refine ⟨h.set_free hc v, fun _ => id, fun _ => .inl, fun b hb hbt hb0 x hx hx' => ?_, fun b hb hbt hb0 => ?_, fun hq => ?_⟩
  · exact h.set_free_other hc hb (hother b hb hbt hb0) v (Nat.le_of_add_right_le hx) hx'
  · exact (h.set_free_header hc hb (hother b hb hbt hb0) v).2.1.trans hb0
  · obtain ⟨rfl, hqc, hfits⟩ := hgrant hq
    exact ⟨c, hc, hqc, hfits, header_free_set_free _ _ (by decide), fun _ => hlive⟩

/-- 新しい塊 `c` を加えたとき、前の塊は `next` のほかは変わらない。 -/
theorem of_new (h : Chained s' (bs ++ [c])) (hfree : header_free s'.mem c.h = 0) (hbrk : c.h ≠ SBRK_FAILED)
    (hkeep : ∀ b ∈ bs, ∀ x, b.h ≤ x → x < b.fin → x < b.h + 8 ∨ b.h + HEADER ≤ x → s'.mem x = s.mem x) :
    Effect s bs t c.size c.h s' c.ptr (bs ++ [c]) := by
  have hc : c ∉ bs := fun hc => by
    have hapart := (List.pairwise_append.1 h.apart).2.2 c hc c (List.mem_singleton_self c)
    unfold Block.Apart Block.fin HEADER at hapart
    omega
  refine ⟨h, fun b hb => List.mem_append_left _ hb, fun b hb => ?_, fun b hb _ _ x hx hx' => ?_, fun b hb _ hb0 => ?_,
    fun _ => ⟨c, List.mem_append_right _ (List.mem_singleton_self c), rfl, Nat.le_refl _, hfree, fun hmem => absurd hmem hc⟩⟩
  · exact (List.mem_append.1 hb).imp id fun hlast => ⟨List.mem_singleton.1 hlast, hbrk⟩
  · exact hkeep b hb x (Nat.le_of_add_right_le hx) hx' (.inr hx)
  · rw [← hb0]
    refine ByteMem.load32_congr fun x hx hx' => hkeep b hb x (by omega) (header_lt_fin b ?_) (.inl (by omega))
    unfold HEADER
    omega

/-- `sys_sbrk` から得た新しい塊 `c` を使う。 -/
theorem grow (h : Chained s bs) (hnew : ∀ b ∈ bs, c.Apart b) (hpos : 0 < c.h) (hfin : c.fin ≤ 2 ^ 32) (hbrk : c.h ≠ SBRK_FAILED) :
    Effect s bs t c.size c.h (if s.last_alloc ≠ 0 then ⟨(write_header s.mem c.h c.size).store32 (s.last_alloc + 8) c.h, s.heap_base, c.h⟩
      else ⟨write_header s.mem c.h c.size, c.h, c.h⟩) c.ptr (bs ++ [c]) := by
  have hsize : c.size < 2 ^ 32 := by
    unfold Block.fin at hfin
    omega
  obtain ⟨-, hfree, -⟩ := header_write_header s.mem c.h hsize
  rcases List.eq_nil_or_concat' bs with rfl | ⟨pre, a, rfl⟩
  · have hnull : s.last_alloc = 0 := by
      by_contra hne
      cases (if_neg hne).symm.trans h.last
    rw [if_neg (not_not.2 hnull)]
    exact .of_new (.first hpos hfin) hfree hbrk fun b hb => absurd hb List.not_mem_nil
  · have ha : a ∈ pre ++ [a] := List.mem_append_right _ (List.mem_singleton_self a)
    obtain ⟨hlast, hne⟩ := pointer_eq_some (h.last.trans (by simp : _ = some a.h))
    rw [if_pos hne, hlast]
    refine .of_new (h.append hnew hpos hfin) ?_ hbrk fun b hb x hx hx' => h.append_keep hnew hb hx hx'
    refine (header_congr fun x hx hx' => ?_).2.1.trans hfree
    exact set_word_apart (by decide) (Or.symm (hnew a ha)) c.h hx (header_lt_fin c hx')

end Effect

theorem malloc_result (h : Chained s bs)
    (hbrk : brk = SBRK_FAILED ∨ brk + (n + HEADER) ≤ 2 ^ 32 ∧ ∀ b ∈ bs, b.fin ≤ brk ∨ brk + (n + HEADER) ≤ b.h) (t : Nat) :
    ∃ s' q bs', malloc s n brk = some (s', q) ∧ Effect s bs t n brk s' q bs' := by
  unfold malloc
  split
  next => exact ⟨s, 0, bs, rfl, .none h⟩
  next hne =>
    obtain ⟨r, hr, hcase⟩ := find_free_result (n := n) h.headers h.length_lt
    rw [hr, Option.map_some]
    split
    next hr0 =>
      obtain ⟨hmem, hfree, hfits⟩ := hcase.resolve_left hr0
      obtain ⟨c, hc, rfl⟩ := List.mem_map.1 hmem
      exact ⟨_, _, bs, rfl, .set_free h hc (.inl hfree) fun _ => ⟨rfl, rfl, h.size c hc ▸ hfits⟩⟩
    next =>
      split
      next => exact ⟨s, 0, bs, rfl, .none h⟩
      next =>
        split
        next => exact ⟨s, 0, bs, rfl, .none h⟩
        next hok =>
          obtain ⟨hfin, hnew⟩ := hbrk.resolve_left fun hfail => hok (.inr hfail)
          have hblock : brk + (n + HEADER) = (⟨brk, n⟩ : Block).fin := by
            rw [Nat.add_comm n, ← Nat.add_assoc]
            rfl
          rw [hblock] at hfin hnew
          have hapart : ∀ b ∈ bs, (⟨brk, n⟩ : Block).Apart b := fun b hb => Or.symm (hnew b hb)
          have hgrow := Effect.grow (t := t) h hapart (Nat.pos_of_ne_zero fun h0 => hok (.inl h0)) hfin fun hfail => hok (.inr hfail)
          refine ⟨_, _, bs ++ [⟨brk, n⟩], ?_, hgrow⟩
          split <;> rfl

/-! ## `memcpy` と `realloc` -/

/-- 写した範囲の外は変わらず、`i` 番目のバイトは元と同じである。 -/
structure Copied (m : ByteMem) (dst src k : Nat) (m' : ByteMem) : Prop where
  outside : ∀ x, x < dst ∨ dst + k ≤ x → m' x = m x
  copied : ∀ i < k, m' (dst + i) = m (src + i)

theorem memcpy_copied (m : ByteMem) {dst src k : Nat} (hk : k < 2 ^ 31) (hapart : src + k ≤ dst ∨ dst + k ≤ src) :
    Copied m dst src k (memcpy m dst src k) := by
  unfold memcpy
  rw [if_neg (by omega)]
  refine foldl_range_inv (P := Copied m dst src) k ⟨fun _ _ => rfl, fun i hi => absurd hi (Nat.not_lt_zero i)⟩ ?_
  intro j m₁ hj h
  refine ⟨fun x hx => ?_, fun i hi => ?_⟩
  · rw [ByteMem.store8_of_ne (by omega)]
    exact h.outside x (by omega)
  · by_cases hlast : i = j
    · subst hlast
      rw [ByteMem.store8_self]
      exact h.outside _ (by omega)
    · rw [ByteMem.store8_of_ne (by omega)]
      exact h.copied i (by omega)

theorem header_of_ptr (b : Block) : b.ptr - HEADER = b.h := Nat.add_sub_cancel b.h HEADER

theorem ptr_ne_zero (b : Block) : b.ptr ≠ 0 := by
  unfold Block.ptr HEADER
  omega

theorem free_result (h : Chained s bs) (hb : b ∈ bs) : Effect s bs b.ptr n brk (free s b.ptr) 0 bs := by
  unfold free
  rw [if_neg (ptr_ne_zero b), header_of_ptr]
  exact .set_free h hb (.inr rfl) fun hne => absurd rfl hne

/-- 広げる `realloc`。`malloc` の後で、中身を写して元の塊を放す。 -/
theorem realloc_grow (hb : b ∈ bs) (hlive : header_free s.mem b.h = 0) (hgrow : b.size < n) (hq : q ≠ 0)
    (hm : Effect s bs 0 n brk s' q bs') :
    Effect s bs b.ptr n brk (free { s' with mem := memcpy s'.mem q b.ptr (header_size s'.mem b.h) } b.ptr) q bs' ∧
    ∀ i < b.size, (free { s' with mem := memcpy s'.mem q b.ptr (header_size s'.mem b.h) } b.ptr).mem (q + i) = s.mem (b.ptr + i) := by
  obtain ⟨c, hc, rfl, hfits, hflag, hfresh⟩ := hm.grant hq
  have hnot : ∀ d ∈ bs, header_free s.mem d.h = 0 → c ≠ d := fun d hd hd0 hcd =>
    (hfresh (hcd ▸ hd)).elim (fun hne => hne (hcd ▸ hd0)) (ptr_ne_zero c)
  have hb' := hm.sub b hb
  have hbc := hm.chained.apart_of_ne hb' hc (Ne.symm (hnot b hb hlive))
  have hinside := (hm.chained.inside b hb').2
  have hinside' := (hm.chained.inside c hc).2
  rw [hm.chained.size b hb', free, if_neg (ptr_ne_zero b), header_of_ptr]
  unfold Block.Apart at hbc
  -- 二つの塊が 32 ビットに収まるので、写す数は `int` で正である
  obtain ⟨hout, hin⟩ : Copied s'.mem c.ptr b.ptr b.size (memcpy s'.mem c.ptr b.ptr b.size) := by
    unfold Block.fin HEADER at hbc hinside hinside'
    refine memcpy_copied s'.mem (by omega) ?_
    unfold Block.ptr HEADER
    omega
  have hend : c.ptr + b.size < c.fin := Nat.add_lt_add_left (by omega) c.ptr
  have hptr : c.h ≤ c.ptr := Nat.le_add_right _ _
  have hother : ∀ d ∈ bs', c ≠ d → ∀ x, d.h ≤ x → x < d.fin → memcpy s'.mem c.ptr b.ptr b.size x = s'.mem x := by
    intro d hd hcd x hx hx'
    have hapart := hm.chained.apart_of_ne hc hd hcd
    unfold Block.Apart at hapart
    exact hout x (by omega)
  have hheader : ∀ d ∈ bs', ∀ x, d.h ≤ x → x < d.h + HEADER → memcpy s'.mem c.ptr b.ptr b.size x = s'.mem x := by
    intro d hd x hx hx'
    by_cases hcd : c = d
    · subst hcd
      exact hout x (.inl hx')
    · exact hother d hd hcd x hx (header_lt_fin d hx')
  have hcopied := hm.chained.frame hheader
  refine ⟨⟨hcopied.set_free hb' 1, hm.sub, hm.new, fun d hd hdb hd0 x hx hx' => ?_, fun d hd hdb hd0 => ?_,
    fun _ => ⟨c, hc, rfl, hfits, ?_, ?_⟩⟩, ?_⟩
  · have hbd : b ≠ d := fun heq => hdb (heq ▸ rfl)
    calc _ = _ := hcopied.set_free_other hb' (hm.sub d hd) hbd 1 (Nat.le_of_add_right_le hx) hx'
      _ = _ := hother d (hm.sub d hd) (hnot d hd hd0) x (Nat.le_of_add_right_le hx) hx'
      _ = _ := hm.keep d hd (ptr_ne_zero d) hd0 x hx hx'
  · have hbd : b ≠ d := fun heq => hdb (heq ▸ rfl)
    calc _ = _ := (hcopied.set_free_header hb' (hm.sub d hd) hbd 1).2.1
      _ = _ := (header_congr (hheader d (hm.sub d hd))).2.1
      _ = 0 := hm.flags d hd (ptr_ne_zero d) hd0
  · calc _ = _ := (hcopied.set_free_header hb' hc (Ne.symm (hnot b hb hlive)) 1).2.1
      _ = _ := (header_congr (hheader c hc)).2.1
      _ = 0 := hflag
  · exact fun hcb => .inl ((hfresh hcb).resolve_right (ptr_ne_zero c))
  · intro i hi
    calc _ = _ := hcopied.set_free_other hb' hc (Ne.symm (hnot b hb hlive)) 1 (Nat.le_add_right_of_le hptr) (by omega)
      _ = _ := hin i hi
      _ = _ := hm.keep b hb (ptr_ne_zero b) hlive _ (Nat.le_add_right _ _) (Nat.add_lt_add_left hi _)

/-! ## 確保している塊 -/

/-- 対象の塊。 -/
def Call.target : Call → Nat
  | .free ptr => ptr
  | .realloc ptr _ _ => ptr
  | _ => 0

/-- 塊 `l` の中身の終わり。広さは見出しに記録されたものである。 -/
def payload_end (m : ByteMem) (l : Nat × Nat) : Nat := l.1 + header_size m (l.1 - HEADER)

/-- 確保している塊の中身は、頼まれた広さがあり、互いにも、どの見出しとも重ならない。 -/
structure Separate (s : Client) (hs : List Nat) : Prop where
  headers : Headers s.heap hs
  headed : ∀ l ∈ s.live, l.1 - HEADER ∈ hs
  large : ∀ l ∈ s.live, l.1 + l.2 ≤ payload_end s.heap.mem l
  disjoint : s.live.Pairwise fun l k => payload_end s.heap.mem l ≤ k.1 ∨ payload_end s.heap.mem k ≤ l.1
  apart : ∀ l ∈ s.live, ∀ h ∈ hs, payload_end s.heap.mem l ≤ h ∨ h + HEADER ≤ l.1

/-- 対象のほかの塊の中身は変わらない。`realloc` は、前に頼まれた広さと新しい広さの小さい方までを写す。 -/
structure Keeps (s : Client) (c : Call) (s' : Heap) (q : Nat) : Prop where
  others : ∀ l ∈ s.live, l.1 ≠ c.target → ∀ x, l.1 ≤ x → x < payload_end s.heap.mem l → s'.mem x = s.heap.mem x
  copied : ∀ ptr size brk, c = .realloc ptr size brk → q ≠ 0 → ∀ old, (ptr, old) ∈ s.live → ∀ i < min old size,
    s'.mem (q + i) = s.heap.mem (ptr + i)

/-- 塊 `b` が、確保している塊 `l` である。 -/
structure Holds (m : ByteMem) (b : Block) (l : Nat × Nat) : Prop where
  ptr : l.1 = b.ptr
  fits : l.2 ≤ b.size
  used : header_free m b.h = 0

structure Inv (s : Client) (bs : List Block) : Prop where
  chained : Chained s.heap bs
  got : ∀ b ∈ bs, (b.h, b.size + HEADER) ∈ s.got
  live : ∀ l ∈ s.live, ∃ b ∈ bs, Holds s.heap.mem b l
  nodup : (s.live.map Prod.fst).Nodup

namespace Inv

variable {k : Client} {t : Nat} {got : List (Nat × Nat)} {l : Nat × Nat}

theorem start (m : ByteMem) : Inv (.start m) [] :=
  ⟨⟨rfl, rfl, fun _ h => absurd h List.not_mem_nil, .nil, fun _ h => absurd h List.not_mem_nil⟩, fun _ h => absurd h List.not_mem_nil,
    fun _ h => absurd h List.not_mem_nil, .nil⟩

theorem payload_end_eq (h : Inv k bs) (hb : b ∈ bs) (hl : Holds k.heap.mem b l) : payload_end k.heap.mem l = b.fin := by
  rw [payload_end, hl.ptr, header_of_ptr, h.chained.size b hb]
  rfl

theorem ne_zero (h : Inv k bs) (hl : l ∈ k.live) : l.1 ≠ 0 := by
  obtain ⟨b, -, hb⟩ := h.live l hl
  exact hb.ptr ▸ ptr_ne_zero b

theorem forget_zero (h : Inv k bs) : forget k.live 0 = k.live := List.filter_eq_self.2 fun l hl => by simpa using h.ne_zero hl

/-- 呼び出しの後も、不変条件が成り立つ。 -/
theorem after (h : Inv k bs) (he : Effect k.heap bs t n brk s' q bs') (hgot : ∀ r ∈ k.got, r ∈ got)
    (hbrk : brk ≠ SBRK_FAILED → (brk, n + HEADER) ∈ got) :
    Inv ⟨s', if q = 0 then forget k.live t else (q, n) :: forget k.live t, got⟩ bs' := by
  have hlive : ∀ l ∈ forget k.live t, ∃ b ∈ bs, b.ptr ≠ t ∧ Holds k.heap.mem b l ∧ Holds s'.mem b l := by
    intro l hl
    obtain ⟨hl, hlt⟩ := List.mem_filter.1 hl
    obtain ⟨b, hb, hheld⟩ := h.live l hl
    have hbt : b.ptr ≠ t := by simpa [hheld.ptr] using hlt
    exact ⟨b, hb, hbt, hheld, hheld.ptr, hheld.fits, he.flags b hb hbt hheld.used⟩
  have hnodup : ((forget k.live t).map Prod.fst).Nodup := h.nodup.sublist (List.filter_sublist.map _)
  have hkept : ∀ l ∈ forget k.live t, ∃ b ∈ bs', Holds s'.mem b l := fun l hl => by
    obtain ⟨b, hb, -, -, hheld⟩ := hlive l hl
    exact ⟨b, he.sub b hb, hheld⟩
  refine ⟨he.chained, fun b hb => ?_, ?_, ?_⟩
  · rcases he.new b hb with hold | ⟨rfl, hne⟩
    · exact hgot _ (h.got b hold)
    · exact hbrk hne
  · split
    next => exact hkept
    next hq =>
      obtain ⟨c, hc, hqc, hfits, hflag, -⟩ := he.grant hq
      exact List.forall_mem_cons.2 ⟨⟨c, hc, hqc, hfits, hflag⟩, hkept⟩
  · split
    next => exact hnodup
    next hq =>
      obtain ⟨c, hc, rfl, -, -, hfresh⟩ := he.grant hq
      refine List.nodup_cons.2 ⟨fun hmem => ?_, hnodup⟩
      obtain ⟨l, hl, hlc⟩ := List.mem_map.1 hmem
      obtain ⟨b, hb, hbt, hheld, -⟩ := hlive l hl
      have hptr : b.ptr = c.ptr := hheld.ptr.symm.trans hlc
      have hbc : b = c := he.chained.eq_of_h (he.sub b hb) hc (Nat.add_right_cancel hptr)
      subst hbc
      exact (hfresh hb).elim (fun hne => hne hheld.used) hbt

theorem separate (h : Inv k bs) : Separate k (bs.map Block.h) := by
  refine ⟨h.chained.headers, fun l hl => ?_, fun l hl => ?_, ?_, fun l hl a ha => ?_⟩
  · obtain ⟨b, hb, hheld⟩ := h.live l hl
    rw [hheld.ptr, header_of_ptr]
    exact List.mem_map_of_mem hb
  · obtain ⟨b, hb, hheld⟩ := h.live l hl
    rw [h.payload_end_eq hb hheld, hheld.ptr]
    exact Nat.add_le_add_left hheld.fits b.ptr
  · refine (List.pairwise_map.1 h.nodup).imp_of_mem fun {l r} hl hr hne => ?_
    obtain ⟨b, hb, hheld⟩ := h.live l hl
    obtain ⟨c, hc, hheld'⟩ := h.live r hr
    have hbc : b ≠ c := fun heq => hne (hheld.ptr.trans (heq ▸ hheld'.ptr.symm))
    rw [h.payload_end_eq hb hheld, h.payload_end_eq hc hheld', hheld.ptr, hheld'.ptr]
    exact (h.chained.apart_of_ne hb hc hbc).imp Nat.le_add_right_of_le Nat.le_add_right_of_le
  · obtain ⟨b, hb, hheld⟩ := h.live l hl
    obtain ⟨c, hc, rfl⟩ := List.mem_map.1 ha
    rw [h.payload_end_eq hb hheld, hheld.ptr]
    by_cases hbc : b = c
    · exact .inr (hbc ▸ Nat.le_refl _)
    · exact (h.chained.apart_of_ne hb hc hbc).imp id fun hle =>
        Nat.le_trans (Nat.le_add_right _ _) (Nat.le_add_right_of_le hle)

theorem others (h : Inv k bs) (he : Effect k.heap bs t n brk s' q bs') (hl : l ∈ k.live) (hlt : l.1 ≠ t) (hx : l.1 ≤ x)
    (hx' : x < payload_end k.heap.mem l) : s'.mem x = k.heap.mem x := by
  obtain ⟨b, hb, hheld⟩ := h.live l hl
  rw [h.payload_end_eq hb hheld] at hx'
  exact he.keep b hb (hheld.ptr ▸ hlt) hheld.used x (hheld.ptr ▸ hx) hx'

/-- 記録した範囲と重ならない答えは、どの塊とも重ならない。 -/
theorem answer (h : Inv k bs) (ha : Answer k.got n brk) :
    brk = SBRK_FAILED ∨ brk + (n + HEADER) ≤ 2 ^ 32 ∧ ∀ b ∈ bs, b.fin ≤ brk ∨ brk + (n + HEADER) ≤ b.h := by
  refine ha.imp id fun ⟨hfin, hnew⟩ => ⟨hfin, fun b hb => (hnew _ (h.got b hb)).imp (fun hle => ?_) id⟩
  rwa [Nat.add_comm b.size, ← Nat.add_assoc] at hle

theorem record_sub (got : List (Nat × Nat)) (n brk : Nat) : ∀ r ∈ got, r ∈ record got n brk := by
  intro r hr
  unfold record
  split
  next => exact hr
  next => exact List.mem_cons_of_mem _ hr

theorem record_mem (hbrk : brk ≠ SBRK_FAILED) : (brk, n + HEADER) ∈ record got n brk := by
  rw [record, if_neg hbrk]
  exact List.mem_cons_self

/-- 一回の呼び出しの結果。 -/
def Outcome (k : Client) (c : Call) : Prop :=
  ∃ s' q bs', call k.heap c = some (s', q) ∧ Inv ⟨s', live_after k.live q c, got_after k.got c⟩ bs' ∧ Keeps k c s' q

theorem malloc (h : Inv k bs) (hok : k.ok (.malloc n brk)) : Outcome k (.malloc n brk) := by
  obtain ⟨s', q, bs', hcall, he⟩ := malloc_result h.chained (h.answer hok.2) 0
  have hafter := h.after he (record_sub k.got n brk) record_mem
  rw [h.forget_zero] at hafter
  exact ⟨s', q, bs', hcall, hafter, fun l hl hlt x => h.others he hl hlt, fun _ _ _ hc => by cases hc⟩

/-- 確保している番地には、塊がある。 -/
theorem held (h : Inv k bs) {p : Nat} (hp : p ≠ 0) (hok : p = 0 ∨ ∃ n, (p, n) ∈ k.live) :
    ∃ b ∈ bs, p = b.ptr ∧ header_free k.heap.mem b.h = 0 := by
  obtain ⟨n, hl⟩ := hok.resolve_left hp
  obtain ⟨b, hb, hheld⟩ := h.live _ hl
  exact ⟨b, hb, hheld.ptr, hheld.used⟩

theorem free {p : Nat} (h : Inv k bs) (hok : k.ok (.free p)) : Outcome k (.free p) := by
  by_cases hp : p = 0
  · subst hp
    have he : Effect k.heap bs 0 0 SBRK_FAILED k.heap 0 bs := .none h.chained
    exact ⟨k.heap, 0, bs, rfl, h.after he (fun _ => id) fun hne => absurd rfl hne, fun _ _ _ _ _ _ => rfl, fun _ _ _ hc => by cases hc⟩
  · obtain ⟨b, hb, rfl, -⟩ := h.held hp hok
    have he : Effect k.heap bs b.ptr 0 SBRK_FAILED _ 0 bs := free_result h.chained hb
    exact ⟨_, 0, bs, rfl, h.after he (fun _ => id) fun hne => absurd rfl hne, fun l hl hlt x => h.others he hl hlt,
      fun _ _ _ hc => by cases hc⟩

/-- `realloc(NULL, n)` は `malloc(n)` である。 -/
theorem realloc_null (h : Inv k bs) (ha : Answer k.got n brk) : Outcome k (.realloc 0 n brk) := by
  obtain ⟨s', q, bs', hcall, he⟩ := malloc_result h.chained (h.answer ha) 0
  have hzero : n = 0 → q = 0 := fun hn => by
    subst hn
    cases hcall
    rfl
  have hlive : live_after k.live q (.realloc 0 n brk) = if q = 0 then forget k.live 0 else (q, n) :: forget k.live 0 := by
    unfold live_after
    by_cases hn : n = 0
    · simp [hn, hzero hn]
    · simp [hn, h.forget_zero]
  refine ⟨s', q, bs', hcall, hlive ▸ h.after he (record_sub k.got n brk) record_mem, fun l hl hlt x => h.others he hl hlt, ?_⟩
  intro ptr size brk' hc _ old hold
  cases hc
  exact absurd rfl (h.ne_zero hold)

/-- 対象 `b` を放した、または同じ番地か新しい番地で返した `realloc`。 -/
theorem realloc_of_effect (h : Inv k bs) (hb : b ∈ bs) (hcall : Libc.realloc k.heap b.ptr n brk = some (s', q))
    (he : Effect k.heap bs b.ptr n brk s' q bs') (hn : q = 0 → n = 0) (hn' : n = 0 → q = 0)
    (hcopy : q ≠ 0 → ∀ i < min b.size n, s'.mem (q + i) = k.heap.mem (b.ptr + i)) : Outcome k (.realloc b.ptr n brk) := by
  have hlive : live_after k.live q (.realloc b.ptr n brk) = if q = 0 then forget k.live b.ptr else (q, n) :: forget k.live b.ptr := by
    unfold live_after
    by_cases hzero : n = 0
    · simp [hzero, hn' hzero]
    · simp [hzero, mt hn hzero]
  refine ⟨s', q, bs', hcall, hlive ▸ h.after he (record_sub k.got n brk) record_mem, fun l hl hlt x => h.others he hl hlt, ?_⟩
  intro ptr size brk' hc hq old hold i hi
  cases hc
  obtain ⟨c, hc, hheld⟩ := h.live _ hold
  have hbc : b = c := h.chained.eq_of_h hb hc (Nat.add_right_cancel hheld.ptr)
  have hfits : old ≤ b.size := hbc ▸ hheld.fits
  exact hcopy hq i (by omega)

theorem realloc {p : Nat} (h : Inv k bs) (hok : k.ok (.realloc p n brk)) : Outcome k (.realloc p n brk) := by
  obtain ⟨hptr, -, ha⟩ := hok
  by_cases hp : p = 0
  · subst hp
    exact h.realloc_null ha
  obtain ⟨b, hb, rfl, hlive⟩ := h.held hp hptr
  by_cases hn : n = 0
  · subst hn
    exact h.realloc_of_effect hb (by simp [Libc.realloc, hp]) (free_result h.chained hb) (fun _ => rfl) (fun _ => rfl)
      fun hq => absurd rfl hq
  by_cases hfits : n ≤ b.size
  · have he : Effect k.heap bs b.ptr n brk k.heap b.ptr bs := ⟨h.chained, fun _ => id, fun _ => .inl, fun _ _ _ _ _ _ _ => rfl,
      fun _ _ _ => id, fun _ => ⟨b, hb, rfl, hfits, hlive, fun _ => .inr rfl⟩⟩
    exact h.realloc_of_effect hb (by simp [Libc.realloc, hp, hn, header_of_ptr, h.chained.size b hb, hfits]) he
      (fun hq => absurd hq hp) (fun hzero => absurd hzero hn) fun _ _ _ => rfl
  · obtain ⟨s', q, bs', hcall, he⟩ := malloc_result h.chained (h.answer ha) 0
    have hrealloc : Libc.realloc k.heap b.ptr n brk = some (if q ≠ 0 then
        (Libc.free { s' with mem := memcpy s'.mem q b.ptr (header_size s'.mem b.h) } b.ptr, q) else (s', q)) := by
      simp [Libc.realloc, hp, hn, header_of_ptr, h.chained.size b hb, hfits, hcall]
    by_cases hq : q = 0
    · rw [if_neg (not_not.2 hq)] at hrealloc
      have hafter := h.after he (record_sub k.got n brk) record_mem
      rw [if_pos hq, h.forget_zero] at hafter
      exact ⟨s', q, bs', hrealloc, by simpa [live_after, got_after, hn, hq] using hafter, fun l hl _ x => h.others he hl (h.ne_zero hl),
        fun _ _ _ _ hq' => absurd hq hq'⟩
    · rw [if_pos hq] at hrealloc
      obtain ⟨he', hcopy⟩ := realloc_grow hb hlive (Nat.lt_of_not_le hfits) hq he
      exact h.realloc_of_effect hb hrealloc he' (fun h0 => absurd h0 hq) (fun hzero => absurd hzero hn) fun _ i hi =>
        hcopy i (Nat.lt_of_lt_of_le hi (Nat.min_le_left _ _))

/-- 確保した塊の中への書き込みは、見出しに及ばない。 -/
theorem store {a : Nat} {w : UInt8} (h : Inv k bs) (hok : k.ok (.store a w)) :
    Inv { k with heap := { k.heap with mem := k.heap.mem.store8 a w } } bs := by
  obtain ⟨l, hl, hlo, hhi⟩ := hok
  obtain ⟨b, hb, hheld⟩ := h.live l hl
  have hfits := hheld.fits
  rw [hheld.ptr] at hlo hhi
  have hheader : ∀ c ∈ bs, ∀ x, c.h ≤ x → x < c.h + HEADER → k.heap.mem.store8 a w x = k.heap.mem x := by
    intro c hc x hx hx'
    refine ByteMem.store8_of_ne ?_
    unfold Block.ptr at hlo hhi
    by_cases hbc : b = c
    · subst hbc
      omega
    · have hapart := h.chained.apart_of_ne hb hc hbc
      unfold Block.Apart Block.fin at hapart
      omega
  refine ⟨h.chained.frame hheader, h.got, fun r hr => ?_, h.nodup⟩
  obtain ⟨c, hc, hheld'⟩ := h.live r hr
  exact ⟨c, hc, hheld'.ptr, hheld'.fits, (header_congr (hheader c hc)).2.1.trans hheld'.used⟩

end Inv

/-- libc の呼び出しである。 -/
def Call.Library : Call → Prop
  | .store _ _ => False
  | _ => True

variable {k k' : Client} {c : Call}

/-- 一歩は、不変条件を保つ。 -/
theorem Client.step_inv (h : ∃ bs, Inv k bs) (hok : k.ok c) (hstep : k.step c = some k') : ∃ bs, Inv k' bs := by
  obtain ⟨bs, h⟩ := h
  have houtcome : Inv.Outcome k c → ∃ bs, Inv k' bs := by
    rintro ⟨s', q, bs', hcall, hinv, -⟩
    rw [Client.step, hcall] at hstep
    cases hstep
    exact ⟨bs', hinv⟩
  cases c with
  | malloc size brk => exact houtcome (h.malloc hok)
  | free ptr => exact houtcome (h.free hok)
  | realloc ptr size brk => exact houtcome (h.realloc hok)
  | store a v =>
    cases hstep
    exact ⟨bs, h.store hok⟩

theorem heap_safe (m : ByteMem) (k : Client) (h : Steps Client.step Client.ok (.start m) k) :
    (∃ hs, Separate k hs) ∧ ∀ c, k.ok c → c.Library → ∃ s' q, call k.heap c = some (s', q) ∧ Keeps k c s' q := by
  obtain ⟨bs, hinv⟩ := h.inv (P := fun k => ∃ bs, Inv k bs) (fun _ _ _ => Client.step_inv) ⟨[], .start m⟩
  refine ⟨⟨_, hinv.separate⟩, fun c hok hc => ?_⟩
  have houtcome : Inv.Outcome k c → ∃ s' q, call k.heap c = some (s', q) ∧ Keeps k c s' q := fun ⟨s', q, _, hcall, _, hkeeps⟩ =>
    ⟨s', q, hcall, hkeeps⟩
  cases c with
  | malloc size brk => exact houtcome (hinv.malloc hok)
  | free ptr => exact houtcome (hinv.free hok)
  | realloc ptr size brk => exact houtcome (hinv.realloc hok)
  | store a v => exact absurd hc id

/-! ## 実行例 -/

/-- 条件の検査。 -/
def Client.check (k : Client) : Call → Bool
  | .malloc size brk => decide (size < 2 ^ 32) && decide (Answer k.got size brk)
  | .free ptr => k.live.any fun l => l.1 == ptr
  | .realloc ptr size brk => (k.live.any fun l => l.1 == ptr) && (decide (size < 2 ^ 32) && decide (Answer k.got size brk))
  | .store a _ => k.live.any fun l => decide (l.1 ≤ a) && decide (a < l.1 + l.2)

theorem Client.check_ok (k : Client) (c : Call) (h : k.check c = true) : k.ok c := by
  have hmem : ∀ p, (k.live.any fun l => l.1 == p) = true → p = 0 ∨ ∃ n, (p, n) ∈ k.live := fun p hp => by
    obtain ⟨l, hl, hlp⟩ := List.any_eq_true.1 hp
    exact .inr ⟨l.2, beq_iff_eq.1 hlp ▸ hl⟩
  cases c with
  | malloc size brk =>
    simp only [Client.check, Bool.and_eq_true, decide_eq_true_eq] at h
    exact h
  | free ptr => exact hmem ptr h
  | realloc ptr size brk =>
    simp only [Client.check, Bool.and_eq_true, decide_eq_true_eq] at h
    exact ⟨hmem ptr h.1, h.2⟩
  | store a v => simpa [Client.check, Client.ok] using h

/-- 二つ目の塊を放し、一つ目を広げると、放した塊を使い直して中身を写す。 -/
def sample : Trace (checked Client.step Client.check (.start fun _ => 0)) fun k =>
    k.live = [(0x200C, 12)] ∧ k.got = [(0x2000, 28), (0x1000, 20)] ∧ k.heap.mem 0x2010 = 0x41 :=
  ⟨[.malloc 8 0x1000, .malloc 16 0x2000, .store 0x1010 0x41, .free 0x200C, .realloc 0x100C 12 SBRK_FAILED], by decide +kernel⟩

theorem heap_safe_sample : ∃ k, k.live = [(0x200C, 12)] ∧ k.heap.mem 0x2010 = 0x41 ∧ (∃ hs, Separate k hs) ∧
    ∃ s' q, call k.heap (.realloc 0x200C 100 0x3000) = some (s', q) ∧ Keeps k (.realloc 0x200C 100 0x3000) s' q := by
  obtain ⟨k, hsteps, hlive, hgot, hmem⟩ := sample.steps_checked Client.check_ok
  obtain ⟨hseparate, hcall⟩ := heap_safe (fun _ => 0) k hsteps
  have hanswer : Answer k.got 100 0x3000 := by
    rw [hgot]
    decide
  exact ⟨k, hlive, hmem, hseparate, hcall _ ⟨.inr ⟨12, hlive ▸ List.mem_cons_self⟩, by decide, hanswer⟩ trivial⟩

end MyOS.Libc
