import MyOS.Lib.Least
import MyOS.Mem.Lemmas.Regions
import Mathlib.Order.Interval.Set.Disjoint
import Mathlib.Order.CompletePartialOrder

/-!
# `mmap` の番地の探索

領域の並びは番地の順とは限らない。`syscall_mmap` は、一巡して番地が動かなくなるまで領域を調べ直す。動くたびに
少なくとも一つの領域を越えるので、繰り返しは終わり、飛ばした番地はどれも使えない。
-/

namespace MyOS.Mem
open MyOS.Lib

variable {l l' : List Vma} {len addr base n : Nat}

/-- `while (vma)` のループの一歩。`changed` は番地を動かしたことを表す。 -/
def mmap_visit (len : Nat) (st : Nat × Bool) (v : Vma) : Nat × Bool :=
  if overlaps st.1 len v then (v.end, true) else st

def mmap_pass (len addr : Nat) (l : List Vma) : Nat × Bool := l.foldl (mmap_visit len) (addr, false)

/-- `do … while (changed)`。`none` は、`fuel` 回では終わらないことを表す。終われば `mmap_search` の番地と同じである。 -/
def mmap_loop (len : Nat) (l : List Vma) : Nat → Nat → Option Nat
  | 0, _ => none
  | fuel + 1, addr =>
      let (addr, changed) := mmap_pass len addr l
      if changed then mmap_loop len l fuel addr else some addr

/-- `addr` からの `len` バイトは、どの領域とも重ならない。 -/
def FreeAt (l : List Vma) (len addr : Nat) : Prop := ∀ v ∈ l, addr + len ≤ v.start ∨ v.end ≤ addr

/-- 番地に `len` を足しても、32 ビットに収まる。 -/
structure Bounded (l : List Vma) (len addr : Nat) : Prop where
  addr : addr + len < 2 ^ 32
  ends : ∀ v ∈ l, v.end + len < 2 ^ 32

/-- 一巡の途中。`l'` は調べ終えた領域である。 -/
structure Visited (l l' : List Vma) (len addr : Nat) (st : Nat × Bool) : Prop where
  le : addr ≤ st.1
  skips : Skips (FreeAt l len) addr st.1
  bounded : Bounded l len st.1
  same : st.2 = false → st.1 = addr ∧ FreeAt l' len addr
  moved : st.2 = true → ∃ v ∈ l, addr < v.end ∧ v.end ≤ st.1

theorem Visited.visit {v : Vma} {st : Nat × Bool} (h : Visited l l' len addr st) (hv : v ∈ l) :
    Visited l (l' ++ [v]) len addr (mmap_visit len st v) := by
  unfold mmap_visit
  by_cases hov : overlaps st.1 len v = true
  · have hnear : ¬ (st.1 + len ≤ v.start ∨ v.end ≤ st.1) := by
      intro hfar
      cases hov.symm.trans ((overlaps_eq h.bounded.addr).mpr hfar)
    have hle := h.le
    rw [if_pos hov]
    refine ⟨show addr ≤ v.end by omega, h.skips.trans fun x hx hlt hfree => ?_, ⟨h.bounded.ends v hv, h.bounded.ends⟩,
      fun hc => (by cases hc), fun _ => ⟨v, hv, by omega, le_rfl⟩⟩
    -- 飛ばした番地からの範囲も、同じ領域に重なる
    have := hfree v hv
    dsimp only at hlt
    omega
  · rw [if_neg hov]
    refine ⟨h.le, h.skips, h.bounded, fun hc => ?_, h.moved⟩
    obtain ⟨heq, hfree⟩ := h.same hc
    refine ⟨heq, fun w hw => ?_⟩
    cases List.mem_append.mp hw with
    | inl hw => exact hfree w hw
    | inr hw =>
      obtain rfl := List.mem_singleton.mp hw
      rw [← heq]
      exact (overlaps_eq h.bounded.addr).mp (by simpa using hov)

theorem Visited.pass {st : Nat × Bool} {rest : List Vma} (h : Visited l l' len addr st) (hrest : ∀ v ∈ rest, v ∈ l) :
    Visited l (l' ++ rest) len addr (rest.foldl (mmap_visit len) st) := by
  induction rest generalizing l' st with
  | nil => simpa using h
  | cons v rest ih =>
    have hnext := ih (h.visit (hrest v (List.mem_cons_self ..))) fun w hw => hrest w (List.mem_cons_of_mem _ hw)
    simpa using hnext

theorem mmap_pass_spec (h : Bounded l len addr) : Visited l l len addr (mmap_pass len addr l) := by
  have hstart : Visited l [] len addr (addr, false) :=
    ⟨le_rfl, Skips.refl _ _, h, fun _ => ⟨rfl, fun _ hv => absurd hv List.not_mem_nil⟩, fun hc => (by cases hc)⟩
  have hpass : Visited l ([] ++ l) len addr (mmap_pass len addr l) := hstart.pass fun _ hv => hv
  rwa [List.nil_append] at hpass

/-- まだ越えていない領域の数より多くは回らない。 -/
theorem mmap_loop_spec (h : Bounded l len addr) (hfuel : l.countP (fun v => decide (addr < v.end)) < n) :
    ∃ a, mmap_loop len l n addr = some a ∧ IsLeast {x | addr ≤ x ∧ FreeAt l len x} a := by
  induction n generalizing addr with
  | zero => omega
  | succ n ih =>
    have hpass := mmap_pass_spec h
    unfold mmap_loop
    cases hst : mmap_pass len addr l with
    | mk addr' changed =>
      rw [hst] at hpass
      cases changed with
      | false =>
        obtain ⟨heq, hfree⟩ := hpass.same rfl
        dsimp only at heq
        subst heq
        exact ⟨addr', rfl, (Skips.refl _ _).isLeast le_rfl hfree⟩
      | true =>
        obtain ⟨v, hv, hlt, hend⟩ := hpass.moved rfl
        have hle := hpass.le
        dsimp only at hend hle
        have hless := countP_lt_of_mem (p := fun v : Vma => decide (addr < v.end))
          (q := fun v => decide (addr' < v.end)) (a := v) (l := l)
          (fun u _ hu => by have := of_decide_eq_true hu; simp only [decide_eq_true_eq]; omega)
          hv (by simpa using hlt) (by simpa using hend)
        obtain ⟨a, ha, hleast⟩ := ih hpass.bounded (by dsimp only; omega)
        refine ⟨a, ha, (hpass.skips.trans fun x hx hlt hfree => ?_).isLeast (hle.trans hleast.1.1) hleast.1.2⟩
        exact absurd (hleast.2 ⟨hx, hfree⟩) (Nat.not_le.mpr hlt)

/-! ## `syscall_mmap` の使う番地 -/

theorem mmap_visit_scan (len : Nat) (l : List Vma) (st : Nat × Bool) : (l.foldl (mmap_visit len) st).1 = mmap_scan len st.1 l := by
  induction l generalizing st with
  | nil => rfl
  | cons v l ih =>
    unfold mmap_scan
    rw [List.foldl_cons, ih, List.foldl_cons]
    unfold mmap_visit mmap_scan
    split <;> rfl

/-- `changed` は、番地が前より大きくなったことを表す。 -/
theorem mmap_visit_changed (len : Nat) (l : List Vma) {st : Nat × Bool} (hst : st = (addr, false) ∨ st.2 = true ∧ addr < st.1) :
    l.foldl (mmap_visit len) st = (addr, false) ∨
      (l.foldl (mmap_visit len) st).2 = true ∧ addr < (l.foldl (mmap_visit len) st).1 := by
  induction l generalizing st with
  | nil => exact hst
  | cons v l ih =>
    refine ih ?_
    have hle : addr ≤ st.1 := by
      cases hst with
      | inl heq => rw [heq]
      | inr hlt => exact hlt.2.le
    unfold mmap_visit
    by_cases hov : overlaps st.1 len v = true
    · rw [if_pos hov]
      exact Or.inr ⟨rfl, Nat.lt_of_le_of_lt hle (overlaps_end hov)⟩
    · rwa [if_neg hov]

theorem mmap_loop_search {a : Nat} (h : mmap_loop len l n addr = some a) : mmap_search len l n addr = a := by
  induction n generalizing addr with
  | zero => cases h
  | succ n ih =>
    have hscan := mmap_visit_scan len l (addr, false)
    have hchanged := mmap_visit_changed len l (Or.inl (Eq.refl (addr, false)))
    unfold mmap_loop mmap_pass at h
    unfold mmap_search
    rw [← hscan]
    cases hchanged with
    | inl heq =>
      rw [heq] at h ⊢
      cases h
      exact if_pos rfl
    | inr hmoved =>
      simp only [hmoved.1, if_true] at h
      dsimp only
      rw [if_neg (Nat.ne_of_gt hmoved.2)]
      exact ih h

/-- 番地の探索は領域の数を超える回数で必ず終わり、`mmap_base addr` 以上で、`n` ページがどの領域とも重ならない
最小の番地を返す。 -/
theorem mmap_addr_least (l : List Vma) (addr n : Nat) (hn : 1 ≤ n) (hl : ∀ v ∈ l, v.start < v.end)
    (hbase : mmap_base addr + n * BLOCK_SIZE < 2 ^ 32) (hend : ∀ v ∈ l, v.end + n * BLOCK_SIZE < 2 ^ 32) :
    ∃ a, (∀ fuel > l.length, mmap_loop (n * BLOCK_SIZE) l fuel (mmap_base addr) = some a) ∧
      mmap_search (n * BLOCK_SIZE) l (l.length + 1) (mmap_base addr) = a ∧
      IsLeast {x | mmap_base addr ≤ x ∧ ∀ v ∈ l, Disjoint (Set.Ico x (x + n * BLOCK_SIZE)) (Set.Ico v.start v.end)} a := by
  have hpos : 0 < n * BLOCK_SIZE := Nat.mul_pos hn (by decide)
  have hfree (x : Nat) : (∀ v ∈ l, Disjoint (Set.Ico x (x + n * BLOCK_SIZE)) (Set.Ico v.start v.end)) ↔
      FreeAt l (n * BLOCK_SIZE) x := by
    refine forall₂_congr fun v hv => ?_
    have hlt := hl v hv
    rw [Set.Ico_disjoint_Ico]
    omega
  have hspec (fuel : Nat) (hfuel : fuel > l.length) :=
    mmap_loop_spec ⟨hbase, hend⟩ (Nat.lt_of_le_of_lt List.countP_le_length hfuel)
  obtain ⟨a, ha, hleast⟩ := hspec (l.length + 1) (Nat.lt_succ_self _)
  refine ⟨a, fun fuel hfuel => ?_, mmap_loop_search ha, ?_⟩
  · obtain ⟨a', ha', hleast'⟩ := hspec fuel hfuel
    rw [ha', hleast'.unique hleast]
  · simpa only [hfree] using hleast

/-- 二巡目で、先に調べた領域との重なりが現れる並び。 -/
def unsorted : List Vma := [⟨0x8500000, 0x8600000, 0⟩, ⟨0x8448000, 0x8500000, 0⟩]

theorem mmap_addr_unsorted : IsLeast {x | mmap_base 0 ≤ x ∧
    ∀ v ∈ unsorted, Disjoint (Set.Ico x (x + 1 * BLOCK_SIZE)) (Set.Ico v.start v.end)} 0x8600000 := by
  obtain ⟨a, -, ha, hleast⟩ := mmap_addr_least unsorted 0 1 (by decide) (by decide) (by decide) (by decide)
  obtain rfl : a = 0x8600000 := ha.symm.trans (by decide)
  exact hleast

end MyOS.Mem
