import MyOS.Heap.Lemmas.Spec

/-!
# `free` の仕様

どの番地を渡しても `free` は戻り、不変条件を保つ。書くのはヘッダの中だけである。
-/

namespace MyOS.Heap
open MyOS.Lib

variable {m m' : ByteMem} {a e : Nat} {b c d : Block} {l l₁ l₂ : List Block} {s : State}

/-! ## ブロックの重なり -/

theorem Tiles.header_not_payload {x : Nat} (h : Tiles m a l e) (hb : b ∈ l) (hd : d ∈ l)
    (hx : d.Holds x) : x < b.addr ∨ b.addr + 12 ≤ x := by
  have hx1 : d.addr + 12 ≤ x := hx.1
  have hx2 := hx.2
  by_cases hne : d = b
  · subst hne
    exact Or.inr hx1
  · obtain ⟨l₁, l₂, rfl⟩ := List.append_of_mem hb
    have := b.payload_le_stop
    rcases h.disjoint hd hne with h' | h' <;> omega

/-- 前のブロックの番地。前のブロックがなければ 0。 -/
def lastAddr (l : List Block) : Nat := (l.getLast?.map Block.addr).getD 0

/-- 先頭のブロックの番地。空の並びでは 0。 -/
def headAddr (l : List Block) : Nat := (l.head?.map Block.addr).getD 0

theorem Tiles.next_eq (h : Tiles m a (l₁ ++ b :: l₂) e) : Header.next m b.addr = headAddr l₂ := by
  obtain ⟨-, -, hh, ht⟩ := h.split
  rw [hh.next]
  cases l₂ with
  | nil => rfl
  | cons d l₂ => exact ht.1.symm

/-! ## ブロックを探す -/

theorem free_loop_spec (address : Nat) (ha : 0 < a) (he : e + 12 < 2 ^ 32) :
    (l l₁ : List Block) → (fuel : Nat) → Tiles m a (l₁ ++ l) e → l.length < fuel →
    (∃ l₀ b l₂, l = l₀ ++ b :: l₂ ∧ b.payload = address ∧
      free_loop m address fuel (lastAddr l₁) (headAddr l) =
        some (free_merge m (lastAddr (l₁ ++ l₀)) b.addr)) ∨
    ((∀ b ∈ l, b.payload ≠ address) ∧
      free_loop m address fuel (lastAddr l₁) (headAddr l) = some m)
  | _, _, 0, _, hf => by simp at hf
  | [], l₁, fuel + 1, _, _ => by simp [free_loop, headAddr]
  | b :: l, l₁, fuel + 1, h, hf => by
      have hb := h.bounds (b := b) (by simp)
      have hstop := b.payload_le_stop
      have hcur : headAddr (b :: l) = b.addr := rfl
      have hadd : add32 b.addr sizeofHeader = b.payload := add32_eq (by unfold sizeofHeader; omega)
      by_cases heq : b.payload = address
      · refine Or.inl ⟨[], b, l, rfl, heq, ?_⟩
        simp only [free_loop, hcur, hadd, heq, List.append_nil]
        rw [if_neg (by omega), if_pos trivial]
      · have hstep : free_loop m address (fuel + 1) (lastAddr l₁) (headAddr (b :: l)) =
            free_loop m address fuel (lastAddr (l₁ ++ [b])) (headAddr l) := by
          simp only [free_loop, hcur, hadd]
          rw [if_neg (by omega), if_neg heq, h.next_eq]
          simp [lastAddr]
        rw [hstep]
        have h' : Tiles m a ((l₁ ++ [b]) ++ l) e := by simpa using h
        rcases free_loop_spec address ha he l (l₁ ++ [b]) fuel h' (by simpa using hf) with ⟨l₀, d, l₂, rfl, hd, hr⟩ | ⟨hno, hr⟩
        · exact Or.inl ⟨b :: l₀, d, l₂, rfl, hd, by rw [hr]; simp⟩
        · refine Or.inr ⟨fun d hd => ?_, hr⟩
          rcases List.mem_cons.mp hd with rfl | hd
          · exact heq
          · exact hno d hd

/-! ## 前後のブロックとつなぐ -/

theorem NoAdjFree.left (h : NoAdjFree (l₁ ++ b :: l₂)) : NoAdjFree (l₁ ++ [b]) :=
  (List.isChain_split.mp h).1

theorem NoAdjFree.right (h : NoAdjFree (l₁ ++ b :: l₂)) : NoAdjFree (b :: l₂) :=
  (List.isChain_split.mp h).2

theorem NoAdjFree.glue (h : NoAdjFree (l₁ ++ [b])) (h' : NoAdjFree (b :: l₂)) :
    NoAdjFree (l₁ ++ b :: l₂) := List.isChain_split.mpr ⟨h, h'⟩

/-- 左隣のブロックとつないだ後の並び。`c` は空きで、その左隣は空きではない。 -/
theorem merge_prev_spec (ha : 0 < a) (he : e < 2 ^ 32) (h : Tiles m a (l₁ ++ b :: l₂) e)
    (hb : b.free = true) (hl₁ : NoAdjFree l₁) :
    ∃ k₁ c, (merge_prev m (lastAddr l₁) b.addr).2 = c.addr ∧ c.free = true ∧
      Tiles (merge_prev m (lastAddr l₁) b.addr).1 a (k₁ ++ c :: l₂) e ∧ NoAdjFree (k₁ ++ [c]) ∧
      (∀ d ∈ l₁, d.free = false → d ∈ k₁) ∧
      ∀ d ∈ l₁ ++ b :: l₂, ∀ x, d.Holds x → (merge_prev m (lastAddr l₁) b.addr).1 x = m x := by
  have hnone : l₁ = [] ∨ ∃ l₀ p, l₁ = l₀ ++ [p] := List.eq_nil_or_concat l₁ |>.imp_right (by simp)
  rcases hnone with rfl | ⟨l₀, p, rfl⟩
  · have hsame : merge_prev m (lastAddr []) b.addr = (m, b.addr) := by
      simp [merge_prev, lastAddr]
    rw [hsame]
    exact ⟨[], b, rfl, hb, h, List.isChain_singleton _, by simp, fun _ _ _ _ => rfl⟩
  · have hlast : lastAddr (l₀ ++ [p]) = p.addr := by simp [lastAddr]
    have h' : Tiles m a (l₀ ++ p :: b :: l₂) e := by simpa using h
    obtain ⟨-, -, hp, -, hh, -⟩ := h'.split
    have hpos := (h'.bounds (b := p) (by simp)).1
    have hpb : p.stop ≤ b.addr := by
      have := h'.sorted
      simp only [List.pairwise_append, List.pairwise_cons] at this
      exact this.2.1.1 b (by simp)
    have hps : p.stop = p.addr + 12 + p.size := rfl
    have hbs : b.stop = b.addr + 12 + b.size := rfl
    have hbe := (h'.bounds (b := b) (by simp)).2
    rw [hlast]
    cases hfree : p.free with
    | false =>
        have hsame : merge_prev m p.addr b.addr = (m, b.addr) := by
          simp [merge_prev, hp.free, hfree]
        rw [hsame]
        exact ⟨l₀ ++ [p], b, rfl, hb, h, by simpa using hl₁.snoc hfree, fun d hd _ => hd,
          fun _ _ _ _ => rfl⟩
    | true =>
        have hmerged : merge_prev m p.addr b.addr =
            (Header.setNext (Header.setSize m p.addr (p.size + (b.size + 12))) p.addr
              (Header.next m b.addr), p.addr) := by
          have hadd : add32 p.size (add32 b.size sizeofHeader) = p.size + (b.size + 12) := by
            unfold sizeofHeader
            rw [add32_eq (a := b.size) (by omega), add32_eq (by omega)]
          have hnext : Header.next (Header.setSize m p.addr (p.size + (b.size + 12))) b.addr =
              Header.next m b.addr :=
            (Header.congr (fun x hx _ => Header.setSize_outside (by omega))).2.2
          unfold merge_prev
          simp only [hp.free, hfree, hp.size, hh.size, hadd, hnext]
          rw [if_pos ⟨by omega, trivial⟩]
        rw [hmerged]
        refine ⟨l₀, ⟨p.addr, p.size + (b.size + 12), p.free⟩, rfl, hfree, h'.merge he,
          hl₁.resize rfl, fun d hd hf => ?_, fun d hd x hx => ?_⟩
        · rcases List.mem_append.mp hd with hd | hd
          · exact hd
          · rw [List.mem_singleton.mp hd, hfree] at hf
            cases hf
        · have hx' := h'.header_not_payload (b := p) (by simp) (by simpa using hd) hx
          exact (Header.setNext_outside hx').trans (Header.setSize_outside hx')

/-- 右隣のブロックとつないだ後の並び。隣り合う空きは残らない。 -/
theorem merge_next_spec (he : e < 2 ^ 32) (h : Tiles m a (l₁ ++ c :: l₂) e)
    (hc : c.free = true) (hleft : NoAdjFree (l₁ ++ [c])) (hright : NoAdjFree l₂) :
    ∃ l', l' ≠ [] ∧ Tiles (merge_next m c.addr) a l' e ∧ NoAdjFree l' ∧
      (∀ d ∈ l₁ ++ c :: l₂, d.free = false → d ∈ l') ∧
      ∀ d ∈ l₁ ++ c :: l₂, ∀ x, d.Holds x → merge_next m c.addr x = m x := by
  have hnext := h.next_eq
  cases l₂ with
  | nil =>
      have hsame : merge_next m c.addr = m := by simp [merge_next, hnext, headAddr]
      rw [hsame]
      exact ⟨_, by simp, h, hleft, fun d hd _ => hd, fun _ _ _ _ => rfl⟩
  | cons n l₂ =>
      obtain ⟨-, -, hh, -, hn, -⟩ := h.split
      have hnb := h.bounds (b := n) (by simp)
      have hcn : c.stop ≤ n.addr := by
        have := h.sorted
        simp only [List.pairwise_append, List.pairwise_cons] at this
        exact this.2.1.1 n (by simp)
      have hcs : c.stop = c.addr + 12 + c.size := rfl
      have hns : n.stop = n.addr + 12 + n.size := rfl
      have hhead : headAddr (n :: l₂) = n.addr := rfl
      rw [hhead] at hnext
      cases hfree : n.free with
      | false =>
          have hsame : merge_next m c.addr = m := by simp [merge_next, hnext, hn.free, hfree]
          rw [hsame]
          refine ⟨_, by simp, h, hleft.glue ?_, fun d hd _ => hd, fun _ _ _ _ => rfl⟩
          exact List.isChain_cons_cons.mpr ⟨by simp [hfree], hright⟩
      | true =>
          have hmerged : merge_next m c.addr =
              Header.setNext (Header.setSize m c.addr (c.size + (n.size + 12))) c.addr
                (Header.next m n.addr) := by
            have hadd : add32 c.size (add32 n.size sizeofHeader) = c.size + (n.size + 12) := by
              unfold sizeofHeader
              rw [add32_eq (a := n.size) (by omega), add32_eq (by omega)]
            have hnn : Header.next (Header.setSize m c.addr (c.size + (n.size + 12))) n.addr =
                Header.next m n.addr :=
              (Header.congr (fun x hx _ => Header.setSize_outside (by omega))).2.2
            unfold merge_next
            simp only [hnext, hn.free, hfree, hh.size, hn.size, hadd, hnn]
            rw [if_pos ⟨by omega, trivial⟩]
          rw [hmerged]
          have hleft' := hleft.resize (d := ⟨c.addr, c.size + (n.size + 12), c.free⟩) rfl
          refine ⟨_, by simp, h.merge he, hleft'.glue ?_, fun d hd hf => ?_, fun d hd x hx => ?_⟩
          · -- 右隣が空きなので、その次のブロックは空きではない。
            refine List.isChain_cons.mpr ⟨fun y hy hfy => ?_, (List.isChain_cons.mp hright).2⟩
            exact (List.isChain_cons.mp hright).1 y hy ⟨hfree, hfy.2⟩
          · simp only [List.mem_append, List.mem_cons] at hd ⊢
            rcases hd with hd | rfl | rfl | hd
            · exact Or.inl hd
            · rw [hc] at hf; cases hf
            · rw [hfree] at hf; cases hf
            · exact Or.inr (Or.inr hd)
          · have hx' := h.header_not_payload (b := c) (by simp) hd hx
            exact (Header.setNext_outside hx').trans (Header.setSize_outside hx')

theorem free_merge_spec (h : HeapOk s (l₁ ++ b :: l₂)) :
    ∃ l', HeapOk { s with mem := free_merge s.mem (lastAddr l₁) b.addr } l' ∧
      Keeps s.mem (free_merge s.mem (lastAddr l₁) b.addr) (l₁ ++ b :: l₂) l' (· ≠ b) := by
  have hlim := h.stop_le
  have ha : 0 < s.malloc_head := by rw [h.head]; decide
  have hl₁ : NoAdjFree l₁ := (List.isChain_append.mp h.noAdj).1
  have hl₂ : NoAdjFree l₂ := (List.isChain_cons.mp h.noAdj.right).2
  have ht := h.tiles.setFree true
  obtain ⟨k₁, c, hc, hcf, ht₂, hadj, hsub, hbytes⟩ :=
    merge_prev_spec ha (by omega) ht rfl hl₁
  obtain ⟨l', hne, ht₃, hadj', hsub', hbytes'⟩ := merge_next_spec (by omega) ht₂ hcf hadj hl₂
  have hmem : free_merge s.mem (lastAddr l₁) b.addr =
      merge_next (merge_prev (Header.setFree s.mem b.addr true) (lastAddr l₁) b.addr).1 c.addr := by
    rw [← hc]; rfl
  have hmid : ∀ d ∈ l₁ ++ b :: l₂, d.free = false → d ≠ b → d ∈ k₁ ++ c :: l₂ := by
    intro d hd hf hne
    simp only [List.mem_append, List.mem_cons] at hd ⊢
    rcases hd with hd | rfl | hd
    · exact Or.inl (hsub d hd hf)
    · exact absurd rfl hne
    · exact Or.inr (Or.inr hd)
  rw [hmem]
  refine ⟨l', ⟨h.head, hne, ht₃, hadj', h.pages, h.fresh⟩, fun d hd hf hne => hsub' d (hmid d hd hf hne) hf,
    fun d hd hf hne x hx => ?_⟩
  -- どの段階でも書くのはヘッダだけであり、`d` はすべての段階の並びの中にある。
  have hd' : d ∈ l₁ ++ { b with free := true } :: l₂ := by
    simp only [List.mem_append, List.mem_cons] at hd ⊢
    exact hd.imp_right (fun hd => Or.inr (hd.resolve_left hne))
  calc
    _ = _ := hbytes' d (hmid d hd hf hne) x hx
    _ = _ := hbytes d hd' x hx
    _ = s.mem x := Header.setFree_outside (h.tiles.header_not_payload (by simp) hd hx)

/-! ## `free` の全体 -/

theorem free_spec (address : Nat) (h : HeapOk s l) :
    ∃ s' l', free s address = some s' ∧ HeapOk s' l' ∧
      Keeps s.mem s'.mem l l' (fun b => b.payload ≠ address) := by
  have hlim := h.stop_le
  have hhead : headAddr l = s.malloc_head := by
    cases l with
    | nil => exact absurd rfl h.nonempty
    | cons b l => exact h.tiles.1
  have hlen := h.tiles.length_le_fuel h.head
  rcases free_loop_spec address (by rw [h.head]; decide) (by omega) l [] (s.fuel + 1) h.tiles
    (by omega) with ⟨l₀, b, l₂, rfl, hb, hr⟩ | ⟨hno, hr⟩
  · obtain ⟨l', hok, hkeep⟩ := free_merge_spec h
    refine ⟨_, l', ?_, hok, ⟨fun d hd hf hp => ?_, fun d hd hf hp x hx => ?_⟩⟩
    · rw [hhead] at hr
      unfold free
      rw [show (0 : Nat) = lastAddr [] from rfl, hr]
      rfl
    · exact hkeep.mem d hd hf (fun heq => hp (heq ▸ hb))
    · exact hkeep.bytes d hd hf (fun heq => hp (heq ▸ hb)) x hx
  · refine ⟨s, l, ?_, h, ⟨fun _ hd _ _ => hd, fun _ _ _ _ _ _ => rfl⟩⟩
    rw [hhead] at hr
    unfold free
    rw [show (0 : Nat) = lastAddr [] from rfl, hr]
    rfl

end MyOS.Heap
