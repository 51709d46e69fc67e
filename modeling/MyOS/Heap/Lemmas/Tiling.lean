import MyOS.Heap.Malloc

/-!
# ヘッダの読み書き

ヘッダの欄を書いたあとの読み出しと、ヘッダの 12 バイトの外が変わらないこと。
-/

namespace MyOS.Heap
open MyOS.Lib

variable {m m' : ByteMem} {a b v : Nat}

namespace Header

/-! ## 同じヘッダの欄 -/

@[simp] theorem size_setSize (hv : v < 2 ^ 32) : size (setSize m a v) a = v :=
  ByteMem.load32_store32_self hv

@[simp] theorem size_setFree {v : Bool} : size (setFree m a v) a = size m a :=
  ByteMem.load32_store8_of_outside (by omega)

@[simp] theorem size_setNext : size (setNext m a v) a = size m a :=
  ByteMem.load32_store32_of_disjoint (by omega)

@[simp] theorem free_setSize : free (setSize m a v) a = free m a := by
  unfold free setSize
  rw [ByteMem.store32_of_outside (by omega)]

@[simp] theorem free_setFree {v : Bool} : free (setFree m a v) a = v := by
  unfold free setFree
  rw [ByteMem.store8_self]
  cases v <;> rfl

@[simp] theorem free_setNext : free (setNext m a v) a = free m a := by
  unfold free setNext
  rw [ByteMem.store32_of_outside (by omega)]

@[simp] theorem next_setSize : next (setSize m a v) a = next m a :=
  ByteMem.load32_store32_of_disjoint (by omega)

@[simp] theorem next_setFree {v : Bool} : next (setFree m a v) a = next m a :=
  ByteMem.load32_store8_of_outside (by omega)

@[simp] theorem next_setNext (hv : v < 2 ^ 32) : next (setNext m a v) a = v :=
  ByteMem.load32_store32_self hv

theorem next_lt : next m a < 2 ^ 32 := ByteMem.load32_lt m (a + 8)

/-! ## ヘッダの外 -/

theorem setSize_outside {x} (h : x < a ∨ a + 12 ≤ x) : setSize m a v x = m x :=
  ByteMem.store32_of_outside (by omega)

theorem setFree_outside {x} {v : Bool} (h : x < a ∨ a + 12 ≤ x) : setFree m a v x = m x :=
  ByteMem.store8_of_ne (by omega)

theorem setNext_outside {x} (h : x < a ∨ a + 12 ≤ x) : setNext m a v x = m x :=
  ByteMem.store32_of_outside (by omega)

/-- ヘッダの 12 バイトが一致するメモリでは、三つの欄も一致する。 -/
theorem congr (h : ∀ x, a ≤ x → x < a + 12 → m' x = m x) :
    size m' a = size m a ∧ free m' a = free m a ∧ next m' a = next m a := by
  refine ⟨?_, ?_, ?_⟩
  · exact ByteMem.load32_congr (fun x hx hx' => h x hx (by omega))
  · unfold free
    rw [h (a + 4) (by omega) (by omega)]
  · exact ByteMem.load32_congr (fun x hx hx' => h x (by omega) (by omega))

end Header

end MyOS.Heap

/-!
## ブロックの並びの補題

並びの分割と連結、メモリの一部だけが変わったときの並びの保存、番地の順序。
-/

namespace MyOS.Heap
open MyOS.Lib

variable {m m' : ByteMem} {a c e : Nat} {b d : Block} {l l₁ l₂ : List Block}

theorem nextOf_of_ne (h : l ≠ []) : nextOf b l = b.stop := by
  cases l with
  | nil => exact absurd rfl h
  | cons d l => rfl

theorem HeaderAt.congr {n} (h : HeaderAt m b n)
    (hm : ∀ x, b.addr ≤ x → x < b.addr + 12 → m' x = m x) : HeaderAt m' b n := by
  obtain ⟨h1, h2, h3⟩ := Header.congr hm
  exact ⟨h1.trans h.size, h2.trans h.free, h3.trans h.next⟩

/-! ## 番地の順序 -/

theorem Block.payload_le_stop (b : Block) : b.addr + 12 ≤ b.stop := by
  unfold stop sizeofHeader; omega

theorem Seg.le : {a : Nat} → {l : List Block} → Seg m a l c → a ≤ c
  | _, [], h => Nat.le_of_eq h
  | _, b :: _, h => by
      have := Seg.le h.2.2
      have := b.payload_le_stop
      have := h.1
      omega

theorem Tiles.le : {a : Nat} → {l : List Block} → Tiles m a l e → a + l.length ≤ e
  | _, [], h => Nat.le_of_eq h
  | _, b :: _, h => by
      have := Tiles.le h.2.2
      have := b.payload_le_stop
      have := h.1
      simp only [List.length_cons]
      omega

/-- 並びの中のブロックは、並びの範囲に収まる。 -/
theorem Tiles.bounds (hb : b ∈ l) : {a : Nat} → Tiles m a l e → a ≤ b.addr ∧ b.stop ≤ e := by
  induction l with
  | nil => simp at hb
  | cons d l ih =>
      intro a h
      have hd := d.payload_le_stop
      have hle := Tiles.le h.2.2
      rcases List.mem_cons.mp hb with rfl | hb
      · have := h.1
        omega
      · have := ih hb h.2.2
        have := h.1
        omega

/-- 並びの中では、前のブロックの終わりは後のブロックの始まりを越えない。 -/
theorem Tiles.sorted : {a : Nat} → {l : List Block} → Tiles m a l e →
    l.Pairwise fun b d => b.stop ≤ d.addr
  | _, [], _ => List.Pairwise.nil
  | _, _ :: _, h => List.Pairwise.cons (fun _ hd => (Tiles.bounds hd h.2.2).1) (Tiles.sorted h.2.2)

/-! ## 分割と連結 -/

theorem Tiles.split : {a : Nat} → (l₁ : List Block) → Tiles m a (l₁ ++ b :: l₂) e →
    Seg m a l₁ b.addr ∧ Tiles m b.addr (b :: l₂) e
  | _, [], h => ⟨h.1.symm, rfl, h.2.1, h.2.2⟩
  | _, d :: l₁, h => by
      have hn : nextOf d (l₁ ++ b :: l₂) = d.stop := nextOf_of_ne (by simp)
      have ht := Tiles.split l₁ h.2.2
      exact ⟨⟨h.1, hn ▸ h.2.1, ht.1⟩, ht.2⟩

theorem Seg.append : {a : Nat} → {l₁ : List Block} → Seg m a l₁ c → Tiles m c l e → l ≠ [] →
    Tiles m a (l₁ ++ l) e
  | _, [], hs, ht, _ => by
      cases hs
      exact ht
  | _, d :: l₁, hs, ht, hl => by
      have hn : nextOf d (l₁ ++ l) = d.stop := nextOf_of_ne (by simp [hl])
      exact ⟨hs.1, hn.symm ▸ hs.2.1, Seg.append hs.2.2 ht hl⟩

/-- ヘッダの列は、メモリと両端の番地から一つに決まる。 -/
theorem Tiles.unique : {a : Nat} → {l l' : List Block} →
    Tiles m a l e → Tiles m a l' e → l = l'
  | _, [], [], _, _ => rfl
  | _, [], b :: l', h, h' => by
      have := h'.le
      cases h
      simp only [List.length_cons] at this
      omega
  | _, b :: l, [], h, h' => by
      have := h.le
      cases h'
      simp only [List.length_cons] at this
      omega
  | _, b :: l, b' :: l', h, h' => by
      obtain ⟨rfl, hh, ht⟩ := h
      obtain ⟨ha, hh', ht'⟩ := h'
      have hbb : b' = b := by
        have h1 := hh'.size
        have h2 := hh'.free
        rw [ha, hh.size] at h1
        rw [ha, hh.free] at h2
        cases b; cases b'; simp_all
      subst hbb
      rw [Tiles.unique ht ht']

/-! ## メモリの変更 -/

theorem Seg.congr : {a : Nat} → {l : List Block} → Seg m a l c →
    (∀ x, a ≤ x → x < c → m' x = m x) → Seg m' a l c
  | _, [], h, _ => h
  | _, b :: _, h, hm => by
      have hb := b.payload_le_stop
      have hc := Seg.le h.2.2
      have ha := h.1
      refine ⟨ha, h.2.1.congr (fun x hx hx' => hm x (by omega) (by omega)), ?_⟩
      exact Seg.congr h.2.2 (fun x hx hx' => hm x (by omega) hx')

theorem Tiles.congr : {a : Nat} → {l : List Block} → Tiles m a l e →
    (∀ x, a ≤ x → x < e → m' x = m x) → Tiles m' a l e
  | _, [], h, _ => h
  | _, b :: l, h, hm => by
      have hb := b.payload_le_stop
      have hc := Tiles.le h.2.2
      have ha := h.1
      refine ⟨ha, h.2.1.congr (fun x hx hx' => hm x (by omega) (by omega)), ?_⟩
      exact Tiles.congr h.2.2 (fun x hx hx' => hm x (by omega) hx')

/-- どのヘッダの中にもないバイトの変更は、並びを変えない。 -/
theorem Tiles.congr_headers : {a : Nat} → {l : List Block} → Tiles m a l e →
    (∀ b ∈ l, ∀ x, b.addr ≤ x → x < b.addr + 12 → m' x = m x) → Tiles m' a l e
  | _, [], h, _ => h
  | _, b :: l, h, hm =>
      ⟨h.1, h.2.1.congr (hm b (by simp)),
        Tiles.congr_headers h.2.2 (fun d hd => hm d (by simp [hd]))⟩

/-- ブロック `b` の範囲だけが変わったとき、その前後の並びは残る。 -/
theorem Tiles.frame (m' : ByteMem) (h : Tiles m a (l₁ ++ b :: l₂) e)
    (hm : ∀ x, x < b.addr ∨ b.stop ≤ x → m' x = m x) :
    Seg m' a l₁ b.addr ∧ Tiles m' b.stop l₂ e := by
  obtain ⟨hs, ht⟩ := h.split
  exact ⟨hs.congr (fun x _ hx => hm x (Or.inl hx)),
    Tiles.congr ht.2.2 (fun x hx _ => hm x (Or.inr hx))⟩

end MyOS.Heap
