import MyOS.Heap.Lemmas.Malloc

/-!
# `malloc` の仕様

`malloc` は必ず戻り、不変条件を保ち、他の使用中のブロックのペイロードに触れない。
-/

namespace MyOS.Heap
open MyOS.Lib

variable {m m' : ByteMem} {a c e size : Nat} {b d : Block} {l l' l₁ l₂ : List Block} {s s' : State}

/-! ## 空きブロックの隣 -/

theorem NoAdjFree.alloc (h : NoAdjFree (l₁ ++ b :: l₂)) (hd : d.free = false) :
    NoAdjFree (l₁ ++ d :: l₂) := by
  unfold NoAdjFree at h ⊢
  rw [List.isChain_append, List.isChain_cons] at h ⊢
  refine ⟨h.1, ⟨?_, h.2.1.2⟩, ?_⟩
  · simp [hd]
  · simp [hd]

theorem NoAdjFree.alloc_split {c : Block} (h : NoAdjFree (l₁ ++ b :: l₂)) (hb : b.free = true)
    (hd : d.free = false) : NoAdjFree (l₁ ++ d :: c :: l₂) := by
  have hd' := h.alloc hd
  unfold NoAdjFree at h hd' ⊢
  rw [List.isChain_append, List.isChain_cons] at h hd' ⊢
  refine ⟨hd'.1, ⟨?_, ?_⟩, hd'.2.2⟩
  · simp [hd]
  · refine List.isChain_cons.mpr ⟨?_, hd'.2.1.2⟩
    intro y hy hfree
    exact h.2.1.1 y hy ⟨hb, hfree.2⟩

theorem NoAdjFree.snoc (h : NoAdjFree (l₁ ++ [b])) (hb : b.free = false) :
    NoAdjFree (l₁ ++ [b, d]) := by
  unfold NoAdjFree at h ⊢
  rw [List.isChain_append, List.isChain_cons] at h ⊢
  refine ⟨h.1, ⟨?_, List.isChain_singleton _⟩, h.2.2⟩
  simp [hb]

theorem NoAdjFree.resize (h : NoAdjFree (l₁ ++ b :: l₂)) (hd : d.free = b.free) :
    NoAdjFree (l₁ ++ d :: l₂) := by
  unfold NoAdjFree at h ⊢
  rw [List.isChain_append, List.isChain_cons] at h ⊢
  refine ⟨h.1, ⟨?_, h.2.1.2⟩, ?_⟩
  · rw [hd]; exact h.2.1.1
  · intro x hx y hy
    have := h.2.2 x hx b (by simp)
    simp only [List.head?_cons, Option.mem_def, Option.some.injEq] at hy
    rw [← hy, hd]
    exact this

/-- 並びの中の異なるブロックは重ならない。 -/
theorem Tiles.disjoint (h : Tiles m a (l₁ ++ b :: l₂) e) (hd : d ∈ l₁ ++ b :: l₂) (hne : d ≠ b) :
    d.stop ≤ b.addr ∨ b.stop ≤ d.addr := by
  have hs := h.sorted
  rw [List.pairwise_append, List.pairwise_cons] at hs
  rcases List.mem_append.mp hd with hd | hd
  · exact Or.inl (hs.2.2 d hd b (by simp))
  · rcases List.mem_cons.mp hd with rfl | hd
    · exact absurd rfl hne
    · exact Or.inr (hs.2.1.1 d hd)

/-! ## 使用中のブロックの保存 -/

/-- 使用中のブロックのうち条件 `p` を満たすものが残り、そのペイロードは変わらない。 -/
structure Keeps (m m' : ByteMem) (l l' : List Block) (p : Block → Prop) : Prop where
  mem : ∀ b ∈ l, b.free = false → p b → b ∈ l'
  bytes : ∀ b ∈ l, b.free = false → p b → ∀ x, b.Holds x → m' x = m x

theorem Keeps.trans {m'' : ByteMem} {l'' : List Block} {p : Block → Prop}
    (h : Keeps m m' l l' fun _ => True) (h' : Keeps m' m'' l' l'' p) : Keeps m m'' l l'' p := by
  refine ⟨fun b hb hf hp => ?_, fun b hb hf hp x hx => ?_⟩
  · exact h'.mem b (h.mem b hb hf trivial) hf hp
  · exact (h'.bytes b (h.mem b hb hf trivial) hf hp x hx).trans (h.bytes b hb hf trivial x hx)

/-- 空きブロック `b` の範囲だけを書き換え、他のブロックを残す変更。 -/
theorem Keeps.of_free_block (h : Tiles m a (l₁ ++ b :: l₂) e) (hb : b.free = true)
    (hsub : ∀ d ∈ l₁ ++ l₂, d ∈ l')
    (hm : ∀ x, x < b.addr ∨ b.stop ≤ x → m' x = m x) :
    Keeps m m' (l₁ ++ b :: l₂) l' fun _ => True := by
  have hne : ∀ d : Block, d.free = false → d ≠ b := by
    rintro d hd rfl
    rw [hb] at hd; cases hd
  refine ⟨fun d hd hf _ => ?_, fun d hd hf _ x hx => ?_⟩
  · refine hsub d ?_
    simp only [List.mem_append, List.mem_cons] at hd ⊢
    rcases hd with hd | rfl | hd
    · exact Or.inl hd
    · exact absurd rfl (hne _ hf)
    · exact Or.inr hd
  · refine hm x ?_
    have hx1 : d.addr + 12 ≤ x := hx.1
    have hx2 := hx.2
    rcases h.disjoint hd (hne d hf) with h' | h' <;> omega

/-! ## 見つけたブロックを取る -/

/-- `malloc` の結果。返した番地は新しく使用中になったブロックのペイロードである。 -/
structure MallocPost (s s' : State) (l l' : List Block) (size p : Nat) : Prop where
  ok : HeapOk s' l'
  keeps : Keeps s.mem s'.mem l l' fun _ => True
  payload : ∃ b ∈ l', b.payload = p ∧ b.free = false ∧ size ≤ b.size
  fresh : ∀ b ∈ l, b.free = false → b.payload ≠ p

theorem malloc_take_spec (h : HeapOk s (l₁ ++ b :: l₂)) (hb : b.free = true) (hsz : size ≤ b.size) :
    ∃ l', MallocPost s (malloc_take s b.addr size).1 (l₁ ++ b :: l₂) l' size
      (malloc_take s b.addr size).2 := by
  have hmem : b ∈ l₁ ++ b :: l₂ := by simp
  have hbd := h.bounds hmem
  have hlim := h.stop_le
  have hstop : b.stop = b.addr + 12 + b.size := rfl
  have hp : (malloc_take s b.addr size).2 = b.payload := add32_eq (by unfold sizeofHeader; omega)
  obtain ⟨-, -, hh, -⟩ := h.tiles.split
  have hout : ∀ x, x < b.addr ∨ b.stop ≤ x →
      (malloc_take s b.addr size).1.mem x = s.mem x := by
    intro x hx
    show Header.setFree _ b.addr false x = _
    rw [Header.setFree_outside (by omega), malloc_split_outside hh.size (by omega) (by omega) hx]
  have hfresh : ∀ d ∈ l₁ ++ b :: l₂, d.free = false → d.payload ≠ (malloc_take s b.addr size).2 := by
    intro d hd hf heq
    rw [hp] at heq
    have hne : d ≠ b := by
      rintro rfl
      rw [hb] at hf; cases hf
    have h1 : d.addr + 12 = b.addr + 12 := heq
    have h2 := d.payload_le_stop
    rcases h.tiles.disjoint hd hne with h' | h' <;> omega
  have hsplit := malloc_split_tiles size h.tiles (by omega) (by omega)
  unfold splitBlocks at hsplit
  split at hsplit
  · refine ⟨l₁ ++ { b with free := false } :: l₂, ⟨h.head, by simp, ?_, ?_, h.pages, h.fresh⟩, ?_,
      ⟨{ b with free := false }, by simp, ?_, rfl, hsz⟩, hfresh⟩
    · exact hsplit.setFree false
    · exact h.noAdj.alloc rfl
    · refine Keeps.of_free_block h.tiles hb (fun d hd => ?_) hout
      simp only [List.mem_append, List.mem_cons] at hd ⊢
      exact hd.imp_right Or.inr
    · rw [hp]; rfl
  · refine ⟨l₁ ++ ⟨b.addr, size, false⟩ :: ⟨b.addr + 12 + size, b.size - size - 12, b.free⟩ :: l₂,
      ⟨h.head, by simp, ?_, ?_, h.pages, h.fresh⟩, ?_,
      ⟨⟨b.addr, size, false⟩, by simp, ?_, rfl, Nat.le_refl _⟩, hfresh⟩
    · exact hsplit.setFree false
    · exact h.noAdj.alloc_split hb rfl
    · refine Keeps.of_free_block h.tiles hb (fun d hd => ?_) hout
      simp only [List.mem_append, List.mem_cons] at hd ⊢
      exact hd.imp_right (fun hd => Or.inr (Or.inr hd))
    · rw [hp]; rfl

/-! ## 末尾を伸ばす -/

theorem mapPages_length {alloc : Nat → Nat} {pages : List Nat} {i n : Nat} :
    (mapPages alloc pages i n).length = pages.length + n := by
  simp [mapPages]

theorem malloc_append_spec {alloc : Nat → Nat} (h : HeapOk s (l₁ ++ [b])) (hb : b.free = false)
    (hsz : size + 12 + 4095 < 2 ^ 31)
    (hfresh : Fresh (malloc_append alloc s b.addr size).1.pages) :
    ∃ d, d.addr = (malloc_append alloc s b.addr size).2 ∧ d.free = true ∧ size ≤ d.size ∧
      HeapOk (malloc_append alloc s b.addr size).1 (l₁ ++ [b, d]) ∧
      Keeps s.mem (malloc_append alloc s b.addr size).1.mem (l₁ ++ [b]) (l₁ ++ [b, d])
        fun _ => True := by
  have hlen := hfresh.length_le
  have hlim := h.stop_le
  have hneed : add32 (add32 size sizeofHeader) (BLOCK_SIZE - 1) / BLOCK_SIZE =
      (size + 12 + 4095) / 4096 := by
    unfold sizeofHeader BLOCK_SIZE
    rw [add32_eq (a := size) (by omega), add32_eq (by omega)]
  simp only [malloc_append, mapPages_length, h.pages, hneed] at hlen
  have hend : malloc_virt_address + s.malloc_reserved_blocks * 4096 = s.stop := rfl
  have hnew : add32 malloc_virt_address (mul32 s.malloc_reserved_blocks BLOCK_SIZE) = s.stop := by
    unfold BLOCK_SIZE
    rw [mul32_eq (by omega), add32_eq (by omega), hend]
  have hval : sub32 (mul32 ((size + 12 + 4095) / 4096) BLOCK_SIZE) sizeofHeader =
      (size + 12 + 4095) / 4096 * 4096 - 12 := by
    unfold sizeofHeader BLOCK_SIZE
    rw [mul32_eq (by omega), sub32_eq (by omega) (by omega)]
  have hres : add32 s.malloc_reserved_blocks ((size + 12 + 4095) / 4096) =
      s.malloc_reserved_blocks + (size + 12 + 4095) / 4096 := add32_eq (by omega)
  have htiles := h.tiles.append_block (v := (size + 12 + 4095) / 4096 * 4096 - 12)
    (by omega) (by omega)
  have hadj : s.stop + 12 + ((size + 12 + 4095) / 4096 * 4096 - 12) =
      malloc_virt_address + (s.malloc_reserved_blocks + (size + 12 + 4095) / 4096) * 4096 := by
    rw [← hend]; omega
  rw [hadj] at htiles
  have hsimp : malloc_append alloc s b.addr size =
      ({ mem := Header.setNext (Header.setNext (Header.setFree (Header.setSize s.mem s.stop
            ((size + 12 + 4095) / 4096 * 4096 - 12)) s.stop true) s.stop 0) b.addr s.stop
         malloc_head := s.malloc_head
         malloc_reserved_blocks := s.malloc_reserved_blocks + (size + 12 + 4095) / 4096
         pages := mapPages alloc s.pages s.malloc_reserved_blocks ((size + 12 + 4095) / 4096) },
        s.stop) := by
    simp only [malloc_append, hneed, hnew, hval, hres]
  rw [hsimp] at hfresh ⊢
  refine ⟨⟨s.stop, (size + 12 + 4095) / 4096 * 4096 - 12, true⟩, rfl, rfl, by simp only; omega,
    ⟨h.head, by simp, htiles, h.noAdj.snoc hb, by simp [mapPages_length, h.pages], hfresh⟩, ?_⟩
  refine ⟨fun d hd _ _ => ?_, fun d hd _ _ x hx => ?_⟩
  · simp only [List.mem_append, List.mem_cons] at hd ⊢
    exact hd.imp_right (fun hd => Or.inl (by simpa using hd))
  · -- 書くのは末尾より後と、最後のブロックのヘッダだけである。
    have hx1 : d.addr + 12 ≤ x := hx.1
    have hx2 := hx.2
    have hdb := (h.bounds hd).2
    have hbx : x < b.addr ∨ b.addr + 12 ≤ x := by
      by_cases hne : d = b
      · subst hne; exact Or.inr hx1
      · have := b.payload_le_stop
        rcases h.tiles.disjoint hd hne with h' | h' <;> omega
    show Header.setNext _ b.addr s.stop x = s.mem x
    rw [Header.setNext_outside hbx, Header.setNext_outside (by omega),
      Header.setFree_outside (by omega), Header.setSize_outside (by omega)]

theorem malloc_extend_spec {alloc : Nat → Nat} (h : HeapOk s (l₁ ++ [b])) (hb : b.free = true)
    (hlt : b.size < size) (hsz : size + 12 + 4095 < 2 ^ 31)
    (hfresh : Fresh (malloc_extend alloc s b.addr size).pages) :
    ∃ d, d.addr = b.addr ∧ d.free = true ∧ size ≤ d.size ∧
      HeapOk (malloc_extend alloc s b.addr size) (l₁ ++ [d]) ∧
      Keeps s.mem (malloc_extend alloc s b.addr size).mem (l₁ ++ [b]) (l₁ ++ [d])
        fun _ => True := by
  obtain ⟨-, -, hh, hend⟩ := h.tiles.split
  have hend' : b.addr + 12 + b.size = malloc_virt_address + s.malloc_reserved_blocks * 4096 := hend
  have hlen := hfresh.length_le
  have hlim := h.stop_le
  have hstop : s.stop = malloc_virt_address + s.malloc_reserved_blocks * 4096 := rfl
  have hneed : add32 (sub32 size (Header.size s.mem b.addr)) (BLOCK_SIZE - 1) / BLOCK_SIZE =
      (size - b.size + 4095) / 4096 := by
    unfold BLOCK_SIZE
    rw [hh.size, sub32_eq (by omega) (by omega), add32_eq (by omega)]
  simp only [malloc_extend, mapPages_length, h.pages, hneed] at hlen
  have hval : add32 (Header.size s.mem b.addr) (mul32 ((size - b.size + 4095) / 4096) BLOCK_SIZE) =
      b.size + (size - b.size + 4095) / 4096 * 4096 := by
    unfold BLOCK_SIZE
    rw [hh.size, mul32_eq (by omega), add32_eq (by omega)]
  have hres : add32 s.malloc_reserved_blocks ((size - b.size + 4095) / 4096) =
      s.malloc_reserved_blocks + (size - b.size + 4095) / 4096 := add32_eq (by omega)
  have htiles := h.tiles.setSize_last (v := b.size + (size - b.size + 4095) / 4096 * 4096) (by omega)
  have hadj : b.addr + 12 + (b.size + (size - b.size + 4095) / 4096 * 4096) =
      malloc_virt_address + (s.malloc_reserved_blocks + (size - b.size + 4095) / 4096) * 4096 := by
    omega
  rw [hadj] at htiles
  have hsimp : malloc_extend alloc s b.addr size =
      { mem := Header.setSize s.mem b.addr (b.size + (size - b.size + 4095) / 4096 * 4096)
        malloc_head := s.malloc_head
        malloc_reserved_blocks := s.malloc_reserved_blocks + (size - b.size + 4095) / 4096
        pages := mapPages alloc s.pages s.malloc_reserved_blocks ((size - b.size + 4095) / 4096) } := by
    simp only [malloc_extend, hneed, hval, hres]
  rw [hsimp] at hfresh ⊢
  refine ⟨{ b with size := b.size + (size - b.size + 4095) / 4096 * 4096 }, rfl, hb, by simp only; omega,
    ⟨h.head, by simp, htiles, h.noAdj.resize rfl, by simp [mapPages_length, h.pages], hfresh⟩, ?_⟩
  refine Keeps.of_free_block h.tiles hb (fun d hd => ?_) (fun x hx => ?_)
  · simp only [List.append_nil] at hd
    simp [hd]
  · have := b.payload_le_stop
    exact Header.setSize_outside (by omega)

/-! ## `malloc` の全体 -/

theorem Tiles.length_le_fuel (h : Tiles s.mem s.malloc_head l s.stop) (hhead : s.malloc_head = malloc_virt_address) :
    l.length ≤ s.fuel := by
  have hle := h.le
  rw [hhead] at hle
  unfold State.stop BLOCK_SIZE at hle
  unfold State.fuel BLOCK_SIZE
  omega

theorem malloc_spec (alloc : Nat → Nat) (h : HeapOk s l) (hsz : size + 12 + 4095 < 2 ^ 31) :
    ∃ s' p, malloc alloc s size = some (s', p) ∧
      (Fresh s'.pages → ∃ l', MallocPost s s' l l' size p) := by
  obtain ⟨l₁, b, l₂, rfl, hfind, hor⟩ := malloc_find_spec size h.tiles h.nonempty
    (by rw [h.head]; decide) (h.tiles.length_le_fuel h.head)
  obtain ⟨-, -, hh, -⟩ := h.tiles.split
  unfold malloc
  rw [hfind]
  simp only [hh.size, hh.free]
  rcases hor with ⟨hle, hfree⟩ | ⟨rfl, hnone⟩
  · rw [if_pos ⟨hle, hfree⟩]
    exact ⟨_, _, rfl, fun _ => malloc_take_spec h hfree hle⟩
  · have hnot := hnone b (by simp)
    rw [if_neg hnot]
    cases hfree : b.free with
    | false =>
        rw [if_pos rfl]
        refine ⟨_, _, rfl, fun hfresh => ?_⟩
        obtain ⟨d, hd, hdf, hds, hok, hkeep⟩ := malloc_append_spec h hfree hsz hfresh
        rw [show l₁ ++ [b, d] = (l₁ ++ [b]) ++ d :: [] by simp] at hok hkeep
        obtain ⟨l', hpost⟩ := malloc_take_spec hok hdf hds
        rw [hd] at hpost
        exact ⟨l', hpost.ok, hkeep.trans hpost.keeps, hpost.payload,
          fun d hd hf => hpost.fresh d (hkeep.mem d hd hf trivial) hf⟩
    | true =>
        rw [if_neg (by simp)]
        refine ⟨_, _, rfl, fun hfresh => ?_⟩
        have hlt : b.size < size := by
          by_contra hge
          exact hnot ⟨by omega, hfree⟩
        obtain ⟨d, hd, hdf, hds, hok, hkeep⟩ := malloc_extend_spec h hfree hlt hsz hfresh
        obtain ⟨l', hpost⟩ := malloc_take_spec hok hdf hds
        rw [hd] at hpost
        exact ⟨l', hpost.ok, hkeep.trans hpost.keeps, hpost.payload,
          fun d hd hf => hpost.fresh d (hkeep.mem d hd hf trivial) hf⟩

end MyOS.Heap
