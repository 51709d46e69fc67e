import MyOS.Heap.Lemmas.Tiling
import Mathlib.Data.Finset.Range
import Mathlib.Data.Finset.Card

/-!
# `malloc` の各段階

ブロックを探す、分ける、末尾に足す、伸ばす、のそれぞれが、ブロックの並びをどう変えるか。
-/

namespace MyOS.Heap
open MyOS.Lib

variable {m m' : ByteMem} {a c e size : Nat} {b d : Block} {l l₁ l₂ : List Block} {s : State}

/-! ## 番地の上限 -/

theorem Fresh.length_le {pages : List Nat} (h : Fresh pages) : pages.length ≤ 131072 := by
  have hsub : pages.toFinset ⊆ Finset.range 131072 := by
    intro f hf
    exact Finset.mem_range.mpr (h.2 f (List.mem_toFinset.mp hf))
  have hcard := Finset.card_le_card hsub
  rwa [List.toFinset_card_of_nodup h.1, Finset.card_range] at hcard

/-- フレームは高々 2^17 枚なので、ヒープは 32 ビットの番地の中に収まる。 -/
theorem HeapOk.stop_le (h : HeapOk s l) : s.stop ≤ 0xE0400000 := by
  have hlen := h.fresh.length_le
  rw [h.pages] at hlen
  unfold State.stop malloc_virt_address KERNEL_VIRTUAL_BASE BLOCK_SIZE
  omega

theorem HeapOk.bounds (h : HeapOk s l) (hb : b ∈ l) :
    0xC0400000 ≤ b.addr ∧ b.stop ≤ s.stop := by
  have hb := h.tiles.bounds hb
  rw [h.head] at hb
  exact hb

/-! ## ブロックを探す -/

theorem malloc_find_spec (size : Nat) : {a fuel : Nat} → {l : List Block} → Tiles m a l e → l ≠ [] → 0 < a →
    l.length ≤ fuel → ∃ l₁ b l₂, l = l₁ ++ b :: l₂ ∧ malloc_find m size fuel a = some b.addr ∧
      ((size ≤ b.size ∧ b.free = true) ∨ (l₂ = [] ∧ ∀ c ∈ l, ¬ (size ≤ c.size ∧ c.free = true)))
  | _, _, [], _, hl, _, _ => absurd rfl hl
  | _, 0, _ :: _, _, _, _, hf => by simp at hf
  | a, fuel + 1, b :: l, h, _, ha, hf => by
      obtain ⟨rfl, hh, ht⟩ := h
      by_cases hfit : size ≤ b.size ∧ b.free = true
      · refine ⟨[], b, l, rfl, ?_, Or.inl hfit⟩
        simp [malloc_find, hh.size, hh.free, hfit.1, hfit.2]
      · cases l with
        | nil =>
            refine ⟨[], b, [], rfl, ?_, Or.inr ⟨rfl, by simpa using hfit⟩⟩
            simp [malloc_find, hh.next, nextOf]
        | cons d l =>
            have hstop : b.stop ≠ 0 := by have := b.payload_le_stop; omega
            have hcond : Header.size m b.addr < size ∨ Header.free m b.addr = false := by
              rw [hh.size, hh.free]
              by_cases hs : b.size < size
              · exact Or.inl hs
              · refine Or.inr ?_
                cases hfree : b.free
                · rfl
                · exact absurd ⟨by omega, hfree⟩ hfit
            have hlen : (d :: l).length ≤ fuel := by simpa using hf
            obtain ⟨l₁, b', l₂, hl, hres, hor⟩ := malloc_find_spec size ht (by simp)
              (Nat.pos_of_ne_zero hstop) hlen
            refine ⟨b :: l₁, b', l₂, by rw [hl]; rfl, ?_, hor.imp_right fun ⟨hlast, hnone⟩ => ⟨hlast, ?_⟩⟩
            · rw [malloc_find, if_pos ⟨hcond, by rw [hh.next]; exact hstop⟩, hh.next]
              exact hres
            · exact List.forall_mem_cons.mpr ⟨hfit, hnone⟩

/-! ## 空きの旗 -/

theorem Tiles.setFree (h : Tiles m a (l₁ ++ b :: l₂) e) (v : Bool) :
    Tiles (Header.setFree m b.addr v) a (l₁ ++ { b with free := v } :: l₂) e := by
  have hstop := b.payload_le_stop
  obtain ⟨hs, ht⟩ := h.frame (Header.setFree m b.addr v)
    (fun x hx => Header.setFree_outside (by omega))
  obtain ⟨-, -, hh, -⟩ := h.split
  refine hs.append ⟨rfl, ⟨?_, ?_, ?_⟩, ht⟩ (by simp)
  · simpa using hh.size
  · simp
  · rw [Header.next_setFree, hh.next]
    cases l₂ <;> rfl

/-! ## ブロックを分ける -/

/-- 分けた後に元のブロックの場所に並ぶブロック。 -/
def splitBlocks (b : Block) (size : Nat) : List Block :=
  if b.size ≤ size + 12 then [b]
  else [⟨b.addr, size, b.free⟩, ⟨b.addr + 12 + size, b.size - size - 12, b.free⟩]

theorem malloc_split_outside {x} (hb : Header.size m b.addr = b.size) (he : b.stop < 2 ^ 32)
    (hsz : size + 12 < 2 ^ 32) (hx : x < b.addr ∨ b.stop ≤ x) :
    malloc_split m b.addr size x = m x := by
  unfold Block.stop sizeofHeader at he hx
  unfold malloc_split
  rw [add32_eq (by unfold sizeofHeader; omega), hb]
  split
  · rfl
  · rename_i hlt
    unfold sizeofHeader at hlt ⊢
    simp only [ge_iff_le, not_le] at hlt
    rw [add32_eq (a := b.addr) (by omega), add32_eq (by omega)]
    rw [Header.setNext_outside (by omega), Header.setSize_outside (by omega),
      Header.setSize_outside (by omega), Header.setFree_outside (by omega),
      Header.setNext_outside (by omega)]

/-- 分けるときに書くメモリ。後半のヘッダは `b.addr + 12 + size` に置く。 -/
def splitMem (m : ByteMem) (b : Block) (size : Nat) : ByteMem :=
  Header.setSize (Header.setFree (Header.setNext m (b.addr + 12 + size) (Header.next m b.addr))
    (b.addr + 12 + size) b.free) (b.addr + 12 + size) (b.size - size - 12)

theorem splitMem_before {x} (hx : x < b.addr + 12 + size) : splitMem m b size x = m x := by
  unfold splitMem
  rw [Header.setSize_outside (by omega), Header.setFree_outside (by omega),
    Header.setNext_outside (by omega)]

theorem malloc_split_eq (size : Nat) (hsize : Header.size m b.addr = b.size) (hfree : Header.free m b.addr = b.free)
    (he : b.stop < 2 ^ 32) (hlt : size + 12 < b.size) :
    malloc_split m b.addr size =
      Header.setNext (Header.setSize (splitMem m b size) b.addr size) b.addr
        (b.addr + 12 + size) := by
  have hstop : b.stop = b.addr + 12 + b.size := rfl
  have hnew : add32 (add32 b.addr size) sizeofHeader = b.addr + 12 + size := by
    unfold sizeofHeader
    rw [add32_eq (a := b.addr) (by omega), add32_eq (by omega)]
    omega
  have hfar : ∀ x, b.addr ≤ x → x < b.addr + 12 →
      Header.setNext m (b.addr + 12 + size) (Header.next m b.addr) x = m x :=
    fun x _ hx => Header.setNext_outside (by omega)
  have hfar' : ∀ x, b.addr ≤ x → x < b.addr + 12 →
      Header.setFree (Header.setNext m (b.addr + 12 + size) (Header.next m b.addr))
        (b.addr + 12 + size) b.free x = m x :=
    fun x hx hx' => (Header.setFree_outside (by omega)).trans (hfar x hx hx')
  have hlt' : ¬ (add32 size sizeofHeader ≥ b.size) := by
    unfold sizeofHeader
    rw [add32_eq (by omega)]
    omega
  have hsub : sub32 (sub32 b.size size) sizeofHeader = b.size - size - 12 := by
    unfold sizeofHeader
    rw [sub32_eq (a := b.size) (by omega) (by omega), sub32_eq (by omega) (by omega)]
  unfold malloc_split
  simp only [hnew, (Header.congr hfar).2.1, hfree, (Header.congr hfar').1, hsize, hsub, if_neg hlt']
  rfl

theorem malloc_split_tiles (size : Nat) (h : Tiles m a (l₁ ++ b :: l₂) e) (he : b.stop < 2 ^ 32)
    (hsz : size + 12 < 2 ^ 32) :
    Tiles (malloc_split m b.addr size) a (l₁ ++ (splitBlocks b size ++ l₂)) e := by
  obtain ⟨-, -, hh, -⟩ := h.split
  obtain ⟨hs, ht⟩ := h.frame (malloc_split m b.addr size)
    (fun x hx => malloc_split_outside hh.size he hsz hx)
  unfold splitBlocks
  split
  · rename_i hle
    have hsame : malloc_split m b.addr size = m := by
      unfold malloc_split
      rw [add32_eq (by unfold sizeofHeader; omega), hh.size, if_pos (by unfold sizeofHeader; omega)]
    rw [hsame]
    exact h
  · rename_i hlt
    have hstop : b.stop = b.addr + 12 + b.size := rfl
    have hm := malloc_split_eq size hh.size hh.free he (by omega)
    have hsecond : ∀ x, b.addr + 12 ≤ x → malloc_split m b.addr size x = splitMem m b size x := by
      intro x hx
      rw [hm, Header.setNext_outside (by omega), Header.setSize_outside (by omega)]
    have hfirst : Header.free (splitMem m b size) b.addr = b.free :=
      (Header.congr (fun x _ hx => splitMem_before (by omega))).2.1.trans hh.free
    obtain ⟨hsize₂, hfree₂, hnext₂⟩ := Header.congr (a := b.addr + 12 + size)
      (fun x hx _ => hsecond x (by omega))
    refine hs.append ⟨rfl, ⟨?_, ?_, ?_⟩, ?_, ⟨?_, ?_, ?_⟩, ?_⟩ (by simp)
    · show Header.size _ b.addr = size
      rw [hm, Header.size_setNext, Header.size_setSize (by omega)]
    · show Header.free _ b.addr = b.free
      rw [hm, Header.free_setNext, Header.free_setSize, hfirst]
    · show Header.next _ b.addr = b.addr + 12 + size
      rw [hm, Header.next_setNext (by omega)]
    · show b.addr + 12 + size = b.addr + sizeofHeader + size
      rfl
    · show Header.size _ (b.addr + 12 + size) = b.size - size - 12
      rw [hsize₂, splitMem, Header.size_setSize (by omega)]
    · show Header.free _ (b.addr + 12 + size) = b.free
      rw [hfree₂, splitMem, Header.free_setSize, Header.free_setFree]
    · show Header.next _ (b.addr + 12 + size) = nextOf _ l₂
      rw [hnext₂, splitMem, Header.next_setSize, Header.next_setFree,
        Header.next_setNext Header.next_lt, hh.next]
      cases l₂ with
      | nil => rfl
      | cons d l₂ =>
          simp only [nextOf, Block.stop, sizeofHeader]
          omega
    · have hend : Block.stop ⟨b.addr + 12 + size, b.size - size - 12, b.free⟩ = b.stop := by
        simp only [Block.stop, sizeofHeader]
        omega
      rw [hend]
      exact ht

/-! ## 末尾を伸ばす -/

theorem Tiles.append_block {v : Nat} (h : Tiles m a (l₁ ++ [b]) e) (he : e < 2 ^ 32)
    (hv : v < 2 ^ 32) :
    Tiles (Header.setNext (Header.setNext (Header.setFree (Header.setSize m e v) e true) e 0)
      b.addr e) a (l₁ ++ [b, ⟨e, v, true⟩]) (e + 12 + v) := by
  obtain ⟨hs, -, hh, hend⟩ := h.split
  have hstop := b.payload_le_stop
  have hbe : b.stop = e := hend
  have hout : ∀ x, x < e → Header.setNext (Header.setFree (Header.setSize m e v) e true) e 0 x = m x := by
    intro x hx
    rw [Header.setNext_outside (by omega), Header.setFree_outside (by omega),
      Header.setSize_outside (by omega)]
  obtain ⟨hsize, hfree, -⟩ := Header.congr (a := b.addr) (fun x _ hx => hout x (by omega))
  have hs' : Seg (Header.setNext (Header.setNext (Header.setFree (Header.setSize m e v) e true) e 0)
      b.addr e) a l₁ b.addr := hs.congr
    (fun x _ hx => (Header.setNext_outside (by omega)).trans (hout x (by omega)))
  have hnew : ∀ x, e ≤ x → x < e + 12 →
      Header.setNext (Header.setNext (Header.setFree (Header.setSize m e v) e true) e 0) b.addr e x =
        Header.setNext (Header.setFree (Header.setSize m e v) e true) e 0 x :=
    fun x hx _ => Header.setNext_outside (by omega)
  obtain ⟨hsize₂, hfree₂, hnext₂⟩ := Header.congr hnew
  refine hs'.append ⟨rfl, ⟨?_, ?_, ?_⟩, hbe.symm, ⟨?_, ?_, ?_⟩, rfl⟩ (by simp)
  · rw [Header.size_setNext, hsize, hh.size]
  · rw [Header.free_setNext, hfree, hh.free]
  · rw [Header.next_setNext he]
    exact hbe.symm
  · rw [hsize₂, Header.size_setNext, Header.size_setFree, Header.size_setSize hv]
  · rw [hfree₂, Header.free_setNext, Header.free_setFree]
  · rw [hnext₂, Header.next_setNext (by omega)]
    rfl

theorem Tiles.setSize_last {v : Nat} (h : Tiles m a (l₁ ++ [b]) e) (hv : v < 2 ^ 32) :
    Tiles (Header.setSize m b.addr v) a (l₁ ++ [{ b with size := v }]) (b.addr + 12 + v) := by
  obtain ⟨hs, -, hh, -⟩ := h.split
  have hs' : Seg (Header.setSize m b.addr v) a l₁ b.addr := hs.congr
    (fun x _ hx => Header.setSize_outside (by omega))
  refine hs'.append ⟨rfl, ⟨?_, ?_, ?_⟩, rfl⟩ (by simp)
  · exact Header.size_setSize hv
  · rw [Header.free_setSize, hh.free]
  · rw [Header.next_setSize, hh.next]
    rfl

/-! ## ブロックをつなぐ -/

theorem Tiles.merge (h : Tiles m a (l₁ ++ b :: d :: l₂) e) (he : e < 2 ^ 32) :
    Tiles (Header.setNext (Header.setSize m b.addr (b.size + (d.size + 12))) b.addr
      (Header.next m d.addr)) a (l₁ ++ ⟨b.addr, b.size + (d.size + 12), b.free⟩ :: l₂) e := by
  obtain ⟨hs, -, hb, hd, hh, ht⟩ := h.split
  have hle := Tiles.le ht
  have hstop := b.payload_le_stop
  have hstop' : d.stop = d.addr + 12 + d.size := rfl
  have hbd : d.addr = b.addr + 12 + b.size := hd
  have hs' : Seg (Header.setNext (Header.setSize m b.addr (b.size + (d.size + 12))) b.addr
      (Header.next m d.addr)) a l₁ b.addr := hs.congr
    (fun x _ hx => (Header.setNext_outside (by omega)).trans (Header.setSize_outside (by omega)))
  refine hs'.append ⟨rfl, ⟨?_, ?_, ?_⟩, ?_⟩ (by simp)
  · rw [Header.size_setNext, Header.size_setSize (by omega)]
  · rw [Header.free_setNext, Header.free_setSize, hb.free]
  · rw [Header.next_setNext Header.next_lt, hh.next]
    cases l₂ with
    | nil => rfl
    | cons c l₂ =>
        simp only [nextOf, Block.stop, sizeofHeader]
        omega
  · have hend : Block.stop ⟨b.addr, b.size + (d.size + 12), b.free⟩ = d.stop := by
      simp only [Block.stop, sizeofHeader]
      omega
    rw [hend]
    exact ht.congr (fun x hx _ => (Header.setNext_outside (by omega)).trans
      (Header.setSize_outside (by omega)))

end MyOS.Heap
