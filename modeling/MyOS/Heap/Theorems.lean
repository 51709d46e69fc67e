import MyOS.Heap.Lemmas.Free

/-!
# ヒープの定理

`init_malloc` から始まる `malloc` と `free` のどの列の後でも、ヘッダのリストはヒープを隙間なく覆う。
-/

namespace MyOS.Heap
open MyOS.Lib

/-- `init_malloc` から、`malloc`、`free`、使用中のペイロードへの書き込みで届く状態。
`alloc_blocks` は、求められるたびに新しいフレームを渡す。 -/
inductive Reach : State → Prop
  | init_malloc (alloc : Nat → Nat) (mem : ByteMem) :
      Fresh (init_malloc alloc mem).pages → Reach (init_malloc alloc mem)
  | malloc {s s' : State} (alloc : Nat → Nat) {size p : Nat} : Reach s → size + sizeofHeader + 4095 < 2 ^ 31 →
      malloc alloc s size = some (s', p) → Fresh s'.pages → Reach s'
  | free {s s' : State} {address : Nat} : Reach s → free s address = some s' → Reach s'
  | write {s : State} {l : List Block} {b : Block} {x : Nat} (v : UInt8) : Reach s →
      Tiles s.mem s.malloc_head l s.stop → b ∈ l → b.free = false → b.Holds x →
      Reach { s with mem := s.mem.store8 x v }

variable {s : State}

theorem init_malloc_ok {alloc : Nat → Nat} {mem : ByteMem}
    (h : Fresh (init_malloc alloc mem).pages) :
    HeapOk (init_malloc alloc mem) [⟨malloc_virt_address, 257 * 4096 - 12, true⟩] := by
  refine ⟨rfl, by simp, ⟨rfl, ⟨?_, ?_, ?_⟩, ?_⟩, List.isChain_singleton _, ?_, h⟩
  · exact Header.size_setSize (by decide)
  · exact Header.free_setSize.trans Header.free_setFree
  · exact Header.next_setSize.trans (Header.next_setFree.trans (Header.next_setNext (by decide)))
  · show malloc_virt_address + 12 + (257 * 4096 - 12) = malloc_virt_address + 257 * 4096
    omega
  · simp [init_malloc, mapPages_length]

/-- 使用中のペイロードへの書き込みは、ヘッダに届かない。 -/
theorem HeapOk.write {l : List Block} {b : Block} {x : Nat} (h : HeapOk s l) (hb : b ∈ l) (hx : b.Holds x) (v : UInt8) :
    HeapOk { s with mem := s.mem.store8 x v } l := by
  refine ⟨h.head, h.nonempty, h.tiles.congr_headers (fun d hd y hy hy' => ?_), h.noAdj, h.pages, h.fresh⟩
  have := h.tiles.header_not_payload hd hb hx
  exact ByteMem.store8_of_ne (by omega)

theorem Reach.ok (h : Reach s) : ∃ l, HeapOk s l := by
  induction h with
  | init_malloc alloc mem hf => exact ⟨_, init_malloc_ok hf⟩
  | malloc alloc _ hsz hm hf ih =>
      obtain ⟨l, hok⟩ := ih
      obtain ⟨s', p, hm', hpost⟩ := malloc_spec alloc hok hsz
      rw [hm] at hm'
      cases hm'
      obtain ⟨l', hpost⟩ := hpost hf
      exact ⟨l', hpost.ok⟩
  | free _ hfree ih =>
      obtain ⟨l, hok⟩ := ih
      obtain ⟨s', l', hfree', hok', -⟩ := free_spec _ hok
      rw [hfree] at hfree'
      cases hfree'
      exact ⟨l', hok'⟩
  | write v _ ht hb _ hx ih =>
      obtain ⟨l, hok⟩ := ih
      cases Tiles.unique hok.tiles ht
      exact ⟨_, hok.write hb hx v⟩

theorem init_fresh : Fresh (init_malloc id fun _ => 0).pages := by
  refine ⟨?_, ?_⟩
  · simpa [init_malloc, mapPages] using List.nodup_range
  · simp [init_malloc, mapPages, MAX_BLOCK_ENTRIES, MALLOC_INITIAL_SIZE, sizeofHeader, BLOCK_SIZE]
    omega

/-- 起動直後のヒープ。 -/
def booted : State := init_malloc id fun _ => 0

end MyOS.Heap
