import MyOS.Lib.Bytes
import MyOS.Lib.Linked
import MyOS.Lib.Run

/-!
# `malloc`、`free`、`realloc`（libc の stdlib.c）

塊は 12 バイトの見出し（`size`、`free`、`next`）と中身からなり、見出しは `heap_base` から片方向の列につながる。
空いた塊は分けずに使い直す。

`brk` は `sys_sbrk` の答えである。呼び出しを繰り返す側は、確保した塊の中だけに書く。
-/

namespace MyOS.Libc
open MyOS.Lib

/-- `sizeof(malloc_header_t)` -/
def HEADER : Nat := 12

/-- `(void *)-1` -/
def SBRK_FAILED : Nat := 2 ^ 32 - 1

/-- メモリと、静的な変数。 -/
structure Heap where
  mem : ByteMem
  heap_base : Nat
  last_alloc : Nat

def header_size (m : ByteMem) (h : Nat) : Nat := m.load32 h
def header_free (m : ByteMem) (h : Nat) : Nat := m.load32 (h + 4)
def header_next (m : ByteMem) (h : Nat) : Nat := m.load32 (h + 8)

/-- 第一引数は、列をたどる回数の上限である。 -/
def find_free (m : ByteMem) (size : Nat) : Nat → Nat → Option Nat
  | 0, _ => none
  | n + 1, cur =>
    if cur = 0 then some 0
    else if header_free m cur ≠ 0 ∧ size ≤ header_size m cur then some cur
    else find_free m size n (header_next m cur)

/-- 新しい塊の見出しを書く。 -/
def write_header (m : ByteMem) (h size : Nat) : ByteMem := ((m.store32 h size).store32 (h + 4) 0).store32 (h + 8) 0

def malloc (s : Heap) (size brk : Nat) : Option (Heap × Nat) :=
  if size = 0 then some (s, 0)
  else (find_free s.mem size (2 ^ 32) s.heap_base).map fun header =>
    if header ≠ 0 then ({ s with mem := s.mem.store32 (header + 4) 0 }, header + HEADER)
    else if add32 size HEADER < size then (s, 0)
    else if brk = 0 ∨ brk = SBRK_FAILED then (s, 0)
    else
      let m := write_header s.mem brk size
      if s.last_alloc ≠ 0 then (⟨m.store32 (s.last_alloc + 8) brk, s.heap_base, brk⟩, brk + HEADER)
      else (⟨m, brk, brk⟩, brk + HEADER)

def free (s : Heap) (ptr : Nat) : Heap :=
  if ptr = 0 then s else { s with mem := s.mem.store32 (ptr - HEADER + 4) 1 }

/-- libc の `memcpy`。`count` は `int` なので、2^31 からは負の数であり、何も写さない。 -/
def memcpy (m : ByteMem) (dest src count : Nat) : ByteMem :=
  if 2 ^ 31 ≤ count then m else (List.range count).foldl (fun m i => m.store8 (dest + i) (m (src + i))) m

def realloc (s : Heap) (ptr size brk : Nat) : Option (Heap × Nat) :=
  if ptr = 0 then malloc s size brk
  else if size = 0 then some (free s ptr, 0)
  else if size ≤ header_size s.mem (ptr - HEADER) then some (s, ptr)
  else (malloc s size brk).map fun (s, new_ptr) =>
    if new_ptr ≠ 0 then
      (free { s with mem := memcpy s.mem new_ptr ptr (header_size s.mem (ptr - HEADER)) } ptr, new_ptr)
    else (s, new_ptr)

/-! ## 呼び出しの列 -/

/-- 利用者の呼び出し。`store` は、塊の中への書き込みである。 -/
inductive Call
  | malloc (size brk : Nat)
  | free (ptr : Nat)
  | realloc (ptr size brk : Nat)
  | store (a : Nat) (v : UInt8)

/-- `live` は、確保している塊の番地と頼まれた広さである。`got` は、`sys_sbrk` の結果の範囲の記録である。 -/
structure Client where
  heap : Heap
  live : List (Nat × Nat)
  got : List (Nat × Nat)

/-- 始めは、塊がない。 -/
def Client.start (m : ByteMem) : Client := ⟨⟨m, 0, 0⟩, [], []⟩

/-- 呼び出しの結果と戻り値。 -/
def call (s : Heap) : Call → Option (Heap × Nat)
  | .malloc size brk => malloc s size brk
  | .free ptr => some (free s ptr, 0)
  | .realloc ptr size brk => realloc s ptr size brk
  | .store a v => some ({ s with mem := s.mem.store8 a v }, 0)

/-- `sys_sbrk` が失敗しなければ、結果を記録する。 -/
def record (got : List (Nat × Nat)) (size brk : Nat) : List (Nat × Nat) :=
  if brk = SBRK_FAILED then got else (brk, size + HEADER) :: got

/-- `p` を除く。 -/
def forget (live : List (Nat × Nat)) (p : Nat) : List (Nat × Nat) := live.filter fun l => l.1 ≠ p

/-- 呼び出しが `q` を返した後の、確保している塊。 -/
def live_after (live : List (Nat × Nat)) (q : Nat) : Call → List (Nat × Nat)
  | .malloc size _ => if q = 0 then live else (q, size) :: live
  | .free ptr => forget live ptr
  | .realloc ptr size _ =>
    if size = 0 then forget live ptr else if q = 0 then live else (q, size) :: forget live ptr
  | .store _ _ => live

def got_after (got : List (Nat × Nat)) : Call → List (Nat × Nat)
  | .malloc size brk => record got size brk
  | .realloc _ size brk => record got size brk
  | _ => got

def Client.step (s : Client) (c : Call) : Option Client :=
  (call s.heap c).map fun (h, q) => ⟨h, live_after s.live q c, got_after s.got c⟩

/-- `sys_sbrk` の答え。失敗か、これまでの結果のどれとも重ならない範囲の先頭である。 -/
def Answer (got : List (Nat × Nat)) (size brk : Nat) : Prop :=
  brk = SBRK_FAILED ∨ brk + (size + HEADER) ≤ 2 ^ 32 ∧ ∀ r ∈ got, r.1 + r.2 ≤ brk ∨ brk + (size + HEADER) ≤ r.1

instance (got : List (Nat × Nat)) (size brk : Nat) : Decidable (Answer got size brk) := inferInstanceAs (Decidable (_ ∨ _))

/-- 呼び出しの条件。`free` と `realloc` は、`NULL` か、確保している塊に対して呼ぶ。 -/
def Client.ok (s : Client) : Call → Prop
  | .malloc size brk => size < 2 ^ 32 ∧ Answer s.got size brk
  | .free ptr => ptr = 0 ∨ ∃ n, (ptr, n) ∈ s.live
  | .realloc ptr size brk => (ptr = 0 ∨ ∃ n, (ptr, n) ∈ s.live) ∧ size < 2 ^ 32 ∧ Answer s.got size brk
  | .store a _ => ∃ l ∈ s.live, l.1 ≤ a ∧ a < l.1 + l.2

end MyOS.Libc
