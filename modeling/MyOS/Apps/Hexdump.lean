import MyOS.Apps.FilterTheorems

/-!
# hexdump.c

16 バイトごとに、位置、16 進の二桁、見える文字を一行に書く。書いた行からは、元のバイトを読み戻せる。
-/

namespace MyOS.Filters
open MyOS.Lib

def hex_digit (nibble : Nat) : UInt8 := if nibble < 10 then UInt8.ofNat (0x30 + nibble) else UInt8.ofNat (0x61 + nibble - 10)

/-- 上の桁から書く。 -/
def print_hex (val width : Nat) : List UInt8 := (List.range width).map fun i => hex_digit ((val >>> ((width - 1 - i) * 4)) &&& 0xF)

/-- `char` は符号付きである。 -/
def visible (c : UInt8) : UInt8 := if 32 ≤ c.toInt8.toInt ∧ c.toInt8.toInt < 127 then c else 0x2E

/-- 一行の `print`。 -/
def dump_row (data : List UInt8) (offset : Nat) : List (List UInt8) :=
  [print_hex offset 8, [SPACE, SPACE]] ++
    ((List.range 16).flatMap fun i =>
      [if offset + i < data.length then print_hex (data.getD (offset + i) 0).toNat 2 else [SPACE, SPACE], [SPACE]]) ++
    [[SPACE, 0x7C], ((List.range 16).filter fun i => decide (offset + i < data.length)).map fun i => visible (data.getD (offset + i) 0),
      [0x7C, NEWLINE]]

def hexdump (alloc : Nat → Bool) (fs : List UInt8 → Option (Nat × List (List UInt8))) (stdin argv : List (List UInt8)) : Run Exit := do
  let data ← load "hexdump" alloc (source fs stdin argv.head?)
  .ok ⟨(List.range ((data.length + 15) / 16)).flatMap fun k => dump_row data (16 * k), 0⟩

/-! ## 読み戻すこと -/

def hex_nibble (c : UInt8) : Nat := if c < 0x61 then c.toNat - 0x30 else c.toNat - 0x57

def hex_value (cs : List UInt8) : Nat := cs.foldl (fun n c => 16 * n + hex_nibble c) 0

/-- 空白に当たるまで、二桁ずつ読む。 -/
def undump_cells : Nat → List UInt8 → List UInt8
  | n + 1, a :: b :: _ :: cs => if a = SPACE then [] else UInt8.ofNat (hex_value [a, b]) :: undump_cells n cs
  | _, _ => []

/-- 一行のバイト。 -/
def undump_row (row : List UInt8) : List UInt8 := undump_cells 16 (row.drop 10)

variable {data rest : List UInt8} {off n : Nat}

theorem hex_digit_spec : ∀ d < 16, hex_nibble (hex_digit d) = d ∧ hex_digit d ≠ SPACE ∧ hex_digit d ≠ NEWLINE := by decide

theorem print_hex_succ (val width : Nat) : print_hex val (width + 1) = print_hex (val / 16) width ++ [hex_digit (val % 16)] := by
  unfold print_hex
  rw [List.range_succ, List.map_append]
  congr 1
  · refine List.map_congr_left fun i hi => ?_
    have hi := List.mem_range.mp hi
    rw [show (width + 1 - 1 - i) * 4 = 4 + (width - 1 - i) * 4 by omega, Nat.shiftRight_add, Nat.shiftRight_eq_div_pow val 4]
  · rw [List.map_singleton, show (width + 1 - 1 - width) * 4 = 0 by omega, Nat.shiftRight_zero, Nat.and_two_pow_sub_one_eq_mod val 4]

theorem hex_value_print (val width : Nat) : hex_value (print_hex val width) = val % 16 ^ width := by
  induction width generalizing val with
  | zero =>
    rw [Nat.pow_zero, Nat.mod_one]
    rfl
  | succ width ih =>
    have hih := ih (val / 16)
    unfold hex_value at hih ⊢
    rw [print_hex_succ, List.foldl_append, hih, List.foldl_cons, List.foldl_nil, (hex_digit_spec _ (Nat.mod_lt _ (by decide))).1, Nat.pow_succ,
      Nat.mul_comm (16 ^ width), Nat.mod_mul]
    omega

theorem print_hex_length (val width : Nat) : (print_hex val width).length = width := by
  rw [print_hex, List.length_map, List.length_range]

theorem print_hex_mem {val width : Nat} {c : UInt8} (h : c ∈ print_hex val width) : c ≠ SPACE ∧ c ≠ NEWLINE := by
  obtain ⟨i, -, rfl⟩ := List.mem_map.mp h
  exact (hex_digit_spec _ (Nat.lt_succ_of_le Nat.and_le_right)).2

/-- 一つのバイトと、後の空白。 -/
def cell (data : List UInt8) (off : Nat) : List UInt8 :=
  (if off < data.length then print_hex (data.getD off 0).toNat 2 else [SPACE, SPACE]) ++ [SPACE]

theorem undump_cells_cells (rest : List UInt8) :
    undump_cells n (((List.range n).flatMap fun i => cell data (off + i)) ++ rest) = (data.drop off).take n := by
  induction n generalizing off with
  | zero => rw [undump_cells, List.take_zero]; simp
  | succ n ih =>
    have hshift : (List.range (n + 1)).flatMap (fun i => cell data (off + i)) =
        cell data off ++ (List.range n).flatMap fun i => cell data (off + 1 + i) := by
      rw [List.range_succ_eq_map, List.flatMap_cons, List.flatMap_map]
      simp only [Nat.add_zero, Nat.succ_eq_add_one, Nat.add_assoc, Nat.add_comm 1]
    rw [hshift, List.append_assoc]
    by_cases hlt : off < data.length
    · obtain ⟨a, b, hab⟩ : ∃ a b, print_hex (data.getD off 0).toNat 2 = [a, b] := ⟨_, _, rfl⟩
      have ha : a ≠ SPACE := (print_hex_mem (hab ▸ List.mem_cons_self : a ∈ print_hex (data.getD off 0).toNat 2)).1
      have hvalue : UInt8.ofNat (hex_value [a, b]) = data[off] := by
        have hbyte := (data.getD off 0).toNat_lt
        rw [← hab, hex_value_print, Nat.mod_eq_of_lt (by omega), UInt8.ofNat_toNat, List.getD_eq_getElem?_getD, List.getElem?_eq_getElem hlt,
          Option.getD_some]
      rw [cell, if_pos hlt, hab, List.drop_eq_getElem_cons hlt, List.take_succ_cons]
      show undump_cells (n + 1) (a :: b :: SPACE :: _) = _
      rw [undump_cells, if_neg ha, hvalue]
      exact congrArg (data[off] :: ·) ih
    · rw [cell, if_neg hlt, List.drop_eq_nil_of_le (Nat.le_of_not_lt hlt), List.take_nil]
      show undump_cells (n + 1) (SPACE :: SPACE :: SPACE :: _) = _
      rw [undump_cells, if_pos rfl]

/-- 最後の改行を除いた行。 -/
def dump_line (data : List UInt8) (off : Nat) : List UInt8 :=
  print_hex off 8 ++ ([SPACE, SPACE] ++ ((List.range 16).flatMap fun i => cell data (off + i)) ++
    ([SPACE, 0x7C] ++ (((List.range 16).filter fun i => decide (off + i < data.length)).map fun i => visible (data.getD (off + i) 0)) ++ [0x7C]))

theorem dump_row_flatten (data : List UInt8) (off : Nat) : (dump_row data off).flatten = dump_line data off ++ [NEWLINE] := by
  have hcells : ∀ l : List Nat, (l.flatMap fun i =>
      [if off + i < data.length then print_hex (data.getD (off + i) 0).toNat 2 else [SPACE, SPACE], [SPACE]]).flatten =
        l.flatMap fun i => cell data (off + i) := by
    intro l
    induction l with
    | nil => rfl
    | cons i l ih =>
      rw [List.flatMap_cons, List.flatten_append, ih]
      simp [cell]
  unfold dump_row dump_line
  rw [List.flatten_append, List.flatten_append, hcells]
  simp

theorem visible_ne (c : UInt8) : visible c ≠ NEWLINE := by
  unfold visible
  split
  next h =>
    rintro rfl
    exact absurd h.1 (by decide)
  · decide

theorem newline_not_mem_dump_line (data : List UInt8) (off : Nat) : NEWLINE ∉ dump_line data off := by
  intro h
  simp only [dump_line, List.mem_append, List.mem_flatMap, List.mem_map] at h
  rcases h with h | (h | ⟨i, -, h⟩) | (h | ⟨i, -, h⟩) | h
  · exact (print_hex_mem h).2 rfl
  · exact absurd h (by decide)
  · rcases List.mem_append.mp h with h | h
    · split at h
      · exact (print_hex_mem h).2 rfl
      · exact absurd h (by decide)
    · exact absurd h (by decide)
  · exact absurd h (by decide)
  · exact visible_ne _ h
  · exact absurd h (by decide)

theorem undump_dump_line (data : List UInt8) (off : Nat) : undump_row (dump_line data off ++ [NEWLINE]) = (data.drop off).take 16 := by
  unfold undump_row dump_line
  rw [List.append_assoc, List.append_assoc [SPACE, SPACE], List.append_assoc [SPACE, SPACE], ← List.append_assoc _ [SPACE, SPACE],
    List.drop_left' (by rw [List.length_append, print_hex_length]; rfl), List.append_assoc]
  exact undump_cells_cells _

theorem hex_value_offset (h : off < 2 ^ 32) : hex_value ((dump_line data off ++ [NEWLINE]).take 8) = off := by
  unfold dump_line
  rw [List.append_assoc, List.take_left' (print_hex_length _ _), hex_value_print]
  exact Nat.mod_eq_of_lt h

/-- 16 バイトずつ取ると、すべてを取る。 -/
theorem take_blocks (data : List UInt8) (n : Nat) : ((List.range n).flatMap fun k => (data.drop (16 * k)).take 16) = data.take (16 * n) := by
  induction n with
  | zero => rfl
  | succ n ih => rw [List.range_succ, List.flatMap_append, ih, List.flatMap_singleton, Nat.mul_succ, List.take_add]

variable {alloc : Nat → Bool} {fs : List UInt8 → Option (Nat × List (List UInt8))} {stdin argv : List (List UInt8)}

/-- 書いた行は 16 バイトごとに一つあり、その位置を順に示し、読み戻すと元のバイトになる。 -/
theorem hexdump_reads_back (hdata : Delivers (source fs stdin argv.head?) data) (hlen : data.length ≤ MAX_INPUT) :
    RunsTo "hexdump" alloc (hexdump alloc fs stdin argv) fun e => e.status = 0 ∧ (rows NEWLINE e.out.flatten).flatMap undump_row = data ∧
      (rows NEWLINE e.out.flatten).map (fun row => hex_value (row.take 8)) = (List.range ((data.length + 15) / 16)).map (16 * ·) := by
  refine (load_runs hdata hlen).bind fun x hx => ?_
  subst hx
  have hmax : MAX_INPUT < 2 ^ 31 := by decide
  have hrows : ∀ l : List Nat, rows NEWLINE (l.flatMap fun k => dump_row x (16 * k)).flatten = l.map fun k => dump_line x (16 * k) ++ [NEWLINE] := by
    intro l
    induction l with
    | nil => rfl
    | cons k l ih =>
      rw [List.flatMap_cons, List.flatten_append, dump_row_flatten, List.append_assoc, List.singleton_append,
        rows_line (newline_not_mem_dump_line _ _), ih, List.map_cons]
  refine .inl ⟨_, rfl, rfl, ?_, ?_⟩
  · dsimp only
    rw [hrows, List.flatMap_map]
    simp only [undump_dump_line]
    rw [take_blocks, List.take_of_length_le (by omega)]
  · dsimp only
    rw [hrows, List.map_map]
    refine List.map_congr_left fun k hk => ?_
    have hk := List.mem_range.mp hk
    exact hex_value_offset (by omega)

theorem hexdump_reads_back_three : ∃ e, hexdump (fun _ => true) (fun _ => none) [[0x41], [0x0A, 0xFF]] [] = .ok e ∧
    (rows NEWLINE e.out.flatten).flatMap undump_row = [0x41, 0x0A, 0xFF] := by
  have hsrc : Delivers (source (fun _ => none) [[0x41], [0x0A, 0xFF]] ([] : List (List UInt8)).head?) [0x41, 0x0A, 0xFF] :=
    .stdin [[0x41], [0x0A, 0xFF]] (by decide)
  have hprints : RunsTo "hexdump" (fun _ => true) (hexdump (fun _ => true) (fun _ => none) [[0x41], [0x0A, 0xFF]] []) _ :=
    hexdump_reads_back hsrc (by decide)
  obtain ⟨e, he, -, hout, -⟩ := hprints.total
  exact ⟨e, he, hout⟩

end MyOS.Filters
