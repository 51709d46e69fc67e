import MyOS.Fat.OpenTheorems
import MyOS.Vfs.Stdio

/-!
# `lseek` の定理

`seek_fs` の末尾からの計算は大きさから量を引き、`syscall_lseek` は負の量の動きを符号の変化だけで調べる。
-/

namespace MyOS.Vfs
open MyOS.Lib

variable {t : Task} {n ebx ecx edx whence offset : Nat} {node : FileNode} {x : Int}

theorem to_uint32_cast (x : Int) : ((to_uint32 x : Nat) : Int) = x % 2 ^ 32 := by
  unfold to_uint32
  omega

theorem to_int32_mod (h : ecx < 2 ^ 32) : to_int32 ecx % 2 ^ 32 = ecx := by
  unfold to_int32
  split <;> omega

theorem to_int32_bounds (h : ecx < 2 ^ 32) : -2 ^ 31 ≤ to_int32 ecx ∧ to_int32 ecx < 2 ^ 31 := by
  unfold to_int32
  split <;> omega

theorem seek_fs_start : seek_fs node offset 0 = node.set_seek offset := by
  cases node <;> rfl

theorem seek_fs_end : seek_fs node offset 2 = node.set_seek (sub32 node.size offset) := by
  cases node <;> rfl

theorem seek_offset_set : (node.set_seek offset).seek_offset = offset := by
  cases node <;> rfl

theorem set_seek_inj {a b : Nat} : node.set_seek a = node.set_seek b ↔ a = b := by
  constructor
  · intro h
    have := congrArg FileNode.seek_offset h
    rwa [seek_offset_set, seek_offset_set] at this
  · rintro rfl
    rfl

theorem set_seek_self (node : FileNode) : node.set_seek node.seek_offset = node := by
  cases node <;> rfl

theorem set_node_inj {a b : FileNode} : t.set_node n a = t.set_node n b ↔ a = b := by
  constructor
  · intro h
    have := congrFun (congrArg Task.nodes h) n
    simpa [Task.set_node] using this
  · rintro rfl
    rfl

theorem set_node_self : t.set_node n (t.nodes n) = t := by
  have hnodes : (fun k => if k = n then t.nodes n else t.nodes k) = t.nodes := by
    funext k
    by_cases h : k = n <;> simp [h]
  unfold Task.set_node
  rw [hnodes]

/-- 位置だけを変えた状態が元と同じなのは、位置が同じときである。 -/
theorem set_seek_eq_self_iff {a : Nat} : t.set_node n ((t.nodes n).set_seek a) = t ↔ a = (t.nodes n).seek_offset := by
  conv_lhs => rhs; rw [← set_node_self (t := t) (n := n), ← set_seek_self (t.nodes n)]
  rw [set_node_inj, set_seek_inj]

/-- 31 ビットに収まる位置への移動。 -/
theorem lseek_start_eq (h : 0 ≤ x ∧ x < 2 ^ 31) :
    lseek_to t n x 0 = (t.set_node n ((t.nodes n).set_seek x.toNat), x) := by
  have hx : to_uint32 x = x.toNat := by
    unfold to_uint32
    omega
  show (t.set_node n (seek_fs (t.nodes n) (to_uint32 x) 0), to_int32 (seek_fs (t.nodes n) (to_uint32 x) 0).seek_offset) = _
  rw [seek_fs_start, seek_offset_set, hx]
  unfold to_int32
  rw [if_pos (by omega), Int.toNat_of_nonneg h.1]

theorem lseek_end_eq : lseek_to t n x 2 = (t.set_node n ((t.nodes n).set_seek (sub32 (t.nodes n).size (to_uint32 x))),
    to_int32 (sub32 (t.nodes n).size (to_uint32 x))) := by
  show (t.set_node n (seek_fs (t.nodes n) (to_uint32 x) 2), to_int32 (seek_fs (t.nodes n) (to_uint32 x) 2).seek_offset) = _
  rw [seek_fs_end, seek_offset_set]

/-! ## 起点ごとの正しさ -/

theorem lseek_set_ok (hecx : ecx < 2 ^ 32) :
    SeekOk t n (to_int32 ecx) 0 (if to_int32 ecx < 0 then (t, -1) else lseek_to t n (to_int32 ecx) 0) := by
  have hbounds := to_int32_bounds hecx
  show if 0 ≤ ((0 : Nat) : Int) + to_int32 ecx ∧ ((0 : Nat) : Int) + to_int32 ecx < 2 ^ 31 then _ else _
  rw [Int.natCast_zero, Int.zero_add]
  by_cases hneg : to_int32 ecx < 0
  · rw [if_pos hneg, if_neg (by omega)]
  · rw [if_neg hneg, if_pos ⟨by omega, hbounds.2⟩]
    exact lseek_start_eq ⟨by omega, hbounds.2⟩

/-- 今の位置からの移動。 -/
def lseek_cur (t : Task) (n ecx : Nat) : Task × Int :=
  let offset := to_int32 ecx
  let new_off := to_int32 (add32 (t.nodes n).seek_offset ecx)
  if offset > 0 ∧ new_off < 0 then (t, -1)
  else if offset < 0 ∧ new_off > 0 then (t, -1)
  else if new_off < 0 then (t, -1)
  else lseek_to t n new_off 0

theorem lseek_moved_ne {a : Task} {y : Int} (hy : 0 ≤ y) : (a, y) ≠ (t, (-1 : Int)) := by
  intro h
  have := congrArg Prod.snd h
  dsimp only at this
  omega

/-- 今の位置と量の和は、`int32_t` に直すと 2^32 だけずれることがある。 -/
theorem new_off_eq {k : Nat} (hk : k < 2 ^ 32) (hecx : ecx < 2 ^ 32) :
    -2 ^ 31 ≤ to_int32 (add32 k ecx) ∧ to_int32 (add32 k ecx) < 2 ^ 31 ∧
      (to_int32 (add32 k ecx) = k + to_int32 ecx ∨ to_int32 (add32 k ecx) = k + to_int32 ecx - 2 ^ 32) := by
  have hbounds := to_int32_bounds hecx
  have hmod := to_int32_mod hecx
  have hadd : add32 k ecx < 2 ^ 32 := add32_lt
  have hnew := to_int32_bounds hadd
  have hnewmod := to_int32_mod hadd
  refine ⟨hnew.1, hnew.2, ?_⟩
  generalize to_int32 (add32 k ecx) = w at *
  unfold add32 at hnewmod
  generalize to_int32 ecx = o at *
  omega

theorem lseek_cur_iff (hseek : (t.nodes n).seek_offset < 2 ^ 32) (hecx : ecx < 2 ^ 32) :
    SeekOk t n (to_int32 ecx) 1 (lseek_cur t n ecx) ↔
      (0 < to_int32 ecx → ((t.nodes n).seek_offset : Int) + to_int32 ecx < 2 ^ 32) ∧
        (to_int32 ecx < 0 → 0 < ((t.nodes n).seek_offset : Int) + to_int32 ecx →
          2 ^ 31 ≤ ((t.nodes n).seek_offset : Int) + to_int32 ecx) := by
  have hbounds := to_int32_bounds hecx
  obtain ⟨hlow, hhigh, hnew⟩ := new_off_eq hseek hecx
  show (if 0 ≤ ((t.nodes n).seek_offset : Int) + to_int32 ecx ∧
    ((t.nodes n).seek_offset : Int) + to_int32 ecx < 2 ^ 31 then _ else _) ↔ _
  unfold lseek_cur
  dsimp only
  generalize to_int32 (add32 (t.nodes n).seek_offset ecx) = w at *
  generalize to_int32 ecx = o at *
  by_cases hrange : 0 ≤ ((t.nodes n).seek_offset : Int) + o ∧ ((t.nodes n).seek_offset : Int) + o < 2 ^ 31
  · obtain rfl : w = (t.nodes n).seek_offset + o := by omega
    rw [if_pos hrange, if_neg (by omega)]
    by_cases hback : o < 0 ∧ ((t.nodes n).seek_offset : Int) + o > 0
    · rw [if_pos hback]
      exact iff_of_false (Ne.symm (lseek_moved_ne hrange.1)) (by omega)
    · rw [if_neg hback, if_neg (by omega)]
      exact iff_of_true (lseek_start_eq hrange) (by omega)
  · rw [if_neg hrange]
    by_cases hneg : w < 0
    · have hstay : (if o > 0 ∧ w < 0 then (t, -1) else if o < 0 ∧ w > 0 then (t, -1)
          else if w < 0 then (t, -1) else lseek_to t n w 0) = (t, (-1 : Int)) := by
        rw [if_pos hneg]
        split
        · rfl
        · split <;> rfl
      exact iff_of_true hstay (by omega)
    · rw [if_neg (by omega), if_neg (by omega), if_neg hneg, lseek_start_eq (by omega)]
      exact iff_of_false (lseek_moved_ne (by omega)) (by omega)

/-- 末尾からの移動は、量を引いた位置に動く。 -/
theorem lseek_end_iff (hsize : (t.nodes n).size < 2 ^ 31) (hecx : ecx < 2 ^ 32) :
    SeekOk t n (to_int32 ecx) 2 (lseek_to t n (to_int32 ecx) 2) ↔ to_int32 ecx = 0 ∨
      ¬ (0 ≤ ((t.nodes n).size : Int) + to_int32 ecx ∧ ((t.nodes n).size : Int) + to_int32 ecx < 2 ^ 31) ∧
        (t.nodes n).seek_offset = 2 ^ 32 - 1 ∧ (((t.nodes n).size : Int) - to_int32 ecx) % 2 ^ 32 = 2 ^ 32 - 1 := by
  have hbounds := to_int32_bounds hecx
  show (if 0 ≤ ((t.nodes n).size : Int) + to_int32 ecx ∧ ((t.nodes n).size : Int) + to_int32 ecx < 2 ^ 31 then _ else _) ↔ _
  generalize to_int32 ecx = o at *
  have hmoved : ((sub32 (t.nodes n).size (to_uint32 o) : Nat) : Int) = ((t.nodes n).size - o) % 2 ^ 32 := by
    have hcast := to_uint32_cast o
    generalize to_uint32 o = u at *
    unfold sub32
    omega
  rw [lseek_end_eq]
  generalize hy : sub32 (t.nodes n).size (to_uint32 o) = y at *
  have hylt : y < 2 ^ 32 := by omega
  by_cases hrange : 0 ≤ ((t.nodes n).size : Int) + o ∧ ((t.nodes n).size : Int) + o < 2 ^ 31
  · rw [if_pos hrange, Prod.mk.injEq, set_node_inj, set_seek_inj]
    unfold to_int32
    constructor
    · rintro ⟨hseek, -⟩
      left
      omega
    · rintro (rfl | ⟨hout, -⟩)
      · rw [if_pos (by omega)]
        omega
      · exact absurd hrange hout
  · rw [if_neg hrange, Prod.mk.injEq, set_seek_eq_self_iff]
    unfold to_int32
    constructor
    · rintro ⟨hseek, hret⟩
      right
      refine ⟨hrange, ?_⟩
      split at hret <;> omega
    · rintro (rfl | ⟨-, hseek, hout⟩)
      · omega
      · rw [if_neg (by omega)]
        omega

/-- `syscall_lseek` が正しい位置に動くか、何もせずに −1 を返すのは、条件 `SeekFits` を満たすとき、そのときに限る。 -/
theorem syscall_lseek_iff (t : Task) (ebx ecx edx n : Nat) (hfd : ebx < MAX_FILES)
    (hopen : (t.files_open ebx).bind FILE.file = some n) (hsize : (t.nodes n).size < 2 ^ 31)
    (hseek : (t.nodes n).seek_offset < 2 ^ 32) (hecx : ecx < 2 ^ 32) :
    SeekOk t n (to_int32 ecx) edx (syscall_lseek t ebx ecx edx) ↔ SeekFits (t.nodes n) (to_int32 ecx) edx := by
  unfold syscall_lseek
  rw [if_neg (by omega), hopen]
  dsimp only
  by_cases hset : edx = 0
  · subst hset
    exact iff_of_true (lseek_set_ok hecx) ⟨fun h => absurd h (by decide), fun h => absurd h (by decide), fun h => absurd h (by decide)⟩
  · rw [if_neg hset]
    by_cases hcur : edx = 1
    · subst hcur
      rw [if_pos rfl]
      refine (lseek_cur_iff hseek hecx).trans ⟨fun ⟨hf, hb⟩ => ⟨fun _ => hf, fun _ => hb, fun h => absurd h (by decide)⟩, ?_⟩
      exact fun h => ⟨h.forward rfl, h.backward rfl⟩
    · rw [if_neg hcur]
      by_cases hend : edx = 2
      · subst hend
        rw [if_pos rfl]
        refine (lseek_end_iff hsize hecx).trans ⟨fun h => ?_, fun h => h.last rfl⟩
        exact ⟨fun h => absurd h (by decide), fun h => absurd h (by decide), fun _ => h⟩
      · rw [if_neg hend]
        have hnone : seek_base (t.nodes n) edx = none := by
          unfold seek_base
          rw [if_neg hset, if_neg hcur, if_neg hend]
        unfold SeekOk
        rw [hnone]
        exact iff_of_true rfl ⟨fun h => absurd h hcur, fun h => absurd h hcur, fun h => absurd h hend⟩

/-- 記述子 3 で、100 バイトの initrd のファイルの位置 50 を開いている。 -/
def halfway : Task where
  files_open i := if i = 3 then some ⟨some 0, FILE_READ⟩ else none
  nodes _ := .initrd ⟨FS_FILE, 100, 50, 0x400000⟩
  next_node := 1
  fs := Fat.blankFs

theorem syscall_lseek_forward : SeekOk halfway 0 10 1 (syscall_lseek halfway 3 10 1) :=
  (syscall_lseek_iff halfway 3 10 1 0 (by decide) rfl (by decide) (by decide) (by decide)).mpr
    ⟨fun _ _ => by decide, fun _ h => absurd h (by decide), fun h => absurd h (by decide)⟩

/-- 末尾から 10 バイト前への移動は、末尾から 10 バイト後に着く。 -/
theorem syscall_lseek_reversed : ¬ ∀ (t : Task) (ebx ecx edx n : Nat), ebx < MAX_FILES →
    (t.files_open ebx).bind FILE.file = some n → (t.nodes n).size < 2 ^ 31 → (t.nodes n).seek_offset < 2 ^ 32 →
      ecx < 2 ^ 32 → SeekOk t n (to_int32 ecx) edx (syscall_lseek t ebx ecx edx) := by
  intro hall
  have h := hall halfway 3 (2 ^ 32 - 10) 2 0 (by decide) rfl (by decide) (by decide) (by decide)
  have hfits := (lseek_end_iff (t := halfway) (n := 0) (by decide) (by decide)).mp h
  revert hfits
  decide

end MyOS.Vfs

/-!
## 追記の定理

`fopen` はモード `"a"` から `FILE_APPEND` だけを立て、`fwrite` は `FILE_WRITE` だけを調べる。追記のために開いた
記述子には何も書けない。
-/

namespace MyOS.Vfs
open MyOS.Lib

variable {t t₁ : Task} {dir node : Fat.Node} {name modes : List UInt8} {mask fd : Nat} {fp : FILE} {buf : ByteMem}
  {size count : Nat}

/-- 記述子の `FILE` は、開き方を `flags` に持つ。 -/
theorem open_node_flags (h : open_node t node mask = (t₁, (fd : Int))) :
    ∃ n, t₁.files_open fd = some ⟨some n, mask⟩ := by
  unfold open_node at h
  dsimp only at h
  split at h
  · have hfd := congrArg Prod.snd h
    dsimp only at hfd
    omega
  · rename_i i _
    have hfd := congrArg Prod.snd h
    have hfiles := congrArg (Task.files_open ·.1 fd) h
    dsimp only at hfd hfiles
    obtain rfl : i = fd := by omega
    rw [if_pos rfl] at hfiles
    exact ⟨_, hfiles.symm⟩

theorem fopen_flags (h : fopen t dir name modes = some (t₁, (fd : Int))) :
    ∃ n, t₁.files_open fd = some ⟨some n, get_mode modes⟩ := by
  unfold fopen at h
  obtain ⟨found, -, h⟩ := Option.bind_eq_some_iff.mp h
  cases found with
  | some found => exact open_node_flags (Option.some.inj h)
  | none =>
    dsimp only at h
    split at h
    · obtain ⟨⟨fs, made⟩, -, h⟩ := Option.map_eq_some_iff.mp h
      cases made with
      | some made => exact open_node_flags h
      | none =>
        have hfd := congrArg Prod.snd h
        dsimp only at hfd
        omega
    · have hfd := congrArg Prod.snd (Option.some.inj h)
      dsimp only at hfd
      omega

/-- `FILE_WRITE` のない記述子への書き込みは 0 を返し、何も変えない。 -/
theorem fwrite_refused (h : fp.flags &&& FILE_WRITE ≠ FILE_WRITE) : fwrite t buf size count fp = some (t, 0) := by
  unfold fwrite
  rw [if_pos h]

theorem append_refused (h : fopen t dir name [0x61] = some (t₁, (fd : Int))) (hfp : t₁.files_open fd = some fp) :
    fwrite t₁ buf size count fp = some (t₁, 0) := by
  obtain ⟨n, hflags⟩ := fopen_flags h
  obtain rfl : ⟨some n, get_mode [0x61]⟩ = fp := Option.some.inj (hflags.symm.trans hfp)
  exact fwrite_refused (show get_mode [0x61] &&& FILE_WRITE ≠ FILE_WRITE by decide)

/-- 空でない `d` の追記は、どのファイルでも、どの大きさでも成り立たない。 -/
theorem append_never (t : Task) (dir : Fat.Node) (name d : List UInt8) (size count : Nat) (hd : d ≠ []) :
    ¬ AppendOk t dir name d size count := by
  rintro ⟨t₁, fd, fp, t₂, hopen, hfp, hwrite, -⟩
  rw [append_refused hopen hfp] at hwrite
  have hlength := congrArg Prod.snd (Option.some.inj hwrite)
  exact hd (List.length_eq_zero_iff.mp hlength.symm)

/-- 記述子を一つも開いていない、空のボリューム。 -/
def idle : Task := ⟨fun _ => none, fun _ => .initrd ⟨FS_FILE, 0, 0, 0⟩, 0, Fat.blankFs⟩

def root_node : Fat.Node := Fat.dir_node Fat.FAT12_ROOT_INODE

theorem append_never_blank : ¬ AppendOk idle root_node Fat.letterA [0x58] 1 1 :=
  append_never idle root_node Fat.letterA [0x58] 1 1 (by decide)

/-- 空のボリュームに名前 `A` のファイルを作って開くと、記述子 3 が返るが、一バイトも追記できない。 -/
theorem append_letter_lost : (fopen idle root_node Fat.letterA [0x61]).map Prod.snd = some 3 ∧
    ¬ ∀ (t : Task) (dir : Fat.Node) (name d : List UInt8), d ≠ [] →
      (∃ fd : Nat, (fopen t dir name [0x61]).map Prod.snd = some (fd : Int)) → AppendOk t dir name d 1 d.length := by
  have hopen : (fopen idle root_node Fat.letterA [0x61]).map Prod.snd = some 3 := by decide +kernel
  refine ⟨hopen, fun hall => ?_⟩
  obtain ⟨t₁, fd, fp, t₂, hfopen, hfp, hwrite, -⟩ := hall idle root_node Fat.letterA [0x58] (by decide) ⟨3, hopen⟩
  rw [append_refused hfopen hfp] at hwrite
  cases hwrite

end MyOS.Vfs
