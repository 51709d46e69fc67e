import MyOS.Vfs.Lemmas.Path

/-!
# パスの正規化の定理

`..` が名前を消すと、その前の `/` は残る。続く `..` がこれを使い切らない限り、結果は正規のパスにならない。
-/

namespace MyOS.Vfs
open MyOS.Lib

variable {user : UserMem} {cwd path : List UInt8} {p : Nat}

theorem normalize_iff (hlen : cwd.length + path.length ≤ 253) :
    (normalize (build_abs cwd path)).length ≤ 255 ∧
      (normalize (build_abs cwd path) = canonical cwd path ↔ StepsBack cwd path) := by
  have habs := build_abs_length hlen
  have hcomps := build_abs_components hlen
  have hjoined : (joined SLASH (components SLASH (build_abs cwd path))).length ≤ (build_abs cwd path).length + 1 :=
    (components_length _).1
  rw [hcomps] at hjoined
  have hnames : ∀ c ∈ path_components cwd path, c ≠ [] ∧ SLASH ∉ c := by
    rw [← hcomps]
    exact mem_components _
  obtain ⟨hw, hnorm⟩ := Walk.run (path_components cwd path) [] [] .start .start hnames
    (by simp only [List.length_nil]; omega)
  unfold normalize canonical StepsBack climb
  rw [normalize_loop_eq _ _ [] le_rfl, hcomps]
  refine ⟨?_, hw.result_iff⟩
  simp only
  split_ifs
  · exact Nat.le_of_ble_eq_true rfl
  · exact hnorm

/-- 結果が正規のパスになるのは、部分をたどる高さが 1 以下で終わるか、最後に 0 であった後に `..` がないときに限る。 -/
theorem resolve_path_iff (hp : p ≠ 0 ∧ p < 2 ^ 32) (huser : UserString user p path)
    (hlen : cwd.length + path.length ≤ 253) :
    resolve_path cwd user p 256 = some (canonical cwd path) ↔ StepsBack cwd path := by
  obtain ⟨hle, hiff⟩ := normalize_iff hlen
  rw [← hiff]
  unfold resolve_path
  rw [if_neg (by decide), if_neg hp.1, copy_path_eq hp.2 huser (by omega)]
  simp only [Option.some.injEq]
  rw [List.take_of_length_le hle]

/-- 番地 `p` に置いた文字列。ほかの番地は読めない。 -/
def user_string (p : Nat) (s : List UInt8) : UserMem := fun a =>
  if p ≤ a ∧ a ≤ p + s.length then some ((s ++ [0]).getD (a - p) 0) else none

/-- `a/../../b` は正しく `/b` になる。 -/
def up_to_root : List UInt8 := [0x61, SLASH, DOT, DOT, SLASH, DOT, DOT, SLASH, 0x62]

/-- `/a/b/../c/../..` である。 -/
def up_twice : List UInt8 :=
  [SLASH, 0x61, SLASH, 0x62, SLASH, DOT, DOT, SLASH, 0x63, SLASH, DOT, DOT, SLASH, DOT, DOT]

theorem resolve_path_up_to_root :
    resolve_path [SLASH] (user_string 4096 up_to_root) 4096 256 = some (canonical [SLASH] up_to_root) :=
  (resolve_path_iff ⟨by decide, by decide⟩ (by unfold UserString; decide +kernel) (by decide)).mpr
    (by decide +kernel)

/-- 根に戻るはずのパスが、`/a/` になる。 -/
theorem resolve_path_up_twice :
    UserString (user_string 4096 up_twice) 4096 up_twice ∧
      resolve_path [SLASH] (user_string 4096 up_twice) 4096 256 = some [SLASH, 0x61, SLASH] ∧
      canonical [SLASH] up_twice = [SLASH] := by
  unfold UserString
  decide +kernel

end MyOS.Vfs
