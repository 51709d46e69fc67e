import MyOS.Mem.UserCopyTheorems
import MyOS.Vfs.Calls
import MyOS.Vfs.Lemmas.Path

/-!
# 読めないパスのシステムコール

`resolve_path` は、パスを読めないと `buf` を空にするだけである。空のパスを `get_node` は根と読むので、根が断る
呼び出しのほかは成功する。
-/

namespace MyOS.Vfs
open MyOS.Lib

variable {σ ν : Type} {V : KernelNodes σ ν} {w w' : World σ ν} {c : PathCall} {u : User} {p : Process σ ν}
  {path cwd : List UInt8} {s : σ} {op : FsNode σ ν → Option (List UInt8 → σ × Int)} {a i n start stop size dst : Nat}

/-! ## 写す前の検査 -/

/-- 検査から戻らないのは、番地が折り返して回り続けるとき、そのときに限る。 -/
theorem User.check_range_none_iff (hstart : start < 2 ^ 32) :
    u.check_range start size = none ↔ Mem.Spins u.is_page_mapped start (add32 start size) := Mem.check_user_ends hstart

theorem User.copied_refuses_iff {α : Type} {x : α} : u.copied start size x = some none ↔ u.check_range start size = some false := by
  unfold copied
  cases u.check_range start size with
  | none => simp
  | some ok => cases ok <;> simp

theorem User.copied_value {α : Type} {x y : α} (h : u.copied start size x = some (some y)) : y = x := by
  unfold copied at h
  obtain ⟨ok, -, h⟩ := Option.bind_eq_some_iff.mp h
  split at h
  · split at h
    · exact (Option.some.inj (Option.some.inj h)).symm
    · cases h
  · cases h

/-- 見えるページの 1 バイトは、断られない。 -/
theorem User.check_byte (hmapped : u.is_page_mapped a = true) : u.check_range a 1 ≠ some false := by
  have hloop : ∀ {fuel addr}, addr ≤ a → Mem.check_loop u.is_page_mapped a (add32 a 1) fuel addr ≠ some false := by
    intro fuel
    induction fuel with
    | zero => exact fun _ h => by cases h
    | succ fuel ih =>
      intro addr haddr
      unfold Mem.check_loop
      by_cases hlt : addr < add32 a 1
      · -- 調べるのは、いつも `a` である
        have hat : (if addr < a then a else addr) = a := by
          split <;> omega
        rw [if_pos hlt]
        dsimp only
        rw [hat, if_pos hmapped]
        by_cases hnext : add32 a 4096 ≤ a
        · exact ih hnext
        · cases fuel with
          | zero => exact fun h => by cases h
          | succ fuel =>
            have hstop : ¬ add32 a 4096 < add32 a 1 := by
              unfold add32 at *
              omega
            unfold Mem.check_loop
            rw [if_neg hstop]
            exact fun h => by cases h
      · rw [if_neg hlt]
        exact fun h => by cases h
  have hlast : (!decide (add32 a 1 > a) || u.is_page_mapped (add32 a 1 - 1 - (add32 a 1 - 1) % 4096)) = true := by
    by_cases hlt : add32 a 1 > a
    · have hpage : u.is_page_mapped (add32 a 1 - 1 - (add32 a 1 - 1) % 4096) = u.is_page_mapped a := by
        unfold is_page_mapped
        congr 1
        unfold add32 at *
        omega
      rw [hpage, hmapped, Bool.or_true]
    · rw [decide_eq_false hlt]
      rfl
  intro h
  obtain ⟨ok, hok, hval⟩ := Option.map_eq_some_iff.mp h
  rw [hlast, Bool.and_true] at hval
  subst hval
  exact hloop (Nat.sub_le _ _) hok

/-- 1 バイトずつの写しは、`memory` を読むことと同じである。 -/
theorem User.copy_path_memory {r : Option (List UInt8)} (h : u.copy_path n a = some r) : Vfs.copy_path u.memory n a = r := by
  induction n generalizing a r with
  | zero =>
    cases h
    rfl
  | succ n ih =>
    unfold User.copy_path at h
    obtain ⟨byte, hbyte, h⟩ := Option.bind_eq_some_iff.mp h
    unfold Vfs.copy_path
    cases byte with
    | none =>
      have hread : u.memory a = none := by
        unfold memory
        rw [hbyte]
        rfl
      rw [hread]
      exact Option.some.inj h
    | some bytes =>
      obtain rfl := User.copied_value hbyte
      have hread : u.memory a = some (u.bytes (add32 a 0)) := by
        unfold memory
        rw [hbyte]
        rfl
      rw [hread]
      have hhead : ((List.range 1).map fun i => u.bytes (add32 a i)).headD 0 = u.bytes (add32 a 0) := rfl
      dsimp only at h ⊢
      rw [hhead] at h
      split at h
      next hc =>
        rw [if_pos hc]
        exact Option.some.inj h
      next hc =>
        rw [if_neg hc]
        obtain ⟨rest, hrest, rfl⟩ := Option.map_eq_some_iff.mp h
        rw [ih hrest]

theorem reply_iff {src : List UInt8} {ret : Int} (hret : ret ≠ -1) :
    reply w dst src ret = some (w, -1) ↔ Unwritable w dst src.length := by
  unfold reply Unwritable
  rw [← User.copied_refuses_iff (x := { w.current.user with bytes := fun a => src.getD (sub32 a dst) (w.current.user.bytes a) })]
  unfold User.copy_to_user
  cases User.copied _ _ _ _ with
  | none => simp
  | some copied => cases copied <;> simp [hret]

/-! ## 一つの呼び出し -/

theorem set_fs_iff {fs : σ} : { w with fs := fs } = w ↔ fs = w.fs :=
  ⟨fun h => congrArg World.fs h, fun h => by rw [h]⟩

theorem stat_iff {ebx ecx : Nat} : syscall_stat V w ebx ecx = some (w, -1) ↔
    Guarded (.stat ebx ecx) ∨ ∃ path, w.resolve ebx = some path ∧ Refuses V w path (.stat ebx ecx) := by
  unfold syscall_stat Guarded Refuses
  by_cases hguard : Proc.is_user_ptr ebx = false ∨ Proc.is_user_ptr ecx = false
  · rw [if_pos (by simpa using hguard)]
    exact iff_of_true rfl (.inl hguard)
  · rw [if_neg (by simpa using hguard), or_iff_right hguard, Option.bind_eq_some_iff]
    refine exists_congr fun path => and_congr_right fun _ => ?_
    cases V.get_node w.fs path with
    | none => simp
    | some found =>
      cases found with
      | none => simp
      | some n => exact (reply_iff (by decide)).trans (by simp [bytes32])

theorem dirent_bytes_length {heap : ByteMem} {files : List (List UInt8)} {count : Nat} (h : count ≤ files.length) :
    (dirent_bytes heap files count).length = count * 256 := by
  unfold dirent_bytes dirent_slot
  rw [List.length_flatMap]
  simp [h]

theorem readdir_iff {ebx ecx edx : Nat} : syscall_readdir V w ebx ecx edx = some (w, -1) ↔
    Guarded (.readdir ebx ecx edx) ∨ ∃ path, w.resolve ebx = some path ∧ Refuses V w path (.readdir ebx ecx edx) := by
  unfold syscall_readdir Guarded Refuses
  by_cases hguard : Proc.is_user_ptr ebx = false ∨ Proc.is_user_ptr ecx = false ∨ edx = 0
  · rw [if_pos (by simpa [or_assoc] using hguard)]
    exact iff_of_true rfl (.inl hguard)
  · rw [if_neg (by simpa [or_assoc] using hguard), or_iff_right hguard, Option.bind_eq_some_iff]
    refine exists_congr fun path => and_congr_right fun _ => ?_
    cases V.get_node w.fs path with
    | none => simp
    | some found =>
      cases found with
      | none => simp
      | some n =>
        have hlisted := V.listed w.fs n
        unfold entries
        dsimp only [Option.bind_some]
        cases hfiles : readdir_fs (V.node w.fs n) with
        | none => simp [hfiles]
        | some files =>
          have hlen := hlisted files hfiles
          have hcount : (if files.length > edx then edx else files.length) = min files.length edx := by
            split <;> omega
          dsimp only
          rw [hcount, reply_iff (by omega), dirent_bytes_length (Nat.min_le_left _ _)]
          simp [hfiles]

theorem chdir_iff {ebx : Nat} : syscall_chdir V w ebx = some (w, -1) ↔
    Guarded (.chdir ebx) ∨ ∃ path, w.resolve ebx = some path ∧ Refuses V w path (.chdir ebx) := by
  unfold syscall_chdir Guarded Refuses
  by_cases hguard : Proc.is_user_ptr ebx = false
  · rw [if_pos (by simpa using hguard)]
    exact iff_of_true rfl (.inl hguard)
  · rw [if_neg (by simpa using hguard), or_iff_right hguard, Option.bind_eq_some_iff]
    refine exists_congr fun path => and_congr_right fun _ => ?_
    cases V.get_node w.fs path with
    | none => simp
    | some found =>
      cases found with
      | none => simp
      | some n => by_cases hdir : (V.node w.fs n).flags &&& FS_DIRECTORY = 0 <;> simp [hdir]

theorem at_parent_iff {op : FsNode σ ν → Option (List UInt8 → σ × Int)} :
    at_parent V w path op = some (w, -1) ↔ ParentRefused V w path op := by
  unfold at_parent ParentRefused
  cases V.get_node w.fs (parent_path path) with
  | none => simp
  | some found =>
    cases found with
    | none => simp
    | some n =>
      cases hcross : V.cross w.fs n with
      | none => simp [hcross]
      | some parent =>
        cases hop : op (V.node w.fs parent) with
        | none => simp [hcross, hop]
        | some f => simp [hcross, hop, Prod.ext_iff, set_fs_iff]

theorem mkdir_iff {ebx : Nat} : syscall_mkdir V w ebx = some (w, -1) ↔
    Guarded (.mkdir ebx) ∨ ∃ path, w.resolve ebx = some path ∧ Refuses V w path (.mkdir ebx) := by
  unfold syscall_mkdir Guarded Refuses
  by_cases hguard : Proc.is_user_ptr ebx = false
  · rw [if_pos (by simpa using hguard)]
    exact iff_of_true rfl (.inl hguard)
  · rw [if_neg (by simpa using hguard), or_iff_right hguard, Option.bind_eq_some_iff]
    exact exists_congr fun path => and_congr_right fun _ => at_parent_iff

theorem unlink_iff {ebx : Nat} : syscall_unlink V w ebx = some (w, -1) ↔
    Guarded (.unlink ebx) ∨ ∃ path, w.resolve ebx = some path ∧ Refuses V w path (.unlink ebx) := by
  unfold syscall_unlink Guarded Refuses
  by_cases hguard : Proc.is_user_ptr ebx = false
  · rw [if_pos (by simpa using hguard)]
    exact iff_of_true rfl (.inl hguard)
  · rw [if_neg (by simpa using hguard), or_iff_right hguard, Option.bind_eq_some_iff]
    refine exists_congr fun path => and_congr_right fun _ => ?_
    by_cases hlast : last_slash path = none
    · rw [if_pos hlast]
      exact iff_of_true rfl (.inl hlast)
    · rw [if_neg hlast, at_parent_iff, or_iff_right hlast]

/-! ## 空のパス -/

theorem cross_root : V.cross_all s V.root_dir = V.root_dir := by
  unfold Vnodes.cross_all
  rw [FsNode.has, (V.root s).flags]
  rfl

theorem get_node_root (h : path = [] ∨ path = [SLASH]) : V.get_node s path = some (some V.root_dir) := by
  unfold Vnodes.get_node Vnodes.get_node_loop
  rw [if_pos h, cross_root]

theorem root_refuses (hop : ∀ s, op (V.node s V.root_dir) = none) : ParentRefused V w [] op := by
  refine ⟨some V.root_dir, get_node_root (.inr rfl), ?_⟩
  rintro n ⟨⟩
  refine ⟨V.root_dir, ?_, fun f hf => ?_⟩
  · unfold Vnodes.cross
    rw [FsNode.has, (V.root w.fs).flags]
    rfl
  · rw [hop] at hf
    cases hf

/-- 空のパスは根を指す。 -/
theorem refuses_nil : Refuses V w [] c ↔ RootRefuses V w c := by
  have hroot : V.get_node w.fs [] = some (some V.root_dir) := get_node_root (.inl rfl)
  have hflags := (V.root w.fs).flags
  cases c with
  | «open» ebx ecx => simp [Refuses, RootRefuses, OpenRefused, hroot, Option.isSome_iff_exists]
  | stat ebx ecx => simp [Refuses, RootRefuses, hroot]
  | readdir ebx ecx edx =>
    obtain ⟨l, hl⟩ := (V.root w.fs).readdir
    have hfiles : readdir_fs (V.node w.fs V.root_dir) ≠ none := by
      unfold readdir_fs
      rw [FsNode.has, hflags, hl, if_pos (by decide)]
      split <;> simp
    simp [Refuses, RootRefuses, hroot, hfiles]
  | chdir ebx => simp [Refuses, RootRefuses, hroot, hflags, FS_DIRECTORY]
  | mkdir ebx => exact iff_of_true (root_refuses fun s => (V.root s).mkdir) trivial
  | unlink ebx => exact iff_of_true (.inl rfl) trivial

theorem resolve_faults (h : Faults w c) : w.resolve c.path = some [] := by
  have hread : c.path = 0 ∨ (w.current.user.copy_path 255 c.path).isSome = true := h.imp_right fun hf => by
    rw [hf]
    rfl
  unfold World.resolve resolve_path
  rw [if_pos hread, if_neg (by decide)]
  by_cases h0 : c.path = 0
  · rw [if_pos h0]
    rfl
  · rw [if_neg h0, User.copy_path_memory (h.resolve_left h0)]
    rfl

section

variable [DecidableEq ν]

/-- `fopen` は、空いた記述子を埋めなければ −1 を返す。 -/
theorem fopen_iff {modes : List UInt8} : V.fopen w path modes = some (w, -1) ↔
    OpenRefused V w path (get_mode modes) := by
  unfold KernelNodes.fopen OpenRefused
  dsimp only
  cases V.get_node w.fs path with
  | none => simp
  | some found =>
    cases found with
    | some n => cases w.free_id <;> simp
    | none =>
      by_cases hmask : get_mode modes &&& (FILE_WRITE ||| FILE_APPEND) = 0
      · simp [hmask]
      · cases V.create_node w.fs path with
        | none => simp [hmask]
        | some r =>
          obtain ⟨fs, made⟩ := r
          cases made with
          | none => simp [hmask, set_fs_iff]
          | some n => cases w.free_id <;> simp [hmask, set_fs_iff]

theorem open_iff {ebx ecx : Nat} : syscall_open V w ebx ecx = some (w, -1) ↔
    Guarded (.open ebx ecx) ∨ ∃ path, w.resolve ebx = some path ∧ Refuses V w path (.open ebx ecx) := by
  unfold syscall_open Guarded Refuses
  rw [false_or, Option.bind_eq_some_iff]
  refine exists_congr fun path => and_congr_right fun _ => ?_
  rw [Option.bind_eq_some_iff]
  exact exists_congr fun modes => and_congr_right fun _ => fopen_iff

theorem run_iff : c.run V w = some (w, -1) ↔ Guarded c ∨ ∃ path, w.resolve c.path = some path ∧ Refuses V w path c := by
  cases c with
  | «open» ebx ecx => exact open_iff
  | stat ebx ecx => exact stat_iff
  | readdir ebx ecx edx => exact readdir_iff
  | chdir ebx => exact chdir_iff
  | mkdir ebx => exact mkdir_iff
  | unlink ebx => exact unlink_iff

/-- 断る条件は、−1 を返して何も変えないことと同じである。 -/
theorem run_refused_iff : c.run V w = some (w, -1) ↔ Refused V w c := by
  rw [run_iff]
  refine or_congr_right ?_
  by_cases hf : Faults w c
  · rw [resolve_faults hf]
    simp [hf, refuses_nil]
  · simp [hf]

end

/-! ## 正規化した長さ -/

theorem add_component_length (norm comp : List UInt8) : (add_component norm comp).length ≤ norm.length + (comp.length + 1) := by
  unfold add_component
  by_cases h₁ : comp = [DOT]
  · rw [if_pos h₁]
    omega
  · by_cases h₂ : comp = [DOT, DOT]
    · rw [if_neg h₁, if_pos h₂]
      have := remove_last_length norm
      omega
    · rw [if_neg h₁, if_neg h₂]
      split <;> simp only [List.length_append, List.length_take, List.length_singleton] <;> omega

theorem add_component_head {norm : List UInt8} (comp : List UInt8) (h : norm = [] ∨ norm.head? = some SLASH) :
    add_component norm comp = [] ∨ (add_component norm comp).head? = some SLASH := by
  unfold add_component
  by_cases h₁ : comp = [DOT]
  · rw [if_pos h₁]
    exact h
  · by_cases h₂ : comp = [DOT, DOT]
    · rw [if_neg h₁, if_pos h₂]
      exact remove_last_head h
    · rw [if_neg h₁, if_neg h₂]
      refine .inr ?_
      cases norm with
      | nil => rfl
      | cons c norm =>
        have hc : c = SLASH := by simpa using h
        split <;> simp [hc]

theorem normalize_components {norm : List UInt8} (comps : List (List UInt8)) (h : norm = [] ∨ norm.head? = some SLASH) :
    (comps.foldl add_component norm = [] ∨ (comps.foldl add_component norm).head? = some SLASH) ∧
      (comps.foldl add_component norm).length ≤ norm.length + (joined SLASH comps).length := by
  induction comps generalizing norm with
  | nil => exact ⟨h, Nat.le_add_right _ _⟩
  | cons comp comps ih =>
    obtain ⟨hhead, hlen⟩ := ih (add_component_head comp h)
    have hstep := add_component_length norm comp
    refine ⟨hhead, ?_⟩
    rw [List.foldl_cons]
    unfold joined at hlen ⊢
    rw [List.flatMap_cons, List.length_append, List.length_cons]
    omega

/-- つないだパスの部分は、254 バイトに収まる。 -/
theorem build_abs_joined (path : List UInt8) (hhead : cwd.head? = some SLASH) (hlen : cwd.length ≤ 254) :
    (joined SLASH (components SLASH (build_abs cwd path))).length ≤ 254 := by
  have hcwd : cwd.take 254 = cwd := List.take_of_length_le hlen
  unfold build_abs
  dsimp only
  rw [hcwd]
  by_cases hpath : path.head? = some SLASH
  · rw [if_neg (not_not.mpr hpath), List.nil_append, List.length_nil]
    refine Nat.le_trans ((components_length _).2 (.inl ?_)) (List.length_take_le _ _)
    rw [List.head?_take, if_neg (by decide), hpath]
  · rw [if_pos hpath]
    by_cases hsep : cwd ≠ [] ∧ cwd.getLast? ≠ some SLASH
    · rw [if_pos hsep]
      by_cases hfull : cwd.length = 254
      · -- `/` の後には何も入らない。
        have hrest : 254 - (cwd ++ [SLASH]).length = 0 := by
          rw [List.length_append, List.length_singleton]
          omega
        rw [hrest, List.take_zero, List.append_nil, components_append_sep, components_nil, List.append_nil]
        exact Nat.le_trans ((components_length _).2 (.inl hhead)) hlen
      · refine Nat.le_trans ((components_length _).2 (.inl ?_)) ?_
        · rw [List.append_assoc, List.head?_append, hhead]
          rfl
        · simp only [List.length_append, List.length_take, List.length_singleton]
          omega
    · rw [if_neg hsep]
      refine Nat.le_trans ((components_length _).2 (.inl ?_)) ?_
      · rw [List.head?_append, hhead]
        rfl
      · simp only [List.length_append, List.length_take]
        omega

/-- 正規化したパスは `/` で始まり、`cwd` に収まる。 -/
theorem normalize_fits (path : List UInt8) (hhead : cwd.head? = some SLASH) (hlen : cwd.length ≤ 254) :
    (normalize (build_abs cwd path)).head? = some SLASH ∧ (normalize (build_abs cwd path)).length ≤ 254 := by
  unfold normalize
  rw [normalize_loop_eq _ _ _ le_rfl]
  have hjoined := build_abs_joined path hhead hlen
  obtain ⟨hor, hle⟩ := normalize_components (components SLASH (build_abs cwd path)) (.inl rfl)
  rw [List.length_nil] at hle
  by_cases hnil : (components SLASH (build_abs cwd path)).foldl add_component [] = []
  · rw [if_pos hnil]
    exact ⟨rfl, by decide⟩
  · rw [if_neg hnil]
    exact ⟨hor.resolve_left hnil, by omega⟩

/-! ## 実行 -/

/-- 利用者に見える文字列は、途中で断られない。 -/
theorem copy_path_readable {p : Nat} (hp : p < 2 ^ 32) (h : UserString u.readable p path) (n : Nat) :
    u.copy_path n p ≠ some none := by
  induction n generalizing p path with
  | zero => exact nofun
  | succ n ih =>
    have hread : add32 p 0 = p := add32_eq (by omega)
    have hseen : ∀ {c : UInt8}, u.readable p = some c → u.is_page_mapped p = true ∧ u.bytes p = c := by
      intro c hc
      unfold User.readable at hc
      split at hc
      next hmapped => exact ⟨hmapped, Option.some.inj hc⟩
      next => cases hc
    obtain ⟨hmapped, hzero⟩ : u.is_page_mapped p = true ∧ (u.bytes p ≠ 0 → ∃ rest, UserString u.readable (add32 p 1) rest) := by
      cases path with
      | nil =>
        have hend := h.2.2
        rw [List.length_nil, hread] at hend
        exact ⟨(hseen hend).1, fun hne => absurd (hseen hend).2 hne⟩
      | cons c rest =>
        have hfirst := h.2.1 0 (Nat.succ_pos _)
        rw [hread] at hfirst
        exact ⟨(hseen hfirst).1, fun _ => ⟨rest, h.tail⟩⟩
    unfold User.copy_path
    intro hnone
    obtain ⟨byte, hbyte, hnone⟩ := Option.bind_eq_some_iff.mp hnone
    cases byte with
    | none => exact User.check_byte hmapped (User.copied_refuses_iff.mp hbyte)
    | some bytes =>
      obtain rfl := User.copied_value hbyte
      have hhead : ((List.range 1).map fun i => u.bytes (add32 p i)).headD 0 = u.bytes p := by
        show u.bytes (add32 p 0) = _
        rw [hread]
      dsimp only at hnone
      rw [hhead] at hnone
      split at hnone
      · cases hnone
      next hc =>
        obtain ⟨rest, hrest⟩ := hzero hc
        obtain ⟨r, hr, hval⟩ := Option.map_eq_some_iff.mp hnone
        rw [Option.map_eq_none_iff.mp hval] at hr
        exact ih add32_lt hrest hr

/-- 読めるパスの行き先。 -/
theorem resolve_readable {dest : List UInt8} (hp : c.path ≠ 0 ∧ c.path < 2 ^ 32) (h : UserString w.current.user.readable c.path path)
    (hdest : w.resolve c.path = some dest) (hhead : w.current.cwd.head? = some SLASH) (hlen : w.current.cwd.length ≤ 254) :
    dest.head? = some SLASH ∧ dest.length ≤ 254 := by
  unfold World.resolve at hdest
  split at hdest
  next hread =>
    obtain ⟨r, hr⟩ := Option.isSome_iff_exists.mp (hread.resolve_left hp.1)
    have hsome : r ≠ none := fun hnone => copy_path_readable hp.2 h 255 (hnone ▸ hr)
    obtain ⟨l, rfl⟩ := Option.ne_none_iff_exists'.mp hsome
    have hfits := normalize_fits l hhead hlen
    obtain rfl := Option.some.inj hdest
    unfold resolve_path
    rw [if_neg (by decide), if_neg hp.1, User.copy_path_memory hr]
    dsimp only [Option.getD_some]
    rw [List.take_of_length_le (by omega)]
    exact hfits
  next => cases hdest

/-- `cwd` を変えない。 -/
structure Keeps (w w' : World σ ν) : Prop where
  used : w'.used = w.used
  cwd : ∀ i, (w'.table i).cwd = (w.table i).cwd
  made : ∀ i, (w'.table i).made = (w.table i).made

theorem Keeps.refl (w : World σ ν) : Keeps w w := ⟨rfl, fun _ => rfl, fun _ => rfl⟩

theorem set_current_keeps (hcwd : p.cwd = w.current.cwd) (hmade : p.made = w.current.made) :
    Keeps w (w.set_current p) := by
  refine ⟨rfl, fun i => ?_, fun i => ?_⟩
  all_goals
    unfold World.set_current
    dsimp only
    split
    next hi =>
      subst hi
      assumption
    next => rfl

theorem reply_keeps {src : List UInt8} {ret r : Int} (h : reply w dst src ret = some (w', r)) : Keeps w w' := by
  unfold reply at h
  obtain ⟨user, -, h⟩ := Option.map_eq_some_iff.mp h
  cases user with
  | none =>
    cases h
    exact .refl w
  | some user =>
    cases h
    exact set_current_keeps rfl rfl

theorem at_parent_keeps {r : Int} (h : at_parent V w path op = some (w', r)) : Keeps w w' := by
  unfold at_parent at h
  obtain ⟨found, -, h⟩ := Option.bind_eq_some_iff.mp h
  cases found with
  | none =>
    cases h
    exact .refl w
  | some n =>
    obtain ⟨parent, -, h⟩ := Option.map_eq_some_iff.mp h
    split at h
    all_goals
      cases h
      exact ⟨rfl, fun _ => rfl, fun _ => rfl⟩

theorem stat_keeps {ebx ecx : Nat} {r : Int} (h : syscall_stat V w ebx ecx = some (w', r)) : Keeps w w' := by
  unfold syscall_stat at h
  split at h
  · cases h
    exact .refl w
  · obtain ⟨path, -, h⟩ := Option.bind_eq_some_iff.mp h
    obtain ⟨found, -, h⟩ := Option.bind_eq_some_iff.mp h
    cases found with
    | none =>
      cases h
      exact .refl w
    | some n => exact reply_keeps h

theorem readdir_keeps {ebx ecx edx : Nat} {r : Int} (h : syscall_readdir V w ebx ecx edx = some (w', r)) :
    Keeps w w' := by
  unfold syscall_readdir at h
  split at h
  · cases h
    exact .refl w
  · obtain ⟨path, -, h⟩ := Option.bind_eq_some_iff.mp h
    obtain ⟨found, -, h⟩ := Option.bind_eq_some_iff.mp h
    cases found with
    | none =>
      cases h
      exact .refl w
    | some n =>
      dsimp only at h
      split at h
      · cases h
        exact .refl w
      · exact reply_keeps h

theorem mkdir_keeps {ebx : Nat} {r : Int} (h : syscall_mkdir V w ebx = some (w', r)) : Keeps w w' := by
  unfold syscall_mkdir at h
  split at h
  · cases h
    exact .refl w
  · obtain ⟨path, -, h⟩ := Option.bind_eq_some_iff.mp h
    exact at_parent_keeps h

theorem unlink_keeps {ebx : Nat} {r : Int} (h : syscall_unlink V w ebx = some (w', r)) : Keeps w w' := by
  unfold syscall_unlink at h
  split at h
  · cases h
    exact .refl w
  · obtain ⟨path, -, h⟩ := Option.bind_eq_some_iff.mp h
    split at h
    · cases h
      exact .refl w
    · exact at_parent_keeps h

/-- `chdir` は、成功したときだけ `cwd` を書く。 -/
theorem chdir_spec {ebx : Nat} {r : Int} (h : syscall_chdir V w ebx = some (w', r)) : w' = w ∨
    Proc.is_user_ptr ebx = true ∧ ∃ path n, w.resolve ebx = some path ∧ V.get_node w.fs path = some (some n) ∧
      (V.node w.fs n).flags &&& FS_DIRECTORY ≠ 0 ∧
        w' = w.set_current { w.current with cwd := path.take 254, made := w.fs } ∧ r = 0 := by
  unfold syscall_chdir at h
  split at h
  · cases h
    exact .inl rfl
  · rename_i hguard
    obtain ⟨path, hpath, h⟩ := Option.bind_eq_some_iff.mp h
    obtain ⟨found, hfound, h⟩ := Option.map_eq_some_iff.mp h
    cases found with
    | none =>
      cases h
      exact .inl rfl
    | some n =>
      dsimp only at h
      split at h
      · cases h
        exact .inl rfl
      · rename_i hdir
        cases h
        exact .inr ⟨by simpa using hguard, path, n, hpath, hfound, hdir, rfl, rfl⟩

/-- どのプロセスの `cwd` も正しい。 -/
def CwdsOk (V : KernelNodes σ ν) (w : World σ ν) : Prop :=
  ∀ i, w.used i = true → CwdOk V (w.table i) ∧ (w.table i).cwd.length ≤ 254

theorem CwdOk.congr {q : Process σ ν} (h : CwdOk V p) (hcwd : q.cwd = p.cwd) (hmade : q.made = p.made) : CwdOk V q := by
  unfold CwdOk at *
  rw [hcwd, hmade]
  exact h

theorem Keeps.cwds (hk : Keeps w w') (h : CwdsOk V w) : CwdsOk V w' := fun i hi => by
  rw [hk.used] at hi
  obtain ⟨hok, hlen⟩ := h i hi
  exact ⟨hok.congr (hk.cwd i) (hk.made i), (hk.cwd i).symm ▸ hlen⟩

theorem CwdsOk.add (h : CwdsOk V w) (hp : CwdOk V p ∧ p.cwd.length ≤ 254) : CwdsOk V (w.add i p) := fun j hj => by
  unfold World.add at hj ⊢
  dsimp only at hj ⊢
  by_cases hij : j = i
  · rw [if_pos hij]
    exact hp
  · rw [if_neg hij]
    exact h j (by simpa [hij] using hj)

theorem CwdsOk.inherit (h : CwdsOk V w) (hi : w.used i = true) {files_open : Nat → Option (ν × Nat)} {user : User} :
    CwdOk V ((w.table i).inherit files_open user) ∧ ((w.table i).inherit files_open user).cwd.length ≤ 254 := by
  obtain ⟨hok, hlen⟩ := h i hi
  have hcwd : ((w.table i).inherit files_open user).cwd = (w.table i).cwd := List.take_of_length_le hlen
  exact ⟨hok.congr hcwd rfl, hcwd.symm ▸ hlen⟩

/-- 根は、起動のときから initrd のディレクトリである。 -/
theorem cwd_root {files_open : Nat → Option (ν × Nat)} {user : User} :
    CwdOk V ⟨[SLASH], files_open, user, s⟩ ∧ [SLASH].length ≤ 254 := by
  refine ⟨⟨rfl, V.root_dir, get_node_root (.inr rfl), ?_⟩, by decide⟩
  rw [FsNode.kind, (V.root s).flags]
  rfl

theorem boot_cwds {fs : σ} {refcount : ν → Nat} {user : User} {heap : ByteMem} :
    CwdsOk V (World.boot fs refcount user heap) := fun _ _ => cwd_root

theorem CwdsOk.set_current (h : CwdsOk V w) (hp : CwdOk V p ∧ p.cwd.length ≤ 254) : CwdsOk V (w.set_current p) :=
  fun i hi => by
    unfold World.set_current
    dsimp only
    split
    · exact hp
    · exact h i hi

variable [DecidableEq ν]

theorem open_keeps {ebx ecx : Nat} {r : Int} (h : syscall_open V w ebx ecx = some (w', r)) : Keeps w w' := by
  unfold syscall_open at h
  obtain ⟨path, -, h⟩ := Option.bind_eq_some_iff.mp h
  obtain ⟨mode, -, h⟩ := Option.bind_eq_some_iff.mp h
  unfold KernelNodes.fopen at h
  obtain ⟨found, -, h⟩ := Option.bind_eq_some_iff.mp h
  obtain ⟨⟨fs, made⟩, -, h⟩ := Option.map_eq_some_iff.mp h
  have hfs : Keeps w { w with fs := fs } := ⟨rfl, fun _ => rfl, fun _ => rfl⟩
  cases made with
  | none =>
    cases h
    exact hfs
  | some node =>
    dsimp only at h
    split at h
    · cases h
      exact hfs
    · cases h
      obtain ⟨hused, hcwd, hmade⟩ := set_current_keeps (w := { w with
        fs := fs
        refcount := fun n => if n = node then add32 (w.refcount n) 1 else w.refcount n }) (p := { w.current with
          files_open := fun k => if k = _ then some (node, _) else w.current.files_open k }) rfl rfl
      exact ⟨hused, hcwd, hmade⟩

theorem chdir_cwds {ebx : Nat} {r : Int} (h : CwdsOk V w) (hused : w.used w.current_process = true)
    (hok : StepOk V w (.call (.chdir ebx))) (hrun : syscall_chdir V w ebx = some (w', r)) : CwdsOk V w' := by
  obtain ⟨hreads, hkind⟩ := hok
  rcases chdir_spec hrun with rfl | ⟨huser, dest, n, hdest, hfound, hdir, rfl, rfl⟩
  · exact h
  · unfold Proc.is_user_ptr at huser
    simp only [Bool.and_eq_true, decide_eq_true_eq] at huser
    have hbound : ebx < 2 ^ 32 := by
      have := huser.1
      unfold Proc.KERNEL_VIRTUAL_BASE at this
      omega
    by_cases hread : Unreadable w (.chdir ebx)
    · -- 断れば、何も変えずに −1 を返す。
      have hfail : syscall_chdir V w ebx = some (w, -1) := (run_refused_iff (c := .chdir ebx)).mpr (hreads hread)
      rw [hrun] at hfail
      have hret : (0 : Int) = -1 := congrArg Prod.snd (Option.some.inj hfail)
      exact absurd hret (by decide)
    · obtain ⟨path, hpath⟩ := not_forall_not.mp hread
      obtain ⟨⟨hhead, -⟩, hlen⟩ := h _ hused
      obtain ⟨hhead', hlen'⟩ := resolve_readable (c := .chdir ebx) ⟨huser.2, hbound⟩ hpath hdest hhead hlen
      rw [List.take_of_length_le hlen']
      exact h.set_current ⟨⟨hhead', n, hfound, hkind ebx rfl dest n hdest hfound hdir⟩, hlen'⟩

theorem step_cwds {e : Event σ ν} (h : CwdsOk V w) (hok : StepOk V w e) (hstep : w.step V e = some w') :
    CwdsOk V w' := by
  cases e with
  | call c =>
    dsimp only [World.step] at hstep
    split at hstep
    next hused =>
      obtain ⟨⟨w'', r⟩, hrun, rfl⟩ := Option.map_eq_some_iff.mp hstep
      cases c with
      | «open» ebx ecx => exact (open_keeps hrun).cwds h
      | stat ebx ecx => exact (stat_keeps hrun).cwds h
      | readdir ebx ecx edx => exact (readdir_keeps hrun).cwds h
      | chdir ebx => exact chdir_cwds h hused hok hrun
      | mkdir ebx => exact (mkdir_keeps hrun).cwds h
      | unlink ebx => exact (unlink_keeps hrun).cwds h
    next => cases hstep
  | create_process i parent files_open user =>
    dsimp only [World.step] at hstep
    split at hstep
    next j hj =>
      cases hstep
      exact h.add (h.inherit (Option.filter_eq_some_iff.mp hj).2)
    next =>
      cases hstep
      exact h.add cwd_root
  | fork_process i files_open user =>
    dsimp only [World.step] at hstep
    split at hstep
    next hused =>
      cases hstep
      exact h.add (h.inherit hused)
    next => cases hstep
  | switch i =>
    dsimp only [World.step] at hstep
    split at hstep
    next =>
      cases hstep
      exact h
    next => cases hstep
  | rest fs refcount files_open user heap =>
    cases hstep
    exact (Keeps.mk rfl (fun _ => rfl) fun _ => rfl : Keeps w _).cwds h

/-- 読めないパスの呼び出しが −1 を返して何も変えないのは、`Refused` のとき、そのときに限る。どの歩もこの条件を守る
実行では、どのプロセスの `cwd` も `/` で始まり、定めたときにディレクトリを指していた。 -/
theorem path_calls_iff (V : KernelNodes σ ν) :
    (∀ (w : World σ ν) (c : PathCall), Unreadable w c → (c.run V w = some (w, -1) ↔ Refused V w c)) ∧
      ∀ (fs : σ) (refcount : ν → Nat) (user : User) (heap : ByteMem) (w : World σ ν),
        Steps (World.step V) (StepOk V) (World.boot fs refcount user heap) w →
          ∀ i, w.used i = true → CwdOk V (w.table i) := by
  refine ⟨fun w c _ => run_refused_iff, fun fs refcount user heap w hrun i hi => ?_⟩
  have hcwds := hrun.inv (P := CwdsOk V) (fun _ _ _ h hok hstep => step_cwds h hok hstep) boot_cwds
  exact (hcwds i hi).1

/-- 空のディレクトリだけの initrd。 -/
def bare_root : KernelNodes Unit Unit where
  node _ _ := ⟨FS_DIRECTORY, 0, none, some (some []), some fun _ => none, none, none, none, []⟩
  root_dir := ()
  depth _ := 0
  mounted _ _ _ h := nomatch h
  listed _ _ l h := by
    cases h
    decide
  root _ := ⟨rfl, rfl, ⟨[], rfl⟩, rfl, rfl, rfl⟩

/-- 利用者のページを持たないプロセスだけの状態。 -/
def bare_world : World Unit Unit := .boot () (fun _ => 0) ⟨fun _ => false, fun _ => false, fun _ => 0, fun _ h => h⟩ fun _ => 0

theorem bare_unreadable (c : PathCall) : Unreadable bare_world c := fun _ h => nomatch h.2.2

theorem bare_faults : Faults bare_world (.chdir 0x1000) := .inr (by decide +kernel)

/-- ページ 1 だけを利用者に見せ、その始めに `/` を置く。 -/
def slash_user : User :=
  ⟨fun page => decide (page = 1), fun page => decide (page = 1), fun a => if a = 0x1000 then SLASH else 0, fun _ h => h⟩

def slash_world : World Unit Unit := .boot () (fun _ => 0) slash_user fun _ => 0

theorem slash_unreadable : Unreadable slash_world (.unlink 0x5000) := fun s h => by
  cases s with
  | nil => exact nomatch h.2.2
  | cons c s => exact nomatch h.2.1 0 (Nat.succ_pos _)

/-- `unlink` には途中で読めないパスを、`chdir` には読める `/` を渡す。 -/
def slash_check (w : World Unit Unit) : Event Unit Unit → Bool
  | .call (.unlink ebx) => decide (w.current.user.copy_path 255 ebx = some none)
  | .call (.chdir ebx) => decide (ebx < 2 ^ 32 ∧ w.current.user.readable ebx = some SLASH ∧ w.current.user.readable (add32 ebx 1) = some 0)
  | .call _ => false
  | _ => true

theorem bare_kind (s n : Unit) : (bare_root.node s n).kind = FS_DIRECTORY := by
  rw [FsNode.kind, (bare_root.root s).flags]
  rfl

theorem slash_check_ok (w : World Unit Unit) (e : Event Unit Unit) (h : slash_check w e = true) : StepOk bare_root w e := by
  cases e with
  | call c =>
    cases c with
    | unlink ebx => exact ⟨fun _ => .inr (.inl ⟨.inr (of_decide_eq_true h), trivial⟩), fun _ h => nomatch h⟩
    | chdir ebx =>
      obtain ⟨hebx, hslash, hend⟩ := of_decide_eq_true h
      have hread : UserString w.current.user.readable ebx [SLASH] := by
        refine ⟨by decide, fun i hi => ?_, hend⟩
        obtain rfl : i = 0 := Nat.lt_one_iff.mp hi
        rwa [show add32 ebx 0 = ebx from add32_eq (by omega)]
      exact ⟨fun hun => absurd hread (hun [SLASH]), fun _ _ _ n _ _ _ => bare_kind w.fs n⟩
    | «open» _ _ | stat _ _ | readdir _ _ _ | mkdir _ => cases h
  | create_process _ _ _ _ | fork_process _ _ _ | switch _ | rest _ _ _ _ _ => trivial

/-- `/` へ移ってから子を作り、子が読めないパスの `unlink` を呼ぶ。 -/
def slash_run : Trace (checked (World.step bare_root) slash_check slash_world) (fun w =>
    w.current_process = 1 ∧ w.used 1 = true ∧ (w.table 1).cwd = [SLASH]) :=
  ⟨[.call (.chdir 0x1000), .fork_process 1 (fun _ => none) slash_user, .switch 1, .call (.unlink 0x5000)], by decide +kernel⟩

/-- `unlink` は、どの読めないパスも断る。 -/
theorem path_calls_unlink : (PathCall.unlink 0x5000).run bare_root slash_world = some (slash_world, -1) ∧
    ∃ w : World Unit Unit, w.current_process = 1 ∧ (w.table 1).cwd = [SLASH] ∧ CwdOk bare_root (w.table 1) := by
  have hfaults : slash_world.current.user.copy_path 255 0x5000 = some none := by decide +kernel
  obtain ⟨w, hrun, hcur, hused, hcwd⟩ := slash_run.steps_checked slash_check_ok
  exact ⟨((path_calls_iff bare_root).1 slash_world (.unlink 0x5000) slash_unreadable).mpr (.inr (.inl ⟨.inr hfaults, trivial⟩)),
    w, hcur, hcwd, (path_calls_iff bare_root).2 () (fun _ => 0) slash_user (fun _ => 0) w hrun 1 hused⟩

/-- `chdir` は、読めないパスで成功し、`cwd` を空にする。 -/
theorem path_calls_chdir : Unreadable bare_world (.chdir 0x1000) ∧ ∃ w,
    (PathCall.chdir 0x1000).run bare_root bare_world = some (w, 0) ∧ (w.table 0).cwd = [] ∧
      Steps (World.step bare_root) (fun _ _ => True) bare_world w ∧ ¬ CwdOk bare_root (w.table 0) := by
  have hresolve : bare_world.resolve 0x1000 = some [] := resolve_faults bare_faults
  have hrun : (PathCall.chdir 0x1000).run bare_root bare_world =
      some (bare_world.set_current { bare_world.current with cwd := [] }, 0) := by
    dsimp only [PathCall.run]
    unfold syscall_chdir
    rw [if_neg (by decide), hresolve, Option.bind_some, get_node_root (.inl rfl)]
    rfl
  refine ⟨bare_unreadable _, _, hrun, rfl, .tail (.call (.chdir 0x1000)) (.refl _) trivial ?_, fun h => ?_⟩
  · dsimp only [World.step]
    rw [hrun]
    rfl
  · cases h.1

end MyOS.Vfs
