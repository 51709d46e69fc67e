import MyOS.Proc.Exec
import MyOS.Proc.FileTheorems
import MyOS.Proc.Lemmas.Acts

/-!
# 読み込みに失敗した `exec`

`syscall_exec` は、`load_program` より前に古い空間、記述子、信号の扱いを捨てる。読み込みに失敗した
プロセスは、戻る空間がないので終わる。
-/

namespace MyOS.Proc
open MyOS.Lib

variable {K : Kernel} {names : Nat → List UInt8} {i p len n : Nat} {user b : ByteMem}
  {load : List UInt8 → List Nat → Option Image} {env : Env} {r : Regs} {argv : List Nat}

/-! ## コマンド行はいつも分けられる -/

theorem skip_spaces_before (hlen : b len = 0) (hp : p ≤ len) (hmax : len < LINE_MAX) :
    ∃ q, skip_spaces b p = some q ∧ q ≤ len := by
  have hstop : (b (p + (len - p)) == SPACE) = false := by
    rw [Nat.add_sub_cancel' hp, hlen]
    decide
  obtain ⟨j, hj, hscan, -⟩ := scan_before (p := (· == SPACE)) (n := LINE_MAX) hstop (by omega)
  exact ⟨p + j, hscan, by omega⟩

theorem skip_word_before (hlen : b len = 0) (hp : p ≤ len) (hmax : len < LINE_MAX) :
    ∃ e, skip_word b p = some e ∧ e ≤ len := by
  have hstop : (b (p + (len - p)) != 0 && b (p + (len - p)) != SPACE) = false := by
    rw [Nat.add_sub_cancel' hp, hlen]
    decide
  obtain ⟨j, hj, hscan, -⟩ := scan_before (p := fun c => c != 0 && c != SPACE) (n := LINE_MAX) hstop (by omega)
  exact ⟨p + j, hscan, by omega⟩

theorem split_args_some (n : Nat) (argv : List Nat) (hlen : b len = 0) (hp : p ≤ len) (hmax : len < LINE_MAX) :
    ∃ res, split_args n p b argv = some res := by
  induction n generalizing p b argv with
  | zero => exact ⟨_, rfl⟩
  | succ n ih =>
    rw [split_args]
    split
    · exact ⟨_, rfl⟩
    · obtain ⟨e, he, hle⟩ := skip_word_before hlen hp hmax
      simp only [he, Option.bind_eq_bind, Option.bind_some]
      split
      · exact ih _ hlen hle
      next hne =>
        have hlt : e < len := Nat.lt_of_le_of_ne hle fun h => hne (h ▸ hlen)
        have hnul : b.store8 e 0 len = 0 := by rw [ByteMem.store8_of_ne (by omega), hlen]
        obtain ⟨q, hq, hqle⟩ := skip_spaces_before hnul (Nat.succ_le_of_lt hlt) hmax
        rw [hq]
        exact ih _ hnul hqle

theorem copy_cmdline_len (user : ByteMem) (a n len : Nat) (b : ByteMem) : (copy_cmdline user a n len b).2 ≤ len + n := by
  induction n generalizing len b with
  | zero => exact Nat.le_refl _
  | succ n ih =>
    rw [copy_cmdline]
    split
    · exact Nat.le_add_right _ _
    · have h := ih (len + 1) (b.store8 len (user (a + len)))
      omega

theorem exec_argv_some (user : ByteMem) (a : Nat) (b : ByteMem) : ∃ buf argv, exec_argv user a b = some (buf, argv) := by
  have hlen := copy_cmdline_len user a 255 0 b
  have hmax : LINE_MAX = 256 := rfl
  rw [exec_argv]
  generalize copy_cmdline user a 255 0 b = res at hlen
  obtain ⟨b, len⟩ := res
  dsimp only at hlen ⊢
  have hnul : b.store8 len 0 len = 0 := ByteMem.store8_self
  obtain ⟨q, hq, hqle⟩ := skip_spaces_before hnul (Nat.zero_le len) (by omega)
  obtain ⟨res, hres⟩ := split_args_some 15 [] hnul hqle (by omega)
  exact ⟨res.1, res.2, by rw [hq]; exact hres⟩

/-! ## 失敗の後の項目 -/

theorem drop_file_released (K : Kernel) (i fd : Nat) : K.released ⊆ (drop_file K i fd).released := by
  have hdec : ∀ n, (decRef K n).released = K.released := fun n => by
    unfold decRef
    split <;> rfl
  have hclose : ∀ (L : Kernel) (n : Nat), (close_fs L n).released = L.released := fun L n => by
    unfold close_fs pipe_close_fn
    split
    · rfl
    · split <;> rfl
  unfold drop_file
  split
  · exact List.Subset.refl _
  next fp _ =>
    have hset : K.released ⊆ (setFile ((decRef K fp.file).release [fp.id]) i fd none).released := by
      show K.released ⊆ [fp.id] ++ (decRef K fp.file).released
      rw [hdec]
      exact List.subset_append_right _ _
    dsimp only
    split
    · show K.released ⊆ (close_fs _ fp.file).released
      rw [hclose]
      exact hset
    · exact hset

theorem drop_files_released (fds : List Nat) (K : Kernel) (i : Nat) : K.released ⊆ (drop_files K i fds).released := by
  induction fds generalizing K with
  | nil => exact List.Subset.refl _
  | cons fd fds ih => exact List.Subset.trans (drop_file_released K i fd) (ih _)

/-- 失敗した `exec` の後のプロセス `i`。空間と VMA は解放され、0 と 1 のほかの記述子は閉じられている。 -/
structure ExecLost (K K' : Kernel) (i : Nat) : Prop where
  state : (K'.table i).state = .terminated
  regions : (K'.table i).memory_regions = []
  released : (K.table i).cr3.toList ++ (K.table i).memory_regions ⊆ K'.released
  files : ∀ fd < MAX_FILES, (K'.table i).files_open fd = if 2 ≤ fd then none else (K.table i).files_open fd
  sig : (K'.table i).sig = exec_signals (K.table i).sig

theorem exec_fail_lost (K : Kernel) (i : Nat) : ExecLost K (exec_fail (exec_reset K i) i) i := by
  have htable := exec_reset_table K i i
  rw [if_pos rfl] at htable
  have hfiles : ∀ fd, ((exec_reset K i).table i).files_open fd =
      if fd ∈ List.range' 2 (MAX_FILES - 2) then none else (K.table i).files_open fd := fun fd => by
    have h := drop_files_files (K.release ((K.table i).cr3.toList ++ (K.table i).memory_regions)) i
      (List.range' 2 (MAX_FILES - 2)) i fd
    simp only [true_and] at h
    rw [exec_reset, Kernel.modify_self]
    exact h
  have hreleased : (K.table i).cr3.toList ++ (K.table i).memory_regions ⊆ (exec_reset K i).released := by
    have h := drop_files_released (List.range' 2 (MAX_FILES - 2))
      (K.release ((K.table i).cr3.toList ++ (K.table i).memory_regions)) i
    rw [exec_reset]
    exact List.Subset.trans (List.subset_append_left _ _) h
  have hself := exec_fail_self (exec_reset K i) i
  constructor
  · rw [hself]
  · rw [hself, htable]
  · exact List.Subset.trans hreleased (List.subset_append_right _ _)
  · intro fd hfd
    have hmem : fd ∈ List.range' 2 (MAX_FILES - 2) ↔ 2 ≤ fd := by
      rw [List.mem_range'_1]
      omega
    rw [hself]
    refine (hfiles fd).trans ?_
    simp only [hmem]
  · rw [hself, htable]

/-! ## 呼び出しの結果 -/

/-- `-1` で戻り、プロセスの VMA、ディレクトリ、記述子、信号の扱い、マスク、溜まった信号、状態と名前が
    呼び出しの前のままである。 -/
structure ExecUnchanged (K : Kernel) (names : Nat → List UInt8) (i : Nat) (r : Regs)
    (res : Option Outcome × (Nat → List UInt8)) (K' : Kernel) : Prop where
  returns : res.1 = some (.returns K' r NEG1)
  regions : (K'.table i).memory_regions = (K.table i).memory_regions
  cr3 : (K'.table i).cr3 = (K.table i).cr3
  files : (K'.table i).files_open = (K.table i).files_open
  disposition : (K'.table i).sig.disposition = (K.table i).sig.disposition
  mask : (K'.table i).sig.mask = (K.table i).sig.mask
  pending : (K'.table i).sig.pending = (K.table i).sig.pending
  state : (K'.table i).state = (K.table i).state
  name : res.2 i = names i

/-- 終わったプロセスから `schedule` へ移り、呼び出しからは戻らない。 -/
structure ExecDies (K : Kernel) (i : Nat) (r : Regs) (path : List UInt8) (res : Option Outcome × (Nat → List UInt8))
    (K' : Kernel) : Prop where
  leaves : res.1 = to_schedule (unblock_parent K' (K.table i).pid true) r
  never : ∀ L r' v, res.1 ≠ some (.returns L r' v)
  lost : ExecLost K K' i
  name : res.2 i = exec_name path

theorem to_schedule_never (K : Kernel) (r : Regs) (L : Kernel) (r' : Regs) (v : Nat) :
    to_schedule K r ≠ some (.returns L r' v) := by
  unfold to_schedule
  cases schedule K r with
  | none => exact fun h => nomatch h
  | some K' => exact fun h => nomatch h

/-- 読み込みに失敗したとき。 -/
theorem exec_call_dies {buf : ByteMem} {argv0 : Nat} (hargv : exec_argv user r.ebx b = some (buf, argv0 :: argv))
    (hload : load (exec_path buf argv0) (argv0 :: argv) = none) :
    ExecDies K i r (exec_path buf argv0) (exec_call K names i user b load env r) (exec_fail (exec_reset K i) i) := by
  have hpid : ((exec_fail (exec_reset K i) i).table i).pid = (K.table i).pid := by
    rw [exec_fail_self, exec_reset_table, if_pos rfl]
  have hres : (exec_call K names i user b load env r).1 =
      to_schedule (unblock_parent (exec_fail (exec_reset K i) i) (K.table i).pid true) r := by
    rw [exec_call, hargv]
    dsimp only
    rw [syscall_exec, hload, ← hpid]
    rfl
  refine ⟨hres, fun L r' v => ?_, exec_fail_lost K i, ?_⟩
  · rw [hres]
    exact to_schedule_never _ r L r' v
  · rw [exec_call, hargv]
    exact if_pos rfl

/-- 語のないコマンド行では -1 で戻って何も変わらず、読み込めないプログラムではプロセスが終わる。 -/
theorem exec_call_failure (K : Kernel) (names : Nat → List UInt8) (i : Nat) (user b : ByteMem)
    (load : List UInt8 → List Nat → Option Image) (env : Env) (r : Regs) :
    ∃ buf argv, exec_argv user r.ebx b = some (buf, argv) ∧
      match argv with
      | [] => ExecUnchanged K names i r (exec_call K names i user b load env r) K
      | argv0 :: argv => load (exec_path buf argv0) (argv0 :: argv) = none →
          ∃ K', ExecDies K i r (exec_path buf argv0) (exec_call K names i user b load env r) K' := by
  obtain ⟨buf, argv, hargv⟩ := exec_argv_some user r.ebx b
  refine ⟨buf, argv, hargv, ?_⟩
  cases argv with
  | nil =>
    have hres : exec_call K names i user b load env r = (some (.returns K r NEG1), names) := by
      rw [exec_call, hargv]
      rfl
    exact ⟨by rw [hres], rfl, rfl, rfl, rfl, rfl, rfl, rfl, by rw [hres]⟩
  | cons argv0 argv => exact fun hload => ⟨_, exec_call_dies hargv hload⟩

/-- ユーザのメモリの `x`。 -/
def exec_line : ByteMem := fun a => if a = 0x1000 then 0x78 else 0

/-- 動き始めたシェルが、読み込めないプログラムを `exec` する。 -/
theorem exec_not_unchanged : ∃ K buf argv, Steps step (fun _ _ => True) (boot 1 1 0) K ∧ K.current_process = some 1 ∧
    exec_argv exec_line 0x1000 (fun _ => 0) = some (buf, argv) ∧ argv ≠ [] ∧
      ∀ K', ¬ExecUnchanged K (fun _ => []) 1 { user_regs with ebx := 0x1000 }
        (exec_call K (fun _ => []) 1 exec_line (fun _ => 0) (fun _ _ => none) {} { user_regs with ebx := 0x1000 }) K' := by
  obtain ⟨K, hK, hcur, -⟩ := shell_dup.steps
  obtain ⟨buf, argv, hargv⟩ := exec_argv_some exec_line 0x1000 fun _ => 0
  have hwords : (exec_argv exec_line 0x1000 fun _ => 0).map (fun x => x.2) = some [0] := by decide +kernel
  rw [hargv] at hwords
  cases Option.some.inj hwords
  exact ⟨K, buf, [0], hK, hcur, hargv, List.cons_ne_nil 0 [],
    fun K' h => (exec_call_dies (r := { user_regs with ebx := 0x1000 }) hargv rfl).never K' _ NEG1 h.returns⟩

end MyOS.Proc
