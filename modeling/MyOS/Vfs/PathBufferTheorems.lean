import MyOS.Vfs.Path
import MyOS.Vfs.PathTheorems

/-!
# パスの正規化の配列の定理

配列の先頭には、いつも列による計算の途中の列がある。どの列も配列に収まるので、配列の外には触れない。
-/

namespace MyOS.Vfs
open MyOS.Lib Buffer

variable {user : UserMem} {cwd path abs norm : Buffer 256} {s t w d comp rest : List UInt8} {i p fuel m : Nat}

/-! ## 写し取りと連結 -/

theorem copy_path_buf_eq (hd : At path 0 d) (h0 : 0 ∉ d) (hle : d.length ≤ 255) (hfuel : 255 - d.length < fuel) :
    match copy_path user (255 - d.length) (add32 p d.length) with
    | none => copy_path_buf user p fuel d.length path = some none
    | some t => ∃ path', copy_path_buf user p fuel d.length path = some (some (path', (d ++ t).length)) ∧
        At path' 0 (d ++ t) ∧ 0 ∉ d ++ t ∧ (d ++ t).length ≤ 255 := by
  obtain ⟨r, hr⟩ : ∃ r, 255 - d.length = r := ⟨_, rfl⟩
  rw [hr] at hfuel ⊢
  induction r generalizing d path fuel with
  | zero =>
    obtain ⟨fuel, rfl⟩ := Nat.exists_eq_succ_of_ne_zero (Nat.ne_of_gt hfuel)
    rw [copy_path, copy_path_buf, if_neg (by omega)]
    simp only [List.append_nil]
    exact ⟨path, rfl, hd, h0, hle⟩
  | succ r ih =>
    obtain ⟨fuel, rfl⟩ := Nat.exists_eq_succ_of_ne_zero (Nat.ne_of_gt (Nat.lt_of_le_of_lt (Nat.zero_le _) hfuel))
    have hlt : d.length < 255 := by omega
    rw [copy_path, copy_path_buf, if_pos hlt]
    cases user (add32 p d.length) with
    | none => rfl
    | some c =>
      by_cases hc : c = 0
      · simp only [hc, if_true, List.append_nil]
        exact ⟨path, rfl, hd, h0, hle⟩
      · simp only [if_neg hc]
        obtain ⟨path₁, hput, hpath₁⟩ := hd.put (by omega) c
        have hlen : (d ++ [c]).length = d.length + 1 := List.length_append
        have hnot : 0 ∉ d ++ [c] := by simpa using ⟨h0, Ne.symm hc⟩
        have h := ih hpath₁ hnot (by omega) (Nat.lt_of_succ_lt_succ hfuel) (by omega)
        rw [hlen, ← add32_add] at h
        simp only [hput, Option.bind_eq_bind, Option.bind_some]
        cases hrest : copy_path user r (add32 (add32 p d.length) 1) with
        | none =>
          rw [hrest] at h
          exact h
        | some t =>
          rw [hrest] at h
          simp only [List.append_assoc, List.singleton_append] at h
          exact h

theorem add_slash_eq (hw : At abs 0 w) (hle : w.length ≤ 254) :
    ∃ abs', add_slash abs w.length = some (abs',
        (if w ≠ [] ∧ w.getLast? ≠ some SLASH then w ++ [SLASH] else w).length) ∧
      At abs' 0 (if w ≠ [] ∧ w.getLast? ≠ some SLASH then w ++ [SLASH] else w) := by
  rcases List.eq_nil_or_concat' w with rfl | ⟨l, c, rfl⟩
  · exact ⟨abs, rfl, trivial⟩
  · have hc := (at_append.1 hw).2.1
    rw [Nat.zero_add] at hc
    have hlen : (l ++ [c]).length = l.length + 1 := List.length_append
    rw [hlen] at hle ⊢
    rw [add_slash, hc]
    simp only [Option.bind_eq_bind, Option.bind_some, List.getLast?_concat]
    by_cases hslash : c = SLASH
    · rw [if_neg (not_not.2 hslash), if_neg (by simp [hslash]), hlen]
      exact ⟨abs, rfl, hw⟩
    · obtain ⟨abs', hput, habs'⟩ := hw.put (by omega) SLASH
      rw [hlen] at hput
      rw [if_pos hslash, if_pos (by simp [hslash]), hput]
      refine ⟨abs', ?_, habs'⟩
      rw [List.length_append, hlen]
      rfl

theorem start_abs_eq (hcwd : At cwd 0 (s ++ [0])) (h0 : 0 ∉ s) (hpath : At path 0 (t ++ [0])) (abs : Buffer 256) :
    ∃ abs' u, start_abs cwd path abs = some (abs', u.length) ∧ At abs' 0 u ∧ 0 ∉ u ∧ u.length ≤ 255 ∧
      build_abs s t = u ++ t.take (254 - u.length) := by
  have hfit := hcwd.length_le
  have hhead : path[0]? = some (t.headD 0) := by
    cases t with
    | nil => exact hpath.1
    | cons c t => exact hpath.1
  have habsolute : t.headD 0 ≠ SLASH ↔ t.head? ≠ some SLASH := by
    cases t with
    | nil => simp [SLASH]
    | cons c t => simp
  rw [start_abs, hhead]
  simp only [Option.bind_eq_bind, Option.bind_some, habsolute]
  unfold build_abs
  by_cases hrel : t.head? ≠ some SLASH
  · have hle : (s.take 254).length ≤ 254 := List.length_take_le ..
    have hnot : 0 ∉ s.take 254 := fun hmem => h0 (List.mem_of_mem_take hmem)
    obtain ⟨abs₁, hcopy, habs₁⟩ := copy_str_eq hcwd h0 (show At abs 0 [] from trivial) (show 254 ≤ 256 by decide)
      (show s.length < ROUNDS by unfold ROUNDS; omega)
    simp only [List.nil_append, List.length_nil, Nat.sub_zero] at hcopy habs₁
    obtain ⟨abs₂, hslash, habs₂⟩ := add_slash_eq habs₁ hle
    rw [if_pos hrel, if_pos hrel, hcopy]
    refine ⟨abs₂, _, hslash, habs₂, ?_, ?_, rfl⟩
    · split_ifs
      · simpa using ⟨hnot, by decide⟩
      · exact hnot
    · split_ifs
      · rw [List.length_append, List.length_singleton]
        omega
      · omega
  · rw [if_neg hrel, if_neg hrel]
    exact ⟨abs, [], rfl, trivial, List.not_mem_nil, Nat.zero_le _, rfl⟩

/-- 連結した列は 255 バイトまでで、NUL で終わる。 -/
theorem build_abs_buf_eq (hcwd : At cwd 0 (s ++ [0])) (h0 : 0 ∉ s) (hpath : At path 0 (t ++ [0])) (ht : 0 ∉ t)
    (abs : Buffer 256) :
    ∃ abs', build_abs_buf cwd path abs = some abs' ∧ At abs' 0 (build_abs s t ++ [0]) ∧ 0 ∉ build_abs s t := by
  have hfit := hpath.length_le
  obtain ⟨abs₁, u, hstart, habs₁, hu, hle, hbuild⟩ := start_abs_eq hcwd h0 hpath abs
  obtain ⟨abs₂, hcopy, habs₂⟩ := copy_str_eq hpath ht habs₁ (show 254 ≤ 256 by decide)
    (show t.length < ROUNDS by unfold ROUNDS; omega)
  rw [← hbuild] at hcopy habs₂
  have hlen : (build_abs s t).length < 256 := by
    have htake := List.length_take_le (254 - u.length) t
    rw [hbuild, List.length_append]
    omega
  obtain ⟨abs₃, hput, habs₃⟩ := habs₂.put hlen 0
  refine ⟨abs₃, ?_, habs₃, ?_⟩
  · rw [build_abs_buf, hstart]
    simp only [Option.bind_eq_bind, Option.bind_some, hcopy, hput]
  · rw [hbuild]
    intro hmem
    rcases List.mem_append.1 hmem with hmem | hmem
    · exact hu hmem
    · exact ht (List.mem_of_mem_take hmem)

/-! ## 部分ごとの処理 -/

theorem add_component_le (hw : w.length ≤ 255) : (add_component w comp).length ≤ 255 := by
  unfold add_component
  split_ifs
  · exact hw
  · exact (remove_last_length w).trans hw
  · rw [List.length_append]
    have htake := List.length_take_le (255 - (w ++ [SLASH]).length) comp
    rw [List.length_append, List.length_singleton] at htake ⊢
    omega
  · rw [List.length_append]
    have htake := List.length_take_le (255 - w.length) comp
    omega

theorem add_component_no_zero (hw : 0 ∉ w) (hcomp : 0 ∉ comp) : 0 ∉ add_component w comp := by
  have htake : ∀ n, 0 ∉ comp.take n := fun n hmem => hcomp (List.mem_of_mem_take hmem)
  unfold add_component
  split_ifs
  · exact hw
  · exact fun hmem => hw (((List.rdropWhile_prefix _ _).trans (List.dropLast_prefix w)).subset hmem)
  · intro hmem
    rcases List.mem_append.1 hmem with hmem | hmem
    · rcases List.mem_append.1 hmem with hmem | hmem
      · exact hw hmem
      · exact absurd (List.mem_singleton.1 hmem) (by decide)
    · exact htake _ hmem
  · intro hmem
    rcases List.mem_append.1 hmem with hmem | hmem
    · exact hw hmem
    · exact htake _ hmem

theorem remove_last_buf_eq (hw : At norm 0 w) :
    remove_last_buf norm w.length = some (norm, (remove_last w).length) ∧ At norm 0 (remove_last w) := by
  obtain ⟨u, hu⟩ := (List.rdropWhile_prefix (· ≠ SLASH) w.dropLast).trans (List.dropLast_prefix w)
  refine ⟨?_, (at_append.1 (show At norm 0 (remove_last w ++ u) from hu.symm ▸ hw)).1⟩
  rcases List.eq_nil_or_concat' w with rfl | ⟨l, c, rfl⟩
  · rfl
  · have hl := (at_append.1 hw).1
    rw [List.length_append, List.length_singleton, remove_last_buf, find_back_eq hl, remove_last, List.dropLast_concat]
    rfl

theorem push_component_eq (habs : At abs i comp) (hcomp : comp.length < ROUNDS) (hw : At norm 0 w) (hle : w.length ≤ 255) :
    ∃ norm', push_component abs i (i + comp.length) w.length norm = some (norm',
        ((if w.length < 255 then w ++ [SLASH] else w) ++
          comp.take (255 - (if w.length < 255 then w ++ [SLASH] else w).length)).length) ∧
      At norm' 0 ((if w.length < 255 then w ++ [SLASH] else w) ++
        comp.take (255 - (if w.length < 255 then w ++ [SLASH] else w).length)) := by
  unfold push_component
  by_cases hlt : w.length < 255
  · obtain ⟨norm₁, hput, hnorm₁⟩ := hw.put (by omega) SLASH
    obtain ⟨norm₂, hcopy, hnorm₂⟩ := copy_range_eq habs hnorm₁ (show 255 ≤ 256 by decide) hcomp
    have hlen : (w ++ [SLASH]).length = w.length + 1 := List.length_append
    refine ⟨norm₂, ?_, ?_⟩
    · rw [if_pos hlt, if_pos hlt, hput, ← hcopy, hlen]
      rfl
    · rw [if_pos hlt]
      exact hnorm₂
  · rw [if_neg hlt, if_neg hlt]
    exact copy_range_eq habs hw (show 255 ≤ 256 by decide) hcomp

theorem is_dot_dot_eq {c : UInt8} (habs : At abs i (c :: comp)) :
    is_dot_dot abs i (c :: comp).length c = some (decide (c :: comp = [DOT, DOT])) := by
  unfold is_dot_dot
  split
  next h =>
    obtain ⟨hlen, rfl⟩ := h
    obtain ⟨d, rfl⟩ := List.length_eq_one_iff.1 (Nat.succ.inj hlen)
    rw [habs.2.1, Option.map_some]
    by_cases hd : d = DOT <;> simp [hd]
  next h =>
    have hne : c :: comp ≠ [DOT, DOT] := by
      intro heq
      cases heq
      exact h ⟨rfl, rfl⟩
    rw [decide_eq_false hne]

theorem add_component_buf_eq {c : UInt8} (habs : At abs i (c :: comp)) (hcomp : (c :: comp).length < ROUNDS)
    (hw : At norm 0 w) (hle : w.length ≤ 255) :
    ∃ norm', add_component_buf abs i (i + (c :: comp).length) w.length norm =
        some (norm', (add_component w (c :: comp)).length) ∧ At norm' 0 (add_component w (c :: comp)) := by
  have hone : (c :: comp).length = 1 ∧ c = DOT ↔ c :: comp = [DOT] := by
    constructor
    · rintro ⟨hlen, rfl⟩
      rw [List.eq_nil_of_length_eq_zero (Nat.succ.inj hlen)]
    · intro heq
      cases heq
      exact ⟨rfl, rfl⟩
  unfold add_component_buf add_component
  simp only [Nat.add_sub_cancel_left, habs.1, is_dot_dot_eq habs, hone, Option.bind_eq_bind, Option.bind_some,
    decide_eq_true_eq]
  by_cases hdot : c :: comp = [DOT]
  · rw [if_pos hdot, if_pos hdot]
    exact ⟨norm, rfl, hw⟩
  · rw [if_neg hdot, if_neg hdot]
    by_cases hup : c :: comp = [DOT, DOT]
    · obtain ⟨hrun, hnorm⟩ := remove_last_buf_eq hw
      rw [if_pos hup, if_pos hup]
      exact ⟨norm, hrun, hnorm⟩
    · rw [if_neg hup, if_neg hup]
      exact push_component_eq habs hcomp hw hle

/-- `norm` の先頭には、いつも列による計算の結果がある。 -/
theorem normalize_loop_buf_eq (habs : At abs i (s ++ [0])) (h0 : 0 ∉ s) (hw : At norm 0 w) (hw0 : 0 ∉ w) (hle : w.length ≤ 255)
    (hfuel : s.length < fuel) (hm : s.length ≤ m) :
    ∃ norm', normalize_loop_buf abs fuel i w.length norm = some (norm', (normalize_loop m s w).length) ∧
      At norm' 0 (normalize_loop m s w) ∧ 0 ∉ normalize_loop m s w ∧ (normalize_loop m s w).length ≤ 255 := by
  induction fuel generalizing i s norm w m with
  | zero => exact absurd hfuel (Nat.not_lt_zero _)
  | succ fuel ih =>
    rw [normalize_loop_buf]
    cases s with
    | nil =>
      have hend : normalize_loop m [] w = w := by cases m <;> rfl
      rw [hend, habs.1]
      exact ⟨norm, rfl, hw, hw0, hle⟩
    | cons c s =>
      obtain ⟨m, rfl⟩ := Nat.exists_eq_succ_of_ne_zero (Nat.ne_of_gt (Nat.lt_of_lt_of_le (Nat.succ_pos _) hm))
      have hc : c ≠ 0 := fun h => h0 (h ▸ List.mem_cons_self)
      rw [show abs[i]? = some c from habs.1, normalize_loop]
      simp only [Option.bind_eq_bind, Option.bind_some, if_neg hc]
      by_cases hslash : c = SLASH
      · rw [if_pos hslash, if_pos hslash]
        exact ih habs.2 (fun h => h0 (List.mem_cons_of_mem c h)) hw hw0 hle (Nat.lt_of_succ_lt_succ hfuel)
          (Nat.le_of_succ_le_succ hm)
      · rw [if_neg hslash, if_neg hslash]
        -- 部分 `c :: u` と、その後の `v` に分ける
        have hfit := habs.length_le
        have hfind : find abs SLASH ROUNDS i = _ := find_eq habs h0 (by unfold ROUNDS; omega)
        have hsplit := List.takeWhile_append_dropWhile (p := (· ≠ SLASH)) (l := c :: s)
        have hhead : (c :: s).takeWhile (· ≠ SLASH) = c :: s.takeWhile (· ≠ SLASH) :=
          List.takeWhile_cons_of_pos (by simpa using hslash)
        rw [hfind, hhead]
        rw [hhead] at hsplit
        generalize (c :: s).dropWhile (· ≠ SLASH) = v at hsplit ⊢
        generalize s.takeWhile (· ≠ SLASH) = u at hsplit ⊢
        rw [← hsplit] at habs h0 hfit hfuel hm
        rw [List.append_assoc, at_append] at habs
        rw [List.mem_append, not_or] at h0
        rw [List.length_append] at hfit hfuel hm
        obtain ⟨norm₁, hadd, hnorm₁⟩ := add_component_buf_eq habs.1 (by unfold ROUNDS; omega) hw hle
        simp only [Option.bind_some, hadd]
        exact ih habs.2 h0.2 hnorm₁ (add_component_no_zero hw0 h0.1) (add_component_le hle)
          (by rw [List.length_cons] at hfuel; omega) (by rw [List.length_cons] at hm; omega)

theorem normalize_buf_eq (habs : At abs 0 (s ++ [0])) (h0 : 0 ∉ s) (norm : Buffer 256) :
    ∃ norm', normalize_buf abs norm = some norm' ∧ At norm' 0 (normalize s ++ [0]) ∧ 0 ∉ normalize s := by
  have hfit := habs.length_le
  obtain ⟨norm₁, hloop, hnorm₁, hno, hle⟩ := normalize_loop_buf_eq habs h0 (show At norm 0 [] from trivial) List.not_mem_nil
    (Nat.zero_le _) (show s.length < ROUNDS by unfold ROUNDS; omega) (le_refl s.length)
  rw [List.length_nil] at hloop
  simp only [normalize_buf, normalize, hloop, Option.bind_eq_bind, Option.bind_some, List.length_eq_zero_iff]
  generalize normalize_loop s.length s [] = w at hnorm₁ hno hle ⊢
  by_cases hw : w = []
  · subst hw
    obtain ⟨norm₂, hput, hnorm₂⟩ := hnorm₁.put (by decide) SLASH
    obtain ⟨norm₃, hend, hnorm₃⟩ := hnorm₂.put (by decide) 0
    rw [if_pos rfl, if_pos rfl]
    refine ⟨norm₃, ?_, hnorm₃, by decide⟩
    rw [hput]
    exact hend
  · obtain ⟨norm₂, hend, hnorm₂⟩ := hnorm₁.put (by omega) 0
    rw [if_neg hw, if_neg hw]
    exact ⟨norm₂, hend, hnorm₂, hno⟩

/-! ## 全体 -/

/-- 配列による計算は終わり、列による計算と同じ文字列を `buf` に置く。 -/
theorem resolve_path_buf_eq {buf_size : Nat} (hcwd : At cwd 0 (s ++ [0])) (h0 : 0 ∉ s) (hsize : 1 ≤ buf_size)
    (locals : PathLocals) (buf : Buffer buf_size) :
    ∃ t buf', resolve_path_buf locals cwd user p buf = some buf' ∧ At buf' 0 (t ++ [0]) ∧ 0 ∉ t ∧
      (p < 2 ^ 32 → resolve_path s user p buf_size = some t) := by
  obtain ⟨empty, hempty, hnil⟩ := (show At buf 0 [] from trivial).put (by exact hsize) 0
  rw [List.length_nil] at hempty
  unfold resolve_path resolve_path_buf
  rw [if_neg (show ¬ buf_size = 0 by omega)]
  by_cases hnull : p = 0
  · rw [if_pos hnull, if_pos (.inl hnull), if_pos (by omega)]
    exact ⟨[], empty, hempty, hnil, List.not_mem_nil, fun _ => rfl⟩
  · rw [if_neg hnull, if_neg (by omega)]
    have hcopy := @copy_path_buf_eq user locals.path [] p ROUNDS trivial List.not_mem_nil (Nat.zero_le _) (by decide)
    have hread : p < 2 ^ 32 → add32 p 0 = p := fun hp => add32_eq (by omega)
    simp only [List.nil_append, List.length_nil, Nat.sub_zero] at hcopy
    cases hlist : copy_path user 255 (add32 p 0) with
    | none =>
      rw [hlist] at hcopy
      rw [hcopy]
      refine ⟨[], empty, hempty, hnil, List.not_mem_nil, fun hp => ?_⟩
      rw [hread hp] at hlist
      rw [hlist]
    | some t =>
      rw [hlist] at hcopy
      obtain ⟨path₁, hcopy, hpath₁, ht, hle⟩ := hcopy
      obtain ⟨path₂, hterm, hpath₂⟩ := hpath₁.put (by omega) 0
      obtain ⟨abs₁, hbuild, habs₁, hno⟩ := build_abs_buf_eq hcwd h0 hpath₂ ht locals.abs
      obtain ⟨norm₁, hnorm, hnorm₁, hno₁⟩ := normalize_buf_eq habs₁ hno locals.norm
      have hfit := hnorm₁.length_le
      obtain ⟨buf₁, hout, hbuf₁⟩ := copy_str_eq hnorm₁ hno₁ (show At buf 0 [] from trivial) (Nat.sub_le buf_size 1)
        (show (normalize (build_abs s t)).length < ROUNDS by unfold ROUNDS; omega)
      simp only [List.nil_append, List.length_nil, Nat.sub_zero] at hout hbuf₁
      have htake := List.length_take_le (buf_size - 1) (normalize (build_abs s t))
      obtain ⟨buf₂, hend, hbuf₂⟩ := hbuf₁.put (by omega) 0
      refine ⟨_, buf₂, ?_, hbuf₂, fun hmem => hno₁ (List.mem_of_mem_take hmem), fun hp => ?_⟩
      · simp only [hcopy, hterm, hbuild, hnorm, hout, hend, Option.bind_eq_bind, Option.bind_some]
      · rw [hread hp] at hlist
        rw [hlist]

/-- `cwd` に写した後も、256 バイトの中に NUL がある。 -/
theorem chdir_store_terminated (hpath : ∃ k : Nat, path[k]? = some 0) (cwd : Buffer 256) :
    ∃ cwd', chdir_store path cwd = some cwd' ∧ ∃ k : Nat, cwd'[k]? = some 0 := by
  obtain ⟨k, hk⟩ := hpath
  obtain ⟨s, hs, h0⟩ := exists_string hk (Nat.zero_le k)
  have hfit := hs.length_le
  obtain ⟨cwd₁, hcopy, hcwd₁⟩ := copy_str_eq hs h0 (show At cwd 0 [] from trivial) (show 254 ≤ 256 by decide)
    (show s.length < ROUNDS by unfold ROUNDS; omega)
  simp only [List.nil_append, List.length_nil, Nat.sub_zero] at hcopy hcwd₁
  have htake := List.length_take_le 254 s
  obtain ⟨cwd₂, hend, hcwd₂⟩ := hcwd₁.put (by omega) 0
  refine ⟨cwd₂, ?_, _, (at_append.1 hcwd₂).2.1⟩
  simp only [chdir_store, hcopy, hend, Option.bind_eq_bind, Option.bind_some]

/-- 利用者のメモリとパスが何であっても、配列の外に触れず、`buf` は NUL で終わる。 -/
theorem resolve_path_in_bounds {buf_size : Nat} (hcwd : ∃ k : Nat, cwd[k]? = some 0) (hsize : 1 ≤ buf_size)
    (user : UserMem) (p : Nat) (locals : PathLocals) (buf : Buffer buf_size) :
    ∃ buf', resolve_path_buf locals cwd user p buf = some buf' ∧ ∃ k < buf_size, buf'[k]? = some 0 := by
  obtain ⟨k, hk⟩ := hcwd
  obtain ⟨s, hs, h0⟩ := exists_string hk (Nat.zero_le k)
  obtain ⟨t, buf', hrun, hbuf', -⟩ := @resolve_path_buf_eq user cwd s p _ hs h0 hsize locals buf
  have hend := (at_append.1 hbuf').2
  exact ⟨buf', hrun, _, hend.lt, hend.1⟩

def zeros (n : Nat) : Buffer n := .replicate n 0

/-- 根にいるプロセスの `cwd`。 -/
def root_cwd : Buffer 256 := (zeros 256).set 0 SLASH

theorem resolve_path_in_bounds_up_to_root :
    ∃ buf', resolve_path_buf ⟨zeros 256, zeros 256, zeros 256⟩ root_cwd (user_string 4096 up_to_root) 4096 (zeros 2) =
      some buf' ∧ ∃ k < 2, buf'[k]? = some 0 :=
  resolve_path_in_bounds ⟨1, by simp [root_cwd, zeros]⟩ (by decide) _ _ _ _

end MyOS.Vfs
