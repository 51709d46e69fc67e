import MyOS.Vfs.Path

/-!
# 正規化の各段階

`norm` の中の `/` の数は、いつも `Climb` の高さに等しい。高さが最後に 0 であった後に `..` がなければ、`norm` は
正規のパスである。
-/

namespace MyOS.Vfs
open MyOS.Lib

variable {user : UserMem} {cwd path norm comp : List UInt8} {acc comps : List (List UInt8)} {s : Climb} {p n : Nat}

/-! ## 写し取りと連結 -/

theorem add32_add (p i j : Nat) : add32 (add32 p i) j = add32 p (i + j) := by
  unfold add32
  omega

theorem UserString.tail {c : UInt8} (h : UserString user p (c :: path)) : UserString user (add32 p 1) path := by
  obtain ⟨h0, hbytes, hend⟩ := h
  refine ⟨fun hmem => h0 (List.mem_cons_of_mem c hmem), fun i hi => ?_, ?_⟩
  · rw [add32_add, Nat.add_comm 1 i]
    exact hbytes (i + 1) (Nat.succ_lt_succ hi)
  · rw [add32_add, Nat.add_comm 1 path.length]
    exact hend

theorem copy_path_eq (hp : p < 2 ^ 32) (h : UserString user p path) (hlen : path.length < n) :
    copy_path user n p = some path := by
  have hread : add32 p 0 = p := add32_eq (by omega)
  induction n generalizing p path with
  | zero => omega
  | succ n ih =>
      cases path with
      | nil =>
          have hend := h.2.2
          rw [List.length_nil, hread] at hend
          simp [copy_path, hend]
      | cons c path =>
          have hfirst := h.2.1 0 (Nat.succ_pos _)
          have hc : c ≠ 0 := fun h0 => h.1 (by simp [h0])
          rw [hread] at hfirst
          have hrest := ih add32_lt h.tail (Nat.lt_of_succ_lt_succ hlen) (add32_eq (by have := @add32_lt p 1; omega))
          simp [copy_path, hfirst, hc, hrest]

theorem build_abs_length (h : cwd.length + path.length ≤ 253) : (build_abs cwd path).length ≤ 254 := by
  unfold build_abs
  simp only
  split_ifs <;> simp only [List.length_append, List.length_take, List.length_cons, List.length_nil] <;> omega

theorem build_abs_components (h : cwd.length + path.length ≤ 253) :
    components SLASH (build_abs cwd path) = path_components cwd path := by
  have hcwd : cwd.take 254 = cwd := List.take_of_length_le (by omega)
  unfold build_abs path_components
  simp only [hcwd]
  by_cases hhead : path.head? = some SLASH
  · rw [if_neg (not_not.mpr hhead), if_pos hhead, List.take_of_length_le (by simp only [List.length_nil]; omega)]
    rfl
  · rw [if_pos hhead, if_neg hhead]
    by_cases hsep : cwd ≠ [] ∧ cwd.getLast? ≠ some SLASH
    · rw [if_pos hsep, List.take_of_length_le (by simp only [List.length_append, List.length_singleton]; omega),
        List.append_assoc]
      exact components_append_sep cwd path
    · rw [if_neg hsep, List.take_of_length_le (by omega)]
      rcases List.eq_nil_or_concat' cwd with rfl | ⟨l, c, rfl⟩
      · rfl
      · have hc : c = SLASH := by simpa using hsep
        subst hc
        have hl : components SLASH (l ++ [SLASH]) = components SLASH l ++ components SLASH [] := components_append_sep l []
        rw [List.append_assoc, List.singleton_append, components_append_sep, hl]
        simp

/-! ## 部分ごとの処理 -/

theorem normalize_loop_eq (abs : List UInt8) : ∀ (fuel : Nat) (norm : List UInt8), abs.length ≤ fuel →
    normalize_loop fuel abs norm = (components SLASH abs).foldl add_component norm := by
  induction abs using components_induction SLASH with
  | nil =>
      intro fuel norm _
      cases fuel <;> rfl
  | sep_cons abs ih =>
      intro fuel norm hfuel
      cases fuel with
      | zero => simp at hfuel
      | succ fuel =>
          unfold normalize_loop
          rw [if_pos rfl, components_sep]
          exact ih fuel norm (Nat.le_of_succ_le_succ hfuel)
  | word w rest hw hsep hrest ih =>
      intro fuel norm hfuel
      cases w with
      | nil => exact absurd rfl hw
      | cons c w =>
          have hall : ∀ x ∈ c :: w, decide (x ≠ SLASH) = true := fun x hx =>
            decide_eq_true (fun h => hsep (h ▸ hx))
          have htake : (c :: w ++ rest).takeWhile (· ≠ SLASH) = c :: w := by
            rw [List.takeWhile_append_of_pos hall]
            rcases hrest with rfl | ⟨r, rfl⟩ <;> simp
          have hdrop : (c :: w ++ rest).dropWhile (· ≠ SLASH) = rest := by
            rw [List.dropWhile_append_of_pos hall]
            rcases hrest with rfl | ⟨r, rfl⟩ <;> simp
          rw [components_word_append hw hsep hrest, List.foldl_cons]
          simp only [List.cons_append, List.length_cons, List.length_append] at hfuel htake hdrop ⊢
          cases fuel with
          | zero => omega
          | succ fuel =>
              unfold normalize_loop
              rw [if_neg (fun h => hsep (by simp [h])), htake, hdrop]
              exact ih fuel _ (by omega)

theorem add_component_name (h1 : comp ≠ [DOT]) (h2 : comp ≠ [DOT, DOT])
    (hlen : norm.length + (comp.length + 1) ≤ 255) : add_component norm comp = norm ++ SLASH :: comp := by
  unfold add_component
  rw [if_neg h1, if_neg h2, if_pos (by omega)]
  simp only [List.length_append, List.length_singleton]
  rw [List.take_of_length_le (by omega), List.append_assoc, List.singleton_append]

theorem remove_last_length (norm : List UInt8) : (remove_last norm).length ≤ norm.length :=
  ((List.rdropWhile_prefix _ _).trans (List.dropLast_prefix norm)).length_le

theorem remove_last_last (h : remove_last norm ≠ []) : (remove_last norm).getLast? = some SLASH := by
  have hlast := List.rdropWhile_last_not (· ≠ SLASH) norm.dropLast h
  rw [decide_eq_true_eq, not_not] at hlast
  rw [List.getLast?_eq_some_getLast h]
  exact congrArg some hlast

theorem remove_last_head (h : norm = [] ∨ norm.head? = some SLASH) :
    remove_last norm = [] ∨ (remove_last norm).head? = some SLASH := by
  obtain ⟨t, ht⟩ := (List.rdropWhile_prefix _ _).trans (List.dropLast_prefix norm)
  change remove_last norm ++ t = norm at ht
  cases hr : remove_last norm with
  | nil => exact Or.inl rfl
  | cons c l =>
      rw [hr] at ht
      rw [← ht] at h
      exact Or.inr (by simpa using h)

theorem count_rdropWhile (l : List UInt8) : (l.rdropWhile (· ≠ SLASH)).count SLASH = l.count SLASH := by
  have hnone : (l.rtakeWhile (· ≠ SLASH)).count SLASH = 0 :=
    List.count_eq_zero.mpr fun hmem => by simpa using List.mem_rtakeWhile_imp hmem
  conv_rhs => rw [← List.rdropWhile_append_rtakeWhile (p := (· ≠ SLASH)) (l := l), List.count_append, hnone]
  rfl

/-- 最後が `/` なら、消える `/` はそれだけである。 -/
theorem count_remove_last (norm : List UInt8) : (remove_last norm).count SLASH =
    if norm.getLast? = some SLASH then norm.count SLASH - 1 else norm.count SLASH := by
  unfold remove_last
  rw [count_rdropWhile]
  rcases List.eq_nil_or_concat' norm with rfl | ⟨l, c, rfl⟩
  · rfl
  · by_cases hc : c = SLASH
    · simp [hc]
    · simp [hc, List.count_append]

theorem eq_slash (hhead : norm = [] ∨ norm.head? = some SLASH) (hlast : norm.getLast? = some SLASH)
    (hcount : norm.count SLASH ≤ 1) : norm = [SLASH] := by
  obtain ⟨l, x, rfl⟩ := (List.eq_nil_or_concat' norm).resolve_left (by rintro rfl; cases hlast)
  have hx : x = SLASH := by simpa using hlast
  subst hx
  have hnone : SLASH ∉ l := List.count_eq_zero.mp (by
    rw [List.count_append, List.count_singleton_self] at hcount
    omega)
  cases l with
  | nil => rfl
  | cons c l =>
      have hc : c = SLASH := by simpa using hhead
      exact absurd (by simp [hc]) hnone

theorem last_name (norm w : List UInt8) (x : UInt8) : (norm ++ SLASH :: (w ++ [x])).getLast? = some x := by
  rw [← List.cons_append, ← List.append_assoc, List.getLast?_concat]

/-! ## 不変条件 -/

structure Walk (norm : List UInt8) (acc : List (List UInt8)) (s : Climb) : Prop where
  names : ∀ c ∈ acc, c ≠ [] ∧ SLASH ∉ c
  slashes : norm.count SLASH = s.height
  head : norm = [] ∨ norm.head? = some SLASH
  climbing : norm ≠ [] → (s.climbing = true ↔ norm.getLast? = some SLASH)
  clean : s.climbed = false → norm = joined SLASH acc
  behind : s.climbed = true → acc.length < s.height
  top : s.climbed = true → s.height = 1 → s.climbing = true

theorem Walk.start : Walk [] [] .start :=
  ⟨by simp, rfl, Or.inl rfl, fun h => absurd rfl h, fun _ => rfl, fun h => by simp [Climb.start] at h,
    fun _ _ => rfl⟩

theorem Walk.count_acc (hw : Walk norm acc s) : (joined SLASH acc).count SLASH = acc.length :=
  count_joined fun c hc => (hw.names c hc).2

theorem Walk.nil_iff (hw : Walk norm acc s) : norm = [] ↔ s.height = 0 := by
  rw [← hw.slashes]
  constructor
  · rintro rfl
    rfl
  · intro h0
    rcases hw.head with h | h
    · exact h
    · exact absurd (List.mem_of_mem_head? h) (List.count_eq_zero.mp h0)

/-- 名前だけを書いた後は、最後は `/` でない。 -/
theorem Walk.not_climbing (hw : Walk norm acc s) (hclean : s.climbed = false) (hne : norm ≠ []) :
    s.climbing = false := by
  rcases List.eq_nil_or_concat' acc with rfl | ⟨l, c, rfl⟩
  · exact absurd (hw.clean hclean) hne
  · obtain ⟨hc, hsep⟩ := hw.names c (by simp)
    obtain ⟨w, x, rfl⟩ := (List.eq_nil_or_concat' c).resolve_left hc
    have hx : x ≠ SLASH := fun h => hsep (by simp [h])
    have hlast : norm.getLast? = some x := by
      rw [hw.clean hclean, joined_append]
      have hone : joined SLASH [w ++ [x]] = SLASH :: (w ++ [x]) := List.append_nil _
      rw [hone, last_name]
    rw [Bool.eq_false_iff]
    intro hcl
    rw [(hw.climbing hne).mp hcl] at hlast
    exact hx (Option.some.inj hlast).symm

theorem Walk.name (hw : Walk norm acc s) (hc : comp ≠ [] ∧ SLASH ∉ comp) :
    Walk (norm ++ SLASH :: comp) (acc ++ [comp]) ⟨s.height + 1, false, s.climbed⟩ where
  names c hmem := by
    rcases List.mem_append.mp hmem with h | h
    · exact hw.names c h
    · rw [List.mem_singleton.mp h]
      exact hc
  slashes := by
    rw [List.count_append, List.count_cons_self, List.count_eq_zero.mpr hc.2, hw.slashes]
  head := by
    right
    rcases hw.head with rfl | h
    · rfl
    · rw [List.head?_append, h]
      rfl
  climbing _ := by
    obtain ⟨w, x, rfl⟩ := (List.eq_nil_or_concat' comp).resolve_left hc.1
    have hx : x ≠ SLASH := fun h => hc.2 (by simp [h])
    rw [last_name]
    simp [hx]
  clean hclean := by
    rw [joined_append, ← hw.clean hclean]
    simp [joined]
  behind hcl := by
    have h := hw.behind hcl
    simp only [List.length_append, List.length_singleton]
    omega
  top hcl htop := by
    have h := hw.behind hcl
    simp only at htop
    omega

theorem Walk.up (hw : Walk norm acc s) : Walk (remove_last norm) acc.dropLast
    ⟨if s.climbing then s.height - 1 else s.height, true,
      decide ((if s.climbing then s.height - 1 else s.height) ≠ 0)⟩ := by
  have hcount : (remove_last norm).count SLASH = if s.climbing then s.height - 1 else s.height := by
    rw [count_remove_last, hw.slashes]
    by_cases hne : norm = []
    · rw [hw.nil_iff.mp hne]
      simp
    · simp only [← hw.climbing hne]
  have hhead := remove_last_head hw.head
  have hpos : s.climbed = false → s.height ≠ 0 → s.climbing = false := fun hcl h0 =>
    hw.not_climbing hcl (fun hnil => h0 (hw.nil_iff.mp hnil))
  have hlen : s.climbed = false → acc.length = s.height := fun hcl => by
    rw [← hw.slashes, hw.clean hcl, hw.count_acc]
  refine ⟨fun c hc => hw.names c (List.dropLast_subset acc hc), hcount, hhead,
    fun hne => iff_of_true rfl (remove_last_last hne), fun h0 => ?_, fun hne => ?_, fun _ _ => rfl⟩
  · -- 高さが 0 に戻れば、どちらも空である。
    simp only [ne_eq, decide_eq_false_iff_not, not_not] at h0
    have hnil : remove_last norm = [] := hhead.resolve_right fun h =>
      absurd (List.mem_of_mem_head? h) (List.count_eq_zero.mp (hcount.trans h0))
    have hacc : acc.dropLast = [] := by
      refine List.length_eq_zero_iff.mp ?_
      rw [List.length_dropLast]
      cases hcl : s.climbed with
      | true =>
          have hb := hw.behind hcl
          split_ifs at h0 <;> omega
      | false =>
          have hl := hlen hcl
          split_ifs at h0 with hup
          · by_cases hz : s.height = 0
            · omega
            · rw [hpos hcl hz] at hup
              exact absurd hup Bool.false_ne_true
          · omega
    rw [hnil, hacc]
    rfl
  · simp only [ne_eq, decide_eq_true_eq] at hne ⊢
    rw [List.length_dropLast]
    cases hcl : s.climbed with
    | true =>
        have hb := hw.behind hcl
        split_ifs at hne ⊢ <;> omega
    | false =>
        have hl := hlen hcl
        have hz : s.height ≠ 0 := fun h => hne (by simp [h])
        rw [hpos hcl hz, if_neg Bool.false_ne_true]
        omega

theorem Walk.step (hw : Walk norm acc s) (hc : comp ≠ [] ∧ SLASH ∉ comp)
    (hlen : norm.length + (comp.length + 1) ≤ 255) :
    Walk (add_component norm comp) (follow acc comp) (s.step comp) ∧
      (add_component norm comp).length ≤ norm.length + (comp.length + 1) := by
  by_cases h1 : comp = [DOT]
  · simp only [add_component, follow, Climb.step, if_pos h1]
    exact ⟨hw, Nat.le_add_right _ _⟩
  by_cases h2 : comp = [DOT, DOT]
  · have h := remove_last_length norm
    simp only [add_component, follow, Climb.step, if_neg h1, if_pos h2]
    exact ⟨hw.up, by omega⟩
  · rw [add_component_name h1 h2 hlen]
    simp only [follow, Climb.step, if_neg h1, if_neg h2]
    exact ⟨hw.name hc, by simp⟩

theorem Walk.run : ∀ (comps : List (List UInt8)) (norm : List UInt8) (acc : List (List UInt8)) (s : Climb),
    Walk norm acc s → (∀ c ∈ comps, c ≠ [] ∧ SLASH ∉ c) → norm.length + (joined SLASH comps).length ≤ 255 →
    Walk (comps.foldl add_component norm) (comps.foldl follow acc) (comps.foldl Climb.step s) ∧
      (comps.foldl add_component norm).length ≤ 255 := by
  intro comps
  induction comps with
  | nil =>
      intro norm acc s hw _ hlen
      exact ⟨hw, by simpa [joined] using hlen⟩
  | cons c comps ih =>
      intro norm acc s hw hc hlen
      obtain ⟨hc, hcs⟩ := List.forall_mem_cons.mp hc
      have hsplit : (joined SLASH (c :: comps)).length = c.length + 1 + (joined SLASH comps).length := by
        unfold joined
        rw [List.flatMap_cons, List.length_append, List.length_cons]
      obtain ⟨hw', hlen'⟩ := hw.step hc (by omega)
      exact ih _ _ _ hw' hcs (by omega)

/-! ## 結果 -/

theorem Walk.result_iff (hw : Walk norm acc s) :
    (if norm = [] then [SLASH] else norm) = render acc ↔ s.height ≤ 1 ∨ s.climbed = false := by
  unfold render
  cases hcl : s.climbed with
  | false =>
      have hnil : norm = [] ↔ acc = [] := by
        rw [hw.nil_iff, ← hw.slashes, hw.clean hcl, hw.count_acc, List.length_eq_zero_iff]
      simp only [hnil, or_true, iff_true]
      rw [hw.clean hcl]
  | true =>
      have hb := hw.behind hcl
      have hne : norm ≠ [] := fun h => by rw [hw.nil_iff.mp h] at hb; omega
      rw [if_neg hne]
      simp only [Bool.true_eq_false, or_false]
      constructor
      · intro heq
        have hcount := hw.slashes
        rw [heq] at hcount
        split_ifs at hcount with hacc
        · rw [← hcount]
          rfl
        · rw [hw.count_acc] at hcount
          omega
      · intro hle
        have hacc : acc = [] := List.length_eq_zero_iff.mp (by omega)
        have hlast := (hw.climbing hne).mp (hw.top hcl (by omega))
        rw [if_pos hacc]
        exact eq_slash hw.head hlast (by rw [hw.slashes]; omega)

end MyOS.Vfs
