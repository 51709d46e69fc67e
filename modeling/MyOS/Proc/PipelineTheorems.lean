import MyOS.Proc.TableTheorems

/-!
# シェルの配管

段の子は、パイプの端を標準の入出力に受け継ぎ、ほかの端を開いていない。シェルの表は、三段以上で空きがちょうど
二つのときのほかは元に戻る。
-/

namespace MyOS.Proc
open MyOS.Lib

variable {R r : Row} {st : Redirects} {stages : List (Redirects × Nat)} {calls : List TableCall} {n d rfd wfd : Nat}
  {prev : Option (Nat × Nat)}

/-! ## 空いた記述子 -/

theorem Row.free_some {start : Nat} (h : r.free start = some d) :
    start ≤ d ∧ d < MAX_FILES ∧ r d = none := by
  have hp := List.find?_some h
  simp only [Bool.and_eq_true, decide_eq_true_eq, Option.isNone_iff_eq_none] at hp
  exact ⟨hp.1, List.mem_range.mp (List.mem_of_find?_eq_some h), hp.2⟩

theorem Row.free_isSome {start : Nat} (hstart : start ≤ d) (hd : d < MAX_FILES) (hnone : r d = none) :
    ∃ e, r.free start = some e := by
  refine Option.isSome_iff_exists.mp (List.find?_isSome.mpr ⟨d, List.mem_range.mpr hd, ?_⟩)
  simp [hstart, hnone]

theorem Row.free_le {start e : Nat} (h : r.free start = some e) (hstart : start ≤ d) (hd : d < MAX_FILES)
    (hnone : r d = none) : e ≤ d := by
  obtain ⟨-, as, bs, heq, hbefore⟩ := List.find?_eq_some_iff_append.mp h
  by_contra hlt
  have hlt := Nat.lt_of_not_le hlt
  have hsorted : (as ++ e :: bs).Pairwise (· < ·) := heq ▸ List.pairwise_lt_range
  have hmem : d ∈ as ++ e :: bs := heq ▸ List.mem_range.mpr hd
  rcases List.mem_append.mp hmem with has | hbs
  · have := hbefore d has
    simp [hstart, hnone] at this
  · rcases List.mem_cons.mp hbs with rfl | hbs
    · exact absurd hlt (Nat.lt_irrefl _)
    · exact absurd hlt (Nat.lt_asymm (List.rel_of_pairwise_cons (List.pairwise_append.mp hsorted).2.1 hbs))

theorem Row.mem_spare : d ∈ r.spare ↔ d < MAX_FILES ∧ 3 ≤ d ∧ r d = none := by
  unfold Row.spare
  rw [Finset.mem_filter, Finset.mem_range]

theorem Row.pipe_fds_some (h : r.pipe_fds = some (rfd, wfd)) : rfd ∈ r.spare ∧ wfd ∈ r.spare ∧ rfd < wfd := by
  obtain ⟨a, ha, h⟩ := Option.bind_eq_some_iff.mp h
  obtain ⟨b, hb, h⟩ := Option.map_eq_some_iff.mp h
  cases h
  obtain ⟨ha3, ha, hra⟩ := free_some ha
  obtain ⟨hlt, hb, hrb⟩ := free_some hb
  exact ⟨mem_spare.mpr ⟨ha, ha3, hra⟩, mem_spare.mpr ⟨hb, by omega, hrb⟩, hlt⟩

/-- `pipe` が成功するのは、空きが二つあるときである。 -/
theorem Row.pipe_fds_isSome : (∃ fds, r.pipe_fds = some fds) ↔ 2 ≤ r.spare.card := by
  constructor
  · rintro ⟨⟨rfd, wfd⟩, h⟩
    obtain ⟨hr, hw, hlt⟩ := pipe_fds_some h
    exact Finset.one_lt_card.mpr ⟨rfd, hr, wfd, hw, Nat.ne_of_lt hlt⟩
  · intro h
    obtain ⟨a, ha, b, hb, hab⟩ := Finset.one_lt_card.mp h
    obtain ⟨ha16, ha3, hra⟩ := mem_spare.mp ha
    obtain ⟨hb16, hb3, hrb⟩ := mem_spare.mp hb
    obtain ⟨e, he⟩ := free_isSome ha3 ha16 hra
    have hea := free_le he ha3 ha16 hra
    have heb := free_le he hb3 hb16 hrb
    -- 二つのうち、大きい方が次の空きになる
    obtain ⟨f, hf⟩ : ∃ f, r.free (e + 1) = some f := by
      rcases Nat.lt_or_ge e a with hlt | hge
      · exact free_isSome hlt ha16 hra
      · exact free_isSome (by omega) hb16 hrb
    exact ⟨(e, f), by rw [pipe_fds, he, Option.bind_some, hf]; rfl⟩

/-! ## 前の段の読みの端 -/

/-- シェルが次の段のために開いている、前の段の読みの端。 -/
def held (R : Row) : Option (Nat × Nat) → Row
  | none => R
  | some (d, n) => R.set d (some (FILE_READ, n))

/-- 開いている端は、元の表の空きにある。 -/
def Holding (R : Row) (prev : Option (Nat × Nat)) : Prop := ∀ x ∈ prev, x.1 ∈ R.spare

theorem Holding.next (hp : Holding R prev) (hfds : (held R prev).pipe_fds = some (rfd, wfd)) :
    (rfd ∈ R.spare ∧ wfd ∈ R.spare ∧ rfd < wfd) ∧ ∀ x ∈ prev, x.1 ≠ rfd ∧ x.1 ≠ wfd := by
  obtain ⟨hr, hw, hlt⟩ := Row.pipe_fds_some hfds
  cases prev with
  | none => exact ⟨⟨hr, hw, hlt⟩, by simp⟩
  | some x =>
    obtain ⟨d, m⟩ := x
    have hset : ∀ e ∈ (held R (some (d, m))).spare, e ≠ d ∧ e ∈ R.spare := by
      intro e he
      obtain ⟨he16, he3, hnone⟩ := Row.mem_spare.mp he
      simp only [held, Row.set] at hnone
      split at hnone
      · cases hnone
      next hne => exact ⟨hne, Row.mem_spare.mpr ⟨he16, he3, hnone⟩⟩
    refine ⟨⟨(hset _ hr).2, (hset _ hw).2, hlt⟩, fun x hx => ?_⟩
    cases hx
    exact ⟨Ne.symm (hset _ hr).1, Ne.symm (hset _ hw).1⟩

theorem Holding.succ (hp : Holding R prev) (hfds : (held R prev).pipe_fds = some (rfd, wfd)) : Holding R (some (rfd, n)) := by
  intro x hx
  cases hx
  exact (hp.next hfds).1.1

theorem held_spare_card (hp : Holding R (some (d, n))) : (held R (some (d, n))).spare.card = R.spare.card - 1 := by
  have herase : (held R (some (d, n))).spare = R.spare.erase d := by
    ext e
    rw [Row.mem_spare, Finset.mem_erase, Row.mem_spare]
    simp only [held, Row.set]
    by_cases he : e = d
    · simp [he]
    · simp [he]
  rw [herase, Finset.card_erase_of_mem (hp (d, n) rfl)]

/-! ## 一つの段 -/

theorem Row.close_high (h3 : 3 ≤ d) (hd : d < MAX_FILES) : r.close d = r.set d none := by
  unfold Row.close
  rw [if_neg]
  omega

theorem Row.dup2_low {fd : Nat} {x : Nat × Nat} (h3 : 3 ≤ d) (hd : d < MAX_FILES) (hfd : fd < 2) (hx : r d = some x) :
    r.dup2 d fd = r.set fd (some x) := by
  unfold Row.dup2
  rw [if_neg (by simp only [MAX_FILES] at hd ⊢; omega), if_neg (by omega), hx]

/-- 端を 0 か 1 に移して閉じる。 -/
theorem Row.move {fd : Nat} {x : Nat × Nat} (h3 : 3 ≤ d) (hd : d < MAX_FILES) (hfd : fd < 2) (hx : r d = some x) :
    (r.dup2 d fd).close d = (r.set fd (some x)).set d none := by
  rw [dup2_low h3 hd hfd hx, close_high h3 hd]

theorem run_calls_append (r : Row) (a b : List TableCall) : run_calls r (a ++ b) = run_calls (run_calls r a) b :=
  List.foldl_append

/-- シェルは、新しい読みの端だけを開いたまま次の段へ進む。 -/
theorem shell_row (hp : Holding R prev) (hfds : (held R prev).pipe_fds = some (rfd, wfd)) :
    run_calls ((held R prev).pipe n) ((prev.map Prod.fst).toList.map .close ++ [.close wfd]) = held R (some (rfd, n)) := by
  obtain ⟨⟨hr, hw, hlt⟩, hne⟩ := hp.next hfds
  obtain ⟨hr16, hr3, hrn⟩ := Row.mem_spare.mp hr
  obtain ⟨hw16, hw3, hwn⟩ := Row.mem_spare.mp hw
  cases prev with
  | none =>
    have hcalls : run_calls (R.pipe n) [.close wfd] = (R.pipe n).close wfd := rfl
    show run_calls (R.pipe n) [.close wfd] = _
    rw [hcalls, Row.close_high hw3 hw16, Row.pipe, show R.pipe_fds = some (rfd, wfd) from hfds]
    funext e
    simp only [held, Row.set]
    by_cases hew : e = wfd
    · simp [hew, hwn, Nat.ne_of_gt hlt]
    · simp [hew]
  | some x =>
    obtain ⟨d, m⟩ := x
    obtain ⟨hd16, hd3, hdn⟩ := Row.mem_spare.mp (hp (d, m) rfl)
    obtain ⟨hdr, hdw⟩ := hne (d, m) rfl
    show (((held R (some (d, m))).pipe n).close d).close wfd = _
    rw [Row.close_high hd3 hd16, Row.close_high hw3 hw16, Row.pipe, hfds]
    funext e
    simp only [held, Row.set]
    by_cases hew : e = wfd
    · simp [hew, hwn, Nat.ne_of_gt hlt]
    · by_cases hed : e = d
      · have hrd : d ≠ rfd := hdr
        simp [hed, hdn, hrd]
      · simp [hew, hed]

/-- 子は、前の読みの端を 0 に、新しい書きの端を 1 に移し、ほかの端を閉じる。 -/
theorem wire_row (hp : Holding R prev) (hfds : (held R prev).pipe_fds = some (rfd, wfd)) :
    run_calls ((held R prev).pipe n) (wire_calls (prev.map Prod.fst) (some wfd) (some rfd)) =
      R.wired (prev.map Prod.snd) (some n) := by
  obtain ⟨⟨hr, hw, hlt⟩, hne⟩ := hp.next hfds
  obtain ⟨hr16, hr3, hrn⟩ := Row.mem_spare.mp hr
  obtain ⟨hw16, hw3, hwn⟩ := Row.mem_spare.mp hw
  have hpipe : (held R prev).pipe n = ((held R prev).set rfd (some (FILE_READ, n))).set wfd (some (FILE_WRITE, n + 1)) := by
    rw [Row.pipe, hfds]
  cases prev with
  | none =>
    show (((R.pipe n).close rfd).dup2 wfd 1).close wfd = _
    rw [show R.pipe n = _ from hpipe, Row.close_high hr3 hr16]
    rw [Row.move (x := (FILE_WRITE, n + 1)) hw3 hw16 (by decide) (by simp [Row.set, Nat.ne_of_gt hlt])]
    funext e
    simp only [held, Row.set, Row.wired, Option.map_none, Option.elim_none, Option.elim_some]
    by_cases hew : e = wfd
    · simp [hew, hwn, show wfd ≠ 0 by omega, show wfd ≠ 1 by omega]
    · by_cases her : e = rfd
      · simp [her, hrn, Nat.ne_of_lt hlt, show rfd ≠ 0 by omega, show rfd ≠ 1 by omega]
      · by_cases h1 : e = 1
        · simp [h1, show 1 ≠ wfd by omega]
        · by_cases h0 : e = 0
          · simp [h0, show 0 ≠ wfd by omega, show 0 ≠ rfd by omega]
          · simp [hew, her, h1, h0]
  | some x =>
    obtain ⟨d, m⟩ := x
    obtain ⟨hd16, hd3, hdn⟩ := Row.mem_spare.mp (hp (d, m) rfl)
    have hdr : d ≠ rfd := (hne (d, m) rfl).1
    have hdw : d ≠ wfd := (hne (d, m) rfl).2
    show (((((((held R (some (d, m))).pipe n).close rfd).dup2 d 0).close d).dup2 wfd 1).close wfd) = _
    rw [hpipe, Row.close_high hr3 hr16]
    rw [Row.move (x := (FILE_READ, m)) hd3 hd16 (by decide) (by simp [held, Row.set, hdr, hdw])]
    rw [Row.move (x := (FILE_WRITE, n + 1)) hw3 hw16 (by decide)
      (by simp [Row.set, Nat.ne_of_gt hlt, Ne.symm hdw, show wfd ≠ 0 by omega])]
    funext e
    simp only [held, Row.set, Row.wired, Option.map_some, Option.elim_some]
    by_cases hew : e = wfd
    · simp [hew, hwn, show wfd ≠ 0 by omega, show wfd ≠ 1 by omega]
    · by_cases her : e = rfd
      · simp [her, hrn, Nat.ne_of_lt hlt, show rfd ≠ 0 by omega, show rfd ≠ 1 by omega]
      · by_cases hed : e = d
        · simp [hed, hdn, hdw, show d ≠ 0 by omega, show d ≠ 1 by omega]
        · by_cases h1 : e = 1
          · simp [h1, show 1 ≠ wfd by omega]
          · by_cases h0 : e = 0
            · simp [h0, show 0 ≠ wfd by omega, show 0 ≠ d by omega]
            · simp [hew, her, hed, h1, h0]

theorem wire_row_last (hp : Holding R prev) :
    run_calls (held R prev) (wire_calls (prev.map Prod.fst) none none) = R.wired (prev.map Prod.snd) none := by
  cases prev with
  | none =>
    show R = _
    funext e
    simp only [Row.wired, Option.map_none, Option.elim_none]
    split
    next h => rw [h]
    · split
      next h => rw [h]
      · rfl
  | some x =>
    obtain ⟨d, m⟩ := x
    obtain ⟨hd16, hd3, hdn⟩ := Row.mem_spare.mp (hp (d, m) rfl)
    show ((held R (some (d, m))).dup2 d 0).close d = _
    rw [Row.move (x := (FILE_READ, m)) hd3 hd16 (by decide) (by simp [held, Row.set])]
    funext e
    simp only [held, Row.set, Row.wired, Option.map_some, Option.elim_some, Option.elim_none]
    by_cases hed : e = d
    · simp [hed, hdn, show d ≠ 0 by omega, show d ≠ 1 by omega]
    · by_cases h0 : e = 0
      · simp [h0, show 0 ≠ d by omega]
      · by_cases h1 : e = 1
        · simp [h1, show 1 ≠ d by omega]
        · simp [hed, h0, h1]

/-- リダイレクトは、開いた記述子を `fd` に移して閉じる。 -/
theorem redirect_row {fd : Nat} {x : Option (Option (Nat × Nat))} (hfd : fd < 2) (h : redirect_calls r fd x = some calls) :
    run_calls r calls = fun e => if e = fd then (x.bind id).elim (r fd) some else r e := by
  cases x with
  | none =>
    cases h
    funext e
    simp only [Option.bind_none, Option.elim_none]
    split
    next he => rw [he]; rfl
    · rfl
  | some o =>
    cases o with
    | none => cases h
    | some x =>
      obtain ⟨flags, n⟩ := x
      obtain ⟨d, hd, rfl⟩ := Option.map_eq_some_iff.mp h
      obtain ⟨hd3, hd16, hdn⟩ := Row.free_some hd
      show (((r.fopen flags n).dup2 d fd).close d) = _
      rw [Row.fopen, hd]
      dsimp only
      rw [Row.move (x := (flags, n)) hd3 hd16 hfd (by simp [Row.set])]
      funext e
      simp only [Row.set, Option.bind_some, id, Option.elim_some]
      by_cases hed : e = d
      · simp [hed, hdn, show d ≠ fd by omega]
      · by_cases hef : e = fd
        · simp [hef, show fd ≠ d by omega]
        · simp [hed, hef]

theorem run_stage_row {pipe_in pipe_out extra_fd : Option Nat} (h : run_stage r st pipe_in pipe_out extra_fd = some calls) :
    run_calls r calls = st.row (run_calls r (wire_calls pipe_in pipe_out extra_fd)) := by
  obtain ⟨ins, hins, h⟩ := Option.bind_eq_some_iff.mp h
  obtain ⟨outs, houts, rfl⟩ := Option.map_eq_some_iff.mp h
  rw [run_calls_append, redirect_row (by decide) houts, run_calls_append, redirect_row (by decide) hins]
  funext e
  unfold Redirects.row
  by_cases h0 : e = 0
  · simp [h0]
  · by_cases h1 : e = 1
    · simp [h1]
    · simp [h0, h1]

/-! ## 段の繰り返し -/

theorem pipeline_cons {prev_fd : Option Nat} (hne : stages ≠ []) (hfds : r.pipe_fds = some (rfd, wfd)) :
    pipeline r prev_fd ((st, n) :: stages) =
      ⟨.pipe n :: ((prev_fd.toList.map .close ++ [.close wfd]) ++
          (pipeline (run_calls (r.pipe n) (prev_fd.toList.map .close ++ [.close wfd])) (some rfd) stages).calls),
        ⟨[.pipe n], run_stage (r.pipe n) st prev_fd (some wfd) (some rfd)⟩ ::
          (pipeline (run_calls (r.pipe n) (prev_fd.toList.map .close ++ [.close wfd])) (some rfd) stages).children.map
            fun c => { c with forked := .pipe n :: ((prev_fd.toList.map .close ++ [.close wfd]) ++ c.forked) }⟩ := by
  rw [pipeline, if_neg (by simpa using hne), hfds]

theorem pipeline_last {prev_fd : Option Nat} : pipeline r prev_fd [(st, n)] =
    ⟨prev_fd.toList.map .close, [⟨[], run_stage r st prev_fd none none⟩]⟩ := by
  simp [pipeline]

theorem pipeline_fails {prev_fd : Option Nat} (hne : stages ≠ []) (hfds : r.pipe_fds = none) :
    pipeline r prev_fd ((st, n) :: stages) = ⟨[.pipe n], []⟩ := by
  rw [pipeline, if_neg (by simpa using hne), hfds]

/-- 段 `k` の子の表。 -/
theorem children_rows {k : Nat} {c : Child} (hp : Holding R prev)
    (hc : (pipeline (held R prev) (prev.map Prod.fst) stages).children[k]? = some c) (hcalls : c.calls = some calls) :
    ∃ st n, stages[k]? = some (st, n) ∧ run_calls (held R prev) (c.forked ++ calls) =
      st.row (R.wired (if k = 0 then prev.map Prod.snd else stages[k - 1]?.map Prod.snd)
        (if k + 1 < stages.length then some n else none)) := by
  induction stages generalizing prev k c with
  | nil => cases hc
  | cons x stages ih =>
    obtain ⟨st, n⟩ := x
    by_cases hne : stages = []
    · subst hne
      rw [pipeline_last] at hc
      cases k with
      | succ k => cases hc
      | zero =>
        cases hc
        refine ⟨st, n, rfl, ?_⟩
        show run_calls (held R prev) calls = _
        rw [run_stage_row hcalls, wire_row_last hp]
        rfl
    cases hfds : (held R prev).pipe_fds with
    | none =>
      rw [pipeline_fails hne hfds] at hc
      cases hc
    | some fds =>
      obtain ⟨rfd, wfd⟩ := fds
      rw [pipeline_cons hne hfds, shell_row hp hfds] at hc
      have hlen : 0 < stages.length := List.length_pos_iff.mpr hne
      cases k with
      | zero =>
        cases hc
        refine ⟨st, n, rfl, ?_⟩
        show run_calls ((held R prev).pipe n) calls = _
        rw [run_stage_row hcalls, wire_row hp hfds, if_pos rfl, if_pos (by simpa using hlen)]
      | succ k =>
        rw [List.getElem?_cons_succ, List.getElem?_map] at hc
        obtain ⟨c', hc', rfl⟩ := Option.map_eq_some_iff.mp hc
        obtain ⟨st', n', hk, hrow⟩ := ih (hp.succ hfds) hc' hcalls
        refine ⟨st', n', hk, ?_⟩
        show run_calls ((held R prev).pipe n) (((prev.map Prod.fst).toList.map .close ++ [.close wfd]) ++ c'.forked ++ calls) = _
        rw [List.append_assoc, run_calls_append, shell_row hp hfds, hrow, if_neg (Nat.succ_ne_zero k)]
        congr 2
        · cases k with
          | zero => rfl
          | succ k => rfl
        · simp only [List.length_cons, Nat.add_lt_add_iff_right]

theorem Row.pipe_full (h : r.pipe_fds = none) : r.pipe n = r := by rw [Row.pipe, h]

/-- 二段目からは、前の読みの端を開いたまま `pipe` を呼ぶ。失敗すると、それを閉じない。 -/
theorem shell_rest (hp : Holding R (some (d, n))) (hne : stages ≠ []) :
    run_calls (held R (some (d, n))) (pipeline (held R (some (d, n))) (some d) stages).calls =
      if stages.length = 1 ∨ 3 ≤ R.spare.card then R else held R (some (d, n)) := by
  induction stages generalizing d n with
  | nil => exact absurd rfl hne
  | cons x stages ih =>
    obtain ⟨st, m⟩ := x
    obtain ⟨hd16, hd3, hdn⟩ := Row.mem_spare.mp (hp (d, n) rfl)
    by_cases hlast : stages = []
    · subst hlast
      rw [pipeline_last, if_pos (.inl rfl)]
      show (held R (some (d, n))).close d = R
      rw [Row.close_high hd3 hd16]
      funext e
      simp only [held, Row.set]
      split
      next he => rw [he, hdn]
      · rfl
    have hlen : ¬ ((st, m) :: stages).length = 1 := by simp [hlast]
    have hcard := held_spare_card hp
    cases hfds : (held R (some (d, n))).pipe_fds with
    | none =>
      have hfull : ¬ 2 ≤ (held R (some (d, n))).spare.card := fun h => by
        obtain ⟨fds, hsome⟩ := Row.pipe_fds_isSome.mpr h
        cases hfds.symm.trans hsome
      rw [pipeline_fails hlast hfds, if_neg (by omega)]
      exact Row.pipe_full hfds
    | some fds =>
      obtain ⟨rfd, wfd⟩ := fds
      have h2 := Row.pipe_fds_isSome.mp ⟨_, hfds⟩
      have hshell := shell_row (n := m) hp hfds
      rw [pipeline_cons hlast hfds, if_pos (by omega)]
      show run_calls ((held R (some (d, n))).pipe m) (([.close d] ++ [.close wfd]) ++ _) = R
      rw [run_calls_append]
      simp only [Option.map_some, Option.toList_some] at hshell ⊢
      rw [show run_calls _ ([.close d] ++ [.close wfd]) = held R (some (rfd, m)) from hshell, hshell,
        ih (hp.succ hfds) hlast, if_pos (.inr (by omega))]

/-- シェルの表が元に戻らないのは、三段以上で、空きがちょうど二つのときだけである。 -/
theorem shell_restores (R : Row) (stages : List (Redirects × Nat)) :
    (¬ (3 ≤ stages.length ∧ R.spare.card = 2) → run_calls R (pipeline R none stages).calls = R) ∧
      (3 ≤ stages.length ∧ R.spare.card = 2 → ∃ d ∈ R.spare, ∃ n, stages.head?.map Prod.snd = some n ∧
        run_calls R (pipeline R none stages).calls = R.set d (some (FILE_READ, n))) := by
  have hp : Holding R none := nofun
  cases stages with
  | nil => exact ⟨fun _ => rfl, by simp⟩
  | cons x stages =>
    obtain ⟨st, n⟩ := x
    by_cases hlast : stages = []
    · subst hlast
      rw [pipeline_last]
      exact ⟨fun _ => rfl, by simp⟩
    have hlen := List.length_pos_iff.mpr hlast
    cases hfds : R.pipe_fds with
    | none =>
      rw [pipeline_fails hlast hfds]
      refine ⟨fun _ => Row.pipe_full hfds, fun h => ?_⟩
      obtain ⟨fds, hsome⟩ := Row.pipe_fds_isSome.mpr (Nat.le_of_eq h.2.symm)
      cases hfds.symm.trans hsome
    | some fds =>
      obtain ⟨rfd, wfd⟩ := fds
      have h2 := Row.pipe_fds_isSome.mp ⟨_, hfds⟩
      have hshell : run_calls (R.pipe n) [.close wfd] = held R (some (rfd, n)) := shell_row hp hfds
      have hcalls : run_calls R (pipeline R none ((st, n) :: stages)).calls =
          if stages.length = 1 ∨ 3 ≤ R.spare.card then R else held R (some (rfd, n)) := by
        rw [pipeline_cons hlast hfds]
        show run_calls (R.pipe n) ([.close wfd] ++ (pipeline (run_calls (R.pipe n) [.close wfd]) (some rfd) stages).calls) = _
        rw [run_calls_append, hshell, shell_rest (hp.succ hfds) hlast]
      rw [hcalls, List.length_cons]
      refine ⟨fun h => if_pos (by omega), fun h => ⟨rfd, (hp.next hfds).1.1, n, rfl, if_neg (by omega)⟩⟩

/-! ## 実行の中の配管 -/

theorem replay_append (log calls : List TableCall) : replay (log ++ calls) = run_calls (replay log) calls :=
  List.foldl_append

variable {S : Logged} {i : Nat} {log : List TableCall}

/-- どの実行でも、段 `k` の子の表は、前の段の読みの端を 0 に、次の段への書きの端を 1 に持ち、リダイレクトのほかは
    シェルの表と同じである。ほかの段の端は開いていない。 -/
theorem pipeline_wires_children {k : Nat} {c : Child} (rc_in rc_out mounts : Nat)
    (h : Steps Logged.step (fun S ev => NoWrap S.kernel ev) (Logged.boot rc_in rc_out mounts) S) (hi : Alive S.kernel i)
    (hc : (pipeline (replay log) none stages).children[k]? = some c) (hcalls : c.calls = some calls)
    (hlog : S.log i = log ++ (c.forked ++ calls)) :
    ∃ st n, stages[k]? = some (st, n) ∧ row_of S.kernel i = stage_row (replay log) stages k st := by
  have hp : Holding (replay log) none := nofun
  obtain ⟨st, n, hk, hrow⟩ := children_rows hp hc hcalls
  refine ⟨st, n, hk, ?_⟩
  rw [tables_follow_calls rc_in rc_out mounts h i hi, hlog, replay_append, stage_row, hk]
  exact hrow

/-- どの実行でも、段を始め終えたシェルの表は、三段以上で空いた記述子がちょうど二つのときのほかは元に戻る。そのときは
    二つ目の `pipe` が失敗し、最初のパイプの読みの端が開いたまま残る。 -/
theorem pipeline_restores_shell (rc_in rc_out mounts : Nat)
    (h : Steps Logged.step (fun S ev => NoWrap S.kernel ev) (Logged.boot rc_in rc_out mounts) S) (hi : Alive S.kernel i)
    (hlog : S.log i = log ++ (pipeline (replay log) none stages).calls) :
    (¬ (3 ≤ stages.length ∧ (replay log).spare.card = 2) → row_of S.kernel i = replay log) ∧
      (3 ≤ stages.length ∧ (replay log).spare.card = 2 → ∃ d ∈ (replay log).spare, ∃ n,
        stages.head?.map Prod.snd = some n ∧ row_of S.kernel i = (replay log).set d (some (FILE_READ, n))) := by
  rw [tables_follow_calls rc_in rc_out mounts h i hi, hlog, replay_append]
  exact shell_restores (replay log) stages

/-- 二段の配管。シェルの後、二つの子が端を移す。 -/
def two_stages : List (Redirects × Nat) := [({}, 2), ({}, 4)]

def piped_run : Trace (checked Logged.step (fun S ev => decide (NoWrap S.kernel ev)) (Logged.boot 1 1 0)) (fun S =>
    (Alive S.kernel 1 ∧ Alive S.kernel 3) ∧ S.log 1 = [.start 0 1] ++ [.pipe 2, .close 4, .close 3] ∧
      S.log 3 = [.start 0 1] ++ ([.pipe 2, .close 4] ++ [.dup2 3 0, .close 3])) :=
  ⟨start_shell ++ [call 12 4, call 24, call 20 4, call 24, call 20 3, tick, call 20 3, call 27 4 1, call 20 4, tick,
    call 27 3 0, call 20 3], by decide +kernel⟩

theorem pipeline_wires_second : ∃ S, Steps Logged.step (fun S ev => NoWrap S.kernel ev) (Logged.boot 1 1 0) S ∧
    row_of S.kernel 3 0 = some (FILE_READ, 2) ∧ row_of S.kernel 3 1 = some (FILE_WRITE, 1) := by
  obtain ⟨S, hS, halive, -, hlog⟩ := piped_run.steps_checked fun _ _ => of_decide_eq_true
  have hchild : (pipeline (replay [.start 0 1]) none two_stages).children[1]? =
      some ⟨[.pipe 2, .close 4], some [.dup2 3 0, .close 3]⟩ := by decide
  obtain ⟨st, n, hk, hrow⟩ := pipeline_wires_children 1 1 0 hS halive.2 hchild rfl hlog
  cases hk
  refine ⟨S, hS, ?_⟩
  rw [hrow]
  decide

theorem pipeline_restores_two : ∃ S, Steps Logged.step (fun S ev => NoWrap S.kernel ev) (Logged.boot 1 1 0) S ∧
    row_of S.kernel 1 = replay [.start 0 1] := by
  obtain ⟨S, hS, halive, hlog, -⟩ := piped_run.steps_checked fun _ _ => of_decide_eq_true
  have hcalls : S.log 1 = [.start 0 1] ++ (pipeline (replay [.start 0 1]) none two_stages).calls := hlog
  exact ⟨S, hS, (pipeline_restores_shell 1 1 0 hS halive.1 hcalls).1 (by decide)⟩

end MyOS.Proc
