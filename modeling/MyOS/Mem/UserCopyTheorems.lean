import MyOS.Mem.UserCopy

/-!
# 利用者のメモリとの写しの定理

調べる範囲の終わりは折り返す和で決まるので、折り返すとほとんど調べない。終わりの手前で番地が折り返すと、ループは
終わらない。
-/

namespace MyOS.Mem
open MyOS.Lib

variable {m : Phys} {mapped : Nat → Bool} {mem : ByteMem} {user dst src size start stop addr i j k n fuel fuel' : Nat} {b : Bool}

/-! ## 写すループ -/

theorem copy_loop_accessed : (copy_loop user dst src n i mem).2 = (List.range' i n).map (add32 user) := by
  induction n generalizing i mem with
  | zero => rfl
  | succ n ih =>
    have hrest : (copy_loop user dst src n (i + 1) (mem.store8 (add32 dst i) (mem (add32 src i)))).2 =
        (List.range' (i + 1) n).map (add32 user) := ih
    rw [List.range'_succ, List.map_cons, ← hrest]
    rfl

theorem copy_loop_rest {a : Nat} (h : ∀ k, i ≤ k → k < i + n → a ≠ add32 dst k) :
    (copy_loop user dst src n i mem).1 a = mem a := by
  induction n generalizing i mem with
  | zero => rfl
  | succ n ih =>
    have hrest : (copy_loop user dst src n (i + 1) (mem.store8 (add32 dst i) (mem (add32 src i)))).1 a =
        mem.store8 (add32 dst i) (mem (add32 src i)) a := ih fun k hk hk' => h k (by omega) (by omega)
    exact hrest.trans (ByteMem.store8_of_ne (h i (Nat.le_refl i) (by omega)))

theorem add32_ne (h : i < 2 ^ 32) (h' : j < 2 ^ 32) (hne : i ≠ j) : add32 dst i ≠ add32 dst j := by
  unfold add32
  omega

theorem copy_loop_written (hsize : i + n ≤ 2 ^ 32)
    (hdisj : ∀ a b, i ≤ a → a < i + n → i ≤ b → b < i + n → add32 dst a ≠ add32 src b) :
    ∀ k, i ≤ k → k < i + n → (copy_loop user dst src n i mem).1 (add32 dst k) = mem (add32 src k) := by
  induction n generalizing i mem with
  | zero =>
    intro k hk hk'
    omega
  | succ n ih =>
    intro k hk hk'
    by_cases hki : k = i
    · subst hki
      have hrest : ∀ a, k + 1 ≤ a → a < k + 1 + n → add32 dst k ≠ add32 dst a :=
        fun a ha ha' => add32_ne (by omega) (by omega) (by omega)
      exact (copy_loop_rest hrest).trans ByteMem.store8_self
    · have hstep : (copy_loop user dst src n (i + 1) (mem.store8 (add32 dst i) (mem (add32 src i)))).1 (add32 dst k) =
          mem.store8 (add32 dst i) (mem (add32 src i)) (add32 src k) := ih (by omega)
        (fun a b ha ha' hb hb' => hdisj a b (by omega) (by omega) (by omega) (by omega)) k (by omega) (by omega)
      refine hstep.trans (ByteMem.store8_of_ne ?_)
      exact (hdisj i k (by omega) (by omega) hk hk').symm

theorem copy_loop_all (hsize : size < 2 ^ 32) :
    CopiedAll mem user dst src size
      ⟨0, (copy_loop user dst src size 0 mem).1, (copy_loop user dst src size 0 mem).2⟩ := by
  refine ⟨?_, fun hdisj k hk => ?_, fun a ha => ?_⟩
  · rw [List.range_eq_range']
    exact copy_loop_accessed
  · exact copy_loop_written (by omega) (fun a b _ ha _ hb => hdisj a b (by omega) (by omega)) k (Nat.zero_le k) (by omega)
  · exact copy_loop_rest fun k _ hk => ha k (by omega)

/-! ## ページを調べるループ -/

theorem is_page_mapped_congr {a c : Nat} (h : a / 4096 = c / 4096) : is_page_mapped m a = is_page_mapped m c := by
  have hpd : pd_index a = pd_index c := by
    unfold pd_index
    omega
  have hpt : pt_index a = pt_index c := by
    unfold pt_index
    omega
  unfold is_page_mapped
  rw [hpd, hpt]

theorem check_loop_mono (hle : fuel ≤ fuel') (h : check_loop mapped start stop fuel addr = some b) :
    check_loop mapped start stop fuel' addr = some b := by
  induction fuel generalizing addr fuel' with
  | zero => cases h
  | succ fuel ih =>
    obtain ⟨d, rfl⟩ := Nat.exists_eq_add_of_le' hle
    have hsucc : d + (fuel + 1) = (d + fuel) + 1 := by omega
    rw [hsucc]
    unfold check_loop at h ⊢
    split at h
    next hlt =>
      rw [if_pos hlt]
      dsimp only at h ⊢
      generalize (if addr < start then start else addr) = a at h ⊢
      split at h
      next hm =>
        rw [if_pos hm]
        exact ih (Nat.le_add_left _ _) h
      next hm => rwa [if_neg hm]
    next hlt => rwa [if_neg hlt]

/-- `k` 番目のページを調べる前の番地。0 番目は、始まりより前でもよい。 -/
def At (start stop k addr : Nat) : Prop := k = 0 ∧ addr ≤ start ∧ addr < stop ∨ addr = start + 4096 * k ∧ addr < stop

theorem check_loop_step (h : At start stop k addr) : check_loop mapped start stop (fuel + 1) addr =
    if mapped (start + 4096 * k) then check_loop mapped start stop fuel (add32 (start + 4096 * k) 4096)
    else some false := by
  have hlt : addr < stop := by
    rcases h with h | h
    · exact h.2.2
    · exact h.2
  have haddr : (if addr < start then start else addr) = start + 4096 * k := by
    unfold At at h
    split <;> omega
  rw [check_loop, if_pos hlt]
  dsimp only
  rw [haddr]

/-- 後のページは、終わりより前にある。 -/
theorem probe_lt (hk : 0 < k) (hlt : k < probes start stop) : start + 4096 * k < stop := by
  unfold probes at hlt
  omega

theorem probe_word (hstart : start < 2 ^ 32) (hstop : stop < 2 ^ 32) (hlt : k < probes start stop) :
    start + 4096 * k < 2 ^ 32 := by
  by_cases hk : k = 0
  · omega
  · have := probe_lt (Nat.pos_of_ne_zero hk) hlt
    omega

theorem probes_end : stop ≤ start + 4096 * probes start stop := by
  unfold probes
  omega

section

variable (hstart : start < 2 ^ 32) (hstop : stop < 2 ^ 32)
include hstart hstop

/-- 次のページを調べる前の番地。 -/
theorem At.next (hlt : k + 1 < probes start stop) : At start stop (k + 1) (add32 (start + 4096 * k) 4096) := by
  have hword := probe_word hstart hstop hlt
  have hnext := probe_lt (Nat.succ_pos k) hlt
  have hadd : add32 (start + 4096 * k) 4096 = start + 4096 * (k + 1) := by
    have hsum : start + 4096 * k + 4096 = start + 4096 * (k + 1) := by omega
    have hlt : start + 4096 * k + 4096 < 2 ^ 32 := by
      rw [hsum]
      exact hword
    rw [add32_eq hlt, hsum]
  unfold At
  rw [hadd]
  exact .inr ⟨rfl, hnext⟩

/-- 残りのページに利用者のものでないものがあれば、断る。 -/
theorem check_loop_false (h : At start stop k addr) (hbad : ∃ i, k ≤ i ∧ i < probes start stop ∧
    mapped (start + 4096 * i) = false) : ∃ fuel ≤ probes start stop - k, check_loop mapped start stop fuel addr = some false := by
  obtain ⟨i, hki, hi, hbad⟩ := hbad
  obtain ⟨d, rfl⟩ := Nat.exists_eq_add_of_le hki
  induction d generalizing k addr with
  | zero =>
    rw [Nat.add_zero] at hbad
    refine ⟨1, by omega, ?_⟩
    rw [check_loop_step h, if_neg (Bool.eq_false_iff.mp hbad)]
  | succ d ih =>
    by_cases hm : mapped (start + 4096 * k) = true
    · have hshift : k + 1 + d = k + (d + 1) := by omega
      obtain ⟨fuel, hle, hfuel⟩ := ih (k := k + 1) (At.next hstart hstop (by omega)) (by omega) (by omega)
        (by rw [hshift]; exact hbad)
      refine ⟨fuel + 1, by omega, ?_⟩
      rw [check_loop_step h, if_pos hm]
      exact hfuel
    · refine ⟨1, by omega, ?_⟩
      rw [check_loop_step h, if_neg hm]

/-- 残りのページがどれも利用者のもので、番地が折り返さなければ、ループを抜ける。 -/
theorem check_loop_true (h : At start stop k addr) (hk : k < probes start stop)
    (hall : ∀ i, k ≤ i → i < probes start stop → mapped (start + 4096 * i) = true)
    (hend : start + 4096 * probes start stop < 2 ^ 32) : ∃ fuel ≤ probes start stop + 1 - k, check_loop mapped start stop fuel addr = some true := by
  obtain ⟨d, hd⟩ := Nat.exists_eq_add_of_lt hk
  induction d generalizing k addr with
  | zero =>
    have hout : stop ≤ start + 4096 * probes start stop := probes_end
    have hadd : add32 (start + 4096 * k) 4096 = start + 4096 * probes start stop := by
      rw [add32_eq (by omega)]
      omega
    refine ⟨2, by omega, ?_⟩
    rw [check_loop_step h, if_pos (hall k (Nat.le_refl k) hk), hadd, check_loop, if_neg (Nat.not_lt.mpr hout)]
  | succ d ih =>
    obtain ⟨fuel, hle, hfuel⟩ := ih (k := k + 1) (At.next hstart hstop (by omega)) (by omega)
      (fun i hi hi' => hall i (by omega) hi') (by omega)
    refine ⟨fuel + 1, by omega, ?_⟩
    rw [check_loop_step h, if_pos (hall k (Nat.le_refl k) hk)]
    exact hfuel

/-- 折り返すと、始まりのページに戻る。 -/
theorem Spins.back (h : Spins mapped start stop) (hk : k + 1 = probes start stop) :
    At start stop 0 (add32 (start + 4096 * k) 4096) := by
  obtain ⟨henter, -, hwrap⟩ := h
  have hword := probe_word (k := k) hstart hstop (by omega)
  unfold Enters at henter
  rw [← hk] at hwrap
  unfold probes at hk
  refine .inl ⟨rfl, ?_, ?_⟩ <;> unfold add32 <;> omega

theorem Spins.check_loop (h : Spins mapped start stop) (hat : At start stop k addr) (hk : k < probes start stop) :
    Mem.check_loop mapped start stop fuel addr = none := by
  induction fuel generalizing k addr with
  | zero => rfl
  | succ fuel ih =>
    rw [check_loop_step hat, if_pos (h.2.1 k hk)]
    by_cases hlast : k + 1 = probes start stop
    · exact ih (h.back hstart hstop hlast) (by omega)
    · exact ih (At.next hstart hstop (by omega)) (by omega)

end

theorem Enters.at (h : Enters start stop) : At start stop 0 (start - start % 4096) := .inl ⟨rfl, Nat.sub_le _ _, h⟩

theorem probes_pos : 0 < probes start stop := by
  unfold probes
  omega

/-- 始めに終わりへ達していれば、何も調べない。 -/
theorem check_loop_skip (h : ¬ Enters start stop) : check_loop mapped start stop 1 (start - start % 4096) = some true := if_neg h

/-- ループの結果。 -/
inductive Looped (mapped : Nat → Bool) (start stop : Nat) : Bool → Prop
  | skip (h : ¬ Enters start stop) : Looped mapped start stop true
  | all (h : Enters start stop) (hall : ∀ k, k < probes start stop → mapped (start + 4096 * k) = true) :
      Looped mapped start stop true
  | bad (h : Enters start stop) (hbad : ∃ k, k < probes start stop ∧ mapped (start + 4096 * k) = false) :
      Looped mapped start stop false

theorem probes_le (start : Nat) (hstop : stop < 2 ^ 32) : probes start stop ≤ 2 ^ 20 := by
  unfold probes
  omega

/-- 回り続けなければ、ループはページの数までに終わる。 -/
theorem check_loop_ends (hstart : start < 2 ^ 32) (hstop : stop < 2 ^ 32) (h : ¬ Spins mapped start stop) :
    ∃ fuel ≤ 2 ^ 20 + 1, ∃ b, check_loop mapped start stop fuel (start - start % 4096) = some b ∧ Looped mapped start stop b := by
  have hprobes := probes_le start hstop
  by_cases henter : Enters start stop
  · by_cases hall : ∀ k, k < probes start stop → mapped (start + 4096 * k) = true
    · have hend : start + 4096 * probes start stop < 2 ^ 32 := Nat.lt_of_not_le fun hle => h ⟨henter, hall, hle⟩
      obtain ⟨fuel, hle, hfuel⟩ := check_loop_true hstart hstop henter.at probes_pos (fun i _ hi => hall i hi) hend
      exact ⟨fuel, by omega, true, hfuel, .all henter hall⟩
    · push Not at hall
      obtain ⟨k, hk, hbad⟩ := hall
      have hbad := Bool.eq_false_iff.mpr hbad
      obtain ⟨fuel, hle, hfuel⟩ := check_loop_false hstart hstop henter.at ⟨k, Nat.zero_le k, hk, hbad⟩
      exact ⟨fuel, by omega, false, hfuel, .bad henter ⟨k, hk, hbad⟩⟩
  · exact ⟨1, by decide, true, check_loop_skip henter, .skip henter⟩

/-! ## 検査 -/

/-- 折り返さない範囲の検査が通れば、どのバイトも利用者のページにある。 -/
theorem Looped.user_bytes (h : Looped (is_page_mapped m) start stop true) (hstop : stop = start + size) (hlt : stop < 2 ^ 32)
    (hlast : start < stop → is_page_mapped m (stop - 1 - (stop - 1) % 4096) = true) : UserBytes m start size := by
  intro i hi
  rw [add32_eq (by omega)]
  cases h with
  | skip h =>
    unfold Enters at h
    omega
  | all henter hall =>
    have hi' : i / 4096 < probes start stop := by
      unfold probes
      omega
    by_cases hpage : (start + i) / 4096 = (start + 4096 * (i / 4096)) / 4096
    · rw [is_page_mapped_congr hpage]
      exact hall _ hi'
    · by_cases hnext : i / 4096 + 1 < probes start stop
      · have heq : (start + i) / 4096 = (start + 4096 * (i / 4096 + 1)) / 4096 := by omega
        rw [is_page_mapped_congr heq]
        exact hall _ hnext
      · -- 最後のバイトと同じページである
        have hend : stop ≤ start + 4096 * probes start stop := probes_end
        have heq : (start + i) / 4096 = (stop - 1 - (stop - 1) % 4096) / 4096 := by
          have hcount : probes start stop = i / 4096 + 1 := by omega
          rw [hcount] at hend
          omega
        rw [is_page_mapped_congr heq]
        exact hlast (by omega)

theorem check_user_mono (hle : fuel ≤ fuel') (h : check_user mapped start size fuel = some b) :
    check_user mapped start size fuel' = some b := by
  obtain ⟨ok, hok, hb⟩ := Option.map_eq_some_iff.mp h
  exact Option.map_eq_some_iff.mpr ⟨ok, check_loop_mono hle hok, hb⟩

/-- 検査の結果は一つに決まる。 -/
theorem check_user_unique {b' : Bool} (h : check_user mapped start size fuel = some b)
    (h' : check_user mapped start size fuel' = some b') : b = b' := by
  have h₁ := check_user_mono (Nat.le_max_left fuel fuel') h
  have h₂ := check_user_mono (Nat.le_max_right fuel fuel') h'
  exact Option.some.inj (h₁.symm.trans h₂)

theorem Spins.check_user (hstart : start < 2 ^ 32) (h : Spins mapped start (add32 start size)) :
    Mem.check_user mapped start size fuel = none := by
  have hloop : Mem.check_loop mapped start (add32 start size) fuel (start - start % 4096) = none :=
    h.check_loop hstart add32_lt h.1.at probes_pos
  unfold Mem.check_user
  dsimp only
  rw [hloop]
  rfl

/-- ページの数まで回っても終わらなければ、回り続ける。 -/
theorem check_user_ends (hstart : start < 2 ^ 32) : check_user mapped start size (2 ^ 20 + 2) = none ↔ Spins mapped start (add32 start size) := by
  refine ⟨fun hnone => ?_, fun h => h.check_user hstart⟩
  by_contra hspin
  obtain ⟨fuel, hle, b, hloop, -⟩ := check_loop_ends hstart add32_lt hspin
  have hcheck := check_user_mono (Nat.le_succ_of_le hle) (Option.map_eq_some_iff.mpr ⟨b, hloop, rfl⟩)
  cases hnone.symm.trans hcheck

/-- 検査が通って写したときに正しいのは、どのバイトも利用者のページにあるときである。 -/
theorem CopyOk.of_check (hsize : size < 2 ^ 32) (h : check_user (is_page_mapped m) user size fuel = some b) :
    CopyOk m mem user dst src size (copy_checked m mem user dst src size) ↔ (b = true → UserBytes m user size) := by
  constructor
  · rintro ⟨fuel', r, hr, hok⟩ rfl
    obtain ⟨b', hb', hval⟩ := Option.map_eq_some_iff.mp hr
    obtain rfl := check_user_unique h hb'
    rw [if_pos rfl] at hval
    subst hval
    rcases hok with ⟨-, hbytes, -⟩ | ⟨hret, -⟩
    · exact hbytes
    · cases hret
  · intro hbytes
    unfold CopyOk copy_checked
    cases b with
    | false => exact ⟨fuel, ⟨-1, mem, []⟩, Option.map_eq_some_iff.mpr ⟨false, h, rfl⟩, .inr ⟨rfl, rfl, rfl⟩⟩
    | true =>
      exact ⟨fuel, ⟨0, (copy_loop user dst src size 0 mem).1, (copy_loop user dst src size 0 mem).2⟩,
        Option.map_eq_some_iff.mpr ⟨true, h, rfl⟩, .inl ⟨rfl, hbytes rfl, copy_loop_all hsize⟩⟩

theorem copy_checked_iff (huser : user < 2 ^ 32) (hsize : size < 2 ^ 32) :
    CopyOk m mem user dst src size (copy_checked m mem user dst src size) ↔
      ¬ Spins (is_page_mapped m) user (add32 user size) ∧ Checks m user size := by
  by_cases hspin : Spins (is_page_mapped m) user (add32 user size)
  · refine iff_of_false ?_ fun h => h.1 hspin
    rintro ⟨fuel, r, hr, -⟩
    obtain ⟨b, hb, -⟩ := Option.map_eq_some_iff.mp hr
    cases hb.symm.trans (hspin.check_user huser)
  · obtain ⟨fuel, -, b, hloop, hlooped⟩ := check_loop_ends huser add32_lt hspin
    have hcheck : check_user (is_page_mapped m) user size fuel = some (b && (!decide (add32 user size > user) ||
        is_page_mapped m (add32 user size - 1 - (add32 user size - 1) % 4096))) :=
      Option.map_eq_some_iff.mpr ⟨b, hloop, rfl⟩
    rw [CopyOk.of_check hsize hcheck, and_iff_right hspin]
    by_cases hwrap : user + size < 2 ^ 32
    · refine iff_of_true (fun hb => ?_) (.inl hwrap)
      have hstop : add32 user size = user + size := add32_eq hwrap
      obtain ⟨rfl, hlast⟩ := Bool.and_eq_true_iff.mp hb
      refine hlooped.user_bytes hstop add32_lt fun hlt => ?_
      simpa [hlt] using hlast
    · -- 折り返した終わりは始まりより前なので、最後のバイトは調べない
      have hback : ¬ add32 user size > user := by
        unfold add32
        omega
      have hone : probes user (add32 user size) = 1 := by
        unfold probes
        omega
      rw [decide_eq_false hback, Bool.not_false, Bool.true_or, Bool.and_true]
      unfold Checks
      rw [or_iff_right hwrap]
      cases hlooped with
      | skip h => simp [h]
      | all h hall =>
        have hfirst : is_page_mapped m user = true := hall 0 (by omega)
        simp [h, hfirst]
      | bad h hbad =>
        obtain ⟨k, hk, hbad⟩ := hbad
        obtain rfl : k = 0 := by omega
        have hfirst : is_page_mapped m user = false := hbad
        simp [h, hfirst]

/-- どちらの写しも、調べるループが折り返さず、範囲も折り返さない（折り返しても結果が同じである）とき、そのときに
限って正しい。 -/
theorem copy_user_iff (m : Phys) (mem : ByteMem) (dst src size : Nat) (hdst : dst < 2 ^ 32) (hsrc : src < 2 ^ 32)
    (hsize : size < 2 ^ 32) :
    (CopyOk m mem dst dst src size (copy_to_user m mem dst src size) ↔
      ¬ Spins (is_page_mapped m) dst (add32 dst size) ∧ Checks m dst size) ∧
    (CopyOk m mem src dst src size (copy_from_user m mem dst src size) ↔
      ¬ Spins (is_page_mapped m) src (add32 src size) ∧ Checks m src size) :=
  ⟨copy_checked_iff hdst hsize, copy_checked_iff hsrc hsize⟩

/-- ページ 1 だけを利用者に見せるディレクトリ。 -/
def one_user_page : Phys where
  ram := (ByteMem.store32 (fun _ => 0) 0x1000 0x2007).store32 0x2004 0x3007
  mem_bitmap := fun _ => false
  ref_counts := fun _ => 0
  cur_page_dir := 0x1000
  kernel_page_dir := 0x1000

/-- 見えるページへの写しと、見えないページからの写し。 -/
theorem copy_user_page :
    CopyOk one_user_page (fun _ => 0) 0x1FF8 0x1FF8 0xC0100000 8
        (copy_to_user one_user_page (fun _ => 0) 0x1FF8 0xC0100000 8) ∧
      CopyOk one_user_page (fun _ => 0) 0x2000 0xC0100000 0x2000 8
        (copy_from_user one_user_page (fun _ => 0) 0xC0100000 0x2000 8) :=
  have hto := (copy_user_iff one_user_page (fun _ => 0) 0x1FF8 0xC0100000 8 (by decide) (by decide) (by decide)).1
  have hfrom := (copy_user_iff one_user_page (fun _ => 0) 0xC0100000 0x2000 8 (by decide) (by decide) (by decide)).2
  ⟨hto.mpr ⟨fun h => absurd h.2.2 (by decide), .inl (by decide)⟩,
    hfrom.mpr ⟨fun h => absurd h.2.2 (by decide), .inl (by decide)⟩⟩

/-- 番地 0xFFFFFFFC からの 8 バイトは、調べずに写す。 -/
theorem copy_from_user_wraps : ¬ ∀ (m : Phys) (mem : ByteMem) (dst src size : Nat), dst < 2 ^ 32 → src < 2 ^ 32 →
    size < 2 ^ 32 → CopyOk m mem src dst src size (copy_from_user m mem dst src size) := by
  intro h
  have hok := h one_user_page (fun _ => 0) 0xC0100000 0xFFFFFFFC 8 (by decide) (by decide) (by decide)
  rcases ((copy_checked_iff (by decide) (by decide)).mp hok).2 with hlt | hbytes | ⟨henter, -⟩
  · exact absurd hlt (by decide)
  · exact absurd (hbytes 0 (by decide)) (by decide +kernel)
  · exact absurd henter (by unfold Enters; decide)

end MyOS.Mem
