import MyOS.Elf.Reloc

/-!
# アプリの再配置の定理

`.rel.dyn` の処理は `R_386_32` で加数を捨て、`R_386_GLOB_DAT` と `R_386_JMP_SLOT` でアプリ自身の記号を解決しない。
-/

namespace MyOS.Elf
open MyOS.Lib

variable {m : ByteMem} {d : AppDyn} {globals : List SymEntry} {a v w j n loc sym_idx : Nat}

/-! ## 語の書き込み -/

theorem store32_inj (hv : v < 2 ^ 32) (hw : w < 2 ^ 32) : m.store32 a v = m.store32 a w ↔ v = w := by
  refine ⟨fun h => ?_, fun h => by rw [h]⟩
  calc v = (m.store32 a v).load32 a := (ByteMem.load32_store32_self hv).symm
    _ = (m.store32 a w).load32 a := by rw [h]
    _ = w := ByteMem.load32_store32_self hw

/-- 読んだ語をそのまま書いても変わらない。 -/
theorem store32_load32 (m : ByteMem) (a : Nat) : m.store32 a (m.load32 a) = m := by
  funext x
  have h0 := (m a).toNat_lt
  have h1 := (m (a + 1)).toNat_lt
  have h2 := (m (a + 2)).toNat_lt
  have h3 := (m (a + 3)).toNat_lt
  by_cases hx : x < a ∨ a + 4 ≤ x
  · exact ByteMem.store32_of_outside hx
  · apply UInt8.toNat_inj.mp
    have hcases : x = a ∨ x = a + 1 ∨ x = a + 2 ∨ x = a + 3 := by omega
    rcases hcases with rfl | rfl | rfl | rfl <;> simp [ByteMem.store32, ByteMem.store8, ByteMem.load32] <;> omega

theorem store32_eq_self (hv : v < 2 ^ 32) : m.store32 a v = m ↔ m.load32 a = v := by
  have h := store32_inj (m := m) (a := a) hv (ByteMem.load32_lt m a)
  rw [store32_load32] at h
  rw [h, eq_comm]

theorem eq_store32_self (hv : v < 2 ^ 32) : m = m.store32 a v ↔ m.load32 a = v := by
  rw [eq_comm, store32_eq_self hv]

/-! ## 順に処理する二つの方法 -/

/-- それまでの処理が一致すれば、処理した後のメモリも一致する。 -/
theorem run_entries_eq {f g : ByteMem → Nat → ByteMem}
    (h : ∀ j, j < n → f (run_entries f j m) j = g (run_entries f j m) j) : run_entries f n m = run_entries g n m := by
  induction n with
  | zero => rfl
  | succ n ih =>
    have hrun := ih fun j hj => h j (Nat.lt_succ_of_lt hj)
    rw [run_entries, run_entries, ← hrun]
    exact h n (Nat.lt_succ_self n)

theorem run_entries_agree {f g : ByteMem → Nat → ByteMem} :
    (∀ j, j < n → f (run_entries f j m) j = g (run_entries f j m) j) ↔
      ∀ j, j < n → f (run_entries g j m) j = g (run_entries g j m) j := by
  constructor
  · intro h j hj
    have hrun : run_entries f j m = run_entries g j m := run_entries_eq fun i hi => h i (Nat.lt_trans hi hj)
    rw [← hrun]
    exact h j hj
  · intro h j hj
    have hrun : run_entries g j m = run_entries f j m :=
      run_entries_eq fun i hi => (h i (Nat.lt_trans hi hj)).symm
    rw [← hrun]
    exact h j hj

/-! ## 一つの項目 -/

theorem sym_word (d : AppDyn) (m : ByteMem) (sym_idx : Nat) : (d.sym m sym_idx).st_value < 2 ^ 32 :=
  ByteMem.load32_lt _ _

theorem add32_offset (h : v < 2 ^ 32) : add32 v app_reloc_offset = v := Nat.mod_eq_of_lt h

theorem sub32_lt : sub32 v w < 2 ^ 32 := Nat.mod_lt _ (by decide)

theorem add32_left (hv : v < 2 ^ 32) (hw : w < 2 ^ 32) : v = add32 v w ↔ w = 0 := by
  unfold add32
  omega

theorem sub32_add32 (hv : v < 2 ^ 32) (hw : w < 2 ^ 32) (ha : a < 2 ^ 32) : w = sub32 (add32 v w) a ↔ v = a := by
  unfold sub32 add32
  omega

/-- 記号の解決の四つの場合と、それぞれの値。 -/
inductive Lookup (d : AppDyn) (globals : List SymEntry) (m : ByteMem) (sym_idx : Nat) : Prop
  | skip (h : d.has_sym sym_idx = false) (hr : resolve d globals m sym_idx = none)
  | found (g : SymEntry) (h : d.has_sym sym_idx = true)
      (hg : find_global m globals (d.sym_name m sym_idx) = some g) (hr : resolve d globals m sym_idx = some g.addr)
  | undef (h : Own d globals m sym_idx) (hu : (d.sym m sym_idx).st_shndx = SHN_UNDEF)
      (hr : resolve d globals m sym_idx = none)
  | own (h : Own d globals m sym_idx) (hu : (d.sym m sym_idx).st_shndx ≠ SHN_UNDEF)
      (hr : resolve d globals m sym_idx = some (d.sym m sym_idx).st_value)

theorem lookup (d : AppDyn) (globals : List SymEntry) (m : ByteMem) (sym_idx : Nat) : Lookup d globals m sym_idx := by
  cases h : d.has_sym sym_idx with
  | false => exact .skip h (by simp [resolve, h])
  | true =>
    cases hg : find_global m globals (d.sym_name m sym_idx) with
    | some g => exact .found g h hg (by simp [resolve, h, hg])
    | none =>
      by_cases hu : (d.sym m sym_idx).st_shndx = SHN_UNDEF
      · exact .undef ⟨h, hg⟩ hu (by simp [resolve, h, hg, hu])
      · exact .own ⟨h, hg⟩ hu (by simp [resolve, h, hg, hu])

theorem Own.sym_or_own (h : Own d globals m sym_idx) :
    Elf.sym_or_own d globals m sym_idx = (d.sym m sym_idx).st_value := by
  unfold Elf.sym_or_own
  rw [h.2]
  exact add32_offset (sym_word d m sym_idx)

theorem Own.sym_or_zero (h : Own d globals m sym_idx) : Elf.sym_or_zero d globals m sym_idx = 0 := by
  unfold Elf.sym_or_zero
  rw [h.2]

theorem abs_iff (d : AppDyn) (globals : List SymEntry) (m : ByteMem) (loc sym_idx : Nat) :
    (if d.has_sym sym_idx then m.store32 loc (sym_or_own d globals m sym_idx) else m) =
        (match resolve d globals m sym_idx with
          | none => m
          | some S => m.store32 loc (add32 S (m.load32 loc))) ↔
      (∀ S, resolve d globals m sym_idx = some S → m.load32 loc = 0) ∧
        (Own d globals m sym_idx → (d.sym m sym_idx).st_shndx = SHN_UNDEF → m.load32 loc = (d.sym m sym_idx).st_value) := by
  have hA := ByteMem.load32_lt m loc
  cases lookup d globals m sym_idx with
  | skip h hr => simp [h, hr, Own]
  | found g h hg hr =>
    have hval : sym_or_own d globals m sym_idx = g.addr := by simp [sym_or_own, hg]
    simp [h, hr, hg, hval, Own, store32_inj g.word add32_lt, add32_left g.word hA]
  | undef h hu hr => simp [h.1, hr, hu, h, h.sym_or_own, store32_eq_self (sym_word d m sym_idx)]
  | own h hu hr =>
    simp [h.1, hr, hu, h.sym_or_own, store32_inj (sym_word d m sym_idx) add32_lt, add32_left (sym_word d m sym_idx) hA]

theorem pc_iff (d : AppDyn) (globals : List SymEntry) (m : ByteMem) (hloc : loc < 2 ^ 32) (sym_idx : Nat) :
    (if d.has_sym sym_idx then
        m.store32 loc (sub32 (add32 (sym_or_own d globals m sym_idx) (m.load32 loc)) loc) else m) =
        (match resolve d globals m sym_idx with
          | none => m
          | some S => m.store32 loc (sub32 (add32 S (m.load32 loc)) loc)) ↔
      (Own d globals m sym_idx → (d.sym m sym_idx).st_shndx = SHN_UNDEF → (d.sym m sym_idx).st_value = loc) := by
  have hA := ByteMem.load32_lt m loc
  cases lookup d globals m sym_idx with
  | skip h hr => simp [h, hr, Own]
  | found g h hg hr => simp [h, hr, hg, Own, sym_or_own]
  | undef h hu hr =>
    simp [h.1, hr, hu, h, h.sym_or_own, store32_eq_self sub32_lt, sub32_add32 (sym_word d m sym_idx) hA hloc]
  | own h hu hr => simp [h.1, hr, hu, h.sym_or_own]

theorem slot_iff (d : AppDyn) (globals : List SymEntry) (m : ByteMem) (loc sym_idx : Nat) :
    write_slot d globals m loc sym_idx =
        (match resolve d globals m sym_idx with
          | none => m
          | some S => m.store32 loc S) ↔
      (Global d globals m sym_idx 0 → m.load32 loc = 0) ∧
        (Own d globals m sym_idx → (d.sym m sym_idx).st_shndx ≠ SHN_UNDEF → m.load32 loc = (d.sym m sym_idx).st_value) := by
  unfold write_slot
  cases lookup d globals m sym_idx with
  | skip h hr => simp [h, hr, Own, Global]
  | found g h hg hr =>
    have hval : sym_or_zero d globals m sym_idx = g.addr := by simp [sym_or_zero, hg]
    by_cases hz : g.addr = 0
    · simp [h, hr, hg, hval, hz, Own, Global, eq_store32_self (v := 0) (by decide)]
    · simp [h, hr, hg, hval, hz, Own, Global]
  | undef h hu hr => simp [h.1, hr, hu, h.2, h.sym_or_zero, Global]
  | own h hu hr => simp [h.1, hr, hu, h, h.2, h.sym_or_zero, Global, eq_store32_self (sym_word d m sym_idx)]

/-- 種類ごとに、一つの条件だけが残る。 -/
theorem entry_ok_iff {type : Nat} : EntryOk d globals m type loc sym_idx ↔
    (type = R_386_32 → (∀ S, resolve d globals m sym_idx = some S → m.load32 loc = 0) ∧
      (Own d globals m sym_idx → (d.sym m sym_idx).st_shndx = SHN_UNDEF → m.load32 loc = (d.sym m sym_idx).st_value)) ∧
    (type = R_386_PC32 → Own d globals m sym_idx → (d.sym m sym_idx).st_shndx = SHN_UNDEF →
      (d.sym m sym_idx).st_value = loc) ∧
    (type = R_386_GLOB_DAT ∨ type = R_386_JMP_SLOT → (Global d globals m sym_idx 0 → m.load32 loc = 0) ∧
      (Own d globals m sym_idx → (d.sym m sym_idx).st_shndx ≠ SHN_UNDEF →
        m.load32 loc = (d.sym m sym_idx).st_value)) :=
  ⟨fun h => ⟨h.abs, h.pc, h.slot⟩, fun h => ⟨h.1, h.2.1, h.2.2⟩⟩

/-- 一つの項目の処理が式と同じになるのは、その項目の条件が成り立つとき、そのときに限る。 -/
theorem apply_rel_iff (d : AppDyn) (globals : List SymEntry) (m : ByteMem) (j : Nat) :
    apply_rel d globals m j = formula d globals m j ↔
      EntryOk d globals m (ELF32_R_TYPE (Elf32_Rel.read m (entry_at d.rel Elf32_Rel.size j)).r_info)
        (Elf32_Rel.read m (entry_at d.rel Elf32_Rel.size j)).r_offset
        (ELF32_R_SYM (Elf32_Rel.read m (entry_at d.rel Elf32_Rel.size j)).r_info) := by
  have hloc : (Elf32_Rel.read m (entry_at d.rel Elf32_Rel.size j)).r_offset < 2 ^ 32 := ByteMem.load32_lt _ _
  rw [entry_ok_iff]
  unfold apply_rel formula
  generalize Elf32_Rel.read m (entry_at d.rel Elf32_Rel.size j) = r at hloc ⊢
  dsimp only
  generalize ELF32_R_TYPE r.r_info = type
  by_cases hrel : type = R_386_RELATIVE
  · simp [hrel, add32, app_reloc_offset, R_386_RELATIVE, R_386_32, R_386_PC32, R_386_GLOB_DAT, R_386_JMP_SLOT]
  by_cases habs : type = R_386_32
  · subst habs
    refine (abs_iff d globals m r.r_offset _).trans ?_
    simp [R_386_32, R_386_PC32, R_386_GLOB_DAT, R_386_JMP_SLOT]
  by_cases hpc : type = R_386_PC32
  · subst hpc
    refine (pc_iff d globals m hloc _).trans ?_
    simp [R_386_32, R_386_PC32, R_386_GLOB_DAT, R_386_JMP_SLOT]
  by_cases hslot : type = R_386_GLOB_DAT ∨ type = R_386_JMP_SLOT
  · have h := slot_iff d globals m r.r_offset (ELF32_R_SYM r.r_info)
    simp only [if_neg hrel, if_neg habs, if_neg hpc, if_pos hslot]
    refine h.trans ?_
    simp [habs, hpc, hslot]
  · simp only [if_neg hrel, if_neg habs, if_neg hpc, if_neg hslot]
    refine iff_of_true ?_ ⟨fun h => absurd h habs, fun h => absurd h hpc, fun h => absurd h hslot⟩
    cases resolve d globals m (ELF32_R_SYM r.r_info) <;> rfl

/-! ## 表の全体 -/

/-- どの項目にも式を当てはめるのは、どの項目でも条件が成り立つとき、そのときに限る。 -/
theorem rel_dyn_iff (d : AppDyn) (globals : List SymEntry) (m : ByteMem) :
    RelDynOk d globals m ↔ EntriesOk d globals m := by
  unfold RelDynOk EntriesOk
  simp only [run_entries, ← apply_rel_iff]
  exact run_entries_agree

/-- 記号 1 は `0x1001` の名前を持ち、`0x5000` の語 4 が加数である。名前はライブラリの `0x6000` の名前と同じ。 -/
def offset_image : ByteMem :=
  [(0x2010, 1), (0x1001, 0x78), (0x6000, 0x78), (0x4000, 0x5000), (0x4004, 0x101), (0x5000, 4)].foldl
    (fun m w => m.store32 w.1 w.2) fun _ => 0

/-- `R_386_32` の加数は捨てられる。 -/
theorem rel_dyn_addend : ¬ ∀ (d : AppDyn) (globals : List SymEntry) (m : ByteMem), RelDynOk d globals m := by
  intro h
  have hstep := h ⟨0x1000, 0x2000, 0x4000, 8, 0, 0⟩ [⟨0x6000, 0x40001000, by decide⟩] offset_image 0 (by decide)
  have hok := (apply_rel_iff _ _ _ _).mp hstep
  have hsum := (hok.abs (by decide)).1 0x40001000 (by decide +kernel)
  revert hsum
  decide

end MyOS.Elf
