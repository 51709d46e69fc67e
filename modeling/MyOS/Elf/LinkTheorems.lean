import MyOS.Elf.Link
import MyOS.Elf.SharedTheorems

/-!
# ライブラリの読み込みの定理

`DT_NEEDED` のない道は、`load_shared_library` の戻り値をライブラリの番地として使う。戻り値は、置いたイメージの終わりである。
-/

namespace MyOS.Elf
open MyOS.Lib MyOS.Mem

variable {s s' : Loader} {f : File} {uses : List Use} {globals globals' : List SymEntry} {dyns : ByteMem}
  {base base' load_addr k n fuel top dyn_strtab d_val : Nat}

/-! ## 戻り値 -/

theorem load_shared_library_ret {junk : Nat → Nat → ByteMem} (hlib : is_library (f.ehdr (junk 0 0)) = true)
    (h : load_shared_library s (some f) load_addr junk fuel = some (s', top, uses)) :
    top = add32 load_addr (image_size f junk) := by
  unfold load_shared_library at h
  dsimp only at h
  rw [if_pos hlib] at h
  obtain ⟨⟨s₁, uses₁⟩, -, h⟩ := Option.bind_eq_some_iff.mp h
  obtain ⟨⟨s₂, uses₂⟩, -, h⟩ := Option.bind_eq_some_iff.mp h
  cases h
  rfl

theorem load_shared_library_refused {junk : Nat → Nat → ByteMem} (hlib : ¬ is_library (f.ehdr (junk 0 0)) = true)
    (h : load_shared_library s (some f) load_addr junk fuel = some (s', top, uses)) : top = 0 := by
  unfold load_shared_library at h
  dsimp only at h
  rw [if_neg hlib] at h
  cases h
  rfl

theorem image_size_lt (f : File) (junk : Nat → Nat → ByteMem) : image_size f junk < 2 ^ 32 := sub32_lt

theorem libc_top_zero (h : n < 2 ^ 32) : add32 SHLIB_BASE n = 0 ↔ n = 2 ^ 32 - SHLIB_BASE := by
  unfold add32 SHLIB_BASE
  omega

theorem libc_top_base (h : n < 2 ^ 32) : add32 SHLIB_BASE n = SHLIB_BASE ↔ n = 0 := by
  unfold add32 SHLIB_BASE
  omega

/-! ## 記号の表を読まないライブラリ -/

/-- 走査で最後に見つけた `DT_HASH` の値。 -/
def hash_off (dyns : ByteMem) (fuel : Nat) : Option Nat :=
  scan_dyn (fun hash_off d => if d.d_tag = DT_HASH then d.d_un else hash_off) dyns fuel 0 0

/-- 記号の表か文字列の表がないか、ハッシュ表の記号の数が 1 以下である。 -/
def NoTable (f : File) (junk : Nat → Nat → ByteMem) (fuel : Nat) : Prop :=
  ∀ ph, (f.phdrs (f.ehdr (junk 0 0)) (junk 1)).find? is_dynamic = some ph →
    NoPointer [DT_SYMTAB] (f.read (junk 2 0) ph.p_offset ph.p_filesz) ∨
    NoPointer [DT_STRTAB] (f.read (junk 2 0) ph.p_offset ph.p_filesz) ∨
    ∀ off, hash_off (f.read (junk 2 0) ph.p_offset ph.p_filesz) fuel = some off → sym_count f (junk 3 0) off ≤ 1

theorem export_dyn_hash_off (base : Nat) (t : LibDyn) (d : Elf32_Dyn) :
    (export_dyn base t d).hash_off = if d.d_tag = DT_HASH then d.d_un else t.hash_off := by
  unfold export_dyn
  split
  next h => rw [if_neg (h ▸ by decide)]
  split
  next h => rw [if_neg (h ▸ by decide)]
  split <;> rfl

/-- どの `base` で走査しても終わり方は同じで、`DT_HASH` の値も同じである。 -/
theorem scan_hash_off {t : LibDyn} (h : scan_dyn (collect (export_dyn base) export_tags base) dyns fuel 0 (.null, []) =
    some (t, uses)) : hash_off dyns fuel = some t.hash_off := by
  have hstep : ∀ (x : LibDyn × List Use) (y : Nat) d, x.1.hash_off = y →
      (collect (export_dyn base) export_tags base x d).1.hash_off = if d.d_tag = DT_HASH then d.d_un else y := by
    rintro x y d rfl
    exact export_dyn_hash_off base x.1 d
  obtain ⟨off, hoff, rfl⟩ := scan_dyn_rel _ hstep rfl h
  exact hoff

theorem scan_export_total (base' : Nat) {t : LibDyn}
    (h : scan_dyn (collect (export_dyn base) export_tags base) dyns fuel 0 (.null, []) = some (t, uses)) :
    ∃ t' uses', scan_dyn (collect (export_dyn base') export_tags base') dyns fuel 0 (.null, []) = some (t', uses') := by
  obtain ⟨⟨t', uses'⟩, h', -⟩ := scan_dyn_rel (R := fun _ _ => True) (y := (LibDyn.null, []))
    (collect (export_dyn base') export_tags base') (fun _ _ _ _ => trivial) trivial h
  exact ⟨t', uses', h'⟩

theorem scan_no_symtab {t : LibDyn} (hno : NoPointer [DT_SYMTAB] dyns)
    (h : scan_dyn (collect (export_dyn base) export_tags base) dyns fuel 0 (.null, []) = some (t, uses)) :
    t.symtab = 0 := by
  have hstep : ∀ (x : LibDyn × List Use) d, d.d_tag ∉ [DT_SYMTAB] →
      (collect (export_dyn base) export_tags base x d).1.symtab = x.1.symtab := by
    intro x d hd
    rw [List.mem_singleton] at hd
    unfold collect export_dyn
    dsimp only
    rw [if_neg hd]
    split <;> [rfl; split <;> rfl]
  exact scan_keeps (g := fun x : LibDyn × List Use => x.1.symtab) hstep hno h

theorem scan_no_strtab {t : LibDyn} (hno : NoPointer [DT_STRTAB] dyns)
    (h : scan_dyn (collect (export_dyn base) export_tags base) dyns fuel 0 (.null, []) = some (t, uses)) :
    t.strtab = 0 := by
  have hstep : ∀ (x : LibDyn × List Use) d, d.d_tag ∉ [DT_STRTAB] →
      (collect (export_dyn base) export_tags base x d).1.strtab = x.1.strtab := by
    intro x d hd
    rw [List.mem_singleton] at hd
    unfold collect export_dyn
    dsimp only
    rw [if_neg hd]
    split <;> [rfl; split <;> rfl]
  exact scan_keeps (g := fun x : LibDyn × List Use => x.1.strtab) hstep hno h

/-- 記号を集め終えたなら、動的セクションの走査は終わった。 -/
theorem export_scanned {junk : Nat → Nat → ByteMem} {ph : Elf32_Phdr}
    (hph : (f.phdrs (f.ehdr (junk 0 0)) (junk 1)).find? is_dynamic = some ph)
    (h : export_symbols s f base junk fuel globals = some (globals', uses)) : ∃ t uses₀,
      scan_dyn (collect (export_dyn base) export_tags base) (f.read (junk 2 0) ph.p_offset ph.p_filesz) fuel 0
        (.null, []) = some (t, uses₀) := by
  unfold export_symbols at h
  dsimp only at h
  rw [hph] at h
  obtain ⟨⟨t, uses₀⟩, hscan, -⟩ := Option.bind_eq_some_iff.mp h
  exact ⟨t, uses₀, hscan⟩

section

variable {junk : Nat → Nat → ByteMem} {ph : Elf32_Phdr} {t : LibDyn}
  (hph : (f.phdrs (f.ehdr (junk 0 0)) (junk 1)).find? is_dynamic = some ph)
  (hscan : scan_dyn (collect (export_dyn base) export_tags base) (f.read (junk 2 0) ph.p_offset ph.p_filesz) fuel 0
    (.null, []) = some (t, uses))
include hph hscan

theorem export_symbols_eq : export_symbols s f base junk fuel globals =
    if t.symtab ≠ 0 ∧ t.strtab ≠ 0 ∧ sym_count f (junk 3 0) t.hash_off > 0 then
      (export_loop s t base (sym_count f (junk 3 0) t.hash_off - 1) 1 globals).map fun r => (r.1, uses ++ r.2)
    else some (globals, uses) := by
  unfold export_symbols
  dsimp only
  rw [hph]
  dsimp only
  rw [hscan]
  dsimp only [Option.bind_eq_bind, Option.bind_some]
  split
  · cases export_loop s t base (sym_count f (junk 3 0) t.hash_off - 1) 1 globals <;> rfl
  · rfl

theorem export_symbols_idle (hno : NoTable f junk fuel) :
    export_symbols s f base junk fuel globals = some (globals, uses) := by
  rw [export_symbols_eq hph hscan]
  split
  next hc =>
    rcases hno ph hph with hno | hno | hno
    · exact absurd (scan_no_symtab hno hscan) hc.1
    · exact absurd (scan_no_strtab hno hscan) hc.2.1
    · have hcount := hno _ (scan_hash_off hscan)
      rw [Nat.sub_eq_zero_of_le hcount, export_loop, Option.map_some, List.append_nil]
  next => rfl

end

/-- 記号の表を読まなければ、どの `base` でも表は変わらない。 -/
theorem export_no_table (base' : Nat) {junk : Nat → Nat → ByteMem} (hno : NoTable f junk fuel)
    (h : export_symbols s f base junk fuel globals = some (globals', uses)) :
    globals' = globals ∧ ∃ uses', export_symbols s f base' junk fuel globals = some (globals, uses') := by
  cases hph : (f.phdrs (f.ehdr (junk 0 0)) (junk 1)).find? is_dynamic with
  | none =>
    have hnone : ∀ b, export_symbols s f b junk fuel globals = some (globals, []) := by
      intro b
      unfold export_symbols
      dsimp only
      rw [hph]
    rw [hnone] at h
    cases h
    exact ⟨rfl, _, hnone base'⟩
  | some ph =>
    obtain ⟨t, uses₀, hscan⟩ := export_scanned hph h
    rw [export_symbols_idle hph hscan hno] at h
    cases h
    obtain ⟨t', uses', hscan'⟩ := scan_export_total base' hscan
    exact ⟨rfl, uses', export_symbols_idle hph hscan' hno⟩

/-! ## 二つの道 -/

section

variable {files : List UInt8 → Option File} {junk : Nat → Nat → Nat → ByteMem} {l : Linked}

/-- 二つの道で記号の表が同じになる条件。`libc.so` を読めないか、終わりが始めの番地か 0 であるか、記号の表を読まない。 -/
def SameTables (files : List UInt8 → Option File) (junk : Nat → Nat → Nat → ByteMem) (fuel : Nat) : Prop :=
  ∀ f, files (LIB_DIR ++ LIBC_NAME) = some f → is_library (f.ehdr (junk 0 0 0)) = true →
    image_size f (junk 0) = 0 ∨ image_size f (junk 0) = 2 ^ 32 - SHLIB_BASE ∨ NoTable f (junk 1) fuel

/-- `libc.so` を読んだ後、終わりの番地から数えた記号の表は `NULL` ではなく、その 1 番目の項目は写していない。 -/
def ShiftedFree (files : List UInt8 → Option File) (junk : Nat → Nat → Nat → ByteMem) (fuel : Nat) (s : Loader) : Prop :=
  ∀ f ph s' top uses t uses', files (LIB_DIR ++ LIBC_NAME) = some f →
    load_shared_library s (some f) SHLIB_BASE (junk 0) fuel = some (s', top, uses) →
    (f.phdrs (f.ehdr (junk 1 0 0)) (junk 1 1)).find? is_dynamic = some ph →
    scan_dyn (collect (export_dyn top) export_tags top) (f.read (junk 1 2 0) ph.p_offset ph.p_filesz) fuel 0 (.null, []) =
      some (t, uses') →
    (NoPointer [DT_SYMTAB] (f.read (junk 1 2 0) ph.p_offset ph.p_filesz) ∨ t.symtab ≠ 0) ∧
      (NoPointer [DT_STRTAB] (f.read (junk 1 2 0) ph.p_offset ph.p_filesz) ∨ t.strtab ≠ 0) ∧
      s'.mapped (entry_at t.symtab Elf32_Sym.size 1) Elf32_Sym.size = false

/-- `libc.so` だけの `DT_NEEDED` の道。 -/
theorem needed_libc (hname : s.name LIB_NAME_MAX (add32 dyn_strtab d_val) = some LIBC_NAME)
    (h : load_libraries files junk fuel dyn_strtab [d_val] s = some l) : ∃ s' top uses,
      load_shared_library s (files (LIB_DIR ++ LIBC_NAME)) SHLIB_BASE (junk 0) fuel = some (s', top, uses) ∧ l.s = s' ∧
      (top = 0 ∧ l.globals = [] ∨ top ≠ 0 ∧ ∃ f uses', files (LIB_DIR ++ LIBC_NAME) = some f ∧
        export_symbols s' f SHLIB_BASE (junk 1) fuel [] = some (l.globals, uses')) := by
  obtain ⟨l₁, h₁, h⟩ := Option.bind_eq_some_iff.mp h
  rw [if_neg (List.cons_ne_nil _ _)] at h
  cases h
  obtain ⟨l₁, h₁, h⟩ := Option.bind_eq_some_iff.mp h₁
  cases h
  obtain ⟨name, hn, h⟩ := Option.bind_eq_some_iff.mp h₁
  cases hn.symm.trans hname
  obtain ⟨⟨s', top, uses⟩, hload, h⟩ := Option.bind_eq_some_iff.mp h
  refine ⟨s', top, uses, hload, ?_⟩
  dsimp only at h
  split at h
  next htop =>
    cases h
    exact ⟨rfl, .inl ⟨htop, rfl⟩⟩
  next htop =>
    cases hf : files (LIB_DIR ++ LIBC_NAME) with
    | none =>
      rw [hf] at hload
      cases hload
      exact absurd rfl htop
    | some f =>
      rw [hf] at h
      obtain ⟨⟨globals, uses'⟩, hexport, hl⟩ := Option.map_eq_some_iff.mp h
      subst hl
      exact ⟨rfl, .inr ⟨htop, f, uses', rfl, hexport⟩⟩

/-- `DT_NEEDED` のない道。 -/
theorem default_libc (dyn_strtab : Nat) {uses : List Use}
    (hload : load_shared_library s (files (LIB_DIR ++ LIBC_NAME)) SHLIB_BASE (junk 0) fuel = some (s', top, uses)) :
    load_libraries files junk fuel dyn_strtab [] s =
      if top ≠ 0 then
        match files (LIB_DIR ++ LIBC_NAME) with
        | none => some (.init s')
        | some f => (export_symbols s' f top (junk 1) fuel []).map fun (globals, _) => ⟨s', SHLIB_BASE, globals, []⟩
      else some (.init s') := by
  unfold load_libraries load_all_needed load_default
  dsimp only [Option.bind_eq_bind, Option.bind_some, Linked.init]
  rw [if_pos rfl, hload]
  rfl

theorem Agree.of_globals {l l' : Linked} (hs : l'.s = l.s) (hg : l'.globals = l.globals) : Agree l l' := by
  refine ⟨fun sym_name a ha => ?_, fun d m => ?_⟩
  · unfold Linked.addr at ha ⊢
    rw [hs, hg]
    exact ha
  · rw [hg]
    exact ⟨rfl, rfl⟩

/-- 条件が成り立てば、二つの道は同じ記号の表を作る。ずらした表が写していなければ、条件が成り立たないと、`DT_NEEDED` の
    ない道ではカーネルが止まる。 -/
theorem library_paths (hname : s.name LIB_NAME_MAX (add32 dyn_strtab d_val) = some LIBC_NAME)
    (hneeded : load_libraries files junk fuel dyn_strtab [d_val] s = some l) :
    (SameTables files junk fuel → ∃ l', load_libraries files junk fuel dyn_strtab [] s = some l' ∧ Agree l l') ∧
      (ShiftedFree files junk fuel s → (∃ l', load_libraries files junk fuel dyn_strtab [] s = some l' ∧ Agree l l') →
        SameTables files junk fuel) := by
  obtain ⟨s', top, uses, hload, hs, hexport⟩ := needed_libc hname hneeded
  have hdefault := default_libc dyn_strtab hload
  rcases hexport with ⟨htop, hg⟩ | ⟨htop, f, uses', hf, hexport⟩
  · -- ライブラリを読めなかった
    rw [if_neg (not_not.mpr htop)] at hdefault
    refine ⟨fun _ => ⟨_, hdefault, .of_globals hs.symm hg.symm⟩, fun _ _ f hf hlib => .inr (.inl ?_)⟩
    rw [hf] at hload
    exact (libc_top_zero (image_size_lt f _)).mp ((load_shared_library_ret hlib hload).symm.trans htop)
  · rw [hf] at hload hdefault
    have hlib : is_library (f.ehdr (junk 0 0 0)) = true :=
      by_contra fun hno => htop (load_shared_library_refused hno hload)
    have hret := load_shared_library_ret hlib hload
    rw [if_pos htop] at hdefault
    dsimp only at hdefault
    constructor
    · intro hsame
      have hfound : ∃ uses', export_symbols s' f top (junk 1) fuel [] = some (l.globals, uses') := by
        rcases hsame f hf hlib with hzero | hwrap | hno
        · have hbase : top = SHLIB_BASE := hret.trans ((libc_top_base (image_size_lt f _)).mpr hzero)
          rw [hbase]
          exact ⟨uses', hexport⟩
        · exact absurd (hret.trans ((libc_top_zero (image_size_lt f _)).mpr hwrap)) htop
        · obtain ⟨hg, hother⟩ := export_no_table top hno hexport
          rw [hg]
          exact hother
      obtain ⟨uses'', hother⟩ := hfound
      rw [hother] at hdefault
      exact ⟨_, hdefault, .of_globals hs.symm rfl⟩
    · rintro hfree ⟨l', hl', -⟩ f' hf' -
      cases hf.symm.trans hf'
      by_cases hbase : top = SHLIB_BASE
      · exact .inl ((libc_top_base (image_size_lt f _)).mp (hret.symm.trans hbase))
      · refine .inr (.inr fun ph hph => ?_)
        obtain ⟨t₀, uses₀, hscan₀⟩ := export_scanned hph hexport
        obtain ⟨t, uses₁, hscan⟩ := scan_export_total top hscan₀
        obtain ⟨hsymtab, hstrtab, hunmapped⟩ := hfree f ph s' top uses t uses₁ hf hload hph hscan
        refine hsymtab.imp_right fun hsymtab => hstrtab.imp_right fun hstrtab off hoff => ?_
        -- 三つの条件がそろうと、写していない項目を読む
        by_contra hcount
        cases (scan_hash_off hscan).symm.trans hoff
        rw [hdefault, export_symbols_eq hph hscan, if_pos ⟨hsymtab, hstrtab, by omega⟩] at hl'
        obtain ⟨n, hn⟩ : ∃ n, sym_count f (junk 1 3 0) t.hash_off - 1 = n + 1 := ⟨_, (Nat.succ_pred (by omega)).symm⟩
        rw [hn, export_loop, Loader.sym, if_neg (by rw [hunmapped]; decide)] at hl'
        cases hl'

end

/-- 記号 `f` を定義する 196 バイトのライブラリ。 -/
def exporting_library : File where
  bytes := [(0, 0x464C457F), (4, 0x10101), (16, 0x30003), (28, 52), (40, 0x200034), (44, 2), (52, PT_LOAD), (68, 196),
    (72, 196), (76, 7), (84, PT_DYNAMIC), (88, 116), (100, 32), (116, DT_STRTAB), (120, 192), (124, DT_SYMTAB), (128, 160),
    (132, DT_HASH), (136, 148), (148, 1), (152, 2), (176, 1), (180, 0x10), (188, 0x10012), (192, 0x6600)].foldl
    (fun m w => ByteMem.store32 m w.1 w.2) fun _ => 0
  size := 196
  word := by decide

/-- 文字列の表の `0x8048001` に `libc.so` がある。 -/
def app_loader : Loader where
  space := (alloc_mem_area blank_space 0x8048000 4096 VMA_USER).getD blank_space
  mem := [(0x8048001, 0x6362696C), (0x8048005, 0x6F732E)].foldl (fun m w => ByteMem.store32 m w.1 w.2) fun _ => 0

/-- 動的セクションのないライブラリ。 -/
def plain_library : File := { exporting_library with bytes := ByteMem.store32 exporting_library.bytes 44 1 }

/-- 記号の表が二つ目のページにあるライブラリ。ずらした表は、写していないページにある。 -/
def page_library : File where
  bytes := [(0, 0x464C457F), (4, 0x10101), (16, 0x30003), (28, 52), (40, 0x200034), (44, 3), (52, PT_LOAD), (68, 192),
    (72, 192), (76, 7), (84, PT_LOAD), (88, 192), (92, 0x1000), (100, 36), (104, 36), (108, 7), (116, PT_DYNAMIC), (120, 148),
    (132, 32), (148, DT_STRTAB), (152, 0x1020), (156, DT_SYMTAB), (160, 0x1000), (164, DT_HASH), (168, 180), (180, 1), (184, 2),
    (208, 1), (212, 0x10), (220, 0x10012), (224, 0x6600)].foldl
    (fun m w => ByteMem.store32 m w.1 w.2) fun _ => 0
  size := 228
  word := by decide

def page_dynamic : Elf32_Phdr := ⟨PT_DYNAMIC, 148, 0, 32, 0, 0⟩

theorem page_library_shifted : ShiftedFree (fun _ => some page_library) (fun _ => blank_junk) 4 app_loader := by
  rintro f ph s' top uses t uses' ⟨⟩ hload hph hscan
  have hrun : (load_shared_library app_loader (some page_library) SHLIB_BASE blank_junk 4).all (fun x =>
      x.2.1 == 0x40001024 && !x.1.mapped 0x40002034 Elf32_Sym.size) = true := by decide +kernel
  have hdyn : (page_library.phdrs (page_library.ehdr (blank_junk 0 0)) (blank_junk 1)).find? is_dynamic = some page_dynamic := by
    decide +kernel
  have hptr : (scan_dyn (collect (export_dyn 0x40001024) export_tags 0x40001024)
      (page_library.read (blank_junk 2 0) page_dynamic.p_offset page_dynamic.p_filesz) 4 0 (.null, [])).map
      (fun x => (x.1.symtab, x.1.strtab)) = some (0x40002024, 0x40002044) := by decide +kernel
  rw [hload, Option.all_some, Bool.and_eq_true, beq_iff_eq, Bool.not_eq_true'] at hrun
  obtain rfl := Option.some.inj (hdyn.symm.trans hph)
  obtain rfl : top = 0x40001024 := hrun.1
  rw [hscan] at hptr
  obtain ⟨hsymtab, hstrtab⟩ := Prod.mk.inj (Option.some.inj hptr)
  refine ⟨.inr (by rw [hsymtab]; decide), .inr (by rw [hstrtab]; decide), ?_⟩
  rw [hsymtab]
  exact hrun.2

/-- 動的セクションのない `libc.so` では二つの道が同じ表を作り、記号の表が二つ目のページにある `libc.so` では `DT_NEEDED` のない道で
    カーネルが止まる。 -/
theorem library_paths_page :
    (∃ l l', load_libraries (fun _ => some plain_library) (fun _ => blank_junk) 4 0x8048000 [1] app_loader = some l ∧
      load_libraries (fun _ => some plain_library) (fun _ => blank_junk) 4 0x8048000 [] app_loader = some l' ∧ Agree l l') ∧
    ∃ l, load_libraries (fun _ => some page_library) (fun _ => blank_junk) 4 0x8048000 [1] app_loader = some l ∧
      ¬ ∃ l', load_libraries (fun _ => some page_library) (fun _ => blank_junk) 4 0x8048000 [] app_loader = some l' ∧ Agree l l' := by
  have hname : app_loader.name LIB_NAME_MAX (add32 0x8048000 1) = some LIBC_NAME := by decide +kernel
  constructor
  · have hrun : (load_libraries (fun _ => some plain_library) (fun _ => blank_junk) 4 0x8048000 [1] app_loader).isSome = true := by
      decide +kernel
    have hnone : (plain_library.phdrs (plain_library.ehdr (blank_junk 0 0)) (blank_junk 1)).find? is_dynamic = none := by
      decide +kernel
    obtain ⟨l, hl⟩ := Option.isSome_iff_exists.mp hrun
    have hsame : SameTables (fun _ => some plain_library) (fun _ => blank_junk) 4 := by
      rintro f ⟨⟩ -
      refine .inr (.inr fun ph hph => ?_)
      cases hnone.symm.trans hph
    obtain ⟨l', hl', hagree⟩ := (library_paths hname hl).1 hsame
    exact ⟨l, l', hl, hl', hagree⟩
  · have hrun : (load_libraries (fun _ => some page_library) (fun _ => blank_junk) 4 0x8048000 [1] app_loader).isSome = true := by
      decide +kernel
    obtain ⟨l, hl⟩ := Option.isSome_iff_exists.mp hrun
    refine ⟨l, hl, fun hagree => ?_⟩
    have hdyn : (page_library.phdrs (page_library.ehdr (blank_junk 0 0)) (blank_junk 1)).find? is_dynamic = some page_dynamic := by
      decide +kernel
    have hsize : image_size page_library blank_junk = 0x1024 := by decide +kernel
    rcases (library_paths hname hl).2 page_library_shifted hagree page_library rfl (by decide +kernel) with h | h | h
    · cases hsize.symm.trans h
    · rw [hsize] at h
      revert h
      decide
    · rcases h _ hdyn with h | h | h
      · exact h 1 (by decide +kernel) (by decide +kernel)
      · exact h 0 (by decide +kernel) (by decide +kernel)
      · have hcount := h 180 (by decide +kernel)
        revert hcount
        decide +kernel

/-- `DT_NEEDED` のある道は `f` を `0x40000010` に見つけるが、ない道は見つけない。 -/
theorem library_paths_differ : ¬ ∀ (files : List UInt8 → Option File) (junk : Nat → Nat → Nat → ByteMem)
    (fuel dyn_strtab d_val : Nat) (s : Loader) (l : Linked),
    s.name LIB_NAME_MAX (add32 dyn_strtab d_val) = some LIBC_NAME →
    load_libraries files junk fuel dyn_strtab [d_val] s = some l →
    ∃ l', load_libraries files junk fuel dyn_strtab [] s = some l' ∧ Agree l l' := by
  intro h
  have hname : app_loader.name LIB_NAME_MAX (add32 0x8048000 1) = some LIBC_NAME := by decide +kernel
  have hneeded : (load_libraries (fun _ => some exporting_library) (fun _ => blank_junk) 4 0x8048000 [1] app_loader).map
      (·.addr 0x400000C1) = some (some 0x40000010) := by decide +kernel
  have hdefault : (load_libraries (fun _ => some exporting_library) (fun _ => blank_junk) 4 0x8048000 [] app_loader).map
      (·.addr 0x400000C1) = some none := by decide +kernel
  obtain ⟨l, hl, haddr⟩ := Option.map_eq_some_iff.mp hneeded
  obtain ⟨l', hl', hagree⟩ := h _ _ _ _ _ _ l hname hl
  rw [hl', Option.map_some, hagree.addr _ _ haddr] at hdefault
  cases hdefault

end MyOS.Elf
