import MyOS.Vfs.CallTheorems

/-!
# `readdir` の写すバイト

`syscall_readdir` は、名前の長さにかかわらず 256 バイトずつ写す。名前の後のバイトは、`malloc` した領域に残っていた
ものである。
-/

namespace MyOS.Vfs
open MyOS.Lib

variable {σ ν : Type} {V : KernelNodes σ ν} {w w' w₂ : World σ ν} {ebx ecx max_entries : Nat} {count : Int}
  {files : List (List UInt8)} {heap : ByteMem}

/-- パス `ebx` のディレクトリには、名前が `files` の項目がある。 -/
def Lists (V : KernelNodes σ ν) (w : World σ ν) (ebx : Nat) (files : List (List UInt8)) : Prop :=
  ∃ path n, w.resolve ebx = some path ∧ V.get_node w.fs path = some (some n) ∧ readdir_fs (V.node w.fs n) = some files

theorem Lists.unique {files' : List (List UInt8)} (h : Lists V w ebx files) (h' : Lists V w ebx files') : files = files' := by
  obtain ⟨path, n, hpath, hn, hf⟩ := h
  obtain ⟨path', n', hpath', hn', hf'⟩ := h'
  cases hpath.symm.trans hpath'
  cases hn.symm.trans hn'
  exact Option.some.inj (hf.symm.trans hf')

/-- 呼び出した後の、利用者のバッファの `total` バイト。 -/
def buffer_bytes (w : World σ ν) (ecx total : Nat) : List UInt8 :=
  (List.range total).map fun i => w.current.user.bytes (add32 ecx i)

/-- `k` 番目の 256 バイトに、NUL で終わる名前がある。 -/
def HoldsName (w : World σ ν) (ecx k : Nat) (name : List UInt8) : Prop :=
  name.length < 256 ∧ (buffer_bytes w (add32 ecx (k * 256)) 256).take (name.length + 1) = name ++ [0]

/-- 同じディレクトリと `max_entries` からは、カーネルのヒープによらず、同じバイトを書く。 -/
structure ReaddirOk (V : KernelNodes σ ν) (w : World σ ν) (ebx ecx max_entries : Nat) (w' : World σ ν) (count : Int) :
    Prop where
  same : ∀ (w₂ : World σ ν) (ebx₂ ecx₂ : Nat) (w₂' : World σ ν) (count₂ : Int),
    (∀ files, Lists V w ebx files → Lists V w₂ ebx₂ files) →
      syscall_readdir V w₂ ebx₂ ecx₂ max_entries = some (w₂', count₂) → count₂ ≠ -1 →
        buffer_bytes w₂' ecx₂ (count₂.toNat * 256) = buffer_bytes w' ecx (count.toNat * 256)
  names : ∀ files, Lists V w ebx files → ∀ k name, k < count.toNat → files[k]? = some name → HoldsName w' ecx k name

/-! ## 成功した呼び出し -/

theorem buffer_bytes_copied {src : List UInt8} {old : ByteMem} (hsrc : src.length < 2 ^ 32)
    (h : w'.current.user.bytes = fun a => src.getD (sub32 a ecx) (old a)) : buffer_bytes w' ecx src.length = src := by
  have hbyte : ∀ i, w'.current.user.bytes (add32 ecx i) = src.getD (sub32 (add32 ecx i) ecx) (old (add32 ecx i)) :=
    fun i => congrFun h _
  unfold buffer_bytes
  refine List.ext_getElem (by rw [List.length_map, List.length_range]) fun i _ hi => ?_
  have hoff : sub32 (add32 ecx i) ecx = i := by
    unfold sub32 add32
    omega
  rw [List.getElem_map, List.getElem_range, hbyte, hoff, List.getD_eq_getElem?_getD, List.getElem?_eq_getElem hi,
    Option.getD_some]

theorem reply_bytes {src : List UInt8} {ret r : Int} (hsrc : src.length < 2 ^ 32)
    (h : reply w ecx src ret = some (w', r)) (hr : r ≠ -1) : r = ret ∧ buffer_bytes w' ecx src.length = src := by
  unfold reply User.copy_to_user at h
  obtain ⟨user, hcopied, hval⟩ := Option.map_eq_some_iff.mp h
  cases user with
  | none =>
    obtain ⟨-, rfl⟩ := Prod.mk.inj hval
    exact absurd rfl hr
  | some user =>
    obtain rfl := User.copied_value hcopied
    obtain ⟨rfl, rfl⟩ := Prod.mk.inj hval
    have hcur (p : Process σ ν) : (w.set_current p).current = p := if_pos rfl
    exact ⟨rfl, buffer_bytes_copied hsrc (by rw [hcur])⟩

/-- 成功すれば、ディレクトリがあり、`kbuf` のバイトがそのまま書かれた。 -/
theorem readdir_spec (h : syscall_readdir V w ebx ecx max_entries = some (w', count))
    (hcount : count ≠ -1) : ∃ files, Lists V w ebx files ∧ count = (min files.length max_entries : Nat) ∧
      buffer_bytes w' ecx (count.toNat * 256) = dirent_bytes w.heap files count.toNat ∧ max_entries ≠ 0 := by
  unfold syscall_readdir at h
  split at h
  · obtain ⟨-, rfl⟩ := Prod.mk.inj (Option.some.inj h)
    exact absurd rfl hcount
  next hguard =>
    have hmax : max_entries ≠ 0 := fun h0 => hguard (by simp [h0])
    obtain ⟨path, hpath, h⟩ := Option.bind_eq_some_iff.mp h
    obtain ⟨found, hfound, h⟩ := Option.bind_eq_some_iff.mp h
    cases found with
    | none =>
      obtain ⟨-, rfl⟩ := Prod.mk.inj (Option.some.inj h)
      exact absurd rfl hcount
    | some n =>
      dsimp only at h
      cases hfiles : readdir_fs (V.node w.fs n) with
      | none =>
        rw [hfiles] at h
        obtain ⟨-, rfl⟩ := Prod.mk.inj (Option.some.inj h)
        exact absurd rfl hcount
      | some files =>
        have hmin : (if files.length > max_entries then max_entries else files.length) = min files.length max_entries := by
          split <;> omega
        have hlisted := V.listed w.fs n files hfiles
        have hlen : (dirent_bytes w.heap files (min files.length max_entries)).length = _ :=
          dirent_bytes_length (Nat.min_le_left files.length max_entries)
        rw [hfiles] at h
        dsimp only at h
        rw [hmin] at h
        obtain ⟨hret, hbytes⟩ := reply_bytes (by omega) h hcount
        subst hret
        rw [hlen] at hbytes
        exact ⟨files, ⟨path, n, hpath, hfound, hfiles⟩, rfl, hbytes, hmax⟩

/-- 256 バイトの最後のバイトには、何も書かない。 -/
theorem dirent_slot_last (heap : ByteMem) (i : Nat) (name : List UInt8) :
    (dirent_slot heap i name)[255]? = some (heap (i * 256 + 255)) := by
  have hlen : ((name ++ [0]).take 255).length ≤ 255 := List.length_take_le _ _
  unfold dirent_slot
  rw [List.getElem?_map, List.getElem?_range (by decide), Option.map_some, List.getD_eq_getElem?_getD,
    List.getElem?_eq_none hlen, Option.getD_none]

theorem dirent_bytes_last (heap : ByteMem) {name : List UInt8} {n : Nat} (hn : 0 < n) :
    (dirent_bytes heap (name :: files) n)[255]? = some (heap 255) := by
  obtain ⟨n, rfl⟩ := Nat.exists_eq_succ_of_ne_zero (Nat.ne_of_gt hn)
  have hlen : (dirent_slot heap 0 name).length = 256 := by
    unfold dirent_slot
    rw [List.length_map, List.length_range]
  have hlast := dirent_slot_last heap 0 name
  unfold dirent_bytes
  rw [List.take_succ_cons, List.zipIdx_cons, List.flatMap_cons, List.getElem?_append_left (by rw [hlen]; decide), hlast]

/-! ## 同じバイトを書く条件 -/

/-- ヒープだけを替えても、同じように成功する。 -/
theorem readdir_heap (heap : ByteMem) (h : syscall_readdir V w ebx ecx max_entries = some (w', count)) (hcount : count ≠ -1) :
    ∃ w₂', syscall_readdir V { w with heap := heap } ebx ecx max_entries = some (w₂', count) := by
  unfold syscall_readdir at h ⊢
  split at h
  · obtain ⟨-, rfl⟩ := Prod.mk.inj (Option.some.inj h)
    exact absurd rfl hcount
  next hguard =>
    rw [if_neg hguard]
    obtain ⟨path, hpath, h⟩ := Option.bind_eq_some_iff.mp h
    obtain ⟨found, hfound, h⟩ := Option.bind_eq_some_iff.mp h
    have hpath' : World.resolve { w with heap := heap } ebx = some path := hpath
    rw [hpath', Option.bind_some]
    dsimp only
    rw [hfound, Option.bind_some]
    cases found with
    | none =>
      obtain ⟨-, rfl⟩ := Prod.mk.inj (Option.some.inj h)
      exact absurd rfl hcount
    | some n =>
      dsimp only at h ⊢
      cases hfiles : readdir_fs (V.node w.fs n) with
      | none =>
        rw [hfiles] at h
        obtain ⟨-, rfl⟩ := Prod.mk.inj (Option.some.inj h)
        exact absurd rfl hcount
      | some files =>
        rw [hfiles] at h
        dsimp only at h ⊢
        have hle : (if files.length > max_entries then max_entries else files.length) ≤ files.length := by
          split <;> omega
        generalize (if files.length > max_entries then max_entries else files.length) = k at *
        have hlen : (dirent_bytes heap files k).length = (dirent_bytes w.heap files k).length := by
          rw [dirent_bytes_length hle, dirent_bytes_length hle]
        unfold reply User.copy_to_user at h ⊢
        have hcur : World.current { w with heap := heap } = w.current := rfl
        rw [hcur, hlen]
        unfold User.copied at h ⊢
        obtain ⟨copied, hcopied, hval⟩ := Option.map_eq_some_iff.mp h
        obtain ⟨ok, hok, hcopy⟩ := Option.bind_eq_some_iff.mp hcopied
        rw [hok, Option.bind_some]
        cases ok with
        | false =>
          cases hcopy
          obtain ⟨-, rfl⟩ := Prod.mk.inj hval
          exact absurd rfl hcount
        | true =>
          rw [if_pos rfl] at hcopy ⊢
          split at hcopy
          next hacc =>
            cases hcopy
            obtain ⟨-, rfl⟩ := Prod.mk.inj hval
            rw [if_pos hacc]
            exact ⟨_, rfl⟩
          next => cases hcopy

/-- 成功した `readdir` の書くバイトがヒープによらないのは、ディレクトリが空のとき、そのときに限る。 -/
theorem syscall_readdir_iff (V : KernelNodes σ ν) (w : World σ ν) (ebx ecx max_entries : Nat) (w' : World σ ν) (count : Int)
    (h : syscall_readdir V w ebx ecx max_entries = some (w', count)) (hcount : count ≠ -1) :
    ReaddirOk V w ebx ecx max_entries w' count ↔ Lists V w ebx [] := by
  obtain ⟨files, hlists, hmin, hbytes, hmax⟩ := readdir_spec h hcount
  constructor
  · intro hok
    cases files with
    | nil => exact hlists
    | cons name files =>
      -- 最後のバイトだけが異なるヒープでも成功するが、書くバイトは異なる
      obtain ⟨w₂', h₂⟩ := readdir_heap (fun a => w.heap a + 1) h hcount
      have hsame := hok.same { w with heap := fun a => w.heap a + 1 } ebx ecx w₂' count (fun _ hl => hl) h₂ hcount
      obtain ⟨files₂, hlists₂, -, hbytes₂, -⟩ := readdir_spec h₂ hcount
      have hlists₂ : Lists V w ebx files₂ := hlists₂
      obtain rfl := hlists.unique hlists₂
      have hpos : 0 < count.toNat := by
        rw [hmin, Int.toNat_natCast, List.length_cons]
        omega
      rw [hbytes, hbytes₂] at hsame
      have hlast := congrArg (·[255]?) hsame
      dsimp only at hlast
      rw [dirent_bytes_last _ hpos, dirent_bytes_last _ hpos] at hlast
      exact absurd (Option.some.inj hlast) (by simp)
  · intro hempty
    obtain rfl := hlists.unique hempty
    have hzero : count.toNat = 0 := by
      rw [hmin]
      simp
    refine ⟨fun w₂ ebx₂ ecx₂ w₂' count₂ hagree h₂ hcount₂ => ?_, fun _ _ k _ hk _ => absurd hk (by omega)⟩
    obtain ⟨files₂, hlists₂, hmin₂, -⟩ := readdir_spec h₂ hcount₂
    obtain rfl := (hagree [] hlists).unique hlists₂
    have hzero₂ : count₂.toNat = 0 := by
      rw [hmin₂]
      simp
    rw [hzero, hzero₂]
    rfl

/-- 空の根では、何も書かない。 -/
theorem syscall_readdir_bare : ∃ w, syscall_readdir bare_root bare_world 0x1000 0x2000 4 = some (w, 0) ∧
    ReaddirOk bare_root bare_world 0x1000 0x2000 4 w 0 := by
  have hresolve : bare_world.resolve 0x1000 = some [] := resolve_faults bare_faults
  have hroot : bare_root.get_node bare_world.fs [] = some (some ()) := get_node_root (.inl rfl)
  have hrun : ∃ w, syscall_readdir bare_root bare_world 0x1000 0x2000 4 = some (w, 0) := by
    unfold syscall_readdir
    rw [if_neg (by decide), hresolve, Option.bind_some, hroot]
    exact ⟨_, rfl⟩
  obtain ⟨w, hrun⟩ := hrun
  have hiff := syscall_readdir_iff bare_root bare_world 0x1000 0x2000 4 w 0 hrun (by decide)
  exact ⟨w, hrun, hiff.mpr ⟨[], (), hresolve, hroot, rfl⟩⟩

/-- 根に項目 `a` だけがある。 -/
def one_root : KernelNodes Unit Unit where
  node _ _ := ⟨FS_DIRECTORY, 0, none, some (some [[0x61]]), some fun _ => none, none, none, none, []⟩
  root_dir := ()
  depth _ := 0
  mounted _ _ _ h := nomatch h
  listed _ _ l h := by
    cases h
    decide
  root _ := ⟨rfl, rfl, ⟨[[0x61]], rfl⟩, rfl, rfl, rfl⟩

/-- ページ 2 だけを利用者に見せる。 -/
def one_page (heap : ByteMem) : World Unit Unit :=
  .boot () (fun _ => 0) ⟨fun p => decide (p = 2), fun p => decide (p = 2), fun _ => 0, fun _ h => h⟩ heap

theorem one_root_readdir : readdir_fs (one_root.node () ()) = some [[0x61]] := by
  have hdir : (one_root.node () ()).has FS_DIRECTORY = true := rfl
  unfold readdir_fs
  rw [hdir]
  rfl

theorem one_page_run (heap : ByteMem) : ∃ w, syscall_readdir one_root (one_page heap) 0x2000 0x2000 1 = some (w, 1) ∧
    (buffer_bytes w 0x2000 256)[255]? = some (heap 255) := by
  have hrun : ∃ w, syscall_readdir one_root (one_page heap) 0x2000 0x2000 1 = some (w, 1) := by
    have hresolve : (one_page heap).resolve 0x2000 = some [SLASH] := by
      have hheap : (one_page heap).resolve 0x2000 = (one_page fun _ => 0).resolve 0x2000 := rfl
      rw [hheap]
      decide +kernel
    have hroot : one_root.get_node (one_page heap).fs [SLASH] = some (some ()) := get_node_root (.inr rfl)
    have hlen : (dirent_bytes heap [[0x61]] 1).length = 256 := dirent_bytes_length (by decide)
    have hheap : (one_page heap).current.user = (one_page fun _ => 0).current.user := rfl
    have hcheck : (one_page heap).current.user.check_range 0x2000 256 = some true := by
      rw [hheap]
      decide +kernel
    have hacc : (one_page heap).current.user.accessible 0x2000 256 = true := by
      rw [hheap]
      decide +kernel
    have hreply : ∃ w, reply (one_page heap) 0x2000 (dirent_bytes heap [[0x61]] 1) 1 = some (w, 1) := by
      unfold reply User.copy_to_user User.copied
      rw [hlen, hcheck, Option.bind_some, if_pos rfl, hacc]
      exact ⟨_, rfl⟩
    unfold syscall_readdir
    rw [if_neg (by decide), hresolve, Option.bind_some, hroot, Option.bind_some]
    dsimp only
    rw [one_root_readdir]
    exact hreply
  obtain ⟨w, hrun⟩ := hrun
  obtain ⟨files, ⟨path, n, -, -, hfiles⟩, -, hbytes, -⟩ := readdir_spec hrun (by decide)
  obtain rfl := Option.some.inj (hfiles.symm.trans one_root_readdir)
  refine ⟨w, hrun, ?_⟩
  have hbytes : buffer_bytes w 0x2000 256 = dirent_bytes heap [[0x61]] 1 := hbytes
  rw [hbytes]
  exact dirent_bytes_last heap (by decide)

/-- 256 バイトのうち名前の後には、ヒープのバイトが現れる。 -/
theorem readdir_leaks : ¬ ∀ (w : World Unit Unit) (ebx ecx max_entries : Nat) (w' : World Unit Unit) (count : Int),
    syscall_readdir one_root w ebx ecx max_entries = some (w', count) → count ≠ -1 →
      ReaddirOk one_root w ebx ecx max_entries w' count := by
  intro h
  obtain ⟨w, hrun, hbyte⟩ := one_page_run fun _ => 0
  obtain ⟨w₂, hrun₂, hbyte₂⟩ := one_page_run fun _ => 1
  have hok := h _ _ _ _ w 1 hrun (by decide)
  have hsame : buffer_bytes w₂ 0x2000 256 = buffer_bytes w 0x2000 256 :=
    hok.same (one_page fun _ => 1) 0x2000 0x2000 w₂ 1 (fun _ hl => hl) hrun₂ (by decide)
  rw [hsame, hbyte] at hbyte₂
  exact absurd (Option.some.inj hbyte₂) (by decide)

end MyOS.Vfs
