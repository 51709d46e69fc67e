import MyOS.Lib.Components
import MyOS.Vfs.Initrd
import MyOS.Vfs.Lemmas.Image

/-!
# initrd の往復

イメージの中の位置は、`folder_ind` と `cur_ind` の数えた通りである。だから `init_initrd` の後の `get_node` は、元の木を
そのまま見る。
-/

namespace MyOS.Vfs
open MyOS.Lib

variable {t d : Dir} {walk l l' : List WalkStep} {e : WalkStep} {m : ByteMem} {L o n : Nat} {p : List Name}
  {ind : List Name → Option Nat} {files : List (Name × List UInt8)}

/-! ## 大きさと位置 -/

/-- 一つの要素の名前は、どれも項目に収まる。 -/
def WalkStep.Short (e : WalkStep) : Prop :=
  (∀ n ∈ e.folders, n.length ≤ 127) ∧ ∀ f ∈ e.files, f.1.length ≤ 127

theorem file_entities_names (o : Nat) (files : List (Name × List UInt8)) :
    (file_entities o files).map Entity.name = files.map Prod.fst := by
  induction files generalizing o with
  | nil => rfl
  | cons f files ih => exact congrArg _ (ih _)

theorem file_entities_length (o : Nat) (files : List (Name × List UInt8)) : (file_entities o files).length = files.length := by
  have := congrArg List.length (file_entities_names o files)
  rwa [List.length_map, List.length_map] at this

theorem entities_length (o : Nat) (e : WalkStep) : (entities ind o e).length = e.folders.length + e.files.length := by
  unfold entities
  rw [List.length_append, List.length_map, file_entities_length]

theorem file_entities_short (h : ∀ f ∈ files, f.1.length ≤ 127) : ∀ e ∈ file_entities o files, e.name.length ≤ 127 := by
  intro e he
  have hname : e.name ∈ (file_entities o files).map Entity.name := List.mem_map_of_mem he
  rw [file_entities_names] at hname
  obtain ⟨f, hf, hfe⟩ := List.mem_map.mp hname
  exact hfe ▸ h f hf

theorem WalkStep.Short.entities (h : e.Short) : ∀ x ∈ entities ind o e, x.name.length ≤ 127 := by
  intro x hx
  rcases List.mem_append.mp hx with hx | hx
  · obtain ⟨n, hn, rfl⟩ := List.mem_map.mp hx
    exact h.1 n hn
  · exact file_entities_short h.2 x hx

theorem WalkStep.Short.step_size (h : e.Short) : step_size e = 4 + 137 * (e.folders.length + e.files.length) := by
  unfold Vfs.step_size
  rw [← List.length_flatten, cur_dir_eq, dir_bytes_length, List.length_append, List.length_map, List.length_map]
  intro x hx
  rcases List.mem_append.mp hx with hx | hx
  · obtain ⟨n, hn, rfl⟩ := List.mem_map.mp hx
    exact h.1 n hn
  · obtain ⟨f, hf, rfl⟩ := List.mem_map.mp hx
    exact h.2 f hf

/-- 書き直しても、ディレクトリの大きさは変わらない。 -/
theorem WalkStep.Short.dir_bytes (h : e.Short) : (dir_bytes (Vfs.entities ind o e)).flatten.length = Vfs.step_size e := by
  rw [dir_bytes_length h.entities, entities_length, h.step_size]

def walk_data (walk : List WalkStep) : Nat := (walk.map fun e => data_size e.files).sum

theorem finish_append (o : Nat) (l l' : List WalkStep) :
    finish ind o (l ++ l') = finish ind o l ++ finish ind (o + walk_data l) l' := by
  induction l generalizing o with
  | nil => rfl
  | cons e l ih =>
    rw [List.cons_append, finish, ih, finish, List.cons_append, walk_data, walk_data, List.map_cons, List.sum_cons,
      Nat.add_assoc]

theorem finish_length (h : ∀ e ∈ l, e.Short) : (finish ind o l).flatten.flatten.length = (l.map step_size).sum := by
  induction l generalizing o with
  | nil => rfl
  | cons e l ih =>
    obtain ⟨he, hl⟩ := List.forall_mem_cons.mp h
    rw [finish, List.flatten_cons, List.flatten_append, List.length_append, he.dir_bytes, ih hl, List.map_cons,
      List.sum_cons]

theorem data_length (files : List (Name × List UInt8)) : (files.map Prod.snd).flatten.length = data_size files := by
  rw [List.length_flatten, List.map_map]
  rfl

theorem walk_data_length (walk : List WalkStep) :
    (walk.flatMap fun e => e.files.map Prod.snd).flatten.length = walk_data walk := by
  induction walk with
  | nil => rfl
  | cons e walk ih =>
    rw [List.flatMap_cons, List.flatten_append, List.length_append, data_length, ih]
    rfl

/-! ## 読み込んだイメージ -/

/-- イメージが番地 `L` から置かれている。 -/
structure Loaded (t : Dir) (walk : List WalkStep) (m : ByteMem) (L : Nat) : Prop where
  valid : t.Valid
  listed : IsWalk t walk
  small : (create_initrd walk).length < 2 ^ 31
  held : Holds m L (create_initrd walk)
  fits : L + (create_initrd walk).length ≤ 2 ^ 32

/-- 番地 `a` にある項目の列は、ディレクトリ `d` のもので、内容は `q` から順にある。 -/
structure DirAt (m : ByteMem) (L a : Nat) (ind : List Name → Option Nat) (p : List Name) (d : Dir) (q : Nat) : Prop where
  loaddir : initrd_loaddir m a = d.dirs.map (fun s => folder_entity ind p s.1) ++ file_entities q d.files
  data : ∀ fs f fs', d.files = fs ++ f :: fs' → Holds m (L + (q + data_size fs)) f.2 ∧
    L + (q + data_size fs) + f.2.length ≤ 2 ^ 32 ∧ f.2.length < 2 ^ 32

theorem Loaded.short (h : Loaded t walk m L) : ∀ e ∈ walk, e.Short := by
  intro e he
  obtain ⟨d, hd, hfolders, hfiles⟩ := h.listed.listing e he
  obtain ⟨-, hnames⟩ := h.valid _ _ hd
  refine ⟨fun n hn => ?_, fun f hf => ?_⟩
  · rw [hfolders] at hn
    exact (hnames n (List.mem_append_left _ hn)).len
  · rw [hfiles] at hf
    exact (hnames f.1 (List.mem_append_right _ (List.mem_map_of_mem hf))).len

theorem image_length (h : ∀ e ∈ walk, e.Short) :
    (create_initrd walk).length = 4 + (walk.map step_size).sum + walk_data walk := by
  rw [create_initrd_eq, List.length_append, List.length_append, finish_length h, walk_data_length]
  rfl

/-- 要素 `e` のディレクトリは、それより前のディレクトリの後にある。 -/
theorem Loaded.held_dir (h : Loaded t (l ++ e :: l') m L) :
    Holds m (L + (4 + (l.map step_size).sum)) (dir_bytes (entities (pass1 (l ++ e :: l')).folder_ind
      (4 + ((l ++ e :: l').map step_size).sum + walk_data l) e)).flatten := by
  have hheld := h.held
  have hshort := h.short
  rw [create_initrd_eq, finish_append, List.flatten_append, List.flatten_append, finish, List.flatten_cons,
    List.flatten_append, List.append_assoc, List.append_assoc] at hheld
  have hl := (holds_append.mp (holds_append.mp hheld).2).2
  rw [finish_length fun x hx => hshort x (List.mem_append_left _ hx)] at hl
  rw [List.append_assoc] at hl
  have hdir := (holds_append.mp hl).1
  rw [Nat.add_assoc] at hdir
  exact hdir

theorem Loaded.held_data (h : Loaded t (l ++ e :: l') m L) {fs fs' : List (Name × List UInt8)} {f : Name × List UInt8}
    (hfs : e.files = fs ++ f :: fs') :
    Holds m (L + (4 + ((l ++ e :: l').map step_size).sum + walk_data l + data_size fs)) f.2 := by
  have hheld := h.held
  have hflat : (e.files.map Prod.snd).flatten = (fs.map Prod.snd).flatten ++ (f.2 ++ (fs'.map Prod.snd).flatten) := by
    rw [hfs, List.map_append, List.flatten_append]
    rfl
  rw [create_initrd_eq, List.flatMap_append, List.flatMap_cons, List.flatten_append, List.flatten_append, hflat] at hheld
  have hall := (holds_append.mp hheld).2
  rw [List.length_append, finish_length h.short] at hall
  have hrest := (holds_append.mp hall).2
  rw [walk_data_length, List.append_assoc] at hrest
  have hfile := (holds_append.mp hrest).2
  rw [data_length, List.append_assoc] at hfile
  have hbase : magic.length = 4 := rfl
  have hfirst := (holds_append.mp hfile).1
  simpa only [hbase, Nat.add_assoc] using hfirst

theorem data_size_split (fs : List (Name × List UInt8)) (f : Name × List UInt8) (fs' : List (Name × List UInt8)) :
    data_size (fs ++ f :: fs') = data_size fs + (f.2.length + data_size fs') := by
  unfold data_size
  rw [List.map_append, List.sum_append, List.map_cons, List.sum_cons]

theorem walk_data_split (l : List WalkStep) (e : WalkStep) (l' : List WalkStep) :
    walk_data (l ++ e :: l') = walk_data l + (data_size e.files + walk_data l') := by
  unfold walk_data
  rw [List.map_append, List.sum_append, List.map_cons, List.sum_cons]

theorem step_size_split (l : List WalkStep) (e : WalkStep) (l' : List WalkStep) :
    ((l ++ e :: l').map step_size).sum = (l.map step_size).sum + (step_size e + (l'.map step_size).sum) := by
  rw [List.map_append, List.sum_append, List.map_cons, List.sum_cons]

/-- 並んでいないディレクトリには、位置がない。 -/
theorem Loaded.ind_lt (h : Loaded t walk m L) (p : List Name) : ((pass1 walk).folder_ind p).getD 0 < 2 ^ 31 := by
  by_cases hp : p ∈ walk.map WalkStep.root_folder
  · obtain ⟨e, he, rfl⟩ := List.mem_map.mp hp
    obtain ⟨l, l', rfl⟩ := List.append_of_mem he
    have hsmall := h.small
    rw [image_length h.short, step_size_split] at hsmall
    rw [folder_ind_eq h.listed.nodup, Option.getD_some]
    omega
  · have hnone : (pass1 walk).folder_ind p = none := pass1_other hp _
    rw [hnone]
    decide

theorem mem_file_entities {x : Entity} (hx : x ∈ file_entities o files) : ∃ fs f fs', files = fs ++ f :: fs' ∧
    x = ⟨FS_FILE, o + data_size fs, f.2.length, f.1⟩ := by
  induction files generalizing o with
  | nil => cases hx
  | cons f files ih =>
    rcases List.mem_cons.mp hx with rfl | hx
    · exact ⟨[], f, files, rfl, rfl⟩
    · obtain ⟨fs, g, fs', rfl, rfl⟩ := ih hx
      refine ⟨f :: fs, g, fs', rfl, ?_⟩
      have hsize : data_size (f :: fs) = f.2.length + data_size fs := rfl
      rw [hsize, Nat.add_assoc]

/-- どのディレクトリの項目も、読めば木の通りに並ぶ。 -/
theorem Loaded.dir (h : Loaded t walk m L) (hp : t.find p = some (.dir d)) : ∃ o q, (pass1 walk).folder_ind p = some o ∧
    o < 2 ^ 31 ∧ L + o < 2 ^ 32 ∧ DirAt m L (L + o) (pass1 walk).folder_ind p d q := by
  obtain ⟨e, he, rfl⟩ := h.listed.all p d hp
  obtain ⟨d', hd', hfolders, hfiles⟩ := h.listed.listing e he
  cases hp.symm.trans hd'
  obtain ⟨-, hnames⟩ := h.valid _ _ hp
  obtain ⟨l, l', rfl⟩ := List.append_of_mem he
  have hsize := h.short e he
  have hlen := image_length h.short
  have hsmall := h.small
  have hfits := h.fits
  rw [hlen, step_size_split, walk_data_split] at hsmall hfits
  have hstep := hsize.step_size
  have hcount : (entities (pass1 (l ++ e :: l')).folder_ind (4 + ((l ++ e :: l').map step_size).sum + walk_data l)
    e).length = e.folders.length + e.files.length := entities_length _ e
  refine ⟨_, 4 + ((l ++ e :: l').map step_size).sum + walk_data l, folder_ind_eq h.listed.nodup, by omega, by omega, ?_, ?_⟩
  · rw [loaddir_eq h.held_dir ?_ (by omega), entities, hfolders, hfiles, List.map_map]
    · rfl
    · intro x hx
      rcases List.mem_append.mp hx with hx | hx
      · obtain ⟨n, hn, rfl⟩ := List.mem_map.mp hx
        rw [hfolders] at hn
        have hok := hnames n (List.mem_append_left _ hn)
        exact ⟨Nat.lt_trans (h.ind_lt _) (by decide), show 0 < 2 ^ 32 by decide, hok.nul, hok.len⟩
      · obtain ⟨fs, f, fs', hsplit, rfl⟩ := mem_file_entities hx
        have hmem : f ∈ e.files := hsplit ▸ List.mem_append_right _ List.mem_cons_self
        rw [hfiles] at hmem
        have hok := hnames f.1 (List.mem_append_right _ (List.mem_map_of_mem hmem))
        rw [hsplit, data_size_split] at hsmall
        refine ⟨?_, ?_, hok.nul, hok.len⟩
        · rw [step_size_split]
          dsimp only
          omega
        · dsimp only
          omega
  · intro fs f fs' hsplit
    rw [← hfiles] at hsplit
    rw [hsplit, data_size_split] at hfits hsmall
    refine ⟨h.held_data hsplit, ?_, by omega⟩
    rw [step_size_split]
    omega

/-! ## 名前を一つ探す -/

theorem file_find_none {c : Name} (h : files.find? (·.1 = c) = none) :
    (file_entities o files).find? (·.name = c) = none := by
  refine List.find?_eq_none.mpr fun x hx => ?_
  obtain ⟨fs, f, fs', rfl, rfl⟩ := mem_file_entities hx
  exact List.find?_eq_none.mp h f (List.mem_append_right _ List.mem_cons_self)

theorem file_find_some {c : Name} {f : Name × List UInt8} (h : files.find? (·.1 = c) = some f) : ∃ fs fs',
    files = fs ++ f :: fs' ∧
      (file_entities o files).find? (·.name = c) = some ⟨FS_FILE, o + data_size fs, f.2.length, f.1⟩ := by
  induction files generalizing o with
  | nil => cases h
  | cons g files ih =>
    rw [List.find?_cons] at h
    by_cases hg : g.1 = c
    · rw [decide_eq_true hg] at h
      cases h
      exact ⟨[], files, rfl, List.find?_cons_of_pos (decide_eq_true hg)⟩
    · rw [decide_eq_false hg] at h
      obtain ⟨fs, fs', rfl, hfind⟩ := ih (o := o + g.2.length) h
      refine ⟨g :: fs, fs', rfl, ?_⟩
      have hsize : data_size (g :: fs) = g.2.length + data_size fs := rfl
      rw [file_entities, List.find?_cons]
      dsimp only
      rw [decide_eq_false hg, hfind, hsize, Nat.add_assoc]

theorem dir_node_impl (h : L + o < 2 ^ 32) : (initrd_loaddir_fs_node L o).impl = L + o := by
  unfold initrd_loaddir_fs_node
  rw [add32_eq (by omega), Nat.add_comm]

theorem DirAt.finddir {q : Nat} (h : DirAt m L (L + o) ind p d q) (hlt : L + o < 2 ^ 32) (c : Name) :
    initrd_finddir_fs m L none (initrd_loaddir_fs_node L o) c =
      match d.dirs.find? (·.1 = c) with
      | some _ => some (initrd_loaddir_fs_node L ((ind (p ++ [c])).getD 0))
      | none => ((file_entities q d.files).find? (·.name = c)).map fun e => initrd_loadfile_fs_node L e.start e.size := by
  unfold initrd_finddir_fs
  rw [if_neg (by simp [initrd_loaddir_fs_node]), if_neg (by simp), dir_node_impl hlt, h.loaddir, List.find?_append,
    List.find?_map]
  have hcomp : ((fun e : Entity => decide (e.name = c)) ∘ fun s : Name × Dir => folder_entity ind p s.1) =
      fun s => decide (s.1 = c) := rfl
  rw [hcomp]
  cases hfind : d.dirs.find? fun s => decide (s.1 = c) with
  | some s =>
    have hs : s.1 = c := by simpa using List.find?_some hfind
    subst hs
    exact congrArg some (if_neg (show ¬ FS_DIRECTORY &&& FS_FILE ≠ 0 by decide))
  | none =>
    dsimp only
    rw [Option.map_none, Option.none_or]
    cases hfile : (file_entities q d.files).find? fun e => decide (e.name = c) with
    | none => rfl
    | some x =>
      obtain ⟨fs, f, fs', -, rfl⟩ := mem_file_entities (List.mem_of_find?_eq_some hfile)
      exact congrArg some (if_pos (show FS_FILE &&& FS_FILE ≠ 0 by decide))

/-! ## パスをたどる -/

/-- 先頭の名前を切り出して、子へ進む。 -/
theorem get_node_step {σ ν : Type} (V : Vnodes σ ν) (s : σ) (fuel : Nat) {n : ν} {c t : List UInt8} (hc : c ≠ [] ∧ SLASH ∉ c)
    (ht : t = [] ∨ ∃ r, t = SLASH :: r) (hmount : (V.node s n).has FS_MOUNTPOINT = false)
    (hlink : (V.node s n).has FS_SYMLINK = false) :
    V.get_node_loop s (fuel + 1) (SLASH :: (c ++ t)) (some n) =
      if (V.node s n).finddir.isSome then V.get_node_loop s fuel t (V.finddir_fs s n c) else some none := by
  have hall : ∀ x ∈ c, decide (x ≠ SLASH) = true := fun x hx => decide_eq_true fun h => hc.2 (h ▸ hx)
  have hstart : (SLASH :: (c ++ t)).dropWhile (· = SLASH) = c ++ t := by
    refine (List.dropWhile_cons_of_pos (by simp)).trans ?_
    cases c with
    | nil => exact absurd rfl hc.1
    | cons x c =>
      have hx : x ≠ SLASH := fun h => hc.2 (h ▸ List.mem_cons_self)
      exact List.dropWhile_cons_of_neg (by simpa using hx)
  have htake : (c ++ t).takeWhile (· ≠ SLASH) = c := by
    rw [List.takeWhile_append_of_pos hall]
    rcases ht with rfl | ⟨r, rfl⟩ <;> simp
  have hdrop : (c ++ t).dropWhile (· ≠ SLASH) = t := by
    rw [List.dropWhile_append_of_pos hall]
    rcases ht with rfl | ⟨r, rfl⟩ <;> simp
  have hne : ¬ (SLASH :: (c ++ t) = [] ∨ SLASH :: (c ++ t) = [SLASH]) := by
    simp [hc.1]
  rw [Vnodes.get_node_loop, if_neg hne]
  dsimp only
  rw [hstart, htake, hdrop, hmount, hlink, if_neg (by decide), Option.bind_some]

theorem get_node_end {σ ν : Type} (V : Vnodes σ ν) (s : σ) (fuel : Nat) {n : ν} {path : List UInt8}
    (hpath : path = [] ∨ path = [SLASH]) (hmount : (V.node s n).has FS_MOUNTPOINT = false) :
    V.get_node_loop s (fuel + 1) path (some n) = some (some n) := by
  unfold Vnodes.get_node_loop Vnodes.cross_all
  rw [if_pos hpath, hmount]
  rfl

theorem joined_tail (cs : List Name) : joined SLASH cs = [] ∨ ∃ r, joined SLASH cs = SLASH :: r := by
  cases cs with
  | nil => exact .inl rfl
  | cons c cs => exact .inr ⟨_, rfl⟩

theorem Dir.find_append {cs : List Name} (h : t.find p = some (.dir d)) : t.find (p ++ cs) = d.find cs := by
  induction p generalizing t with
  | nil =>
    cases h
    rfl
  | cons c p ih =>
    rw [Dir.find] at h
    rw [List.cons_append, Dir.find]
    cases hfind : t.dirs.find? (·.1 = c) with
    | some s =>
      rw [hfind] at h
      exact ih h
    | none =>
      rw [hfind] at h
      dsimp only at h
      split at h
      · obtain ⟨f, -, hf⟩ := Option.map_eq_some_iff.mp h
        cases hf
      · cases h

/-- ノード `n` を読むと `item` が得られる。 -/
def Reads (m : ByteMem) (n : InitrdNode) : Item → Prop
  | .dir d => n.flags = FS_DIRECTORY ∧ initrd_readdir_fs m n = some d.names
  | .file data => n.flags = FS_FILE ∧ n.size = data.length ∧ n.seek_offset = 0 ∧ n.impl + data.length ≤ 2 ^ 32 ∧
      data.length < 2 ^ 32 ∧ Holds m n.impl data

def Finds (m : ByteMem) (r : Option (Option InitrdNode)) : Option Item → Prop
  | none => r = some none
  | some item => ∃ n, r = some (some n) ∧ Reads m n item

theorem DirAt.reads {q : Nat} (h : DirAt m L (L + o) ind p d q) (hlt : L + o < 2 ^ 32) :
    Reads m (initrd_loaddir_fs_node L o) (.dir d) := by
  refine ⟨rfl, ?_⟩
  unfold initrd_readdir_fs
  rw [if_neg (by simp [initrd_loaddir_fs_node]), dir_node_impl hlt, h.loaddir, List.map_append, file_entities_names,
    List.map_map]
  rfl

theorem DirAt.reads_file {q : Nat} (h : DirAt m L (L + o) ind p d q) {c : Name} {f : Name × List UInt8}
    (hf : d.files.find? (·.1 = c) = some f) : ∃ x, (file_entities q d.files).find? (·.name = c) = some x ∧
      Reads m (initrd_loadfile_fs_node L x.start x.size) (.file f.2) := by
  obtain ⟨fs, fs', hsplit, hfind⟩ := file_find_some (o := q) hf
  obtain ⟨hheld, hle, hlen⟩ := h.data fs f fs' hsplit
  have himpl : (initrd_loadfile_fs_node L (q + data_size fs) f.2.length).impl = L + (q + data_size fs) ∨
      f.2.length = 0 ∧ (initrd_loadfile_fs_node L (q + data_size fs) f.2.length).impl + f.2.length ≤ 2 ^ 32 := by
    unfold initrd_loadfile_fs_node
    by_cases hlt : L + (q + data_size fs) < 2 ^ 32
    · exact .inl (by rw [add32_eq (by omega), Nat.add_comm])
    · have := add32_lt (a := q + data_size fs) (b := L)
      exact .inr ⟨by omega, by dsimp only; omega⟩
  refine ⟨_, hfind, rfl, rfl, rfl, ?_, hlen, ?_⟩
  · rcases himpl with himpl | ⟨-, hend⟩
    · rw [himpl]
      exact hle
    · exact hend
  · rcases himpl with himpl | ⟨h0, -⟩
    · rw [himpl]
      exact hheld
    · exact fun i hi => absurd hi (by omega)

/-- initrd のディレクトリは、マウントでもリンクでもない。 -/
theorem init_finddir {n : InitrdNode} (hn : n.flags = FS_DIRECTORY) (c : Name) :
    (init_initrd m L).finddir_fs () n c = initrd_finddir_fs m L none n c := by
  unfold Vnodes.finddir_fs
  have hnode : (init_initrd m L).node () n = initrd_fs_node m L none n := rfl
  have hhas : (initrd_fs_node m L none n).has FS_DIRECTORY = true := by
    unfold FsNode.has initrd_fs_node
    dsimp only
    rw [hn]
    decide
  have hfind : (initrd_fs_node m L none n).finddir = some (initrd_finddir_fs m L none n) := if_pos hn
  rw [hnode, hhas, if_pos rfl, hfind, Option.bind_some]
  cases initrd_finddir_fs m L none n c <;> rfl

/-- 二つの関数が作るノードには、マウントもリンクもない。 -/
theorem init_plain {n : InitrdNode} {flag : UInt8} (hn : n.flags = FS_FILE ∨ n.flags = FS_DIRECTORY)
    (hflag : flag = FS_MOUNTPOINT ∨ flag = FS_SYMLINK) : ((init_initrd m L).node () n).has flag = false := by
  have hhas : ((init_initrd m L).node () n).has flag = (n.flags &&& flag == flag) := rfl
  rw [hhas]
  rcases hn with hn | hn <;> rcases hflag with rfl | rfl <;> rw [hn] <;> decide

/-- 名前の列をたどると、木と同じものが見つかる。 -/
theorem Loaded.finds (h : Loaded t walk m L) : ∀ (cs p : List Name) (d : Dir) (o fuel : Nat),
    (∀ c ∈ cs, c ≠ [] ∧ SLASH ∉ c) → t.find p = some (.dir d) → (pass1 walk).folder_ind p = some o → cs.length < fuel →
      Finds m ((init_initrd m L).get_node_loop () fuel (joined SLASH cs) (some (initrd_loaddir_fs_node L o))) (d.find cs) := by
  intro cs
  induction cs with
  | nil =>
    intro p d o fuel _ hp ho hfuel
    obtain ⟨o', q, ho', -, hlt, hat⟩ := h.dir hp
    cases ho.symm.trans ho'
    obtain ⟨fuel, rfl⟩ := Nat.exists_eq_add_of_le' hfuel
    exact ⟨_, get_node_end _ _ _ (.inl rfl) (init_plain (.inr rfl) (.inl rfl)), hat.reads hlt⟩
  | cons c cs ih =>
    intro p d o fuel hcs hp ho hfuel
    obtain ⟨hc, hcs⟩ := List.forall_mem_cons.mp hcs
    obtain ⟨o', q, ho', -, hlt, hat⟩ := h.dir hp
    cases ho.symm.trans ho'
    obtain ⟨fuel, rfl⟩ := Nat.exists_eq_add_of_le' (Nat.lt_of_le_of_lt (Nat.zero_le _) hfuel)
    have hpath : joined SLASH (c :: cs) = SLASH :: (c ++ joined SLASH cs) := rfl
    have hsome : ((init_initrd m L).node () (initrd_loaddir_fs_node L o)).finddir.isSome = true := rfl
    rw [hpath, get_node_step _ _ _ hc (joined_tail cs) (init_plain (.inr rfl) (.inl rfl)) (init_plain (.inr rfl) (.inr rfl)),
      if_pos hsome, init_finddir rfl, hat.finddir hlt, Dir.find]
    rw [List.length_cons] at hfuel
    cases hdir : d.dirs.find? (·.1 = c) with
    | some s =>
      have hs : t.find (p ++ [c]) = some (.dir s.2) := by
        rw [Dir.find_append hp, Dir.find, hdir]
        rfl
      obtain ⟨o', -, ho', -⟩ := h.dir hs
      dsimp only
      rw [ho', Option.getD_some]
      exact ih (p ++ [c]) s.2 o' fuel hcs hs ho' (by omega)
    | none =>
      dsimp only
      obtain ⟨fuel, rfl⟩ := Nat.exists_eq_add_of_le' (Nat.lt_of_le_of_lt (Nat.zero_le cs.length) (by omega : cs.length < fuel))
      cases hfile : d.files.find? (·.1 = c) with
      | none =>
        rw [file_find_none hfile]
        split <;> rfl
      | some f =>
        obtain ⟨x, hx, hreads⟩ := hat.reads_file hfile
        rw [hx, Option.map_some]
        cases cs with
        | nil => exact ⟨_, get_node_end _ _ _ (.inl rfl) (init_plain (.inl rfl) (.inl rfl)), hreads⟩
        | cons c' cs =>
          -- ファイルの下には何もない。
          have hpath' : joined SLASH (c' :: cs) = SLASH :: (c' ++ joined SLASH cs) := rfl
          rw [hpath', get_node_step _ _ _ (List.forall_mem_cons.mp hcs).1 (joined_tail cs)
            (init_plain (.inl rfl) (.inl rfl)) (init_plain (.inl rfl) (.inr rfl))]
          rfl

/-! ## 内容を読む -/

/-- 写す先がファイルと重ならなければ、写した先はファイルと同じになる。手前は変わらない。 -/
theorem initrd_copy_holds {src buffer i : Nat} {data : List UInt8} (hheld : Holds m (src + i) data)
    (hsrc : src + i + data.length ≤ 2 ^ 32) (hbuf : buffer + i + data.length ≤ 2 ^ 32)
    (hout : ∀ k, k < data.length → buffer + i + k < src + i ∨ src + i + data.length ≤ buffer + i + k) :
    Holds (initrd_copy src buffer data.length i m).1 (buffer + i) data ∧
      ∀ a, a < buffer + i → (initrd_copy src buffer data.length i m).1 a = m a := by
  induction data generalizing i m with
  | nil => exact ⟨fun k hk => absurd hk (Nat.not_lt_zero k), fun _ _ => rfl⟩
  | cons c data ih =>
    rw [List.length_cons] at hsrc hbuf hout
    rw [List.length_cons, initrd_copy, add32_eq (by omega), add32_eq (by omega), hheld.head]
    have hrest : Holds (m.store8 (buffer + i) c) (src + (i + 1)) data := by
      intro k hk
      have hk' : m (src + i + 1 + k) = data[k] := hheld.tail k hk
      have := hout 0 (by omega)
      rw [ByteMem.store8_of_ne (by omega), ← hk', ← Nat.add_assoc]
    obtain ⟨htail, hbefore⟩ := ih hrest (by omega) (by omega) fun k hk => by
      have := hout (k + 1) (by omega)
      omega
    refine ⟨fun k hk => ?_, fun a ha => (hbefore a (by omega)).trans (ByteMem.store8_of_ne (by omega))⟩
    cases k with
    | zero => exact (hbefore _ (by omega)).trans ByteMem.store8_self
    | succ k =>
      have hk' := htail k (Nat.lt_of_succ_lt_succ hk)
      rwa [← Nat.add_assoc, Nat.add_assoc (buffer + i), Nat.add_comm 1] at hk'

theorem Reads.read {n : InitrdNode} {data : List UInt8} (h : Reads m n (.file data)) {size units buffer : Nat}
    (hunits : size * units = data.length) (hbuf : buffer + data.length ≤ 2 ^ 32)
    (hout : ∀ i, i < data.length → buffer + i < n.impl ∨ n.impl + data.length ≤ buffer + i) :
    (initrd_read_fs m n size units buffer).ret = data.length / size ∧
      Holds (initrd_read_fs m n size units buffer).mem buffer data := by
  obtain ⟨hflags, hsize, hseek, hfits, hlen, hheld⟩ := h
  unfold initrd_read_fs
  rw [if_neg (file_not_dir hflags)]
  by_cases hzero : size = 0 ∨ units = 0
  · have h0 : data.length = 0 := hunits ▸ Nat.mul_eq_zero.mpr hzero
    rw [if_pos hzero, h0, Nat.zero_div]
    exact ⟨rfl, fun i hi => absurd hi (by omega)⟩
  · obtain ⟨hsize0, hunits0⟩ := not_or.mp hzero
    have hpos : 0 < data.length := hunits ▸ Nat.mul_pos (Nat.pos_of_ne_zero hsize0) (Nat.pos_of_ne_zero hunits0)
    have hquot : data.length / size = units := hunits ▸ Nat.mul_div_cancel_left units (Nat.pos_of_ne_zero hsize0)
    rw [if_neg hzero, mul32_eq (by omega), hunits, hseek, hsize, if_neg (by omega), add32_eq (by omega), Nat.zero_add,
      if_neg (Nat.lt_irrefl _), add32_eq (by omega)]
    dsimp only
    rw [hquot, if_pos hunits0]
    exact ⟨rfl, (initrd_copy_holds hheld hfits hbuf hout).1⟩

/-! ## 往復 -/

/-- 最初の要素は根である。 -/
theorem Loaded.root (h : Loaded t walk m L) : (pass1 walk).folder_ind [] = some 4 := by
  obtain ⟨e, he, hroot⟩ := h.listed.all [] t rfl
  obtain ⟨l, l', rfl⟩ := List.append_of_mem he
  have hind := folder_ind_eq h.listed.nodup
  rw [hroot] at hind
  cases l with
  | nil => exact hind
  | cons e₀ l =>
    -- 先頭の要素には、先に並ぶ親がない。
    rcases List.eq_nil_or_concat' e₀.root_folder with h0 | ⟨p, n, hp⟩
    · have hnodup := h.listed.nodup
      rw [List.cons_append, List.map_cons, List.nodup_cons] at hnodup
      exact absurd (List.mem_map.mpr ⟨e, List.mem_append_right _ List.mem_cons_self, hroot.trans h0.symm⟩) hnodup.1
    · obtain ⟨e', he', -⟩ := h.listed.parents [] e₀ (l ++ e :: l') p n rfl hp
      cases he'

theorem intercalate_joined (c : Name) (cs : List Name) :
    SLASH :: [SLASH].intercalate (c :: cs) = joined SLASH (c :: cs) := by
  induction cs generalizing c with
  | nil => simp [joined, List.intercalate]
  | cons c' cs ih =>
    have hstep : [SLASH].intercalate (c :: c' :: cs) = c ++ SLASH :: [SLASH].intercalate (c' :: cs) := by
      simp [List.intercalate]
    rw [hstep, ih]
    rfl

theorem Loaded.get_node (h : Loaded t walk m L) {comps : List Name} (hcomps : ∀ c ∈ comps, c ≠ [] ∧ SLASH ∉ c) :
    Finds m ((init_initrd m L).get_node () (SLASH :: [SLASH].intercalate comps)) (t.find comps) := by
  obtain ⟨o, q, ho, -, hlt, hat⟩ := h.dir (p := []) (d := t) rfl
  cases h.root.symm.trans ho
  have hroot : (init_initrd m L).root_dir = initrd_loaddir_fs_node L 4 := by
    have hoff : sub32 (add32 L 4) L = 4 := by
      rw [add32_eq hlt, sub32_eq hlt (Nat.le_add_right _ _), Nat.add_sub_cancel_left]
    exact congrArg (initrd_loaddir_fs_node L) hoff
  unfold Vnodes.get_node
  rw [hroot]
  cases comps with
  | nil => exact ⟨_, get_node_end _ _ _ (.inr rfl) (init_plain (.inr rfl) (.inl rfl)), hat.reads hlt⟩
  | cons c cs =>
    rw [intercalate_joined]
    have hcount : (joined SLASH (c :: cs)).count SLASH = (c :: cs).length := count_joined fun x hx => (hcomps x hx).2
    exact h.finds (c :: cs) [] t 4 _ hcomps rfl h.root (Nat.lt_succ_of_le (hcount ▸ List.count_le_length))

/-- `a/b` だけを置いた木。 -/
def sub_dir : Dir := .mk [] [([0x62], [0x68, 0x69])]
def one_file : Dir := .mk [([0x61], sub_dir)] []
end MyOS.Vfs
