import MyOS.Vfs.Node
import MyOS.Vfs.Vnodes
import Mathlib.Logic.Relation
import Mathlib.Order.WellFounded

/-!
# パスの探索の定理

`get_node` は、末尾に `/` が二つ続くと、空の名前も探す。木の中では、この探索が元のノードに戻ることはない。
-/

namespace MyOS.Vfs
open MyOS.Lib Relation

variable {n m k root : Node} {name w t path : List UInt8} {comps : List (List UInt8)}

/-! ## 木の子 -/

inductive Child : Node → Node → Prop
  | ptr (flags : UInt8) (p : Node) (finddir mounts) : Child p (.mk flags (some p) finddir mounts)
  | found (flags : UInt8) (ptr) (f : List UInt8 → Option Node) (mounts) (name : List UInt8) (m : Node) :
      f name = some m → Child m (.mk flags ptr (some f) mounts)
  | mount (flags : UInt8) (ptr finddir) (mounts : List (List UInt8 × Node)) (e : List UInt8 × Node) :
      e ∈ mounts → Child e.2 (.mk flags ptr finddir mounts)

theorem child_acc (n : Node) : Acc Child n := by
  refine @Node.rec (fun n => Acc Child n) (fun o => ∀ m ∈ o, Acc Child m)
    (fun o => ∀ f ∈ o, ∀ name, ∀ m ∈ f name, Acc Child m) (fun l => ∀ e ∈ l, Acc Child e.2)
    (fun e => Acc Child e.2) ?_ ?_ ?_ ?_ ?_ ?_ ?_ ?_ n
  · intro flags ptr finddir mounts hptr hfind hmounts
    refine ⟨_, fun m hm => ?_⟩
    cases hm with
    | ptr => exact hptr m rfl
    | found _ _ f _ name _ hf => exact hfind f rfl name m hf
    | mount _ _ _ _ e he => exact hmounts e he
  · rintro _ ⟨⟩
  · rintro n hn _ ⟨⟩
    exact hn
  · rintro _ ⟨⟩
  · rintro f hf _ ⟨⟩ name m hm
    exact hf name m hm
  · rintro _ ⟨⟩
  · intro e l he hl
    exact List.forall_mem_cons.mpr ⟨he, hl⟩
  · intro name n hn
    exact hn

theorem not_below_self (n : Node) : ¬ TransGen Child n n :=
  (WellFounded.intro child_acc).transGen.irrefl.irrefl n

theorem cross_all_below (n : Node) : ReflTransGen Child n.cross_all n := by
  induction hacc : child_acc n with
  | intro n _ ih =>
      obtain ⟨flags, ptr, finddir, mounts⟩ := n
      cases ptr with
      | none => exact .refl
      | some p =>
          unfold Node.cross_all
          split_ifs
          · exact (ih p (.ptr ..) rfl).tail (.ptr ..)
          · exact .refl

theorem finddir_fs_child (h : finddir_fs n name = some m) : Child m n := by
  obtain ⟨flags, ptr, finddir, mounts⟩ := n
  unfold finddir_fs at h
  split_ifs at h
  split at h
  · next found hf =>
      obtain ⟨f, hfd, hf⟩ := Option.bind_eq_some_iff.mp hf
      cases hfd
      cases h
      exact .found _ _ f _ name _ hf
  · obtain ⟨e, he, rfl⟩ := Option.map_eq_some_iff.mp h
    exact .mount _ _ _ _ e (List.mem_of_find?_eq_some he)

/-- 名前を一つ探した先から、元のディレクトリへは戻れない。 -/
theorem walk_ne_self (h : finddir_fs n.cross_all name = some m) : m.cross_all ≠ n.cross_all := by
  intro heq
  have hstep : TransGen Child m.cross_all n.cross_all := .tail' (cross_all_below m) (finddir_fs_child h)
  rw [heq] at hstep
  exact not_below_self _ hstep

/-! ## 一つの部分 -/

theorem endsTwice_append (hw : w ≠ []) (hsep : SLASH ∉ w) : EndsTwice (name ++ w ++ t) ↔ EndsTwice t := by
  obtain ⟨l, x, rfl⟩ := (List.eq_nil_or_concat' w).resolve_left hw
  have hx : SLASH ≠ x := fun h => hsep (by simp [h])
  unfold EndsTwice
  have hrev : ∀ s : List UInt8, [SLASH, SLASH] <:+ s ↔ [SLASH, SLASH] <+: s.reverse := fun s =>
    List.reverse_prefix.symm
  rw [hrev, hrev]
  simp only [List.reverse_append, List.reverse_cons, List.reverse_nil, List.nil_append, List.append_assoc]
  cases ht : t.reverse with
  | nil => simp [hx]
  | cons a r =>
      cases r with
      | nil => simp [hx]
      | cons b r => simp

theorem lookups_word (hw : w ≠ []) (hsep : SLASH ∉ w) (ht : t = [] ∨ ∃ r, t = SLASH :: r) (slashes : Nat) :
    lookups (List.replicate slashes SLASH ++ w ++ t) = w :: lookups t := by
  have hcomps : components SLASH (List.replicate slashes SLASH ++ (w ++ t)) = w :: components SLASH t := by
    induction slashes with
    | zero => exact components_word_append hw hsep ht
    | succ slashes ih =>
        rw [List.replicate_succ, List.cons_append, components_sep]
        exact ih
  unfold lookups
  simp only [endsTwice_append hw hsep]
  rw [List.append_assoc, hcomps, List.cons_append]

/-- `/` だけのパス、または `/` の後の最初の部分と残り。 -/
theorem path_cases (path : List UInt8) : (∃ slashes, path = List.replicate slashes SLASH) ∨
    ∃ slashes w t, path = List.replicate slashes SLASH ++ w ++ t ∧ w ≠ [] ∧ SLASH ∉ w ∧
      (t = [] ∨ ∃ r, t = SLASH :: r) := by
  induction path using components_induction SLASH with
  | nil => exact Or.inl ⟨0, rfl⟩
  | sep_cons path ih =>
      rcases ih with ⟨k, rfl⟩ | ⟨k, w, t, rfl, h⟩
      · exact Or.inl ⟨k + 1, rfl⟩
      · exact Or.inr ⟨k + 1, w, t, rfl, h⟩
  | word w t hw hsep ht => exact Or.inr ⟨0, w, t, rfl, hw, hsep, ht⟩

theorem dropWhile_slashes (slashes : Nat) (ht : t.head? ≠ some SLASH) :
    (List.replicate slashes SLASH ++ t).dropWhile (· = SLASH) = t := by
  rw [List.dropWhile_append_of_pos (fun x hx => decide_eq_true (List.eq_of_mem_replicate hx))]
  cases t with
  | nil => rfl
  | cons c t => exact List.dropWhile_cons_of_neg (by simpa using ht)

/-- 一回の再帰で探す名前と、残りのパス。 -/
theorem path_step (hne : path ≠ [] ∧ path ≠ [SLASH]) : ∃ name t,
    (path.dropWhile (· = SLASH)).takeWhile (· ≠ SLASH) = name ∧
    (path.dropWhile (· = SLASH)).dropWhile (· ≠ SLASH) = t ∧
    lookups path = name :: lookups t ∧ t.length < path.length := by
  rcases path_cases path with ⟨slashes, rfl⟩ | ⟨slashes, w, t, rfl, hw, hsep, ht⟩
  · have hdrop := dropWhile_slashes slashes (t := []) (by simp)
    rw [List.append_nil] at hdrop
    rw [hdrop]
    refine ⟨[], [], rfl, rfl, ?_, List.length_pos_iff.mpr hne.1⟩
    match slashes, hne with
    | slashes + 2, _ =>
        have hcomps : components SLASH (List.replicate (slashes + 2) SLASH) = [] := by
          induction slashes + 2 with
          | zero => rfl
          | succ n ih => rw [List.replicate_succ, components_sep, ih]
        have htwice : EndsTwice (List.replicate (slashes + 2) SLASH) :=
          ⟨List.replicate slashes SLASH, (List.replicate_add slashes 2 SLASH).symm⟩
        unfold lookups
        rw [hcomps, if_pos htwice]
        rfl
  · obtain ⟨c, w', rfl⟩ := List.exists_cons_of_ne_nil hw
    have hdrop := dropWhile_slashes slashes (t := c :: w' ++ t) (by
      simp only [List.cons_append, List.head?_cons, ne_eq, Option.some.injEq]
      rintro rfl
      exact hsep (List.mem_cons_self ..))
    have hall : ∀ x ∈ c :: w', decide (x ≠ SLASH) = true := fun x hx =>
      decide_eq_true (fun h => hsep (h ▸ hx))
    rw [List.append_assoc, hdrop]
    refine ⟨c :: w', t, ?_, ?_, ?_, ?_⟩
    · rw [List.takeWhile_append_of_pos hall]
      rcases ht with rfl | ⟨r, rfl⟩ <;> simp
    · rw [List.dropWhile_append_of_pos hall]
      rcases ht with rfl | ⟨r, rfl⟩ <;> simp
    · rw [← List.append_assoc]
      exact lookups_word hw hsep ht slashes
    · simp only [List.length_append, List.length_cons]
      omega

theorem plain_root (hplain : Plain n) :
    (if n.has FS_MOUNTPOINT = true ∨ n.has FS_SYMLINK = true then n.ptr else some n) = some n.cross_all := by
  rw [hplain.symlink]
  by_cases hmount : n.has FS_MOUNTPOINT = true
  · rw [if_pos (Or.inl hmount), hplain.mount hmount]
  · rw [if_neg (by simpa using hmount)]
    obtain ⟨flags, ptr, finddir, mounts⟩ := n
    cases ptr with
    | none => rfl
    | some p =>
        unfold Node.cross_all
        rw [if_neg hmount]

theorem get_node_loop_eq : ∀ (fuel : Nat) (path : List UInt8) (n : Node), path.length < fuel →
    OnWay Plain n (lookups path) → get_node_loop fuel path (some n) = some (lookup n (lookups path)) := by
  intro fuel
  induction fuel with
  | zero =>
      intro path n h
      omega
  | succ fuel ih =>
      intro path n hlen hway
      unfold get_node_loop
      by_cases hend : path = [] ∨ path = [SLASH]
      · rw [if_pos hend]
        rcases hend with rfl | rfl <;> rfl
      · obtain ⟨name, t, hname, hrest, hlook, hshort⟩ := path_step (not_or.mp hend)
        rw [hlook] at hway ⊢
        obtain ⟨hplain, hnext⟩ := hway
        obtain ⟨fuel, rfl⟩ : ∃ k, fuel = k + 1 := ⟨fuel - 1, by omega⟩
        simp only
        rw [if_neg hend, hname, hrest, plain_root hplain, Option.bind_some]
        unfold lookup walk
        cases hfound : finddir_fs n.cross_all name with
        | none => simp [get_node_loop]
        | some m =>
            have hfd : n.cross_all.finddir.isSome = true := by
              by_contra hnone
              have hnil := Option.not_isSome_iff_eq_none.mp hnone
              unfold finddir_fs at hfound
              rw [hnil, hplain.finddir hnil] at hfound
              simp at hfound
            rw [if_pos hfd, Option.bind_some]
            exact ih t m (by omega) (hnext m hfound)

/-! ## 探索の結果 -/

theorem walk_append (cs ds : List (List UInt8)) (n : Node) :
    walk n (cs ++ ds) = (walk n cs).bind (walk · ds) := by
  induction cs generalizing n with
  | nil => rfl
  | cons c cs ih =>
      simp only [List.cons_append, walk, ih]
      cases finddir_fs n.cross_all c <;> rfl

/-- 部分の列だけで決まるのは、末尾に `/` が二つ続かないか、途中の探索が失敗するときに限る。 -/
theorem get_node_iff (hway : OnWay Plain root (lookups path)) :
    get_node path (some root) = some (lookup root (components SLASH path)) ↔
      ¬ EndsTwice path ∨ lookup root (components SLASH path) = none := by
  unfold get_node
  rw [get_node_loop_eq _ path root (Nat.lt_succ_self _) hway, Option.some.injEq]
  unfold lookups lookup
  by_cases htwice : EndsTwice path
  · rw [if_pos htwice, walk_append]
    simp only [htwice, not_true_eq_false, false_or]
    cases hend : walk root (components SLASH path) with
    | none => simp
    | some m =>
        simp only [Option.bind_some, walk, Option.map_some, reduceCtorEq, iff_false]
        cases hfound : finddir_fs m.cross_all [] with
        | none => simp
        | some k => simpa using walk_ne_self hfound
  · rw [if_neg htwice, List.append_nil]
    simp [htwice]

/-! ## 例 -/

/-- 名前が `name` の子だけを持つディレクトリ。 -/
def dir_of (name : List UInt8) (child : Node) : Node :=
  .mk FS_DIRECTORY none (some fun s => if s = name then some child else none) []

/-- 根に、空のディレクトリ `a` がある。 -/
def one_dir : Node := dir_of [0x61] (.mk FS_DIRECTORY none (some fun _ => none) [])

def a_slash : List UInt8 := [SLASH, SLASH, 0x61, SLASH]

/-- `//a/` は見つかる。 -/
theorem get_node_a_slash : get_node a_slash (some one_dir) = some (lookup one_dir (components SLASH a_slash)) ∧
    (lookup one_dir (components SLASH a_slash)).isSome = true := by
  have hlook : lookups a_slash = [[0x61]] := by decide +kernel
  have hplain : Plain one_dir := by
    refine ⟨rfl, fun h => ?_, ?_⟩
    · exact absurd h (by decide)
    · rintro ⟨⟩
  have hway : OnWay Plain one_dir (lookups a_slash) := by
    rw [hlook]
    exact ⟨hplain, fun _ _ => trivial⟩
  exact ⟨(get_node_iff hway).mpr (Or.inl (by decide +kernel)), by decide +kernel⟩

/-- `/a//` は、部分の列が同じ `/a` と違って NULL になる。 -/
theorem get_node_double_slash :
    components SLASH [SLASH, 0x61, SLASH, SLASH] = components SLASH [SLASH, 0x61] ∧
    (get_node [SLASH, 0x61, SLASH, SLASH] (some one_dir)).map Option.isSome = some false ∧
    (get_node [SLASH, 0x61] (some one_dir)).map Option.isSome = some true ∧
    (lookup one_dir (components SLASH [SLASH, 0x61, SLASH, SLASH])).isSome = true := by
  decide +kernel

/-! ## 木のグラフ -/

/-- 木のノードの欄。`get_node` の使わない欄は空とする。 -/
def Node.fields (n : Node) : FsNode Unit Node :=
  ⟨n.flags, 0, n.ptr, none, n.finddir, none, none, none, n.mounts⟩

/-- `ptr` をたどれる回数。 -/
def Node.depth : Node → Nat
  | mk _ (some ptr) _ _ => ptr.depth + 1
  | mk _ none _ _ => 0

theorem Node.depth_ptr (h : n.ptr = some m) : m.depth < n.depth := by
  obtain ⟨flags, ptr, finddir, mounts⟩ := n
  obtain rfl : ptr = some m := h
  exact Nat.lt_succ_self m.depth

/-- ノードそのものを番地として、木をグラフと見る。 -/
def Node.graph (root : Node) : Vnodes Unit Node :=
  ⟨fun _ n => n.fields, root, Node.depth, fun _ _ _ h => Node.depth_ptr h⟩

theorem graph_cross_all (root n : Node) : root.graph.cross_all () n = n.cross_all := by
  induction hacc : child_acc n with
  | intro n _ ih =>
    obtain ⟨flags, ptr, finddir, mounts⟩ := n
    unfold Vnodes.cross_all
    cases ptr with
    | none =>
      unfold Node.cross_all
      split <;> rfl
    | some p =>
      unfold Node.cross_all
      refine if_congr Iff.rfl ?_ rfl
      exact ih p (.ptr ..) rfl

theorem graph_finddir_fs (root n : Node) (name : List UInt8) :
    root.graph.finddir_fs () n name = finddir_fs n name := by
  unfold Vnodes.finddir_fs finddir_fs
  refine if_congr Iff.rfl ?_ rfl
  dsimp only [Node.graph, Node.fields]
  cases n.finddir.bind (· name) <;> rfl

theorem graph_get_node_loop (root : Node) (fuel : Nat) (path : List UInt8) (r : Option Node) :
    root.graph.get_node_loop () fuel path r = get_node_loop fuel path r := by
  induction fuel generalizing path r with
  | zero => rfl
  | succ fuel ih =>
    cases r with
    | none => rfl
    | some n =>
      unfold Vnodes.get_node_loop get_node_loop
      rw [graph_cross_all]
      refine if_congr Iff.rfl rfl ?_
      refine Option.bind_congr fun m _ => ?_
      rw [graph_finddir_fs]
      exact if_congr Iff.rfl (ih _ _) rfl

/-- 木の探索は、そのグラフの上の `get_node` である。 -/
theorem graph_get_node (root : Node) (path : List UInt8) : root.graph.get_node () path = get_node path (some root) :=
  graph_get_node_loop root _ _ _

end MyOS.Vfs
