import MyOS.Fat.Lemmas.Data
import MyOS.Fat.Lemmas.Read
import MyOS.Fat.WalkTheorems

/-!
# 読み出しの定理

`fat12_read_fs` は鎖の終わりまで読み、ファイルの大きさでは止まらない。
-/

namespace MyOS.Fat
open MyOS.Lib

variable {fs : Fs} {node : Node} {size units : Nat}

/-- 読む量は鎖の容量だけで決まる。 -/
theorem read_fs_spec (hlay : Layout fs) (hspc : 0 < bytes_per_cluster fs) (hseek : node.seek_offset < 2 ^ 32)
    (hbuf : size * units + bytes_per_cluster fs ≤ 2 ^ 32)
    (hend : ChainEnds fs node.inode ∨ node.seek_offset + size * units + bytes_per_cluster fs ≤ 2 ^ 32)
    (buffer : ByteMem) : ∃ out, fat12_read_fs fs node size units (some buffer) =
      some ({ node with seek_offset := add32 node.seek_offset (min (size * units)
        (read_capacity fs node.inode (add32 node.seek_offset (size * units)) - node.seek_offset)) },
        min (size * units) (read_capacity fs node.inode (add32 node.seek_offset (size * units)) - node.seek_offset),
        some out) ∧
      ∀ i < min (size * units) (read_capacity fs node.inode (add32 node.seek_offset (size * units)) - node.seek_offset),
        out i = file_byte fs node.inode (node.seek_offset + i) := by
  have hend' : ChainEnds fs node.inode ∨ add32 node.seek_offset (size * units) + bytes_per_cluster fs ≤ 2 ^ 32 := by
    rcases hend with h | h
    · exact Or.inl h
    · rw [add32_eq (by omega)]
      exact Or.inr h
  obtain ⟨out, hrun, hout⟩ := read_chain_spec buffer hseek hbuf hspc (read_capacity_lt hlay hspc hend')
  refine ⟨out, ?_, hout⟩
  unfold fat12_read_fs
  rw [mul32_eq (by omega)]
  simp only [hrun, Option.map_some]

/-! ## 一回の読み出し -/

theorem readOk_iff (hlay : Layout fs) (hspc : 0 < bytes_per_cluster fs) (hsize : node.size < 2 ^ 32)
    (hseek : node.seek_offset < 2 ^ 32) (hbuf : size * units + bytes_per_cluster fs ≤ 2 ^ 32)
    (hend : ChainEnds fs node.inode ∨ node.seek_offset + size * units + bytes_per_cluster fs ≤ 2 ^ 32) :
    ReadOk fs node size units ↔
      size * units ≤ node.size - node.seek_offset ∧
          size * units ≤ read_capacity fs node.inode (add32 node.seek_offset (size * units)) - node.seek_offset ∨
        read_capacity fs node.inode (add32 node.seek_offset (size * units)) - node.seek_offset =
          node.size - node.seek_offset := by
  have hspec := read_fs_spec hlay hspc hseek hbuf hend
  generalize read_capacity fs node.inode (add32 node.seek_offset (size * units)) = cap at *
  constructor
  · intro h
    obtain ⟨out, hrun, -⟩ := hspec fun _ => 0
    obtain ⟨out', hrun', -⟩ := h fun _ => 0
    have heq := hrun.symm.trans hrun'
    simp only [Option.some.injEq, Prod.mk.injEq] at heq
    have hcount := heq.2.1
    omega
  · intro h buffer
    obtain ⟨out, hrun, hout⟩ := hspec buffer
    have hmin : min (size * units) (cap - node.seek_offset) = min (size * units) (node.size - node.seek_offset) := by
      omega
    rw [hmin] at hrun hout
    refine ⟨out, ?_, hout⟩
    rw [hrun, add32_eq (by omega)]

/-! ## 0 が返るまでの繰り返し -/

/-- 終わりのある鎖では、鎖の残りと頼まれた量の少ない方が返る。 -/
theorem read_to_end (hlay : Layout fs) (hspc : 0 < bytes_per_cluster fs) (hchain : ChainEnds fs node.inode)
    (hbuf : size * units + bytes_per_cluster fs ≤ 2 ^ 32) (hle : node.seek_offset ≤ chain_capacity fs node.inode)
    (hfit : node.seek_offset + size * units < 2 ^ 32 ∨ node.seek_offset = chain_capacity fs node.inode)
    (buffer : ByteMem) :
    ∃ out n, n = min (size * units) (chain_capacity fs node.inode - node.seek_offset) ∧
      fat12_read_fs fs node size units (some buffer) =
        some ({ node with seek_offset := node.seek_offset + n }, n, some out) ∧
      ∀ i < n, out i = file_byte fs node.inode (node.seek_offset + i) := by
  have hcap := chain_capacity_lt hlay node.inode
  obtain ⟨out, hrun, hout⟩ := read_fs_spec hlay hspc (by omega) hbuf (Or.inl hchain) buffer
  have hmin : min (size * units) (read_capacity fs node.inode (add32 node.seek_offset (size * units)) - node.seek_offset) =
      min (size * units) (chain_capacity fs node.inode - node.seek_offset) := by
    rcases hchain.read_capacity hspc (add32 node.seek_offset (size * units)) with heq | ⟨hlo, hhi⟩
    · rw [heq]
    · rcases hfit with hfit | hfit
      · rw [add32_eq hfit] at *
        omega
      · omega
  rw [hmin] at hrun hout
  refine ⟨out, _, rfl, ?_, hout⟩
  rw [hrun, add32_eq (by omega)]

/-- 位置 `seek_offset` から読み続けると、鎖の残りがすべて得られる。残りの量に関する帰納法による。 -/
theorem read_all_spec (hlay : Layout fs) (hspc : 0 < bytes_per_cluster fs) (hbuf : size * units + bytes_per_cluster fs ≤ 2 ^ 32)
    (hpos : 0 < size * units) : ∀ (rest : Nat) (node : Node), ChainEnds fs node.inode →
    node.seek_offset + rest = chain_capacity fs node.inode → (node.seek_offset + size * units < 2 ^ 32 ∨ rest = 0) →
    ∀ fuel > rest, read_all fs size units fuel node =
      some ((List.range' node.seek_offset rest).map (file_byte fs node.inode)) := by
  intro rest
  induction rest using Nat.strongRecOn with
  | ind rest ih =>
      intro node hchain hrest hfit fuel hfuel
      have hcap := chain_capacity_lt hlay node.inode
      obtain ⟨fuel, rfl⟩ : ∃ n, fuel = n + 1 := ⟨fuel - 1, by omega⟩
      obtain ⟨out, n, hn, hrun, hout⟩ := read_to_end hlay hspc hchain hbuf (by omega)
        (hfit.imp_right fun h => by omega) fun _ => 0
      simp only [read_all, hrun]
      by_cases hzero : n = 0
      · rw [if_pos hzero, show rest = 0 by omega]
        rfl
      · rw [if_neg hzero, ih (rest - n) (by omega) { node with seek_offset := node.seek_offset + n } hchain
          (by simp only; omega) (by simp only; omega) fuel (by omega)]
        have hmap : (List.range n).map out = (List.range' node.seek_offset n).map (file_byte fs node.inode) := by
          rw [List.range'_eq_map_range, List.map_map]
          exact List.map_congr_left fun i hi => hout i (List.mem_range.mp hi)
        rw [Option.map_some, hmap, ← List.map_append, List.range'_append_1, Nat.add_sub_cancel' (by omega)]

theorem readsAll_iff (hlay : Layout fs) (hspc : 0 < bytes_per_cluster fs)
    (hbuf : size * units + bytes_per_cluster fs ≤ 2 ^ 32) (hpos : 0 < size * units) (hchain : ChainEnds fs node.inode) :
    ReadsAll fs node size units ↔ node.size = chain_capacity fs node.inode := by
  have hall := read_all_spec hlay hspc hbuf hpos (chain_capacity fs node.inode) { node with seek_offset := 0 } hchain
    (Nat.zero_add _) (Or.inl (by simp only; omega))
  simp only [← List.range_eq_range'] at hall
  constructor
  · rintro ⟨count, h⟩
    have heq := (h (count + chain_capacity fs node.inode + 1) (by omega)).symm.trans
      (hall (count + chain_capacity fs node.inode + 1) (by omega))
    simpa using congrArg (fun l => (l.map List.length)) heq
  · intro heq
    refine ⟨chain_capacity fs node.inode + 1, fun fuel hfuel => ?_⟩
    rw [hall fuel (by omega), heq]

/-- 一回の読み出しが正しいのは、頼まれた量がファイルの残りにも鎖の残りにも収まるか、二つの残りが等しいときに限る。
続けて読んでファイルの大きさの分が得られるのは、大きさが鎖の容量に等しいときに限る。 -/
theorem read_fs_iff (hlay : Layout fs) (hspc : 0 < bytes_per_cluster fs) (hsize : node.size < 2 ^ 32)
    (hseek : node.seek_offset < 2 ^ 32) (hbuf : size * units + bytes_per_cluster fs ≤ 2 ^ 32)
    (hend : ChainEnds fs node.inode ∨ node.seek_offset + size * units + bytes_per_cluster fs ≤ 2 ^ 32) :
    (ReadOk fs node size units ↔
      size * units ≤ node.size - node.seek_offset ∧
          size * units ≤ read_capacity fs node.inode (add32 node.seek_offset (size * units)) - node.seek_offset ∨
        read_capacity fs node.inode (add32 node.seek_offset (size * units)) - node.seek_offset =
          node.size - node.seek_offset) ∧
      (0 < size * units → ChainEnds fs node.inode →
        (ReadsAll fs node size units ↔ node.size = chain_capacity fs node.inode)) :=
  ⟨readOk_iff hlay hspc hsize hseek hbuf hend, fun hpos hchain => readsAll_iff hlay hspc hbuf hpos hchain⟩

theorem filled_layout (root_entry_count : Nat) (fill : UInt8) (h : root_entry_count < 2 ^ 16) :
    Layout (filled root_entry_count fill) := by
  refine ⟨rfl, rfl, Nat.le_of_ble_eq_true rfl, rfl, rfl, ?_⟩
  simp only [filled]
  omega

/-- 先頭が `inode` のファイル。 -/
def file_node (size inode : Nat) : Node := ⟨[], FS_FILE, size, inode, 0⟩

theorem read_fs_whole : ReadOk (filled 16 0x41) (file_node 512 3) 1 512 ∧ ReadsAll (filled 16 0x41) (file_node 512 3) 1 512 := by
  have hchain : ChainEnds (filled 16 0x41) 3 :=
    .next (by rw [show fat12_get_fat_entry (filled 16 0x41) 3 = 0xFFFF by decide +kernel]; exact .last)
  have h := @read_fs_iff (filled 16 0x41) (file_node 512 3) 1 512 (filled_layout 16 0x41 (by decide)) (by decide) (by decide) (by decide) (by decide) (Or.inl hchain)
  exact ⟨h.1.mpr (Or.inl (by decide +kernel)), (h.2 (by decide) hchain).mpr (by decide +kernel)⟩

/-- 5 バイトのファイルからクラスタ一つ分を読む。空のファイルからもクラスタ 0 を読む。 -/
theorem read_fs_past_end : ¬ ReadOk (filled 16 0x41) (file_node 5 3) 1 512 ∧ ¬ ReadOk (filled 16 0x41) (file_node 0 0) 1 512 := by
  refine ⟨fun h => ?_, fun h => ?_⟩
  · obtain ⟨out, hrun, -⟩ := h fun _ => 0
    have hcount : (fat12_read_fs (filled 16 0x41) (file_node 5 3) 1 512 (some fun _ => 0)).map (·.2.1) = some 512 := by
      decide +kernel
    rw [hrun] at hcount
    simp [file_node] at hcount
  · obtain ⟨out, hrun, -⟩ := h fun _ => 0
    have hcount : (fat12_read_fs (filled 16 0x41) (file_node 0 0) 1 512 (some fun _ => 0)).map (·.2.1) = some 512 := by
      decide +kernel
    rw [hrun] at hcount
    simp [file_node] at hcount

end MyOS.Fat

/-!
## 書いた内容の定理

`fat12_write_chain` が書いた分は、`fat12_read_chain` でそのまま読める。
-/

namespace MyOS.Fat
open MyOS.Lib

variable {fs : Fs} {first offset size pos : Nat} {l ext : List Nat}

theorem list_byte_append (hpos : pos < l.length * bytes_per_cluster fs) :
    list_byte fs (l ++ ext) pos = list_byte fs l pos := by
  unfold list_byte
  rw [List.getD_eq_getElem?_getD, List.getElem?_append_left (Nat.div_lt_of_lt_mul (by rwa [Nat.mul_comm])),
    List.getD_eq_getElem?_getD]

/-- 書いた量は頼まれた量以下であり、少ないのは空きクラスタがないときだけである。書いた範囲の外は変わらない。 -/
theorem write_chain_data (hlay : Layout fs) (hspc : 0 < bytes_per_cluster fs) (hchain : ChainOk fs first l)
    (hfit : offset + size + bytes_per_cluster fs < 2 ^ 32) (buffer : ByteMem) :
    ∃ fs' n ext, fat12_write_chain fs first offset size (some buffer) = some (fs', n) ∧
      DataWritten fs fs' first offset size n buffer l ext := by
  obtain ⟨l', hcons⟩ := hchain.follows.exists_cons
  have hcur : Cursor first l := Or.inr ⟨l', hcons, hchain.ne_end first hchain.follows.mem_head⟩
  have hbound := hchain.bound
  obtain ⟨fs', n, ext, hrun, hw, hlog⟩ := write_chain_loop_data offset size buffer maxChain fs [] l first hlay hchain
    hcur (by unfold maxChain; omega) hfit (fun hnil => by rw [hcons] at hnil; cases hnil)
  rw [List.length_nil, Nat.zero_mul] at hrun hlog
  obtain ⟨hchain', hsame, hcount, -, hfits, hfull, hbytes⟩ := hw
  simp only [List.nil_append, List.length_nil, Nat.zero_mul, Nat.zero_le, true_and] at hchain' hsame hfits hbytes hlog
  have hbpc := hsame.bytes_per_cluster
  refine ⟨fs', n, ext, ?_, hchain', hcount, fun old => ?_, fun pos hpos hout => ?_, ?_, hsame.disk, hfull⟩
  · unfold fat12_write_chain
    rw [add32_eq (by omega)]
    exact hrun
  · have hcap : n ≤ read_capacity fs' first (add32 offset n) - offset := by
      rw [add32_eq (by omega)]
      rcases hfits with hzero | hfits
      · omega
      · rw [← hbpc] at hfits
        rcases read_capacity_cases hchain'.follows hchain'.ne_end (by rwa [hbpc]) (offset + n) with heq | ⟨hle, -⟩ <;> omega
    have hsmall : read_capacity fs' first (add32 offset n) < 2 ^ 32 := by
      refine read_capacity_lt (hlay.of_same hsame) (by rwa [hbpc]) (Or.inr ?_)
      rw [hbpc, add32_eq (by omega)]
      omega
    obtain ⟨out, hread, hout⟩ := read_chain_spec old (by omega) (by omega) (by rwa [hbpc]) hsmall
    rw [Nat.min_eq_left hcap] at hread hout
    refine ⟨out, hread, fun i hi => ?_⟩
    have hpos : offset + i < (l ++ ext).length * bytes_per_cluster fs := by omega
    rw [hout i hi, file_byte_eq hchain'.follows (by rwa [hbpc]), hbytes _ hpos, if_pos (by omega), Nat.add_sub_cancel_left]
  · have hpos' : pos < (l ++ ext).length * bytes_per_cluster fs :=
      Nat.lt_of_lt_of_le hpos (Nat.mul_le_mul_right _ (by simp))
    rw [file_byte_eq hchain'.follows (by rwa [hbpc]), hbytes pos hpos', if_neg (by omega), list_byte_append hpos,
      file_byte_eq hchain.follows hpos]
  · rw [add32_eq (by omega)]
    exact hlog

/-- クラスタ 3 の途中から書き、クラスタ 4 をつなぐ。 -/
theorem write_chain_data_grow : ∃ fs' n ext,
    fat12_write_chain (filled 16 0x41) 3 500 20 (some fun _ => 0x42) = some (fs', n) ∧
      DataWritten (filled 16 0x41) fs' 3 500 20 n (fun _ => 0x42) [3] ext :=
  write_chain_data (filled_layout 16 0x41 (by decide)) (by decide)
    ⟨by decide, by decide, .last (by decide +kernel), by unfold InRange; decide⟩ (by decide) _

end MyOS.Fat
