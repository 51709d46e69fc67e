import MyOS.Fat.Invariant
import MyOS.Fat.Ops

/-!
# ディレクトリの歩き方（fs/fat12.c）

ディレクトリの項目を並ぶ順に挙げ、`fat12_readdir_fs` の結果と、鎖をたどる三つの繰り返しの停止を述べる。
-/

namespace MyOS.Fat
open MyOS.Lib

/-! ## 項目の並び -/

/-- 表を 0xFFFF までたどれる。 -/
inductive ChainEnds (fs : Fs) : Nat → Prop
  | last : ChainEnds fs 0xFFFF
  | next {cluster : Nat} : ChainEnds fs (fat12_get_fat_entry fs cluster) → ChainEnds fs cluster

/-- 根であるか、終わりのある鎖である。 -/
def IsDirectory (fs : Fs) (inode : Nat) : Prop := inode = FAT12_ROOT_INODE ∨ ChainEnds fs inode

def chain_list (fs : Fs) : Nat → Nat → List Nat
  | 0, _ => []
  | fuel + 1, cluster =>
      if cluster ≠ 0xFFFF then cluster :: chain_list fs fuel (fat12_get_fat_entry fs cluster) else []

def dir_groups (fs : Fs) (inode : Nat) : List Group :=
  if inode = FAT12_ROOT_INODE then (List.range (root_dir_sectors fs)).map (root_group fs)
  else (chain_list fs maxChain inode).map (cluster_group fs)

def dir_slots (gs : List Group) : List Nat := gs.flatMap fun g => (List.range g.entries).map g.slot

/-- 最初の 0x00 より前の項目のうち、消されたものと長い名前の断片を除いたもの。 -/
def live_entries (m : ByteMem) (slots : List Nat) : List Nat :=
  (slots.takeWhile (fun a => m a ≠ 0)).filter (fun a => m a ≠ 0xE5 ∧ Entry.attributes m a ≠ 0x0F)

/-! ## 一覧 -/

/-- `dire->files` に確保する要素の数。 -/
def FILES_CAPACITY : Nat := 128

/-- `readdir_ctx`。`overrun` は、配列の外に書いたことを表す。 -/
structure ReaddirCtx where
  files : Nat → Option (List UInt8)
  count : Nat
  overrun : Bool

def readdir_callback (m : ByteMem) (c : ReaddirCtx) (a : Nat) : ReaddirCtx :=
  ⟨fun i => if i = c.count then some (fat12_entry_to_name m a) else c.files i, c.count + 1,
    c.overrun || decide (FILES_CAPACITY ≤ c.count)⟩

/-- 内側の `none` は NULL を表す。`count` が `file_count` になる。 -/
def fat12_readdir_fs (fs : Fs) (node : Node) : Option (Option ReaddirCtx) :=
  if node.flags &&& FS_DIRECTORY = 0 then some none
  else (fat12_iterate_dir fs node.inode).map fun slots =>
    some (slots.foldl (readdir_callback fs.disk) ⟨fun _ => none, 0, false⟩)

/-- 配列の中だけに書き、有効な項目の名前を順に並べる。 -/
def ReaddirOk (fs : Fs) (node : Node) : Prop :=
  let live := live_entries fs.disk (dir_slots (dir_groups fs node.inode))
  ∃ c, fat12_readdir_fs fs node = some (some c) ∧ c.overrun = false ∧ c.count = live.length ∧
    ∀ i (h : i < live.length), c.files i = some (fat12_entry_to_name fs.disk live[i])

/-! ## 停止 -/

/-- クラスタ `current` のうち `[offset, total_end)` に当たる部分を `buffer` に写す。 -/
def read_copy (fs : Fs) (offset total_end bytes_read current : Nat) (buffer : ByteMem) : ByteMem :=
  let cluster_buf := fat12_read_cluster fs current
  let span := write_span (bytes_per_cluster fs) offset total_end bytes_read (add32 bytes_read (bytes_per_cluster fs))
  let start := span.1
  let len := sub32 span.2 start
  let base := if bytes_read > offset then sub32 bytes_read offset else 0
  fun i => if base ≤ i ∧ i < base + len then cluster_buf (start + (i - base)) else buffer i

def read_actual (offset size bytes_read : Nat) : Nat :=
  let actual := if bytes_read > offset then bytes_read - offset else 0
  if actual > size then size else actual

def read_chain_loop (fs : Fs) (offset size total_end : Nat) :
    Nat → Nat → Nat → Option ByteMem → Option (Nat × Option ByteMem)
  | 0, _, _, _ => none
  | fuel + 1, bytes_read, current, buffer =>
      if current ≠ 0xFFFF ∧ bytes_read < total_end then
        if memcpy_overruns (bytes_per_cluster fs) offset total_end buffer bytes_read then none
        else
          let next_read := add32 bytes_read (bytes_per_cluster fs)
          read_chain_loop fs offset size total_end fuel next_read (fat12_get_fat_entry fs current)
            (if next_read > offset ∧ bytes_read < total_end then
              buffer.map (read_copy fs offset total_end bytes_read current)
            else buffer)
      else some (read_actual offset size bytes_read, buffer)

/-- `none` は、`memcpy` がバッファの外に出るか、繰り返しが終わらないことを表す。輪のある鎖でも、読む量が
増えるので繰り返しは止まる。 -/
def fat12_read_chain (fs : Fs) (first_cluster offset size : Nat) (buffer : Option ByteMem) :
    Option (Nat × Option ByteMem) :=
  read_chain_loop fs offset size (add32 offset size) (maxChain + add32 offset size) 0 first_cluster buffer

/-- 書き換えたノードと、読んだ量と、バッファを返す。 -/
def fat12_read_fs (fs : Fs) (node : Node) (size units : Nat) (buffer : Option ByteMem) :
    Option (Node × Nat × Option ByteMem) :=
  let total := mul32 size units
  (fat12_read_chain fs node.inode node.seek_offset total buffer).map fun r =>
    ({ node with seek_offset := add32 node.seek_offset r.1 }, r.1, r.2)

/-! ## 鎖の内容 -/

/-- 鎖の先頭から数えて `k` 番目のクラスタ。 -/
def nth_cluster (fs : Fs) : Nat → Nat → Nat
  | 0, cluster => cluster
  | k + 1, cluster => nth_cluster fs k (fat12_get_fat_entry fs cluster)

/-- `first` の鎖の `pos` 番目のバイト。 -/
def file_byte (fs : Fs) (first pos : Nat) : UInt8 :=
  fat12_read_cluster fs (nth_cluster fs (pos / bytes_per_cluster fs) first) (pos % bytes_per_cluster fs)

/-- 鎖のうち、`limit` バイトまで読むときに通るクラスタの容量。 -/
def read_capacity (fs : Fs) (first limit : Nat) : Nat :=
  (chain_list fs ((limit + bytes_per_cluster fs - 1) / bytes_per_cluster fs) first).length * bytes_per_cluster fs

/-- ファイルの残りか頼まれた量のどちらか少ない方を読み、位置をその分だけ進める。 -/
def ReadOk (fs : Fs) (node : Node) (size units : Nat) : Prop :=
  ∀ buffer : ByteMem, ∃ out : ByteMem,
    let n := min (size * units) (node.size - node.seek_offset)
    fat12_read_fs fs node size units (some buffer) =
      some ({ node with seek_offset := node.seek_offset + n }, n, some out) ∧
    ∀ i < n, out i = file_byte fs node.inode (node.seek_offset + i)

/-- 0 が返るまで読み続けて得たバイト。 -/
def read_all (fs : Fs) (size units : Nat) : Nat → Node → Option (List UInt8)
  | 0, _ => none
  | fuel + 1, node =>
      match fat12_read_fs fs node size units (some fun _ => 0) with
      | some (node, n, some out) =>
          if n = 0 then some [] else (read_all fs size units fuel node).map ((List.range n).map out ++ ·)
      | _ => none

/-- 先頭から読み続けると、ファイルの大きさの分の内容が得られる。 -/
def ReadsAll (fs : Fs) (node : Node) (size units : Nat) : Prop :=
  ∃ count, ∀ fuel ≥ count, read_all fs size units fuel { node with seek_offset := 0 } =
    some ((List.range node.size).map (file_byte fs node.inode))

def chain_capacity (fs : Fs) (first : Nat) : Nat := (chain_list fs maxChain first).length * bytes_per_cluster fs

/-! ## 書いた内容 -/

/-- 鎖 `l` を `ext` だけ延ばし、`[offset, offset + n)` に `buffer` を書いた。 -/
structure DataWritten (fs fs' : Fs) (first offset size n : Nat) (buffer : ByteMem) (l ext : List Nat) : Prop where
  chain : ChainOk fs' first (l ++ ext)
  count : n ≤ size
  read_back : ∀ old : ByteMem, ∃ out : ByteMem, fat12_read_chain fs' first offset n (some old) = some (n, some out) ∧
    ∀ i < n, out i = buffer i
  kept : ∀ pos < l.length * bytes_per_cluster fs, pos < offset ∨ offset + n ≤ pos →
    file_byte fs' first pos = file_byte fs first pos
  sectors : ∀ c ∈ write_log offset (add32 offset size) (some buffer) maxChain 0 first fs, c ∈ l ++ ext
  outside : ∀ x, (∀ c ∈ l ++ ext, ¬ InCluster fs c x) → fs'.disk x = fs.disk x
  full : n = size ∨ Full fs'

end MyOS.Fat
