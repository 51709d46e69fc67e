import MyOS.Fat.Chain
import MyOS.Vfs.Node

/-!
# ディレクトリ（fs/fat12.c）

ディレクトリは 32 バイトの項目の並びである。根は決まったセクタの列に、ほかのディレクトリはクラスタの鎖にある。
項目の場所は、ディスクの先頭からのバイト番地で表す。
-/

namespace MyOS.Fat
open MyOS.Lib ByteMem

export Vfs (FS_FILE FS_DIRECTORY)

def sizeofDirEntry : Nat := 32

/-- `fs_node_t` のうち、FAT12 のファイルで使う欄。 -/
structure Node where
  name : List UInt8
  flags : UInt8
  size : Nat
  inode : Nat
  seek_offset : Nat
deriving DecidableEq, Repr

/-! ## 項目の欄（`fat12_dir_entry_t`） -/

namespace Entry

def name (m : ByteMem) (a : Nat) : List UInt8 := (List.range 8).map fun k => m (a + k)
def ext (m : ByteMem) (a : Nat) : List UInt8 := (List.range 3).map fun k => m (a + 8 + k)
def attributes (m : ByteMem) (a : Nat) : UInt8 := m (a + 11)
def first_cluster (m : ByteMem) (a : Nat) : Nat := (m (a + 26)).toNat + 256 * (m (a + 27)).toNat
def file_size (m : ByteMem) (a : Nat) : Nat := load32 m (a + 28)

def setFirstCluster (m : ByteMem) (a v : Nat) : ByteMem :=
  store8 (store8 m (a + 26) (UInt8.ofNat v)) (a + 27) (UInt8.ofNat (v / 256))

def setFileSize (m : ByteMem) (a v : Nat) : ByteMem := store32 m (a + 28) v

/-- 項目の 32 バイトを書き込む。 -/
def write (m : ByteMem) (a : Nat) (bytes : List UInt8) : ByteMem :=
  fun x => if a ≤ x ∧ x < a + sizeofDirEntry then bytes.getD (x - a) 0 else m x

end Entry

/-! ## 名前 -/

def upper (c : UInt8) : UInt8 := if 0x61 ≤ c ∧ c ≤ 0x7A then c - 32 else c

/-- 符号つきの `char` としての値。 -/
def charVal (c : UInt8) : Int := if c.toNat < 128 then c.toNat else c.toNat - 256

def strcasecmp_fat : List UInt8 → List UInt8 → Int
  | a :: as, b :: bs =>
      if upper a ≠ upper b then charVal (upper a) - charVal (upper b) else strcasecmp_fat as bs
  | a :: _, [] => charVal a
  | [], b :: _ => - charVal b
  | [], [] => 0

/-- 最初の NUL までの文字列。 -/
def cstr (l : List UInt8) : List UInt8 := l.takeWhile (· ≠ 0)

def fat12_entry_to_name (m : ByteMem) (a : Nat) : List UInt8 :=
  let base := (Entry.name m a).takeWhile (· ≠ 0x20)
  cstr (if (Entry.ext m a).head? ≠ some 0x20 then
    base ++ 0x2E :: (Entry.ext m a).takeWhile (· ≠ 0x20) else base)

def pad (n : Nat) (l : List UInt8) : List UInt8 := l ++ List.replicate (n - l.length) 0x20

def fat12_name_to_83 (name : List UInt8) : List UInt8 × List UInt8 :=
  let base := (name.takeWhile (· ≠ 0x2E)).take 8
  let ext := match name.drop base.length with
    | 0x2E :: rest => rest.take 3
    | _ => []
  (pad 8 (base.map upper), pad 3 (ext.map upper))

/-! ## ディレクトリをたどる -/

def root_dir_sectors (fs : Fs) : Nat :=
  (fs.bpb.root_entry_count * 32 + (fs.bpb.bytes_per_sector - 1)) / fs.bpb.bytes_per_sector

/-- 一度に読む単位。先頭のセクタ、セクタの数、項目の数。 -/
structure Group where
  lba : Nat
  sectors : Nat
  entries : Nat

def Group.slot (g : Group) (i : Nat) : Nat := g.lba * ATA_SECTOR_SIZE + i * sizeofDirEntry

def root_group (fs : Fs) (s : Nat) : Group :=
  ⟨fs.root_lba + s, 1, fs.bpb.bytes_per_sector / sizeofDirEntry⟩

def cluster_group (fs : Fs) (cluster : Nat) : Group :=
  ⟨fat12_cluster_to_lba fs cluster, fs.bpb.sectors_per_cluster, bytes_per_cluster fs / sizeofDirEntry⟩

/-- 0x00 の手前までの項目のうち、消されたものと長い名前の断片を除いたもの。 -/
def live_slots (m : ByteMem) (g : Group) : List Nat :=
  (((List.range g.entries).map g.slot).takeWhile (fun a => m a ≠ 0)).filter
    (fun a => m a ≠ 0xE5 ∧ Entry.attributes m a ≠ 0x0F)

def has_end (m : ByteMem) (g : Group) : Bool := (List.range g.entries).any fun i => m (g.slot i) = 0

def iterate_root (fs : Fs) : List Nat → List Nat
  | [] => []
  | s :: ss =>
      let g := root_group fs s
      live_slots fs.disk g ++ if has_end fs.disk g then [] else iterate_root fs ss

def iterate_chain (fs : Fs) : Nat → Nat → Option (List Nat)
  | 0, _ => none
  | fuel + 1, cluster =>
      if cluster ≠ 0xFFFF then
        let g := cluster_group fs cluster
        if has_end fs.disk g then some (live_slots fs.disk g)
        else (iterate_chain fs fuel (fat12_get_fat_entry fs cluster)).map (live_slots fs.disk g ++ ·)
      else some []

/-- `callback` に渡る項目を、渡る順に並べたもの。0x00 の項目で全体が終わる。
`none` は、鎖をたどる繰り返しが終わらないことを表す。 -/
def fat12_iterate_dir (fs : Fs) (inode : Nat) : Option (List Nat) :=
  if inode = FAT12_ROOT_INODE then some (iterate_root fs (List.range (root_dir_sectors fs)))
  else iterate_chain fs maxChain inode

/-! ## ファイルを探す -/

def matches_name (m : ByteMem) (name : List UInt8) (a : Nat) : Bool :=
  strcasecmp_fat (fat12_entry_to_name m a) name = 0

def fat12_make_node (m : ByteMem) (a : Nat) : Node where
  name := fat12_entry_to_name m a
  flags := if Entry.attributes m a &&& (0x10 : UInt8) ≠ 0 then FS_DIRECTORY else FS_FILE
  size := Entry.file_size m a
  inode := Entry.first_cluster m a
  seek_offset := 0

/-- 見つかった項目の番地も返す。外側の `none` は終わらないこと、内側の `none` は NULL を表す。 -/
def find_entry (fs : Fs) (inode : Nat) (name : List UInt8) : Option (Option (Node × Nat)) :=
  (fat12_iterate_dir fs inode).map fun slots =>
    (slots.find? (matches_name fs.disk name)).map fun a => (fat12_make_node fs.disk a, a)

def fat12_finddir_fs (fs : Fs) (dir : Node) (name : List UInt8) : Option (Option (Node × Nat)) :=
  if dir.flags &&& FS_DIRECTORY = 0 then some none else find_entry fs dir.inode name

/-! ## 空き項目への書き込み（`fat12_iterate_dir_write`） -/

/-- 一つの単位の最初の空き項目。 -/
def free_slot (buf : ByteMem) (g : Group) : Option Nat :=
  (List.range g.entries).find? fun i =>
    buf (i * sizeofDirEntry) = 0 ∨ buf (i * sizeofDirEntry) = 0xE5

section Iterate

variable {σ : Type}

/-- `callback` は、単位の先頭の番地、項目の位置、バッファを受け取り、書き換えたバッファを返す。 -/
abbrev Callback (σ : Type) := Nat → Nat → ByteMem → Fs → σ → Fs × ByteMem × σ

/-- 空き項目があれば `callback` を呼び、書き戻す。 -/
def write_in_group (callback : Callback σ) (g : Group) (fs : Fs) (ctx : σ) : Fs × σ :=
  let buf := ata_read_sectors fs g.lba
  match free_slot buf g with
  | some i =>
      let (fs, buf, ctx) := callback (g.lba * ATA_SECTOR_SIZE) i buf fs ctx
      (ata_write_sectors fs g.lba g.sectors buf, ctx)
  | none => (fs, ctx)

def write_in_chain (callback : Callback σ) : Nat → Nat → Fs → σ → Option (Fs × σ)
  | 0, _, _, _ => none
  | fuel + 1, cluster, fs, ctx =>
      if cluster ≠ 0xFFFF then
        let (fs, ctx) := write_in_group callback (cluster_group fs cluster) fs ctx
        write_in_chain callback fuel (fat12_get_fat_entry fs cluster) fs ctx
      else some (fs, ctx)

def fat12_iterate_dir_write (callback : Callback σ) (fs : Fs) (inode : Nat) (ctx : σ) : Option (Fs × σ) :=
  if inode = FAT12_ROOT_INODE then
    some ((List.range (root_dir_sectors fs)).foldl
      (fun (st : Fs × σ) s => write_in_group callback (root_group st.1 s) st.1 st.2) (fs, ctx))
  else write_in_chain callback maxChain inode fs ctx

end Iterate

/-! ## ファイルを作る -/

/-- 新しい項目の 32 バイト。 -/
def new_entry (name : List UInt8) (attributes : UInt8) (cluster : Nat) : List UInt8 :=
  let (entry_name, entry_ext) := fat12_name_to_83 name
  entry_name ++ entry_ext ++ [attributes] ++ List.replicate 14 0 ++
    [UInt8.ofNat cluster, UInt8.ofNat (cluster / 256), 0, 0, 0, 0]

/-- `.` と `..` の項目の 32 バイト。 -/
def dot_entry (dots : List UInt8) (cluster : Nat) : List UInt8 :=
  pad 11 dots ++ [0x10] ++ List.replicate 14 0 ++
    [UInt8.ofNat cluster, UInt8.ofNat (cluster / 256), 0, 0, 0, 0]

/-- 作ったノードとその項目の番地。まだなら `none`。 -/
abbrev CreateCtx := Option (Node × Nat)

/-- `create_file_callback`。書き換えたバッファを返す。 -/
def create_file_callback (name : List UInt8) (base i : Nat) (buf : ByteMem) (fs : Fs) (ctx : CreateCtx) :
    Fs × ByteMem × CreateCtx :=
  match ctx with
  | some _ => (fs, buf, ctx)
  | none =>
      let (fs, cluster) := fat12_allocate_cluster fs
      let buf := Entry.write buf (i * sizeofDirEntry) (new_entry name 0x20 cluster)
      (fs, buf, some (fat12_make_node buf (i * sizeofDirEntry), base + i * sizeofDirEntry))

def create_in_dir (fs : Fs) (inode : Nat) (name : List UInt8) : Option (Fs × CreateCtx) :=
  fat12_iterate_dir_write (create_file_callback name) fs inode none

def fat12_create_file (fs : Fs) (dir : Node) (name : List UInt8) : Option (Fs × CreateCtx) :=
  (find_entry fs dir.inode name).bind fun
    | some found => some (fs, some found)
    | none => create_in_dir fs dir.inode name

/-! ## 項目の更新と書き込み -/

/-- 一つの単位の中で、0x00 の手前にある最初の同名の項目。 -/
def update_slot (m : ByteMem) (g : Group) (name : List UInt8) : Option Nat :=
  (live_slots m g).find? (matches_name m name)

/-- 同名の項目があれば、書き換えてセクタを書き戻す。 -/
def update_in_group (fs : Fs) (g : Group) (node : Node) : Option Fs :=
  (update_slot fs.disk g node.name).map fun a =>
    let buf := ata_read_sectors fs g.lba
    let i := a - g.lba * ATA_SECTOR_SIZE
    ata_write_sectors fs g.lba g.sectors
      (Entry.setFileSize (Entry.setFirstCluster buf i node.inode) i node.size)

def update_in_chain (fs : Fs) (node : Node) : Nat → Nat → Option Fs
  | 0, _ => none
  | fuel + 1, cluster =>
      if cluster ≠ 0xFFFF then
        match update_in_group fs (cluster_group fs cluster) node with
        | some fs' => some fs'
        | none => update_in_chain fs node fuel (fat12_get_fat_entry fs cluster)
      else some fs

/-- 内側の `break` は単位ごとに効き、0x00 の項目の後も次の単位へ進む。 -/
def fat12_update_dir_entry (fs : Fs) (node : Node) : Option Fs :=
  if fs.root_inode = FAT12_ROOT_INODE then
    some (((List.range (root_dir_sectors fs)).findSome? fun s =>
      update_in_group fs (root_group fs s) node).getD fs)
  else update_in_chain fs node maxChain fs.root_inode

def fat12_sync (fs : Fs) : Fs := fat12_flush_fat fs

/-- 最初のクラスタを持つノードにする。`none` は空きがないことを表す。 -/
def write_start (fs : Fs) (node : Node) : Option (Fs × Node) :=
  if node.inode = 0 then
    let (fs, cluster) := fat12_allocate_cluster fs
    if cluster = 0 then none else some (fs, { node with inode := cluster })
  else some (fs, node)

/-- 書いた後のノードも返す。`none` は、呼び出しが戻らないことを表す。 -/
def fat12_write_fs (fs : Fs) (node : Node) (size units : Nat) (buffer : Option ByteMem) :
    Option (Fs × Node × Nat) :=
  let total := mul32 size units
  if total = 0 then some (fs, node, 0)
  else match write_start fs node with
  | none => some (fs, node, 0)
  | some (fs, node) =>
      (fat12_write_chain fs node.inode node.seek_offset total buffer).bind fun (fs, written) =>
        let seek_offset := add32 node.seek_offset written
        let node := { node with seek_offset, size := max node.size seek_offset }
        (fat12_update_dir_entry fs node).map fun fs => (fat12_sync fs, node, written)

def fat12_seek_fs (node : Node) (offset : Nat) (type : UInt8) : Node :=
  if type = 0 then { node with seek_offset := offset }
  else if type = 1 then { node with seek_offset := add32 node.seek_offset offset }
  else { node with seek_offset := sub32 node.size offset }

end MyOS.Fat
