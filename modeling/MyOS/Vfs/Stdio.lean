import MyOS.Fat.Read
import MyOS.Fat.Ops
import MyOS.Proc.Types
import MyOS.Vfs.Initrd
import Mathlib.Algebra.Group.Int.Defs

/-!
# 開いたファイルの読み書きと位置（stdio/*.c、fs/vfs.c、`syscall_lseek`）

`FILE` はノードの番号と開き方を持つ。ノードの関数は、initrd と FAT12 のどちらのノードかで決まる。
-/

namespace MyOS.Vfs
open MyOS.Lib

export Proc (MAX_FILES FILE_READ FILE_WRITE)

def FILE_APPEND : Nat := 0x04

inductive FileNode where
  | initrd (node : InitrdNode)
  | fat12 (node : Fat.Node)

namespace FileNode

def size : FileNode → Nat
  | initrd node => node.size
  | fat12 node => node.size

def seek_offset : FileNode → Nat
  | initrd node => node.seek_offset
  | fat12 node => node.seek_offset

def set_seek : FileNode → Nat → FileNode
  | initrd node, offset => initrd { node with seek_offset := offset }
  | fat12 node, offset => fat12 { node with seek_offset := offset }

end FileNode

structure FILE where
  file : Option Nat
  flags : Nat

/-- 今のプロセスの記述子と、ノードと、マウントした FAT12 のボリューム。 -/
structure Task where
  files_open : Nat → Option FILE
  nodes : Nat → FileNode
  next_node : Nat
  fs : Fat.Fs

def Task.set_node (t : Task) (n : Nat) (node : FileNode) : Task :=
  { t with nodes := fun k => if k = n then node else t.nodes k }

/-! ## 位置（`syscall_lseek`） -/

/-- `uint32_t` の値を `int32_t` として読む。 -/
def to_int32 (x : Nat) : Int := if x < 2 ^ 31 then (x : Int) else (x : Int) - 2 ^ 32

/-- `int32_t` の値を `uint32_t` として読む。 -/
def to_uint32 (x : Int) : Nat := (x % 2 ^ 32).toNat

def seek_fs (node : FileNode) (offset type : Nat) : FileNode :=
  match node with
  | .initrd node => .initrd (initrd_seek_fs node offset type)
  | .fat12 node => .fat12 (Fat.fat12_seek_fs node offset (UInt8.ofNat type))

/-- `seek_fs` を呼び、新しい位置を返す。 -/
def lseek_to (t : Task) (n : Nat) (offset : Int) (whence : Nat) : Task × Int :=
  let node := seek_fs (t.nodes n) (to_uint32 offset) whence
  (t.set_node n node, to_int32 node.seek_offset)

/-- `ebx` は記述子、`ecx` は符号つきの量、`edx` は起点である。 -/
def syscall_lseek (t : Task) (ebx ecx edx : Nat) : Task × Int :=
  let offset := to_int32 ecx
  if ebx ≥ MAX_FILES then (t, -1)
  else match (t.files_open ebx).bind FILE.file with
  | none => (t, -1)
  | some n =>
      if edx = 0 then
        if offset < 0 then (t, -1) else lseek_to t n offset 0
      else if edx = 1 then
        let new_off := to_int32 (add32 (t.nodes n).seek_offset ecx)
        if offset > 0 ∧ new_off < 0 then (t, -1)
        else if offset < 0 ∧ new_off > 0 then (t, -1)
        else if new_off < 0 then (t, -1)
        else lseek_to t n new_off 0
      else if edx = 2 then lseek_to t n offset 2
      else (t, -1)

/-- `whence` の起点。 -/
def seek_base (node : FileNode) (whence : Nat) : Option Nat :=
  if whence = 0 then some 0
  else if whence = 1 then some node.seek_offset
  else if whence = 2 then some node.size
  else none

/-- 起点と量の和が 31 ビットに収まれば、それを新しい位置として返す。収まらなければ −1 を返し、何も変えない。 -/
def SeekOk (t : Task) (n : Nat) (offset : Int) (whence : Nat) (r : Task × Int) : Prop :=
  match seek_base (t.nodes n) whence with
  | some base =>
      if 0 ≤ (base : Int) + offset ∧ (base : Int) + offset < 2 ^ 31 then
        r = (t.set_node n ((t.nodes n).set_seek (base + offset).toNat), base + offset)
      else r = (t, -1)
  | none => r = (t, -1)

/-- `lseek` が正しく動く場合。今の位置からは、後ろに動いて折り返すことも、前に動いて正の位置に着くこともない。
末尾からは、動かないか、位置がすでに 2^32 − 1 である。 -/
structure SeekFits (node : FileNode) (offset : Int) (whence : Nat) : Prop where
  forward : whence = 1 → 0 < offset → (node.seek_offset : Int) + offset < 2 ^ 32
  backward : whence = 1 → offset < 0 → 0 < (node.seek_offset : Int) + offset → 2 ^ 31 ≤ (node.seek_offset : Int) + offset
  last : whence = 2 → offset = 0 ∨ ¬ (0 ≤ (node.size : Int) + offset ∧ (node.size : Int) + offset < 2 ^ 31) ∧
    node.seek_offset = 2 ^ 32 - 1 ∧ ((node.size : Int) - offset) % 2 ^ 32 = 2 ^ 32 - 1

/-! ## 開く、読む、書く -/

def get_mode (modes : List UInt8) : Nat :=
  modes.foldl (fun mode c =>
    let mode := if c = 0x61 then mode ||| FILE_APPEND else mode
    let mode := if c = 0x72 then mode ||| FILE_READ else mode
    if c = 0x77 then mode ||| FILE_WRITE else mode) 0

/-- 空いた記述子のうち、3 以上で最小のもの。 -/
def free_id (t : Task) : Option Nat :=
  (List.range MAX_FILES).find? fun i => decide (3 ≤ i) && (t.files_open i).isNone

/-- 得たノードを番号 `next_node` に置き、空いた記述子に結ぶ。 -/
def open_node (t : Task) (node : Fat.Node) (modes_mask : Nat) : Task × Int :=
  let n := t.next_node
  let t := { t.set_node n (.fat12 node) with next_node := n + 1 }
  match free_id t with
  | none => (t, -1)
  | some i => ({ t with files_open := fun k => if k = i then some ⟨some n, modes_mask⟩ else t.files_open k }, i)

/-- FAT12 のディレクトリ `dir` の名前 `name` を指すパスの `fopen`。`get_node` は `fat12_finddir_fs` に、
`create_node` は `fat12_create_file` に至る。外側の `none` は、ディレクトリの鎖をたどり終えないことを表す。 -/
def fopen (t : Task) (dir : Fat.Node) (name modes : List UInt8) : Option (Task × Int) :=
  let modes_mask := get_mode modes
  (Fat.fat12_finddir_fs t.fs dir name).bind fun
    | some (node, _) => some (open_node t node modes_mask)
    | none =>
        if modes_mask &&& (FILE_WRITE ||| FILE_APPEND) ≠ 0 then
          (Fat.fat12_create_file t.fs dir name).map fun
            | (fs, some (node, _)) => open_node { t with fs := fs } node modes_mask
            | (fs, none) => ({ t with fs := fs }, -1)
        else some (t, -1)

/-- initrd のノードは `write` を持たない。 -/
def write_fs (t : Task) (n size units : Nat) (buffer : ByteMem) : Option (Task × Nat) :=
  match t.nodes n with
  | .initrd _ => some (t, 0)
  | .fat12 node =>
      (Fat.fat12_write_fs t.fs node size units (some buffer)).map fun (fs, node, written) =>
        ({ t.set_node n (.fat12 node) with fs := fs }, written)

/-- `none` は、ノードのない `FILE` の先を読むことと、書き込みが戻らないことを表す。 -/
def fwrite (t : Task) (buf : ByteMem) (size count : Nat) (fp : FILE) : Option (Task × Nat) :=
  if fp.flags &&& FILE_WRITE ≠ FILE_WRITE then some (t, 0)
  else
    let total := mul32 size count
    if size ≠ 0 ∧ total / size ≠ count then some (t, 0)
    else fp.file.bind fun n => write_fs t n total 1 buf

/-- FAT12 の名前 `name` のファイルの内容。ファイルがなければ空である。 -/
def contents (fs : Fat.Fs) (dir : Fat.Node) (name : List UInt8) : List UInt8 :=
  match Fat.fat12_finddir_fs fs dir name with
  | some (some (node, _)) => (List.range node.size).map (Fat.file_byte fs node.inode)
  | _ => []

/-- モード `"a"` で開いて `d` を `size` バイトずつ `count` 個書くと、`d` の長さが返り、内容の後に `d` が続く。 -/
def AppendOk (t : Task) (dir : Fat.Node) (name d : List UInt8) (size count : Nat) : Prop :=
  ∃ (t₁ : Task) (fd : Nat) (fp : FILE) (t₂ : Task), fopen t dir name [0x61] = some (t₁, (fd : Int)) ∧ t₁.files_open fd = some fp ∧
    fwrite t₁ (fun i => d.getD i 0) size count fp = some (t₂, d.length) ∧
    contents t₂.fs dir name = contents t.fs dir name ++ d

end MyOS.Vfs
