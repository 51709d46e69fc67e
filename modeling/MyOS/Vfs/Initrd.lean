import MyOS.Lib.Bytes
import MyOS.Vfs.Node

/-!
# initrd のファイルの読み出し（fs/initrd.c）

ファイルの内容はメモリの `impl` から `size` バイトにある。`initrd_read_fs` は、そこからバッファへ一バイトずつ写す。
-/

namespace MyOS.Vfs
open MyOS.Lib

def SEEK_START : Nat := 0
def SEEK_CUR : Nat := 1

/-- `fs_node_t` のうち、initrd のファイルで使う欄。 -/
structure InitrdNode where
  flags : UInt8
  size : Nat
  seek_offset : Nat
  impl : Nat
deriving DecidableEq

/-- `reads` は、読んだファイルの番地を順に残す。 -/
structure InitrdRead where
  node : InitrdNode
  mem : ByteMem
  reads : List Nat
  ret : Nat

/-- `for` の残り `n` 回。番地の計算は 32 ビットで折り返す。 -/
def initrd_copy (src buffer : Nat) : Nat → Nat → ByteMem → ByteMem × List Nat
  | 0, _, m => (m, [])
  | n + 1, i, m =>
      let a := add32 src i
      let (m, reads) := initrd_copy src buffer n (i + 1) (m.store8 (add32 buffer i) (m a))
      (m, a :: reads)

def initrd_read_fs (m : ByteMem) (node : InitrdNode) (size units buffer : Nat) : InitrdRead :=
  if node.flags &&& FS_DIRECTORY = FS_DIRECTORY then ⟨node, m, [], 0⟩
  else if size = 0 ∨ units = 0 then ⟨node, m, [], 0⟩
  else
    let total := mul32 size units
    if node.seek_offset ≥ node.size then ⟨node, m, [], 0⟩
    else
      let total := if add32 node.seek_offset total > node.size then node.size - node.seek_offset else total
      let (m, reads) := initrd_copy (add32 node.impl node.seek_offset) buffer total 0 m
      ⟨{ node with seek_offset := add32 node.seek_offset total }, m, reads,
        if total / size ≠ 0 then total / size else if total > 0 then 1 else 0⟩

def initrd_seek_fs (node : InitrdNode) (offset type : Nat) : InitrdNode :=
  if type = SEEK_START then { node with seek_offset := offset }
  else if type = SEEK_CUR then { node with seek_offset := add32 node.seek_offset offset }
  else { node with seek_offset := sub32 node.size offset }

/-! ## 読み出しの正しさ -/

variable {m : ByteMem} {node : InitrdNode} {src buffer i n size units : Nat}

theorem file_not_dir (h : node.flags = FS_FILE) : ¬ node.flags &&& FS_DIRECTORY = FS_DIRECTORY := by
  rw [h]
  decide

end MyOS.Vfs
