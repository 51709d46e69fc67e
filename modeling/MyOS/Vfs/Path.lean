import MyOS.Lib.Buffer
import MyOS.Lib.Bytes
import MyOS.Lib.Components

/-!
# パスの正規化（arch/syscalls.c）

`resolve_path` は、利用者のパスを写し取り、現在のディレクトリとつないで、`.` と `..` を消す。
配列の中の文字列は、書いた分だけのバイトの列とする。
-/

namespace MyOS.Vfs
open MyOS.Lib

def SLASH : UInt8 := 0x2F
def DOT : UInt8 := 0x2E

/-- 利用者のメモリ。読めない番地は `none` である。 -/
abbrev UserMem := Nat → Option UInt8

/-- `while (len < 255)` のループ。途中に読めない番地があれば `none` である。 -/
def copy_path (user : UserMem) : Nat → Nat → Option (List UInt8)
  | 0, _ => some []
  | n + 1, user_path =>
      match user user_path with
      | none => none
      | some c => if c = 0 then some [] else (copy_path user n (add32 user_path 1)).map (c :: ·)

/-- 相対パスなら、`cwd` の後につなぐ。 -/
def build_abs (cwd path : List UInt8) : List UInt8 :=
  let abs :=
    if path.head? ≠ some SLASH then
      let abs := cwd.take 254
      if abs ≠ [] ∧ abs.getLast? ≠ some SLASH then abs ++ [SLASH] else abs
    else []
  abs ++ path.take (254 - abs.length)

/-- `ni--` の後、`/` まで戻る。 -/
def remove_last (norm : List UInt8) : List UInt8 := norm.dropLast.rdropWhile (· ≠ SLASH)

/-- 一つの部分を処理する。`norm` には 255 バイトまで書く。 -/
def add_component (norm comp : List UInt8) : List UInt8 :=
  if comp = [DOT] then norm
  else if comp = [DOT, DOT] then remove_last norm
  else
    let norm := if norm.length < 255 then norm ++ [SLASH] else norm
    norm ++ comp.take (255 - norm.length)

/-- `while (abs[i])` のループ。一回ごとに `abs` を 1 バイト以上進む。 -/
def normalize_loop : Nat → List UInt8 → List UInt8 → List UInt8
  | 0, _, norm => norm
  | _ + 1, [], norm => norm
  | fuel + 1, c :: rest, norm =>
      if c = SLASH then normalize_loop fuel rest norm
      else normalize_loop fuel ((c :: rest).dropWhile (· ≠ SLASH))
        (add_component norm ((c :: rest).takeWhile (· ≠ SLASH)))

def normalize (abs : List UInt8) : List UInt8 :=
  let norm := normalize_loop abs.length abs []
  if norm = [] then [SLASH] else norm

/-- `buf` に入る文字列。`cwd` は NUL の手前までの列である。`buf` に何も書かないときは `none`。 -/
def resolve_path (cwd : List UInt8) (user : UserMem) (user_path buf_size : Nat) : Option (List UInt8) :=
  if buf_size = 0 then none
  else if user_path = 0 then some []
  else match copy_path user 255 user_path with
    | none => some []
    | some path => some ((normalize (build_abs cwd path)).take (buf_size - 1))

/-! ## 正規のパス -/

/-- 部分の列に、次の部分をつなぐ。 -/
def follow (acc : List (List UInt8)) (comp : List UInt8) : List (List UInt8) :=
  if comp = [DOT] then acc else if comp = [DOT, DOT] then acc.dropLast else acc ++ [comp]

/-- `cwd` から `path` までにたどる部分の列。 -/
def path_components (cwd path : List UInt8) : List (List UInt8) :=
  (if path.head? = some SLASH then [] else components SLASH cwd) ++ components SLASH path

def render (acc : List (List UInt8)) : List UInt8 := if acc = [] then [SLASH] else joined SLASH acc

def canonical (cwd path : List UInt8) : List UInt8 := render ((path_components cwd path).foldl follow [])

/-- 番地 `p` に、NUL で終わる `s` がある。 -/
def UserString (user : UserMem) (p : Nat) (s : List UInt8) : Prop :=
  0 ∉ s ∧ (∀ i (h : i < s.length), user (add32 p i) = some s[i]) ∧ user (add32 p s.length) = some 0

/-- 部分を順に見るときの高さ。名前で 1 増え、名前の次の `..` では変わらず、その後の `..` で 1 減る。
`climbing` は直前が `..` であること、`climbed` は高さが最後に 0 であった後に `..` があったことを表す。 -/
structure Climb where
  height : Nat
  climbing : Bool
  climbed : Bool
deriving DecidableEq

def Climb.start : Climb := ⟨0, true, false⟩

def Climb.step (s : Climb) (comp : List UInt8) : Climb :=
  if comp = [DOT] then s
  else if comp = [DOT, DOT] then
    let height := if s.climbing then s.height - 1 else s.height
    ⟨height, true, decide (height ≠ 0)⟩
  else ⟨s.height + 1, false, s.climbed⟩

def climb (comps : List (List UInt8)) : Climb := comps.foldl Climb.step .start

/-- 高さが 1 以下で終わるか、最後に 0 であった後に `..` がない。 -/
def StepsBack (cwd path : List UInt8) : Prop :=
  (climb (path_components cwd path)).height ≤ 1 ∨ (climb (path_components cwd path)).climbed = false

instance (cwd path : List UInt8) : Decidable (StepsBack cwd path) := inferInstanceAs (Decidable (_ ∨ _))

end MyOS.Vfs

/-!
## パスの正規化の配列（arch/syscalls.c）

`resolve_path` を、大きさの決まった配列の読み書きとして書く。`none` は、配列の外の読み書きか、終わらないループを表す。
局所の配列は初期化されない。
-/

namespace MyOS.Vfs
open MyOS.Lib Buffer

/-- 256 バイトの配列をたどるループの回数の上限。 -/
def ROUNDS : Nat := 257

structure PathLocals where
  path : Buffer 256
  abs : Buffer 256
  norm : Buffer 256

/-- `while (len < 255)` のループ。読めない番地があれば `some none` である。 -/
def copy_path_buf (user : UserMem) (user_path : Nat) : Nat → Nat → Buffer 256 → Option (Option (Buffer 256 × Nat))
  | 0, _, _ => none
  | fuel + 1, len, path =>
      if len < 255 then
        match user (add32 user_path len) with
        | none => some none
        | some c =>
            if c = 0 then some (some (path, len))
            else do
              let path ← path.put len c
              copy_path_buf user user_path fuel (len + 1) path
      else some (some (path, len))

/-- `if (ai > 0 && abs[ai - 1] != '/') abs[ai++] = '/';` -/
def add_slash (abs : Buffer 256) : Nat → Option (Buffer 256 × Nat)
  | 0 => some (abs, 0)
  | k + 1 => do
      let c ← abs[k]?
      if c ≠ SLASH then (abs.put (k + 1) SLASH).map (·, k + 2) else some (abs, k + 1)

/-- 相対パスなら、前に `cwd` を置く。 -/
def start_abs (cwd path abs : Buffer 256) : Option (Buffer 256 × Nat) := do
  let c ← path[0]?
  if c ≠ SLASH then do
    let (abs, ai) ← copy_str cwd 254 ROUNDS 0 0 abs
    add_slash abs ai
  else some (abs, 0)

def build_abs_buf (cwd path abs : Buffer 256) : Option (Buffer 256) := do
  let (abs, ai) ← start_abs cwd path abs
  let (abs, ai) ← copy_str path 254 ROUNDS 0 ai abs
  abs.put ai 0

/-- `if (ni > 0) { ni--; while (ni > 0 && norm[ni - 1] != '/') ni--; }` -/
def remove_last_buf (norm : Buffer 256) : Nat → Option (Buffer 256 × Nat)
  | 0 => some (norm, 0)
  | k + 1 => (find_back norm SLASH k).map (norm, ·)

/-- `/` と、部分 `abs[start .. stop]` を書く。 -/
def push_component (abs : Buffer 256) (start stop ni : Nat) (norm : Buffer 256) : Option (Buffer 256 × Nat) := do
  let (norm, ni) ← if ni < 255 then (norm.put ni SLASH).map (·, ni + 1) else some (norm, ni)
  copy_range abs stop 255 ROUNDS start ni norm

/-- `clen == 2 && abs[start] == '.' && abs[start + 1] == '.'` -/
def is_dot_dot (abs : Buffer 256) (start clen : Nat) (c : UInt8) : Option Bool :=
  if clen = 2 ∧ c = DOT then (abs[start + 1]?).map (· == DOT) else some false

def add_component_buf (abs : Buffer 256) (start stop ni : Nat) (norm : Buffer 256) : Option (Buffer 256 × Nat) := do
  let clen := stop - start
  let c ← abs[start]?
  if clen = 1 ∧ c = DOT then some (norm, ni)
  else do
    let up ← is_dot_dot abs start clen c
    if up then remove_last_buf norm ni else push_component abs start stop ni norm

/-- `while (abs[i])` のループ。 -/
def normalize_loop_buf (abs : Buffer 256) : Nat → Nat → Nat → Buffer 256 → Option (Buffer 256 × Nat)
  | 0, _, _, _ => none
  | fuel + 1, i, ni, norm => do
      let c ← abs[i]?
      if c = 0 then some (norm, ni)
      else if c = SLASH then normalize_loop_buf abs fuel (i + 1) ni norm
      else do
        let stop ← find abs SLASH ROUNDS i
        let (norm, ni) ← add_component_buf abs i stop ni norm
        normalize_loop_buf abs fuel stop ni norm

def normalize_buf (abs norm : Buffer 256) : Option (Buffer 256) := do
  let (norm, ni) ← normalize_loop_buf abs ROUNDS 0 0 norm
  let (norm, ni) ← if ni = 0 then (norm.put ni SLASH).map (·, ni + 1) else some (norm, ni)
  norm.put ni 0

/-- `buf` は NULL でない。 -/
def resolve_path_buf {buf_size : Nat} (locals : PathLocals) (cwd : Buffer 256) (user : UserMem) (user_path : Nat)
    (buf : Buffer buf_size) : Option (Buffer buf_size) :=
  if user_path = 0 ∨ buf_size = 0 then
    if 0 < buf_size then buf.put 0 0 else some buf
  else do
    match ← copy_path_buf user user_path ROUNDS 0 locals.path with
    | none => buf.put 0 0
    | some (path, len) =>
        let path ← path.put len 0
        let abs ← build_abs_buf cwd path locals.abs
        let norm ← normalize_buf abs locals.norm
        let (buf, ci) ← copy_str norm (buf_size - 1) ROUNDS 0 0 buf
        buf.put ci 0

/-- `syscall_chdir` が `path` を `cwd` に写すループ。 -/
def chdir_store (path cwd : Buffer 256) : Option (Buffer 256) := do
  let (cwd, i) ← copy_str path 254 ROUNDS 0 0 cwd
  cwd.put i 0

end MyOS.Vfs
