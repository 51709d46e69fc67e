import MyOS.Libc.Print
import MyOS.Lib.CString
import MyOS.Lib.Lines

/-!
# 入力を読んで書くアプリケーション（head.c、tail.c、grep.c、wc.c）

どれも標準入力かファイルをメモリに読み切り、それから書く。`read` は 512 バイトまでの区切りを返し、`malloc` と `realloc`
の成否は `alloc` が決める。
-/

namespace MyOS.Filters
open MyOS.Lib Libc

def text (s : String) : List UInt8 := s.toList.map fun c => UInt8.ofNat c.toNat

/-- `write` の一度ごとのバイトと、終わりの値。 -/
structure Exit where
  out : List (List UInt8)
  status : Nat
  deriving DecidableEq

/-- 途中で終わる理由。`overflow` は、確保した範囲の外への書き込みか、`int` のあふれである。 -/
inductive Stop
  | exit (e : Exit)
  | overflow
  deriving DecidableEq

abbrev Run := Except Stop

/-- 区切りごとの標準入力、ないファイル、大きさと `fread` の返す区切りのあるファイル。 -/
inductive Source
  | stdin (chunks : List (List UInt8))
  | missing (name : List UInt8)
  | file (name : List UInt8) (fsize : Nat) (chunks : List (List UInt8))

/-- 引数のファイルがなければ標準入力を読む。`fs` は `fopen` の結果である。 -/
def source (fs : List UInt8 → Option (Nat × List (List UInt8))) (chunks : List (List UInt8)) : Option (List UInt8) → Source
  | none => .stdin chunks
  | some name =>
    match fs name with
    | none => .missing name
    | some (fsize, chunks) => .file name fsize chunks

section
variable (cmd : String) (alloc : Nat → Bool)

def no_memory : Stop := .exit ⟨[text (cmd ++ ": out of memory\n")], 1⟩

/-- `while (total + n > cap)`。 -/
def grow_loop (need : Nat) : Nat → Nat → Run Nat
  | 0, cap => .ok cap
  | n + 1, cap =>
    if cap < need then
      if 2 ^ 31 ≤ cap * 2 then .error .overflow
      else if alloc (cap * 2) then grow_loop need n (cap * 2) else .error (no_memory cmd)
    else .ok cap

/-- `memcpy(data + total, buf, n)`。 -/
def append_chunk (cap : Nat) (data c : List UInt8) : Run (List UInt8) :=
  if cap < data.length + c.length then .error .overflow else .ok (data ++ c)

/-- 標準入力の繰り返し。`read` が 0 か失敗を返すと終わる。 -/
def read_loop : Nat → List UInt8 → List (List UInt8) → Run (List UInt8)
  | _, data, [] => .ok data
  | cap, data, c :: cs =>
    if c.isEmpty then .ok data
    else do
      let cap ← grow_loop cmd alloc (data.length + c.length) c.length cap
      let data ← append_chunk cap data c
      read_loop cap data cs

/-- ファイルの繰り返し。`fread` は残りの大きさまでしか返さない。 -/
def fread_loop (fsize : Nat) : List UInt8 → List (List UInt8) → List UInt8
  | data, [] => data
  | data, c :: cs =>
    if data.length < fsize then
      let got := c.take (fsize - data.length)
      if got.isEmpty then data else fread_loop fsize (data ++ got) cs
    else data

/-- 読み切ったバイト。 -/
def load : Source → Run (List UInt8)
  | .stdin chunks => if alloc 512 then read_loop cmd alloc 512 [] chunks else .error (no_memory cmd)
  | .missing name => .error (.exit ⟨[text (cmd ++ ": "), name, text ": no such file\n"], 1⟩)
  | .file _ fsize chunks =>
    if fsize = 0 then .ok []
    else if alloc fsize then .ok (fread_loop fsize [] chunks) else .error (no_memory cmd)

end

/-! ## head と tail -/

/-- `-n` の後の数。`int` で数える。 -/
def scan_count (s : List UInt8) : BitVec 32 :=
  (s.takeWhile is_digit).foldl (fun n c => n * 10#32 + BitVec.ofNat 32 (c.toNat - 0x30)) 0#32

/-- 引数の繰り返し。行数と、最後のファイルの名前を返す。 -/
def head_args : List (List UInt8) → Nat × Option (List UInt8) → Nat × Option (List UInt8)
  | [], acc => acc
  | [a], (max_lines, _) => (max_lines, some a)
  | a :: b :: argv, (max_lines, filename) =>
    if a = text "-n" then
      head_args argv (if 0 < (scan_count b).toInt then (scan_count b).toNat else max_lines, filename)
    else head_args (b :: argv) (max_lines, some a)

def DEFAULT_LINES : Nat := 10

/-- 改行か、256 バイトごとに書く。 -/
def head_loop (max_lines : Nat) : List UInt8 → Nat → List UInt8 → List (List UInt8)
  | [], _, outbuf => if outbuf.isEmpty then [] else [outbuf]
  | c :: data, lines, outbuf =>
    if lines < max_lines then
      let outbuf := outbuf ++ [c]
      let lines := if c = NEWLINE then lines + 1 else lines
      if 256 ≤ outbuf.length ∨ c = NEWLINE then outbuf :: head_loop max_lines data lines []
      else head_loop max_lines data lines outbuf
    else if outbuf.isEmpty then [] else [outbuf]

section
variable (alloc : Nat → Bool) (fs : List UInt8 → Option (Nat × List (List UInt8))) (stdin : List (List UInt8))

/-- `head` の `main`。`argv` は名前の後の引数である。 -/
def head (argv : List (List UInt8)) : Run Exit := do
  let (max_lines, filename) := head_args argv (DEFAULT_LINES, none)
  let data ← load "head" alloc (source fs stdin filename)
  .ok ⟨head_loop max_lines data 0 [], 0⟩

/-- 後ろから改行を数える。位置は `pos + 1` で表す。 -/
def tail_loop (data : List UInt8) (max_lines : Nat) : Nat → Nat → Nat × Nat
  | 0, nl_count => (0, nl_count)
  | p + 1, nl_count =>
    if nl_count < max_lines then
      let nl_count := if data.getD p 0 = NEWLINE then nl_count + 1 else nl_count
      if nl_count < max_lines then tail_loop data max_lines p nl_count else (p + 1, nl_count)
    else (p + 1, nl_count)

/-- 書き始める位置。最後の改行は数えない。 -/
def tail_start (data : List UInt8) (max_lines : Nat) : Nat :=
  let total := data.length
  let r := tail_loop data max_lines (if data.getD (total - 1) 0 = NEWLINE then total - 1 else total) 0
  if r.2 < max_lines then 0 else r.1

def tail (argv : List (List UInt8)) : Run Exit := do
  let (max_lines, filename) := head_args argv (DEFAULT_LINES, none)
  let data ← load "tail" alloc (source fs stdin filename)
  if data.isEmpty then .ok ⟨[], 0⟩ else .ok ⟨[data.drop (tail_start data max_lines)], 0⟩

/-! ## grep -/

/-- 位置 `j` から `pattern` と比べる。 -/
def match_at (line pattern : List UInt8) (j : Nat) : Bool :=
  (List.range pattern.length).all fun k => line.getD (j + k) 0 == pattern.getD k 0

/-- 行の中の位置を順に試す。 -/
def match_line (pattern line : List UInt8) : Bool :=
  decide (pattern.length ≤ line.length) &&
    (List.range (line.length - pattern.length + 1)).any fun j => match_at line pattern j

/-- 行の数、語の数、語の中にいること。 -/
structure Counts where
  lines : Nat
  words : Nat
  in_word : Bool
  deriving DecidableEq

def is_blank (c : UInt8) : Bool := c == 0x20 || c == NEWLINE || c == 0x09

def Counts.step (s : Counts) (c : UInt8) : Counts :=
  let s := if c = NEWLINE then { s with lines := s.lines + 1 } else s
  if is_blank c then { s with in_word := false }
  else if s.in_word then s else { s with words := s.words + 1, in_word := true }

end

end MyOS.Filters
