import MyOS.Proc.Exec
import MyOS.Proc.Shell

/-!
# コマンド行の解析（shell.c）

`parse_line` は行をその場で切り、段の `args` などに行の中の番地を書く。番地 0 は `NULL` である。

語の終わりを切るとき、次の文字が何であっても NUL で上書きして読み飛ばす。それが演算子なら失われるので、
行の意味は、語や名前の直後に演算子が来ない行について述べる。
-/

namespace MyOS.Apps
open MyOS.Lib MyOS.Proc

def MAX_ARGS : Nat := 16

def BAR : UInt8 := 0x7C
def LT : UInt8 := 0x3C
def GT : UInt8 := 0x3E
def AMP : UInt8 := 0x26

/-- `stage_t`。`argc` は `args` の長さである。 -/
structure Stage where
  args : List Nat := []
  in_file : Nat := 0
  out_file : Nat := 0
  append : Bool := false
  background : Bool := false
  deriving DecidableEq

/-- 語と名前の文字。 -/
def is_word (c : UInt8) : Bool := c != 0 && c != SPACE && c != BAR && c != GT && c != LT

/-- `p` から語か名前を読み、`if (*p) { *p = '\0'; p++; }` で切る。 -/
def cut_word (m : ByteMem) (p : Nat) : Option (ByteMem × Nat) :=
  (scan is_word m LINE_MAX p).map fun e => if m e = 0 then (m, e) else (m.store8 e 0, e + 1)

/-- 内側の `while`。 -/
def parse_stage : Nat → ByteMem → Nat → Stage → Option (ByteMem × Nat × Stage)
  | 0, _, _, _ => none
  | n + 1, m, p, st =>
    if m p = 0 ∨ m p = BAR then some (m, p, st)
    else do
      let p ← skip_spaces m p
      if m p = 0 ∨ m p = BAR then some (m, p, st)
      else if m p = LT then
        let p ← skip_spaces m (p + 1)
        let (m, q) ← cut_word m p
        parse_stage n m q { st with in_file := p }
      else if m p = GT then
        let append := m (p + 1) == GT
        let p ← skip_spaces m (if append then p + 2 else p + 1)
        let (m, q) ← cut_word m p
        parse_stage n m q { st with append := st.append || append, out_file := p }
      else
        let args := if st.args.length < MAX_ARGS - 1 then st.args ++ [p] else st.args
        let (m, q) ← cut_word m p
        parse_stage n m q { st with args := args }

/-- 外側の `while`。語のない段は数えない。 -/
def parse_stages : Nat → ByteMem → Nat → List Stage → Option (ByteMem × List Stage)
  | 0, _, _, _ => none
  | n + 1, m, p, stages =>
    if m p = 0 ∨ MAX_STAGES ≤ stages.length then some (m, stages)
    else do
      let (m, p, st) ← parse_stage LINE_MAX m p {}
      let stages := if 0 < st.args.length then stages ++ [st] else stages
      let p ← if m p = BAR then skip_spaces m (p + 1) else some p
      parse_stages n m p stages

/-- 最後の段の最後の語が `&` なら、除いて背景の印を付ける。 -/
def set_background (m : ByteMem) (stages : List Stage) : List Stage :=
  match stages.getLast? with
  | none => stages
  | some last =>
    match last.args.getLast? with
    | none => stages
    | some a =>
      if m a = AMP ∧ m (a + 1) = 0 then
        stages.dropLast ++ [{ last with background := true, args := last.args.dropLast }]
      else stages

def parse_line (m : ByteMem) (line : Nat) : Option (ByteMem × List Stage) := do
  let p ← skip_spaces m line
  if m p = 0 then some (m, [])
  else
    let (m, stages) ← parse_stages LINE_MAX m p []
    return (m, set_background m stages)

/-! ## 行の意味 -/

inductive Token
  | word (w : List UInt8)
  | lt
  | gt
  | append
  | bar
  deriving DecidableEq

def Token.redirects : Token → Bool
  | .lt | .gt | .append => true
  | _ => false

def Token.names : Token → Bool
  | .word _ => true
  | _ => false

/-- 読みかけの語。 -/
def flush (w : List UInt8) : List Token := if w = [] then [] else [.word w]

/-- 空白と演算子で分ける。`w` は読みかけの語である。 -/
def lex (w : List UInt8) : List UInt8 → List Token
  | [] => flush w
  | c :: t =>
    if c = SPACE then flush w ++ lex [] t
    else if c = BAR then flush w ++ .bar :: lex [] t
    else if c = LT then flush w ++ .lt :: lex [] t
    else if c = GT then
      match t with
      | [] => flush w ++ [.gt]
      | d :: t => if d = GT then flush w ++ .append :: lex [] t else flush w ++ .gt :: lex [] (d :: t)
    else lex (w ++ [c]) t

def tokens (line : List UInt8) : List Token := lex [] line

/-- 一つの段。 -/
structure Command where
  args : List (List UInt8) := []
  in_file : Option (List UInt8) := none
  out_file : Option (List UInt8) := none
  append : Bool := false
  background : Bool := false
  deriving DecidableEq

/-- 一つの区切りの語を集める。演算子の後に語がなければ、名前は空である。 -/
def gather : List Token → Command → Command
  | [], s => s
  | .word w :: ts, s => gather ts { s with args := s.args ++ [w] }
  | .lt :: .word w :: ts, s => gather ts { s with in_file := some w }
  | .lt :: ts, s => gather ts { s with in_file := some [] }
  | .gt :: .word w :: ts, s => gather ts { s with out_file := some w }
  | .gt :: ts, s => gather ts { s with out_file := some [] }
  | .append :: .word w :: ts, s => gather ts { s with append := true, out_file := some w }
  | .append :: ts, s => gather ts { s with append := true, out_file := some [] }
  | .bar :: ts, s => gather ts s

/-- `|` で分けた区切りのうち、語のあるもの。 -/
def commands (ts : List Token) : List Command :=
  ((ts.splitOnP (· == .bar)).map fun seg => gather seg {}).filter fun s => !s.args.isEmpty

/-- 最後の `&`。 -/
def detach (cs : List Command) : List Command :=
  match cs.getLast? with
  | none => cs
  | some last =>
    if last.args.getLast? = some [AMP] then
      cs.dropLast ++ [{ last with background := true, args := last.args.dropLast }]
    else cs

/-- 空でない区切りのそれぞれを一つの段とし、語をすべて引数とする読み方。 -/
def plain_commands (ts : List Token) : List Command :=
  ((ts.splitOnP (· == .bar)).filter fun seg => !seg.isEmpty).map fun seg => gather seg {}

def is_op (c : UInt8) : Bool := c == BAR || c == LT || c == GT

/-- 語や名前の直後に演算子が来ない。名前は空のことがある。 -/
structure Clean (line : List UInt8) : Prop where
  apart : line.IsChain fun c o => is_word c = true → is_op o = false
  named : (tokens line).IsChain fun r o => r.redirects = true → o.names = true

/-- 演算子のとなりの位置。`>>` の間は除く。 -/
def Beside (u v : List UInt8) : Prop :=
  ((u.getLast?.any is_op) = true ∨ (v.head?.any is_op) = true) ∧ ¬(u.getLast? = some GT ∧ v.head? = some GT)

/-- 番地 0 は、名前がないことを表す。 -/
def ReadsName (m : ByteMem) (a : Nat) : Option (List UInt8) → Prop
  | none => a = 0
  | some w => a ≠ 0 ∧ CStr m a w

/-- 段 `st` は、メモリ `m` で `s` と読める。 -/
structure Reads (m : ByteMem) (st : Stage) (s : Command) : Prop where
  args : List.Forall₂ (CStr m) st.args s.args
  in_file : ReadsName m st.in_file s.in_file
  out_file : ReadsName m st.out_file s.out_file
  append : st.append = s.append
  background : st.background = s.background

/-- 番地 `line` の行を解析すると、段は `cs` と読める。 -/
def ParsesTo (m : ByteMem) (line : Nat) (cs : List Command) : Prop :=
  ∃ m' stages, parse_line m line = some (m', stages) ∧ List.Forall₂ (Reads m') stages cs

end MyOS.Apps
