import MyOS.Lib.Bytes
import MyOS.Lib.Ring
import MyOS.Lib.Run
import MyOS.Proc.Types

/-!
# キーボード（drivers/kbd.c）

割り込みごとに一つの走査コードを受け取り、修飾キーの状態に応じた文字を 128 バイトの輪に加える。マウスのバイトは捨てる。
`Ctrl+C` と `Ctrl+Z` は文字にならず、前景の組へ信号を送って `schedule` に入る。
-/

namespace MyOS.Drivers
open MyOS.Lib

def KBD_BUFFER_SZ : Nat := 128
def SCANCODE_CTRL_L : UInt8 := 0x1D
def SCANCODE_SHIFT_L : UInt8 := 0x2A
def SCANCODE_SHIFT_R : UInt8 := 0x36
def SCANCODE_CAPSLOCK : UInt8 := 0x3A
def SCANCODE_KEY_C : UInt8 := 0x2E
def SCANCODE_KEY_Z : UInt8 := 0x2C
export Proc (SIGINT SIGTSTP)

/-- `kbdus[0]` の、0 でない最後の項目まで。 -/
def kbdus_plain : List Char :=
  ['\x00', '\x1b', '1', '2', '3', '4', '5', '6', '7', '8', '9', '0', '-', '=', '\x08', '\t',
    'q', 'w', 'e', 'r', 't', 'y', 'u', 'i', 'o', 'p', '[', ']', '\n', '\x00',
    'a', 's', 'd', 'f', 'g', 'h', 'j', 'k', 'l', ';', '\x27', '\x60', '\x00',
    '\x5c', 'z', 'x', 'c', 'v', 'b', 'n', 'm', ',', '.', '/', '\x00', '*', '\x00', ' ', '\x00',
    '\x00', '\x00', '\x00', '\x00', '\x00', '\x00', '\x00', '\x00', '\x00', '\x00',
    '\x00', '\x00', '\x00', '\x00', '\x00', '-', '\x00', '\x00', '\x00', '+']

/-- `kbdus[1]` の、0 でない最後の項目まで。 -/
def kbdus_shift : List Char :=
  ['\x00', '\x1b', '!', '@', '#', '$', '%', '^', '&', '*', '(', ')', '_', '+', '\x08', '\t',
    'Q', 'W', 'E', 'R', 'T', 'Y', 'U', 'I', 'O', 'P', '\x7b', '\x7d', '\n', '\x00',
    'A', 'S', 'D', 'F', 'G', 'H', 'J', 'K', 'L', ':', '\x22', '~', '\x00',
    '|', 'Z', 'X', 'C', 'V', 'B', 'N', 'M', '<', '>', '?', '\x00', '*', '\x00', ' ', '\x00',
    '\x00', '\x00', '\x00', '\x00', '\x00', '\x00', '\x00', '\x00', '\x00', '\x00',
    '\x00', '\x00', '\x00', '\x00', '\x00', '-', '\x00', '\x00', '\x00', '+']

/-- `kbdus[shift][scancode]`。 -/
def kbdus (shift : Bool) (scancode : UInt8) : UInt8 :=
  ((if shift then kbdus_shift else kbdus_plain).getD scancode.toNat '\x00').toUInt8

structure Kbd where
  shift : Bool
  caps_lock : Bool
  ctrl : Bool
  kbd_buf : Nat → UInt8
  buf_start : Nat
  buf_size : Nat

/-- `caps_lock` は英字の大小を入れ替える。 -/
def caps_case (caps_lock : Bool) (ret : UInt8) : UInt8 :=
  if 0x61 ≤ ret ∧ ret ≤ 0x7A then (if caps_lock then ret - 0x61 + 0x41 else ret)
  else if 0x41 ≤ ret ∧ ret ≤ 0x5A then (if caps_lock then ret - 0x41 + 0x61 else ret)
  else ret

namespace Kbd

/-- 満ちていれば捨てる。 -/
def push (k : Kbd) (ret : UInt8) : Kbd :=
  if KBD_BUFFER_SZ ≤ k.buf_size then k
  else { k with
    kbd_buf := fun i => if i = (k.buf_start + k.buf_size) % KBD_BUFFER_SZ then ret else k.kbd_buf i
    buf_size := k.buf_size + 1 }

/-- 離した鍵。 -/
def release (k : Kbd) (scancode : UInt8) : Kbd :=
  let release := scancode &&& 0x7F
  if release = SCANCODE_SHIFT_L ∨ release = SCANCODE_SHIFT_R then { k with shift := false }
  else if release = SCANCODE_CTRL_L then { k with ctrl := false }
  else k

/-- 押した修飾キーを先に記す。 -/
def modify (k : Kbd) (scancode : UInt8) : Kbd :=
  let k := if scancode = SCANCODE_SHIFT_L ∨ scancode = SCANCODE_SHIFT_R then { k with shift := true } else k
  let k := if scancode = SCANCODE_CTRL_L then { k with ctrl := true } else k
  if scancode = SCANCODE_CAPSLOCK then { k with caps_lock := !k.caps_lock } else k

/-- 送る信号があれば返す。 -/
def keyboard_handler (k : Kbd) (status scancode : UInt8) : Kbd × Option Nat :=
  if status &&& 0x20 ≠ 0 then (k, none)
  else if scancode &&& 0x80 ≠ 0 then (k.release scancode, none)
  else
    let k := k.modify scancode
    if k.ctrl ∧ scancode = SCANCODE_KEY_C then (k, some SIGINT)
    else if k.ctrl ∧ scancode = SCANCODE_KEY_Z then (k, some SIGTSTP)
    else
      let ret := kbdus k.shift scancode
      if ret = 0 then (k, none) else (k.push (caps_case k.caps_lock ret), none)

def read_loop : Nat → Kbd → Kbd × List UInt8
  | 0, k => (k, [])
  | n + 1, k =>
    if k.buf_size = 0 then (k, [])
    else
      let byte := k.kbd_buf k.buf_start
      let (k, bytes) := read_loop n
        { k with buf_start := (k.buf_start + 1) % KBD_BUFFER_SZ, buf_size := k.buf_size - 1 }
      (k, byte :: bytes)

def keyboard_read_fs (k : Kbd) (size units : Nat) : Kbd × List UInt8 := read_loop (mul32 size units) k

/-- `keyboard_install` の後。 -/
def install (kbd_buf : Nat → UInt8) : Kbd := ⟨false, false, false, kbd_buf, 0, 0⟩

end Kbd

/-! ## 鍵の履歴 -/

/-- 走査コードの履歴を新しい順に並べ、最後に触れた鍵 `p` が押されている。 -/
def held (p : UInt8 → Bool) (keys : List UInt8) : Bool :=
  match keys.find? fun code => p (code &&& 0x7F) with
  | none => false
  | some code => code &&& 0x80 == 0

def shift_held : List UInt8 → Bool := held fun code => code == SCANCODE_SHIFT_L || code == SCANCODE_SHIFT_R
def ctrl_held : List UInt8 → Bool := held fun code => code == SCANCODE_CTRL_L

/-- `Caps Lock` は、押した回数が奇数のとき効いている。 -/
def caps_on (keys : List UInt8) : Bool := decide (keys.count SCANCODE_CAPSLOCK % 2 = 1)

/-- 最後の鍵が送る信号。 -/
def key_signal : List UInt8 → Option Nat
  | [] => none
  | code :: before =>
    if !ctrl_held (code :: before) then none
    else if code = SCANCODE_KEY_C then some SIGINT
    else if code = SCANCODE_KEY_Z then some SIGTSTP
    else none

/-- 最後の鍵が表す文字。 -/
def key_char : List UInt8 → Option UInt8
  | [] => none
  | code :: before =>
    if code &&& 0x80 ≠ 0 ∨ (key_signal (code :: before)).isSome ∨ kbdus (shift_held (code :: before)) code = 0 then none
    else some (caps_case (caps_on (code :: before)) (kbdus (shift_held (code :: before)) code))

/-- 鍵の履歴が打ち込んだ文字の列。 -/
def typed : List UInt8 → List UInt8
  | [] => []
  | code :: before => typed before ++ (key_char (code :: before)).toList

def signalled : List UInt8 → List Nat
  | [] => []
  | code :: before => signalled before ++ (key_signal (code :: before)).toList

/-! ## 割り込みと読み出しの列 -/

/-- `keys` は鍵の履歴、`arrived` は打ち込まれた文字と、その時に輪が満ちていたこと、`delivered` は読み手に渡したバイト、`signals` は
    送った信号である。 -/
structure KbdRun where
  kbd : Kbd
  keys : List UInt8
  arrived : List (UInt8 × Bool)
  delivered : List UInt8
  signals : List Nat

inductive KbdEvent
  | irq (status scancode : UInt8)
  | read (size units : Nat)

/-- 最後の鍵の文字と、輪が満ちていること。 -/
def KbdRun.arrival (s : KbdRun) (keys : List UInt8) : List (UInt8 × Bool) :=
  (key_char keys).toList.map fun c => (c, decide (KBD_BUFFER_SZ ≤ s.kbd.buf_size))

def KbdRun.step (s : KbdRun) : KbdEvent → Option KbdRun
  | .irq status scancode =>
    let (k, sig) := s.kbd.keyboard_handler status scancode
    if status &&& 0x20 ≠ 0 then some { s with kbd := k, signals := s.signals ++ sig.toList }
    else some ⟨k, scancode :: s.keys, s.arrived ++ s.arrival (scancode :: s.keys), s.delivered, s.signals ++ sig.toList⟩
  | .read size units =>
    let (k, bytes) := s.kbd.keyboard_read_fs size units
    some ⟨k, s.keys, s.arrived, s.delivered ++ bytes, s.signals⟩

/-- 満ちていて捨てた文字の数。 -/
def KbdRun.lost (s : KbdRun) : Nat := s.arrived.countP Prod.snd

def KbdRun.install (kbd_buf : Nat → UInt8) : KbdRun := ⟨.install kbd_buf, [], [], [], []⟩

/-- 輪に残っている文字を、読む順に並べたもの。 -/
def Kbd.queue (k : Kbd) : List UInt8 := ring k.kbd_buf KBD_BUFFER_SZ k.buf_start k.buf_size

/-! ## 打ち込む鍵 -/

/-- 鍵を押して離す。 -/
def tap (code : UInt8) : List UInt8 := [code, code ||| 0x80]

/-- `Caps Lock` の効いた配列で、文字 `c` を出す鍵。 -/
def find_key (caps : Bool) (c : UInt8) : Option (Bool × UInt8) :=
  ([false, true].flatMap fun shift => (List.range 128).map fun code => (shift, UInt8.ofNat code)).find? fun key =>
    kbdus key.1 key.2 ≠ 0 ∧ caps_case caps (kbdus key.1 key.2) = c

/-- 文字 `c` を打つ走査コードの列。要れば左のシフトを押しておく。 -/
def press (caps : Bool) (c : UInt8) : List UInt8 :=
  match find_key caps c with
  | none => []
  | some (shift, code) =>
    if shift then SCANCODE_SHIFT_L :: tap code ++ [SCANCODE_SHIFT_L ||| 0x80] else tap code

end MyOS.Drivers
