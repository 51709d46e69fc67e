import MyOS.Lib.Ring
import MyOS.Lib.Run

/-!
# PS/2 マウス（drivers/mouse.c）

割り込みごとに一バイトを受け取り、三バイトそろうと 256 バイトの輪に加える。満ちているかどうかは、バイトごとに調べる。
システムコールのゲートは割り込みを禁じるので、読み出しは割り込みに分けられない。
-/

namespace MyOS.Drivers
open MyOS.Lib

def MOUSE_BUFFER_SZ : Nat := 256

structure Mouse where
  mouse_buf : Nat → UInt8
  mouse_start : Nat
  mouse_size : Nat
  mouse_cycle : Nat
  mouse_packet : Nat → UInt8

namespace Mouse

/-- `mouse_packet[i] = byte`。 -/
def set_packet (m : Mouse) (i : Nat) (byte : UInt8) : Mouse :=
  { m with mouse_packet := fun k => if k = i then byte else m.mouse_packet k }

/-- 満ちていなければ、一バイトを加える。 -/
def push (m : Mouse) (byte : UInt8) : Mouse :=
  if m.mouse_size < MOUSE_BUFFER_SZ then
    { m with
      mouse_buf := fun k => if k = (m.mouse_start + m.mouse_size) % MOUSE_BUFFER_SZ then byte else m.mouse_buf k
      mouse_size := m.mouse_size + 1 }
  else m

/-- `status` の二つのビットは、データがあることと、それがマウスのものであること。 -/
def accepts (status : UInt8) : Bool := status.toNat.testBit 0 && status.toNat.testBit 5

def mouse_handler (m : Mouse) (status byte : UInt8) : Mouse :=
  if !accepts status then m
  else match m.mouse_cycle with
  | 0 => if byte.toNat.testBit 3 then { m.set_packet 0 byte with mouse_cycle := 1 } else m
  | 1 => { m.set_packet 1 byte with mouse_cycle := 2 }
  | 2 =>
    let m := { m.set_packet 2 byte with mouse_cycle := 0 }
    ((m.push (m.mouse_packet 0)).push (m.mouse_packet 1)).push (m.mouse_packet 2)
  | _ => m

/-- 内側の `for` の残り `i` 回。残りの `requested` も返す。 -/
def read_packet : Nat → Nat → Mouse → Mouse × List UInt8 × Nat
  | 0, requested, m => (m, [], requested)
  | _ + 1, 0, m => (m, [], 0)
  | i + 1, requested + 1, m =>
      let byte := m.mouse_buf m.mouse_start
      let m := { m with
        mouse_start := (m.mouse_start + 1) % MOUSE_BUFFER_SZ
        mouse_size := m.mouse_size - 1 }
      let (m, bytes, requested) := read_packet i requested m
      (m, byte :: bytes, requested)

/-- 外側の `while`。一周で一バイト以上を読むので、`requested` 周より多くは回らない。 -/
def read_loop : Nat → Nat → Mouse → Mouse × List UInt8
  | 0, _, m => (m, [])
  | n + 1, requested, m =>
      if 0 < requested ∧ 3 ≤ m.mouse_size then
        let (m, bytes, requested) := read_packet 3 requested m
        let (m, more) := read_loop n requested m
        (m, bytes ++ more)
      else (m, [])

def mouse_read_fs (m : Mouse) (units : Nat) : Mouse × List UInt8 := read_loop units units m

end Mouse

/-! ## 割り込みと読み出しの列 -/

/-- `assembled` はそろったパケット、`delivered` は読み手に渡したバイトである。 -/
structure MouseRun where
  mouse : Mouse
  assembled : List (List UInt8)
  delivered : List UInt8

inductive MouseEvent where
  | irq (status byte : UInt8)
  | read (units : Nat)

/-- このバイトでパケットがそろう。 -/
def Mouse.completes (m : Mouse) (status : UInt8) : Bool := accepts status && m.mouse_cycle == 2

/-- 読み手は、3 の倍数のバイトを読む。 -/
def MouseRun.step (s : MouseRun) : MouseEvent → Option MouseRun
  | .irq status byte =>
    some ⟨s.mouse.mouse_handler status byte,
      if s.mouse.completes status then s.assembled ++ [[s.mouse.mouse_packet 0, s.mouse.mouse_packet 1, byte]]
      else s.assembled, s.delivered⟩
  | .read units =>
    if units % 3 = 0 then
      let (m, bytes) := s.mouse.mouse_read_fs units
      some ⟨m, s.assembled, s.delivered ++ bytes⟩
    else none

/-- 静的な変数の初めの値。 -/
def Mouse.init : Mouse := ⟨fun _ => 0, 0, 0, 0, fun _ => 0⟩
def MouseRun.init : MouseRun := ⟨.init, [], []⟩

/-- 渡したバイトは、そろったパケットのいくつかを、順に並べたものである。 -/
def Framed (s : MouseRun) : Prop := ∃ packets : List (List UInt8), packets.Sublist s.assembled ∧ s.delivered = packets.flatten

/-- 輪に 85 個のパケットがあるときには、パケットがそろわない。 -/
def RoomForPacket (s : MouseRun) : MouseEvent → Prop
  | .irq status _ => s.mouse.completes status = true → s.mouse.mouse_size ≠ 85 * 3
  | .read _ => True

end MyOS.Drivers
