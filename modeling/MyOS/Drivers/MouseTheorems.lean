import MyOS.Drivers.Mouse

/-!
# マウスの定理

輪の中のバイトは、いつもパケットを並べたものである。
-/

namespace MyOS.Drivers
open MyOS.Lib

variable {m : Mouse} {s t : MouseRun} {packets : List (List UInt8)} {xs l : List UInt8}

/-- 輪にあるバイトを、読む順に並べたもの。 -/
def Mouse.contents (m : Mouse) : List UInt8 := ring m.mouse_buf MOUSE_BUFFER_SZ m.mouse_start m.mouse_size

theorem Mouse.contents_length (m : Mouse) : m.contents.length = m.mouse_size := ring_length

/-! ## 一つの操作 -/

theorem Mouse.contents_push (byte : UInt8) (h : m.mouse_size < MOUSE_BUFFER_SZ) :
    (m.push byte).contents = m.contents ++ [byte] := by
  unfold Mouse.push Mouse.contents
  rw [if_pos h]
  exact ring_push byte h

@[simp] theorem Mouse.push_start (m : Mouse) (byte : UInt8) : (m.push byte).mouse_start = m.mouse_start := by
  unfold Mouse.push
  split <;> rfl

@[simp] theorem Mouse.push_packet (m : Mouse) (byte : UInt8) : (m.push byte).mouse_packet = m.mouse_packet := by
  unfold Mouse.push
  split <;> rfl

@[simp] theorem Mouse.push_cycle (m : Mouse) (byte : UInt8) : (m.push byte).mouse_cycle = m.mouse_cycle := by
  unfold Mouse.push
  split <;> rfl

theorem Mouse.push_size (byte : UInt8) (h : m.mouse_size < MOUSE_BUFFER_SZ) :
    (m.push byte).mouse_size = m.mouse_size + 1 := by simp [Mouse.push, h]

/-- 三バイトの場所があれば、パケットはそのまま加わる。 -/
theorem Mouse.contents_push_packet (a b c : UInt8) (h : m.mouse_size + 3 ≤ MOUSE_BUFFER_SZ) :
    (((m.push a).push b).push c).contents = m.contents ++ [a, b, c] := by
  have ha := Mouse.push_size a (m := m) (by omega)
  have hb := Mouse.push_size b (m := m.push a) (by omega)
  rw [Mouse.contents_push c (by omega), Mouse.contents_push b (by omega), Mouse.contents_push a (by omega)]
  simp

/-- パケットがそろわなければ、輪は変わらない。 -/
theorem Mouse.mouse_handler_other {status : UInt8} (byte : UInt8) (hcycle : m.mouse_cycle < 3)
    (h : m.completes status = false) : (m.mouse_handler status byte).contents = m.contents ∧
      (m.mouse_handler status byte).mouse_start = m.mouse_start ∧ (m.mouse_handler status byte).mouse_cycle < 3 := by
  unfold Mouse.completes at h
  unfold Mouse.mouse_handler
  cases hacc : Mouse.accepts status with
  | false => exact ⟨rfl, rfl, hcycle⟩
  | true =>
    match hc : m.mouse_cycle with
    | 0 =>
      dsimp only [Bool.not_true]
      by_cases hbit : byte.toNat.testBit 3 = true
      · simp [hbit, Mouse.contents, Mouse.set_packet]
      · simp [hbit, hc]
    | 1 => exact ⟨rfl, rfl, Nat.lt_succ_self 2⟩
    | 2 => simp [hacc, hc] at h
    | n + 3 => omega

/-- パケットがそろい、三バイトの場所がある。 -/
theorem Mouse.mouse_handler_completes {status : UInt8} (byte : UInt8) (h : m.completes status = true)
    (hroom : m.mouse_size + 3 ≤ MOUSE_BUFFER_SZ) :
    (m.mouse_handler status byte).contents = m.contents ++ [m.mouse_packet 0, m.mouse_packet 1, byte] ∧
      (m.mouse_handler status byte).mouse_start = m.mouse_start ∧ (m.mouse_handler status byte).mouse_cycle = 0 := by
  unfold Mouse.completes at h
  obtain ⟨hacc, hc⟩ := (Bool.and_eq_true _ _).mp h
  have hcycle : m.mouse_cycle = 2 := beq_iff_eq.mp hc
  have hpush := Mouse.contents_push_packet (m := { m.set_packet 2 byte with mouse_cycle := 0 }) (m.mouse_packet 0)
    (m.mouse_packet 1) byte hroom
  unfold Mouse.mouse_handler
  simp only [hacc, hcycle, Bool.not_true, Bool.false_eq_true, ↓reduceIte]
  exact ⟨hpush, by simp [Mouse.set_packet], by simp⟩

/-- 読み出す `i` バイト。 -/
theorem Mouse.read_packet_spec {i : Nat} (requested : Nat) (hstart : m.mouse_start < MOUSE_BUFFER_SZ) (hlen : xs.length = i)
    (hreq : i ≤ requested) (h : m.contents = xs ++ l) :
    ∃ m', Mouse.read_packet i requested m = (m', xs, requested - i) ∧ m'.contents = l ∧
      m'.mouse_start < MOUSE_BUFFER_SZ ∧ m'.mouse_cycle = m.mouse_cycle ∧ m'.mouse_packet = m.mouse_packet := by
  induction xs generalizing i requested m with
  | nil =>
    cases hlen
    exact ⟨m, rfl, h, hstart, rfl, rfl⟩
  | cons x xs ih =>
    cases hlen
    obtain ⟨n, rfl⟩ : ∃ n, requested = n + 1 := ⟨requested - 1, by simp at hreq; omega⟩
    have hsize : m.mouse_size = (m.mouse_size - 1) + 1 := by
      have hlength := m.contents_length
      rw [h] at hlength
      simp at hlength
      omega
    have hpop : m.contents = m.mouse_buf m.mouse_start ::
        ring m.mouse_buf MOUSE_BUFFER_SZ ((m.mouse_start + 1) % MOUSE_BUFFER_SZ) (m.mouse_size - 1) := by
      unfold Mouse.contents
      rw [hsize]
      exact ring_pop hstart
    rw [h] at hpop
    obtain ⟨hx, hrest⟩ := List.cons.inj hpop
    obtain ⟨m', hread, hl, hstart', hcycle, hpacket⟩ := ih n
      (m := { m with mouse_start := (m.mouse_start + 1) % MOUSE_BUFFER_SZ, mouse_size := m.mouse_size - 1 })
      (Nat.mod_lt _ (by decide)) rfl (Nat.le_of_succ_le_succ hreq) hrest.symm
    refine ⟨m', ?_, hl, hstart', hcycle, hpacket⟩
    simp only [List.length_cons, Mouse.read_packet, hread, hx, Nat.add_sub_add_right]

/-- パケットを並べた輪から、3 の倍数のバイトを読む。 -/
theorem Mouse.read_loop_spec {n k : Nat} (hstart : m.mouse_start < MOUSE_BUFFER_SZ) (hn : 3 * k ≤ n)
    (hpackets : ∀ p ∈ packets, p.length = 3) (h : m.contents = packets.flatten) :
    ∃ m', Mouse.read_loop n (3 * k) m = (m', (packets.take k).flatten) ∧ m'.contents = (packets.drop k).flatten ∧
      m'.mouse_start < MOUSE_BUFFER_SZ ∧ m'.mouse_cycle = m.mouse_cycle ∧ m'.mouse_packet = m.mouse_packet := by
  induction k generalizing n m packets with
  | zero =>
    refine ⟨m, ?_, h, hstart, rfl, rfl⟩
    cases n with
    | zero => rfl
    | succ n => simp [Mouse.read_loop]
  | succ k ih =>
    obtain ⟨n, rfl⟩ : ∃ n', n = n' + 1 := ⟨n - 1, by omega⟩
    have hlength := m.contents_length
    rw [h] at hlength
    cases packets with
    | nil =>
      refine ⟨m, ?_, h, hstart, rfl, rfl⟩
      have hzero : m.mouse_size = 0 := hlength.symm
      simp [Mouse.read_loop, hzero]
    | cons p packets =>
      have hp := hpackets p List.mem_cons_self
      rw [List.flatten_cons] at h
      have hsize : 3 ≤ m.mouse_size := by
        simp [hp] at hlength
        omega
      obtain ⟨m₁, hread, hc₁, hs₁, hcy₁, hpk₁⟩ := Mouse.read_packet_spec (3 * (k + 1)) hstart hp (by omega) h
      obtain ⟨m₂, hloop, hc₂, hs₂, hcy₂, hpk₂⟩ :=
        ih hs₁ (n := n) (by omega) (fun q hq => hpackets q (List.mem_cons_of_mem _ hq)) hc₁
      refine ⟨m₂, ?_, hc₂, hs₂, hcy₂.trans hcy₁, hpk₂.trans hpk₁⟩
      have hleft : 3 * (k + 1) - 3 = 3 * k := by omega
      have hpos : 0 < 3 * (k + 1) := by omega
      simp [Mouse.read_loop, hpos, hsize, hread, hleft, hloop]

/-! ## 列の全体 -/

/-- 渡したパケットと輪にあるパケットは、そろったパケットの部分列である。 -/
structure MouseInv (s : MouseRun) : Prop where
  start : s.mouse.mouse_start < MOUSE_BUFFER_SZ
  cycle : s.mouse.mouse_cycle < 3
  small : s.mouse.mouse_size ≤ 85 * 3
  length : ∀ p ∈ s.assembled, p.length = 3
  framed : ∃ read held : List (List UInt8), (read ++ held).Sublist s.assembled ∧ s.delivered = read.flatten ∧
    s.mouse.contents = held.flatten

theorem MouseInv.init : MouseInv .init :=
  ⟨by decide, by decide, by decide, by simp [MouseRun.init], [], [], by simp, rfl, rfl⟩

theorem MouseInv.framed_run (h : MouseInv s) : Framed s := by
  obtain ⟨read, held, hsub, hdel, -⟩ := h.framed
  exact ⟨read, (List.sublist_append_left read held).trans hsub, hdel⟩

theorem flatten_length_three (h : ∀ p ∈ packets, p.length = 3) : packets.flatten.length = 3 * packets.length := by
  induction packets with
  | nil => rfl
  | cons p packets ih =>
    have hp := h p List.mem_cons_self
    have hrest := ih fun q hq => h q (List.mem_cons_of_mem _ hq)
    simp only [List.flatten_cons, List.length_append, List.length_cons, hp, hrest]
    omega

/-- 輪に残るのは、三バイトずつである。 -/
theorem MouseInv.size_mod (h : MouseInv s) : s.mouse.mouse_size % 3 = 0 := by
  obtain ⟨read, held, hsub, -, hheld⟩ := h.framed
  have hthree := flatten_length_three fun p hp => h.length p (hsub.subset (List.mem_append_right read hp))
  rw [← s.mouse.contents_length, hheld, hthree]
  exact Nat.mul_mod_right 3 _

theorem MouseInv.step {e : MouseEvent} (h : MouseInv s) (hok : RoomForPacket s e) (he : s.step e = some t) :
    MouseInv t := by
  have hmod := h.size_mod
  obtain ⟨hstart, hcycle, hsmall, hlength, read, held, hsub, hdel, hheld⟩ := h
  cases e with
  | irq status byte =>
    cases he
    cases hc : s.mouse.completes status with
    | false =>
      obtain ⟨hcont, hst, hcy⟩ := Mouse.mouse_handler_other byte hcycle hc
      refine ⟨by simpa [hst] using hstart, hcy, ?_, by simpa [hc] using hlength, read, held, by simpa [hc] using hsub,
        hdel, hcont.trans hheld⟩
      rwa [← Mouse.contents_length, hcont, Mouse.contents_length]
    | true =>
      have hroom : s.mouse.mouse_size + 3 ≤ MOUSE_BUFFER_SZ := by
        have hne := hok hc
        unfold MOUSE_BUFFER_SZ
        omega
      obtain ⟨hcont, hst, hcy⟩ := Mouse.mouse_handler_completes byte hc hroom
      refine ⟨by simpa [hst] using hstart, by simp [hcy], ?_, ?_, read,
        held ++ [[s.mouse.mouse_packet 0, s.mouse.mouse_packet 1, byte]], ?_, hdel, ?_⟩
      · rw [← Mouse.contents_length, hcont, List.length_append, Mouse.contents_length]
        unfold MOUSE_BUFFER_SZ at hroom
        simp only [List.length_cons, List.length_nil]
        omega
      · simp only [↓reduceIte, List.mem_append, List.mem_singleton]
        rintro p (hp | rfl)
        · exact hlength p hp
        · rfl
      · simp only [↓reduceIte, ← List.append_assoc]
        exact hsub.append (List.Sublist.refl _)
      · rw [hcont, hheld]
        simp
  | read units =>
    unfold MouseRun.step at he
    dsimp only at he
    split at he
    next hthree =>
      obtain ⟨k, rfl⟩ : ∃ k, units = 3 * k := ⟨units / 3, by omega⟩
      have hpackets : ∀ p ∈ held, p.length = 3 := fun p hp => hlength p (hsub.subset (List.mem_append_right read hp))
      obtain ⟨m', hread, hcont, hst, hcy, -⟩ := Mouse.read_loop_spec hstart (Nat.le_refl _) hpackets hheld
      unfold Mouse.mouse_read_fs at he
      rw [hread] at he
      cases he
      refine ⟨hst, hcy ▸ hcycle, ?_, hlength, read ++ held.take k, held.drop k, ?_, ?_, hcont⟩
      · have hle : m'.contents.length ≤ s.mouse.contents.length := by
          rw [hcont, hheld]
          nth_rewrite 2 [← List.take_append_drop k held]
          rw [List.flatten_append, List.length_append]
          exact Nat.le_add_left _ _
        rw [Mouse.contents_length, Mouse.contents_length] at hle
        exact Nat.le_trans hle hsmall
      · rwa [List.append_assoc, List.take_append_drop]
      · simp [hdel]
    next => cases he

/-- 満ちかけた輪にパケットがそろうことがなければ、渡したバイトはいつもパケットの並びである。 -/
theorem mouse_packets_whole (h : Steps MouseRun.step RoomForPacket .init s) : Framed s :=
  (h.inv (P := MouseInv) (fun _ _ _ hinv hok he => hinv.step hok he) .init).framed_run

def mouse_check (s : MouseRun) : MouseEvent → Bool
  | .irq status _ => !s.mouse.completes status || s.mouse.mouse_size != 85 * 3
  | .read _ => true

theorem mouse_check_ok (s : MouseRun) (e : MouseEvent) (h : mouse_check s e = true) : RoomForPacket s e := by
  cases e with
  | irq status byte =>
    intro hc
    simpa [mouse_check, hc] using h
  | read units => trivial

/-- 一つのパケットの三つの割り込み。 -/
def packet_irqs : List MouseEvent := [.irq 0x21 8, .irq 0x21 1, .irq 0x21 2]

def one_packet : Trace (checked MouseRun.step mouse_check .init) (fun s => s.delivered = [8, 1, 2]) where
  events := packet_irqs ++ [.read 6]
  holds := by decide

theorem mouse_packets_whole_one : ∃ s, s.delivered = [8, 1, 2] ∧ Framed s := by
  obtain ⟨s, hsteps, hdel⟩ := one_packet.steps_checked mouse_check_ok
  exact ⟨s, hdel, mouse_packets_whole hsteps⟩

/-- 86 個目のパケットは一バイトだけ残り、次のパケットとつながる。 -/
def cut_packet : Trace (exec MouseRun.step .init) (fun s =>
    (∀ p ∈ s.assembled, p = [8, 1, 2]) ∧ s.delivered.getLast? = some 1) where
  events := (List.replicate 86 packet_irqs).flatten ++ [.read 255] ++ packet_irqs ++ [.read 3]
  holds := by decide +kernel

theorem mouse_packet_cut : ¬ ∀ s, Steps MouseRun.step (fun _ _ => True) .init s → Framed s := by
  intro h
  obtain ⟨s, hsteps, hall, hlast⟩ := cut_packet.steps
  obtain ⟨packets, hsub, hdel⟩ := h s hsteps
  rw [hdel] at hlast
  cases packets using List.reverseRecOn with
  | nil => cases hlast
  | append_singleton packets p =>
    have hp : p = [8, 1, 2] := hall p (hsub.subset (List.mem_append_right packets List.mem_cons_self))
    simp [hp] at hlast

end MyOS.Drivers
