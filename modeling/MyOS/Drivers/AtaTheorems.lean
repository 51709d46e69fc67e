import MyOS.Drivers.Ata
import Mathlib.Tactic.Common

/-!
# ATA ドライバの定理

どのような長さの忙しい時間があっても、ドライバは、配列としてのディスクを読み書きする。
-/

namespace MyOS.Ata
open MyOS.Lib

variable {σ : Type} {io : Ports σ} {sectors : Nat} {view : σ → Drive} {s : σ} {t : Transfer} {disk : ByteMem}

/-! ## 待つこと -/

/-- 忙しい間は止まらず、忙しくなくなると止まる。 -/
theorem wait_loop_ends (h : Pio io sectors view) (stop : UInt8 → Bool) {n : Nat} (status : UInt8) (hdelay : (view s).delay < n)
    (hbusy : ∀ s, 0 < (view s).delay → stop (io.inportb (port + ATA_REG_STATUS) s).1 = false)
    (hready : ∀ s', (view s').delay = 0 → (view s').transfer = (view s).transfer → stop (io.inportb (port + ATA_REG_STATUS) s').1 = true) :
    ∃ s', wait_loop io stop n status s = io.inportb (port + ATA_REG_STATUS) s' ∧ view s' = { view s with delay := 0 } := by
  induction n generalizing s status with
  | zero => exact absurd hdelay (Nat.not_lt_zero _)
  | succ n ih =>
    rw [wait_loop]
    by_cases hzero : (view s).delay = 0
    · dsimp only
      rw [if_pos (hready s hzero rfl)]
      exact ⟨s, rfl, by rw [← hzero]⟩
    · have hpos := Nat.pos_of_ne_zero hzero
      have hview := (h.busy s hpos).2.2.2
      dsimp only
      rw [if_neg (by simp [hbusy s hpos])]
      obtain ⟨s', heq, hs'⟩ := ih (s := (io.inportb (port + ATA_REG_STATUS) s).2) (io.inportb (port + ATA_REG_STATUS) s).1
        (by rw [hview]; show _ - 1 < n; omega) (by rw [hview]; exact hready)
      exact ⟨s', heq, by rw [hs', hview]⟩

theorem wait_ready_view (h : Pio io sectors view) (hdelay : (view s).delay < TIMEOUT) :
    view (ata_wait_ready io s).2 = { view s with delay := 0 } := by
  obtain ⟨s', heq, hs'⟩ := wait_loop_ends h (fun status => status &&& ATA_SR_BSY == 0) 0 hdelay
    (fun s hs => by simpa using (h.busy s hs).1) fun s' hs' _ => by simpa using (h.ready s' hs').1
  rw [ata_wait_ready, heq, (h.ready s' (by rw [hs'])).2.2.2, hs']

theorem wait_drq_view (h : Pio io sectors view) (hdelay : (view s).delay < TIMEOUT) (ht : (view s).transfer = some t) :
    (ata_wait_drq io s).1 &&& ATA_SR_ERR = 0 ∧ (ata_wait_drq io s).1 &&& ATA_SR_DRQ ≠ 0 ∧
      view (ata_wait_drq io s).2 = { view s with delay := 0 } := by
  obtain ⟨s', heq, hs'⟩ := wait_loop_ends h (fun status => status &&& ATA_SR_DRQ != 0 || status &&& ATA_SR_ERR != 0) 0 hdelay
    (fun s hs => by simp [(h.busy s hs).2.1, (h.busy s hs).2.2.1])
    fun s' hs' htr => by simpa using .inl ((h.ready s' hs').2.1.mpr (by rw [htr, ht]; rfl))
  have hzero : (view s').delay = 0 := by rw [hs']
  have hsome : (view s').transfer.isSome := by
    rw [hs']
    exact ht ▸ rfl
  rw [ata_wait_drq, heq]
  exact ⟨(h.ready s' hzero).2.2.1, (h.ready s' hzero).2.1.mpr hsome, by rw [(h.ready s' hzero).2.2.2, hs']⟩

/-! ## 命令 -/

theorem head_nibble : ∀ x < 16, (UInt8.ofNat (0xE0 ||| x) &&& 0x0F).toNat = x := by decide

theorem low_byte (x : Nat) : (UInt8.ofNat (x &&& 0xFF)).toNat = x % 256 := by
  rw [UInt8.toNat_ofNat', Nat.and_two_pow_sub_one_eq_mod x 8]
  exact Nat.mod_mod_of_dvd x (Nat.dvd_refl _)

/-- 書いた位置と数を、装置が読む。 -/
theorem send_command_view (h : Pio io sectors view) {cmd : UInt8} (hcmd : cmd = ATA_CMD_READ_PIO ∨ cmd = ATA_CMD_WRITE_PIO) {lba count : Nat}
    (hlba : lba < 2 ^ 28) (hcount : 1 ≤ count ∧ count ≤ 256) (hfits : lba + count ≤ sectors) (hready : (view s).delay = 0)
    (hidle : (view s).transfer = none) : (view (send_command io cmd lba count s)).delay < TIMEOUT ∧
      (view (send_command io cmd lba count s)).transfer = some ⟨cmd == ATA_CMD_WRITE_PIO, lba, count, 0⟩ ∧
      (view (send_command io cmd lba count s)).disk = (view s).disk := by
  have hregs : ∃ s', send_command io cmd lba count s = io.outportb (port + ATA_REG_COMMAND) cmd s' ∧
      view s' = { view s with
        drive_head := UInt8.ofNat (0xE0 ||| ((lba >>> 24) &&& 0x0F))
        seccount := UInt8.ofNat count
        lba_lo := UInt8.ofNat (lba &&& 0xFF)
        lba_mid := UInt8.ofNat ((lba >>> 8) &&& 0xFF)
        lba_hi := UInt8.ofNat ((lba >>> 16) &&& 0xFF) } := by
    refine ⟨_, rfl, ?_⟩
    have h1 := h.register s ATA_REG_DRIVE_HEAD (UInt8.ofNat (0xE0 ||| ((lba >>> 24) &&& 0x0F))) hready hidle (by decide)
    have h2 := h.register _ ATA_REG_SECCOUNT (UInt8.ofNat count) (by rw [h1]; exact hready) (by rw [h1]; exact hidle) (by decide)
    have h3 := h.register _ ATA_REG_LBA_LO (UInt8.ofNat (lba &&& 0xFF)) (by rw [h2, h1]; exact hready) (by rw [h2, h1]; exact hidle) (by decide)
    have h4 := h.register _ ATA_REG_LBA_MID (UInt8.ofNat ((lba >>> 8) &&& 0xFF)) (by rw [h3, h2, h1]; exact hready)
      (by rw [h3, h2, h1]; exact hidle) (by decide)
    have h5 := h.register _ ATA_REG_LBA_HI (UInt8.ofNat ((lba >>> 16) &&& 0xFF)) (by rw [h4, h3, h2, h1]; exact hready)
      (by rw [h4, h3, h2, h1]; exact hidle) (by decide)
    rw [h5, h4, h3, h2, h1]
    rfl
  obtain ⟨s', heq, hview⟩ := hregs
  have hlba' : (view s').lba = lba := by
    rw [hview]
    show (UInt8.ofNat _ &&& 0x0F).toNat * 2 ^ 24 + (UInt8.ofNat _).toNat * 2 ^ 16 + (UInt8.ofNat _).toNat * 2 ^ 8 + (UInt8.ofNat _).toNat = lba
    rw [head_nibble _ (Nat.lt_succ_of_le Nat.and_le_right), low_byte, low_byte, low_byte, Nat.and_two_pow_sub_one_eq_mod _ 4, Nat.shiftRight_eq_div_pow,
      Nat.shiftRight_eq_div_pow, Nat.shiftRight_eq_div_pow]
    omega
  have hcount' : (view s').count = count := by
    rw [hview]
    show (if UInt8.ofNat count = 0 then 256 else (UInt8.ofNat count).toNat) = count
    by_cases hfull : count = 256
    · rw [hfull]
      rfl
    · have hval : (UInt8.ofNat count).toNat = count := by
        rw [UInt8.toNat_ofNat']
        exact Nat.mod_eq_of_lt (by omega)
      rw [if_neg, hval]
      intro hzero
      rw [hzero] at hval
      have : (0 : UInt8).toNat = 0 := rfl
      omega
  obtain ⟨n, hn, hafter⟩ := h.command s' cmd (by rw [hview]; exact hready) (by rw [hview]; exact hidle) hcmd (by rw [hlba', hcount']; exact hfits)
  rw [heq, hafter, hlba', hcount', hview]
  exact ⟨hn, rfl, rfl⟩

/-! ## 語 -/

theorem word_toNat (lo hi : UInt8) : (lo.toUInt16 ||| (hi.toUInt16 <<< 8)).toNat = hi.toNat * 256 + lo.toNat := by
  have hhi := hi.toNat_lt
  have hshift : (hi.toUInt16 <<< 8).toNat = hi.toNat <<< 8 := by
    rw [UInt16.toNat_shiftLeft, UInt8.toNat_toUInt16]
    show hi.toNat <<< 8 % 2 ^ 16 = _
    rw [Nat.shiftLeft_eq]
    omega
  rw [UInt16.toNat_or, hshift, UInt8.toNat_toUInt16, Nat.or_comm, ← Nat.shiftLeft_add_eq_or_of_lt lo.toNat_lt, Nat.shiftLeft_eq]

theorem word_low (lo hi : UInt8) : ((lo.toUInt16 ||| (hi.toUInt16 <<< 8)) &&& 0xFF).toUInt8 = lo := by
  apply UInt8.toNat_inj.mp
  have hlo := lo.toNat_lt
  rw [UInt16.toNat_toUInt8, UInt16.toNat_and, word_toNat]
  show (hi.toNat * 256 + lo.toNat &&& 255) % 256 = _
  rw [Nat.and_two_pow_sub_one_eq_mod _ 8]
  omega

theorem word_high (lo hi : UInt8) : (((lo.toUInt16 ||| (hi.toUInt16 <<< 8)) >>> 8) &&& 0xFF).toUInt8 = hi := by
  apply UInt8.toNat_inj.mp
  have hlo := lo.toNat_lt
  have hhi := hi.toNat_lt
  rw [UInt16.toNat_toUInt8, UInt16.toNat_and, UInt16.toNat_shiftRight, word_toNat]
  show (((hi.toNat * 256 + lo.toNat) >>> 8) &&& 255) % 256 = _
  rw [Nat.and_two_pow_sub_one_eq_mod _ 8, Nat.shiftRight_eq_div_pow]
  omega

/-! ## 読み -/

theorem next_sector (writing : Bool) (sector left : Nat) : (⟨writing, sector, left + 1, 255⟩ : Transfer).next = Transfer.start writing (sector + 1) left := by
  cases left with
  | zero => rfl
  | succ left => rfl

theorem range_words {α : Type} (f : Nat → α) (n : Nat) :
    (List.range (2 * (n + 1))).map f = f 0 :: f 1 :: (List.range (2 * n)).map (fun i => f (2 + i)) := by
  rw [show 2 * (n + 1) = 2 * n + 1 + 1 by omega, List.range_succ_eq_map, List.range_succ_eq_map, List.map_cons, List.map_cons, List.map_cons,
    List.map_map, List.map_map]
  congr 2
  exact List.map_congr_left fun i _ => congrArg f (Nat.add_comm i 2)

/-- セクタの残りの語を読む。 -/
theorem read_words_view (h : Pio io sectors view) {n : Nat} (hready : (view s).delay = 0) (hat : At view (some t) disk s) (hreading : t.writing = false)
    (hword : t.word + n = 255) : (read_words io (n + 1) s).1 = (List.range (2 * (n + 1))).map (fun i => disk (t.addr + i)) ∧
      At view { t with word := 255 }.next disk (read_words io (n + 1) s).2 := by
  induction n generalizing s t with
  | zero =>
    obtain ⟨hval, m, hm, -, hview⟩ := h.data_in s t hready hat.transfer_eq hreading
    have ht : t = { t with word := 255 } := by rw [← hword]; rfl
    rw [read_words]
    dsimp only [read_words]
    rw [hval, word_low, word_high, hat.disk_eq]
    refine ⟨by rw [range_words _ 0]; simp, by rw [hview]; exact hm, by rw [hview, ← ht], by rw [hview]; exact hat.disk_eq⟩
  | succ n ih =>
    obtain ⟨hval, m, hm, hzero, hview⟩ := h.data_in s t hready hat.transfer_eq hreading
    have hmid : t.word + 1 < 256 := by omega
    have hnext : t.next = some { t with word := t.word + 1 } := if_pos hmid
    obtain ⟨hbytes, hend⟩ := ih (t := { t with word := t.word + 1 }) (s := (io.inportw (port + ATA_REG_DATA) s).2)
      (by rw [hview]; exact hzero hmid) ⟨by rw [hview]; exact hm, by rw [hview]; exact hnext, by rw [hview]; exact hat.disk_eq⟩ hreading
      (by show t.word + 1 + n = 255; omega)
    have haddr : ({ t with word := t.word + 1 } : Transfer).addr = t.addr + 2 := by simp only [Transfer.addr]; omega
    rw [read_words]
    dsimp only
    rw [hval, word_low, word_high, hat.disk_eq, hbytes, haddr, range_words _ (n + 1)]
    simp only [Nat.add_zero, Nat.add_assoc, true_and]
    exact hend

theorem read_sector_view (h : Pio io sectors view) {sector left : Nat} (hready : (view s).delay = 0)
    (hat : At view (some ⟨false, sector, left + 1, 0⟩) disk s) :
    (read_sector io s).1 = (List.range Fat.ATA_SECTOR_SIZE).map (fun i => disk (sector * Fat.ATA_SECTOR_SIZE + i)) ∧
      At view (Transfer.start false (sector + 1) left) disk (read_sector io s).2 := by
  have haddr : (⟨false, sector, left + 1, 0⟩ : Transfer).addr = sector * Fat.ATA_SECTOR_SIZE := Nat.add_zero _
  have hsector : read_sector io s = read_words io (255 + 1) s := by
    delta read_sector
    rfl
  obtain ⟨hbytes, hend⟩ := read_words_view h (n := 255) hready hat rfl (by simp)
  rw [haddr] at hbytes
  rw [next_sector] at hend
  rw [hsector]
  exact ⟨hbytes, hend⟩

theorem wait_drq_at (h : Pio io sectors view) (hat : At view (some t) disk s) : (ata_wait_drq io s).1 &&& ATA_SR_ERR = 0 ∧
    (ata_wait_drq io s).1 &&& ATA_SR_DRQ ≠ 0 ∧ (view (ata_wait_drq io s).2).delay = 0 ∧ At view (some t) disk (ata_wait_drq io s).2 := by
  obtain ⟨herr, hdrq, hview⟩ := wait_drq_view h hat.delay hat.transfer_eq
  exact ⟨herr, hdrq, by rw [hview], by rw [hview]; exact (by decide : 0 < TIMEOUT), by rw [hview]; exact hat.transfer_eq, by rw [hview]; exact hat.disk_eq⟩

theorem wait_ready_at (h : Pio io sectors view) {transfer : Option Transfer} (hat : At view transfer disk s) :
    (view (ata_wait_ready io s).2).delay = 0 ∧ At view transfer disk (ata_wait_ready io s).2 := by
  have hview := wait_ready_view h hat.delay
  exact ⟨by rw [hview], by rw [hview]; exact (by decide : 0 < TIMEOUT), by rw [hview]; exact hat.transfer_eq, by rw [hview]; exact hat.disk_eq⟩

theorem start_succ (writing : Bool) (sector n : Nat) : Transfer.start writing sector (n + 1) = some ⟨writing, sector, n + 1, 0⟩ := if_neg n.succ_ne_zero

theorem range_append {α : Type} (f : Nat → α) (m n : Nat) :
    (List.range (m + n)).map f = (List.range m).map f ++ (List.range n).map (fun i => f (m + i)) := by
  rw [List.range_add, List.map_append, List.map_map]
  rfl

theorem read_loop_view (h : Pio io sectors view) {n sector : Nat} (buffer : List UInt8) (hat : At view (Transfer.start false sector n) disk s) :
    (read_loop io n buffer s).1 = true ∧
      (read_loop io n buffer s).2.1 =
        buffer ++ (List.range (Fat.ATA_SECTOR_SIZE * n)).map (fun i => disk (sector * Fat.ATA_SECTOR_SIZE + i)) ∧
      At view none disk (read_loop io n buffer s).2.2 := by
  induction n generalizing s sector buffer with
  | zero => exact ⟨rfl, by simp [read_loop], hat⟩
  | succ n ih =>
    rw [start_succ] at hat
    obtain ⟨herr, hdrq, hready, hwait⟩ := wait_drq_at h hat
    obtain ⟨hbytes, hend⟩ := read_sector_view h hready hwait
    rw [read_loop]
    dsimp only
    rw [if_neg (by simpa using herr), if_neg hdrq]
    obtain ⟨hok, hall, hdone⟩ := ih (buffer ++ (read_sector io (ata_wait_drq io s).2).1) hend
    refine ⟨hok, ?_, hdone⟩
    rw [hall, hbytes, List.append_assoc, Nat.mul_succ, Nat.add_comm (Fat.ATA_SECTOR_SIZE * n), range_append]
    simp only [Nat.succ_mul, Nat.add_assoc]

theorem ata_read_view (h : Pio io sectors view) {lba count : Nat} (hat : At view none disk s) (hlba : lba < 2 ^ 28) (hcount : 1 ≤ count ∧ count ≤ 256)
    (hfits : lba + count ≤ sectors) : (ata_read_sectors io true lba count s).1 = true ∧ (ata_read_sectors io true lba count s).2.1 =
        (List.range (Fat.ATA_SECTOR_SIZE * count)).map (fun i => disk (lba * Fat.ATA_SECTOR_SIZE + i)) ∧
      At view none disk (ata_read_sectors io true lba count s).2.2 := by
  obtain ⟨hready, hidle⟩ := wait_ready_at h hat
  obtain ⟨hdelay, htransfer, hdisk⟩ := send_command_view h (.inl rfl) hlba hcount hfits hready hidle.transfer_eq
  have hstart : Transfer.start false lba count = some ⟨false, lba, count, 0⟩ := if_neg (by omega)
  exact read_loop_view h [] ⟨hdelay, htransfer.trans hstart.symm, hdisk.trans hidle.disk_eq⟩

/-! ## 書き -/

/-- 語の 2 バイトを書き、続きを書くと、全体を書いたことになる。 -/
theorem written_words (disk : ByteMem) (addr n a : Nat) (buffer : ByteMem) :
    written ((disk.store8 addr (buffer a)).store8 (addr + 1) (buffer (a + 1))) (addr + 2) n buffer (a + 2) =
      written disk addr (2 + n) buffer a := by
  funext x
  rcases Nat.lt_or_ge x addr with hlt | hge
  · rw [written, written, if_neg (by omega), if_neg (by omega), ByteMem.store8_of_ne (by omega), ByteMem.store8_of_ne (by omega)]
  · obtain ⟨i, rfl⟩ := Nat.exists_eq_add_of_le hge
    match i with
    | 0 => rw [written, written, if_neg (by omega), if_pos (by omega), ByteMem.store8_of_ne (by omega), Nat.add_zero, ByteMem.store8_self, Nat.sub_self,
        Nat.add_zero]
    | 1 => rw [written, written, if_neg (by omega), if_pos (by omega), ByteMem.store8_self, Nat.add_sub_cancel_left]
    | i + 2 =>
      by_cases hin : i < n
      · rw [written, written, if_pos (by omega), if_pos (by omega)]
        congr 1
        omega
      · rw [written, written, if_neg (by omega), if_neg (by omega), ByteMem.store8_of_ne (by omega), ByteMem.store8_of_ne (by omega)]

theorem written_append {addr m n a : Nat} {buffer : ByteMem} :
    written (written disk addr m buffer a) (addr + m) n buffer (a + m) = written disk addr (m + n) buffer a := by
  funext x
  rcases Nat.lt_or_ge x (addr + m) with hlt | hge
  · by_cases hin : addr ≤ x
    · rw [written, written, written, if_neg (by omega), if_pos (by omega), if_pos (by omega)]
    · rw [written, written, written, if_neg (by omega), if_neg (by omega), if_neg (by omega)]
  · by_cases hin : x < addr + m + n
    · rw [written, if_pos (by omega), written, if_pos (by omega)]
      congr 1
      omega
    · rw [written, written, written, if_neg (by omega), if_neg (by omega), if_neg (by omega)]

theorem write_words_view (h : Pio io sectors view) (buffer : ByteMem) {n a : Nat} (hready : (view s).delay = 0) (hat : At view (some t) disk s)
    (hwriting : t.writing = true) (hword : t.word + n = 255) :
    At view { t with word := 255 }.next (written disk t.addr (2 * (n + 1)) buffer a) (write_words io buffer a (n + 1) s) := by
  induction n generalizing s t disk a with
  | zero =>
    obtain ⟨m, hm, -, hview⟩ := h.data_out s t ((buffer a).toUInt16 ||| ((buffer (a + 1)).toUInt16 <<< 8)) hready hat.transfer_eq hwriting
    have ht : t = { t with word := 255 } := by rw [← hword]; rfl
    rw [word_low, word_high, hat.disk_eq] at hview
    have hdisk := written_words disk t.addr 0 a buffer
    have hnone : ∀ (d : ByteMem) (a b : Nat), written d a 0 buffer b = d := fun d a b => funext fun x => if_neg (by omega)
    rw [hnone] at hdisk
    rw [write_words]
    dsimp only [write_words]
    exact ⟨by rw [hview]; exact hm, by rw [hview, ← ht], by rw [hview]; exact hdisk⟩
  | succ n ih =>
    obtain ⟨m, hm, hzero, hview⟩ := h.data_out s t ((buffer a).toUInt16 ||| ((buffer (a + 1)).toUInt16 <<< 8)) hready hat.transfer_eq hwriting
    rw [word_low, word_high, hat.disk_eq] at hview
    have hmid : t.word + 1 < 256 := by omega
    have hnext : t.next = some { t with word := t.word + 1 } := if_pos hmid
    have haddr : ({ t with word := t.word + 1 } : Transfer).addr = t.addr + 2 := by simp only [Transfer.addr]; omega
    have hrest := ih (t := { t with word := t.word + 1 })
      (s := io.outportw (port + ATA_REG_DATA) ((buffer a).toUInt16 ||| ((buffer (a + 1)).toUInt16 <<< 8)) s) (a := a + 2)
      (by rw [hview]; exact hzero hmid) ⟨by rw [hview]; exact hm, by rw [hview]; exact hnext, by rw [hview]⟩ hwriting
      (by show t.word + 1 + n = 255; omega)
    rw [haddr, written_words, show 2 + 2 * (n + 1) = 2 * (n + 1 + 1) by omega] at hrest
    rw [write_words]
    exact hrest

theorem write_sector_view (h : Pio io sectors view) (buffer : ByteMem) {sector left a : Nat} (hready : (view s).delay = 0)
    (hat : At view (some ⟨true, sector, left + 1, 0⟩) disk s) : At view (Transfer.start true (sector + 1) left)
      (written disk (sector * Fat.ATA_SECTOR_SIZE) Fat.ATA_SECTOR_SIZE buffer a) (write_sector io buffer a s) := by
  have haddr : (⟨true, sector, left + 1, 0⟩ : Transfer).addr = sector * Fat.ATA_SECTOR_SIZE := Nat.add_zero _
  have hsector : write_sector io buffer a s = write_words io buffer a (255 + 1) s := by
    delta write_sector
    rfl
  have hwords := write_words_view h buffer (n := 255) (a := a) hready hat rfl (by simp)
  rw [haddr, next_sector] at hwords
  rw [hsector]
  exact hwords

theorem write_loop_view (h : Pio io sectors view) (buffer : ByteMem) {n sector a : Nat} (hat : At view (Transfer.start true sector n) disk s) :
    (write_loop io buffer n a s).1 = true ∧ At view none
      (written disk (sector * Fat.ATA_SECTOR_SIZE) (n * Fat.ATA_SECTOR_SIZE) buffer a) (write_loop io buffer n a s).2 := by
  induction n generalizing s sector disk a with
  | zero =>
    have hnone : written disk (sector * Fat.ATA_SECTOR_SIZE) (0 * Fat.ATA_SECTOR_SIZE) buffer a = disk := funext fun x => if_neg (by omega)
    rw [hnone]
    exact ⟨rfl, hat⟩
  | succ n ih =>
    rw [start_succ] at hat
    obtain ⟨herr, hdrq, hready, hwait⟩ := wait_drq_at h hat
    have hsector := write_sector_view h buffer (a := a) hready hwait
    rw [write_loop]
    dsimp only
    rw [if_neg (by simpa using herr), if_neg hdrq]
    obtain ⟨hok, hdone⟩ := ih (a := a + Fat.ATA_SECTOR_SIZE) (wait_ready_at h hsector).2
    rw [Nat.succ_mul sector, written_append, Nat.add_comm, ← Nat.succ_mul] at hdone
    exact ⟨hok, hdone⟩

theorem ata_write_view (h : Pio io sectors view) {lba count : Nat} (buffer : ByteMem) (hat : At view none disk s) (hlba : lba < 2 ^ 28)
    (hcount : 1 ≤ count ∧ count ≤ 256) (hfits : lba + count ≤ sectors) : (ata_write_sectors io true lba count buffer s).1 = true ∧
      At view none (written disk (lba * Fat.ATA_SECTOR_SIZE) (count * Fat.ATA_SECTOR_SIZE) buffer 0) (ata_write_sectors io true lba count buffer s).2 := by
  obtain ⟨hready, hidle⟩ := wait_ready_at h hat
  obtain ⟨hdelay, htransfer, hdisk⟩ := send_command_view h (.inr rfl) hlba hcount hfits hready hidle.transfer_eq
  have hstart : Transfer.start true lba count = some ⟨true, lba, count, 0⟩ := if_neg (by omega)
  exact write_loop_view h buffer ⟨hdelay, htransfer.trans hstart.symm, hdisk.trans hidle.disk_eq⟩

/-! ## 呼び出しの列 -/

/-- `fat12.c` のモデルが使う書きとの一致。 -/
theorem written_eq {fs : Fat.Fs} {lba count : Nat} {buffer : ByteMem} :
    written fs.disk (lba * Fat.ATA_SECTOR_SIZE) (count * Fat.ATA_SECTOR_SIZE) buffer 0 = (Fat.ata_write_sectors fs lba count buffer).disk := by
  funext x
  simp only [written, Fat.ata_write_sectors, Nat.zero_add, Nat.add_mul]

/-- 一つの呼び出しは、配列としてのディスクでの結果と一致する。 -/
theorem request_view (h : Pio io sectors view) {fs : Fat.Fs} (r : Request) (hfits : r.Fits sectors) (hat : At view none fs.disk s) :
    (r.run io s).1 = (r.expect fs).1 ∧ At view none (r.expect fs).2.disk (r.run io s).2 := by
  cases r with
  | read lba count =>
    obtain ⟨hok, hbytes, hdone⟩ := ata_read_view h hat hfits.1 ⟨hfits.2.1, hfits.2.2.1⟩ hfits.2.2.2
    exact ⟨Prod.ext hok hbytes, hdone⟩
  | write lba count buffer =>
    obtain ⟨hok, hdone⟩ := ata_write_view h buffer hat hfits.1 ⟨hfits.2.1, hfits.2.2.1⟩ hfits.2.2.2
    rw [written_eq] at hdone
    exact ⟨Prod.ext hok rfl, hdone⟩

/-- 命令の後に 3 回、セクタの終わりに 2 回だけ忙しい装置。 -/
def slow_drive : Ports Drive where
  inportb reg_port d :=
    if reg_port = port + ATA_REG_STATUS then
      if 0 < d.delay then (ATA_SR_BSY, { d with delay := d.delay - 1 }) else (if d.transfer.isSome then ATA_SR_DRQ else 0, d)
    else (0, d)
  inportw _ d :=
    match d.transfer with
    | some t => ((d.disk t.addr).toUInt16 ||| ((d.disk (t.addr + 1)).toUInt16 <<< 8),
        { d with transfer := t.next, delay := if t.word + 1 < 256 then 0 else 2 })
    | none => (0, d)
  outportb reg_port v d :=
    if reg_port = port + ATA_REG_COMMAND then
      { d with transfer := some ⟨v == ATA_CMD_WRITE_PIO, d.lba, d.count, 0⟩, delay := 3 }
    else d.set (reg_port - port) v
  outportw _ v d :=
    match d.transfer with
    | some t =>
      { d with
        disk := (d.disk.store8 t.addr (v &&& 0xFF).toUInt8).store8 (t.addr + 1) ((v >>> 8) &&& 0xFF).toUInt8
        transfer := t.next
        delay := if t.word + 1 < 256 then 0 else 2 }
    | none => d

theorem slow_drive_pio (sectors : Nat) : Pio slow_drive sectors id where
  busy d hd := by
    replace hd : 0 < d.delay := hd
    simp only [slow_drive, if_pos, hd, id]
    exact ⟨by decide, by decide, by decide, trivial⟩
  ready d hd := by
    replace hd : d.delay = 0 := hd
    cases hd' : d.transfer with
    | none =>
      simp only [slow_drive, if_pos, hd, hd', id, Nat.lt_irrefl, if_false]
      exact ⟨by decide, by decide, by decide, trivial⟩
    | some t =>
      simp only [slow_drive, if_pos, hd, hd', id, Nat.lt_irrefl, if_false, Option.isSome_some]
      exact ⟨by decide, by decide, by decide, trivial⟩
  register d reg v _ _ hreg := by
    have hport : port + reg ≠ port + ATA_REG_COMMAND := fun heq => hreg (Nat.add_left_cancel heq)
    simp only [slow_drive, if_neg hport, Nat.add_sub_cancel_left, id]
  command d cmd _ _ _ _ := ⟨3, by decide, by simp only [slow_drive, if_pos, id]⟩
  data_in d t _ ht _ := by
    replace ht : d.transfer = some t := ht
    refine ⟨by simp only [slow_drive, ht, id], if t.word + 1 < 256 then 0 else 2, ?_, fun hmid => if_pos hmid, by simp only [slow_drive, ht, id]⟩
    split <;> decide
  data_out d t v _ ht _ := by
    replace ht : d.transfer = some t := ht
    refine ⟨if t.word + 1 < 256 then 0 else 2, ?_, fun hmid => if_pos hmid, by simp only [slow_drive, ht, id]⟩
    split <;> decide

/-- 空のディスク。 -/
def empty_disk : Fat.Fs := ⟨Fat.FAT12_ROOT_INODE, ⟨512, 1, 2, 224, 9⟩, 1, 19, 33, #[], 2847, fun _ => 0⟩

/-- 装置が忙しい時間の長さによらず、どの呼び出しの列も、配列としてのディスクと同じ結果を返し、同じディスクを残す。 -/
theorem requests_follow_disk (h : Pio io sectors view) {fs : Fat.Fs} (rs : List Request) (hfits : ∀ r ∈ rs, r.Fits sectors)
    (hat : At view none fs.disk s) : (requests_run io rs s).1 = (requests_expect rs fs).1 ∧
      At view none (requests_expect rs fs).2.disk (requests_run io rs s).2 := by
  induction rs generalizing s fs with
  | nil => exact ⟨rfl, hat⟩
  | cons r rs ih =>
    obtain ⟨hfst, hnext⟩ := request_view h r (hfits r List.mem_cons_self) hat
    obtain ⟨hrest, hend⟩ := ih (fun r' hr' => hfits r' (List.mem_cons_of_mem _ hr')) hnext
    exact ⟨congrArg₂ List.cons hfst hrest, hend⟩

theorem requests_follow_disk_slow_drive :
    (requests_run slow_drive [.write 5 2 fun i => UInt8.ofNat i, .read 4 3] { disk := fun _ => 0 }).1 =
        (requests_expect [.write 5 2 fun i => UInt8.ofNat i, .read 4 3] empty_disk).1 ∧
      At id none (requests_expect [.write 5 2 fun i => UInt8.ofNat i, .read 4 3] empty_disk).2.disk
        (requests_run slow_drive [.write 5 2 fun i => UInt8.ofNat i, .read 4 3] { disk := fun _ => 0 }).2 :=
  requests_follow_disk (slow_drive_pio 2880) _
    (by
      intro r hr
      rcases List.mem_cons.mp hr with rfl | hr
      · exact ⟨by decide, by decide, by decide, by decide⟩
      · obtain rfl := List.mem_singleton.mp hr
        exact ⟨by decide, by decide, by decide, by decide⟩)
    ⟨by decide, rfl, rfl⟩

end MyOS.Ata
