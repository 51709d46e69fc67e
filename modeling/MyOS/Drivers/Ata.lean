import MyOS.Fat.Chain

/-!
# ATA ドライバ（drivers/ata.c）

`ata_read_sectors` と `ata_write_sectors` は、入出力ポートを通してディスクを読み書きする。ポートの向こうの装置は `Ports` で表す。
-/

namespace MyOS.Ata
open MyOS.Lib

/-- ポートの入出力。`σ` は装置の状態である。 -/
structure Ports (σ : Type) where
  inportb : Nat → σ → UInt8 × σ
  inportw : Nat → σ → UInt16 × σ
  outportb : Nat → UInt8 → σ → σ
  outportw : Nat → UInt16 → σ → σ

def ATA_PRIMARY_IO : Nat := 0x1F0
def ATA_REG_DATA : Nat := 0x00
def ATA_REG_SECCOUNT : Nat := 0x02
def ATA_REG_LBA_LO : Nat := 0x03
def ATA_REG_LBA_MID : Nat := 0x04
def ATA_REG_LBA_HI : Nat := 0x05
def ATA_REG_DRIVE_HEAD : Nat := 0x06
def ATA_REG_STATUS : Nat := 0x07
def ATA_REG_COMMAND : Nat := 0x07
def ATA_CMD_READ_PIO : UInt8 := 0x20
def ATA_CMD_WRITE_PIO : UInt8 := 0x30
def ATA_SR_BSY : UInt8 := 0x80
def ATA_SR_DRQ : UInt8 := 0x08
def ATA_SR_ERR : UInt8 := 0x01

/-- どの関数の `port` も `ATA_PRIMARY_IO` である。 -/
def port : Nat := ATA_PRIMARY_IO

/-- 状態を読む回数の上限。 -/
def TIMEOUT : Nat := 500000

variable {σ : Type} (io : Ports σ)

/-- `while (timeout-- > 0)` の繰り返し。 -/
def wait_loop (stop : UInt8 → Bool) : Nat → UInt8 → σ → UInt8 × σ
  | 0, status, s => (status, s)
  | timeout + 1, _, s =>
    let r := io.inportb (port + ATA_REG_STATUS) s
    if stop r.1 then r else wait_loop stop timeout r.1 r.2

def ata_wait_ready (s : σ) : UInt8 × σ := wait_loop io (fun status => status &&& ATA_SR_BSY == 0) TIMEOUT 0 s

def ata_wait_drq (s : σ) : UInt8 × σ :=
  wait_loop io (fun status => status &&& ATA_SR_DRQ != 0 || status &&& ATA_SR_ERR != 0) TIMEOUT 0 s

/-- 位置と数を書き、命令を出す。 -/
def send_command (cmd : UInt8) (lba count : Nat) (s : σ) : σ :=
  let s := io.outportb (port + ATA_REG_DRIVE_HEAD) (UInt8.ofNat (0xE0 ||| ((lba >>> 24) &&& 0x0F))) s
  let s := io.outportb (port + ATA_REG_SECCOUNT) (UInt8.ofNat count) s
  let s := io.outportb (port + ATA_REG_LBA_LO) (UInt8.ofNat (lba &&& 0xFF)) s
  let s := io.outportb (port + ATA_REG_LBA_MID) (UInt8.ofNat ((lba >>> 8) &&& 0xFF)) s
  let s := io.outportb (port + ATA_REG_LBA_HI) (UInt8.ofNat ((lba >>> 16) &&& 0xFF)) s
  io.outportb (port + ATA_REG_COMMAND) cmd s

/-- 語を読み、下位のバイトから置く。 -/
def read_words : Nat → σ → List UInt8 × σ
  | 0, s => ([], s)
  | n + 1, s =>
    let (word, s) := io.inportw (port + ATA_REG_DATA) s
    let (bytes, s) := read_words n s
    ((word &&& 0xFF).toUInt8 :: ((word >>> 8) &&& 0xFF).toUInt8 :: bytes, s)

/-- `for (int i = 0; i < 256; i++)` の繰り返し。 -/
@[irreducible] def read_sector (s : σ) : List UInt8 × σ := read_words io 256 s

/-- 残りのセクタを読む。 -/
def read_loop : Nat → List UInt8 → σ → Bool × List UInt8 × σ
  | 0, buffer, s => (true, buffer, s)
  | n + 1, buffer, s =>
    let (status, s) := ata_wait_drq io s
    if status &&& ATA_SR_ERR ≠ 0 then (false, buffer, s)
    else if status &&& ATA_SR_DRQ = 0 then (false, buffer, s)
    else
      let (bytes, s) := read_sector io s
      read_loop n (buffer ++ bytes) s

/-- `buffer` に置いたバイトも返す。 -/
def ata_read_sectors (present : Bool) (lba count : Nat) (s : σ) : Bool × List UInt8 × σ :=
  if !present then (false, [], s) else read_loop io count [] (send_command io ATA_CMD_READ_PIO lba count (ata_wait_ready io s).2)

def write_words (buffer : ByteMem) (at_byte : Nat) : Nat → σ → σ
  | 0, s => s
  | n + 1, s =>
    let word := (buffer at_byte).toUInt16 ||| ((buffer (at_byte + 1)).toUInt16 <<< 8)
    write_words buffer (at_byte + 2) n (io.outportw (port + ATA_REG_DATA) word s)

@[irreducible] def write_sector (buffer : ByteMem) (at_byte : Nat) (s : σ) : σ := write_words io buffer at_byte 256 s

def write_loop (buffer : ByteMem) : Nat → Nat → σ → Bool × σ
  | 0, _, s => (true, s)
  | n + 1, at_byte, s =>
    let (status, s) := ata_wait_drq io s
    if status &&& ATA_SR_ERR ≠ 0 then (false, s)
    else if status &&& ATA_SR_DRQ = 0 then (false, s)
    else write_loop buffer n (at_byte + Fat.ATA_SECTOR_SIZE) (ata_wait_ready io (write_sector io buffer at_byte s)).2

def ata_write_sectors (present : Bool) (lba count : Nat) (buffer : ByteMem) (s : σ) : Bool × σ :=
  if !present then (false, s) else write_loop io buffer count 0 (send_command io ATA_CMD_WRITE_PIO lba count (ata_wait_ready io s).2)

/-! ## 装置 -/

/-- 進んでいる転送。`word` はセクタの中の位置、`left` は残りのセクタの数である。 -/
structure Transfer where
  writing : Bool
  sector : Nat
  left : Nat
  word : Nat
  deriving DecidableEq

/-- 装置の見え方。`delay` 回だけ、状態を読むと忙しい。 -/
structure Drive where
  drive_head : UInt8 := 0
  seccount : UInt8 := 0
  lba_lo : UInt8 := 0
  lba_mid : UInt8 := 0
  lba_hi : UInt8 := 0
  transfer : Option Transfer := none
  delay : Nat := 0
  disk : ByteMem

namespace Drive

def lba (d : Drive) : Nat := (d.drive_head &&& 0x0F).toNat * 2 ^ 24 + d.lba_hi.toNat * 2 ^ 16 + d.lba_mid.toNat * 2 ^ 8 + d.lba_lo.toNat

/-- 0 は 256 を表す。 -/
def count (d : Drive) : Nat := if d.seccount = 0 then 256 else d.seccount.toNat

def set (d : Drive) (reg : Nat) (v : UInt8) : Drive :=
  if reg = ATA_REG_SECCOUNT then { d with seccount := v }
  else if reg = ATA_REG_LBA_LO then { d with lba_lo := v }
  else if reg = ATA_REG_LBA_MID then { d with lba_mid := v }
  else if reg = ATA_REG_LBA_HI then { d with lba_hi := v }
  else if reg = ATA_REG_DRIVE_HEAD then { d with drive_head := v }
  else d

end Drive

/-- 次の語。セクタの終わりでは次のセクタへ進む。 -/
def Transfer.next (t : Transfer) : Option Transfer :=
  if t.word + 1 < 256 then some { t with word := t.word + 1 }
  else if t.left = 1 then none
  else some { t with sector := t.sector + 1, left := t.left - 1, word := 0 }

def Transfer.addr (t : Transfer) : Nat := t.sector * Fat.ATA_SECTOR_SIZE + 2 * t.word

/-- セクタの初めから始まる転送。 -/
def Transfer.start (writing : Bool) (sector left : Nat) : Option Transfer := if left = 0 then none else some ⟨writing, sector, left, 0⟩

/-- PIO の転送の手順に従う装置。`sectors` はセクタの数、`view` は装置の見え方である。忙しい間は `BSY` だけが立ち、その後は
    転送が残るときに `DRQ` が立つ。忙しい時間は、命令の後とセクタの終わりに任意の長さだけ始まる。 -/
structure Pio (io : Ports σ) (sectors : Nat) (view : σ → Drive) : Prop where
  busy : ∀ s, 0 < (view s).delay →
    (io.inportb (port + ATA_REG_STATUS) s).1 &&& ATA_SR_BSY ≠ 0 ∧
    (io.inportb (port + ATA_REG_STATUS) s).1 &&& ATA_SR_DRQ = 0 ∧
    (io.inportb (port + ATA_REG_STATUS) s).1 &&& ATA_SR_ERR = 0 ∧
    view (io.inportb (port + ATA_REG_STATUS) s).2 = { view s with delay := (view s).delay - 1 }
  ready : ∀ s, (view s).delay = 0 →
    (io.inportb (port + ATA_REG_STATUS) s).1 &&& ATA_SR_BSY = 0 ∧
    ((io.inportb (port + ATA_REG_STATUS) s).1 &&& ATA_SR_DRQ ≠ 0 ↔ (view s).transfer.isSome) ∧
    (io.inportb (port + ATA_REG_STATUS) s).1 &&& ATA_SR_ERR = 0 ∧
    view (io.inportb (port + ATA_REG_STATUS) s).2 = view s
  register : ∀ s reg v, (view s).delay = 0 → (view s).transfer = none → reg ≠ ATA_REG_COMMAND →
    view (io.outportb (port + reg) v s) = (view s).set reg v
  command : ∀ s cmd, (view s).delay = 0 → (view s).transfer = none → cmd = ATA_CMD_READ_PIO ∨ cmd = ATA_CMD_WRITE_PIO →
    (view s).lba + (view s).count ≤ sectors → ∃ n < TIMEOUT, view (io.outportb (port + ATA_REG_COMMAND) cmd s) =
      { view s with transfer := some ⟨cmd == ATA_CMD_WRITE_PIO, (view s).lba, (view s).count, 0⟩, delay := n }
  data_in : ∀ s t, (view s).delay = 0 → (view s).transfer = some t → t.writing = false →
    (io.inportw (port + ATA_REG_DATA) s).1 = ((view s).disk t.addr).toUInt16 ||| (((view s).disk (t.addr + 1)).toUInt16 <<< 8) ∧
    ∃ n < TIMEOUT, (t.word + 1 < 256 → n = 0) ∧
      view (io.inportw (port + ATA_REG_DATA) s).2 = { view s with transfer := t.next, delay := n }
  data_out : ∀ s t v, (view s).delay = 0 → (view s).transfer = some t → t.writing = true → ∃ n < TIMEOUT, (t.word + 1 < 256 → n = 0) ∧
    view (io.outportw (port + ATA_REG_DATA) v s) =
      { view s with
        disk := ((view s).disk.store8 t.addr (v &&& 0xFF).toUInt8).store8 (t.addr + 1) ((v >>> 8) &&& 0xFF).toUInt8
        transfer := t.next
        delay := n }

/-- 待てば終わる装置の、転送とディスク。 -/
structure At (view : σ → Drive) (transfer : Option Transfer) (disk : ByteMem) (s : σ) : Prop where
  delay : (view s).delay < TIMEOUT
  transfer_eq : (view s).transfer = transfer
  disk_eq : (view s).disk = disk

/-- `addr` から `n` バイトに、`buffer` の `at_byte` からのバイトを書いたディスク。 -/
def written (disk : ByteMem) (addr n : Nat) (buffer : ByteMem) (at_byte : Nat) : ByteMem :=
  fun x => if addr ≤ x ∧ x < addr + n then buffer (at_byte + (x - addr)) else disk x

/-- ドライバの呼び出し。 -/
inductive Request
  | read (lba count : Nat)
  | write (lba count : Nat) (buffer : ByteMem)

/-- 一つの呼び出しの結果。読みでは、`buffer` のバイトも返す。 -/
def Request.run (r : Request) (s : σ) : (Bool × List UInt8) × σ :=
  match r with
  | .read lba count =>
    let (ok, bytes, s) := ata_read_sectors io true lba count s
    ((ok, bytes), s)
  | .write lba count buffer =>
    let (ok, s) := ata_write_sectors io true lba count buffer s
    ((ok, []), s)

/-- 配列としてのディスクでの結果。 -/
def Request.expect (r : Request) (fs : Fat.Fs) : (Bool × List UInt8) × Fat.Fs :=
  match r with
  | .read lba count => ((true, (List.range (Fat.ATA_SECTOR_SIZE * count)).map (Fat.ata_read_sectors fs lba)), fs)
  | .write lba count buffer => ((true, []), Fat.ata_write_sectors fs lba count buffer)

/-- 28 ビットの位置と、一度に読み書きできる数。 -/
def Request.Fits (sectors : Nat) : Request → Prop
  | .read lba count => lba < 2 ^ 28 ∧ 1 ≤ count ∧ count ≤ 256 ∧ lba + count ≤ sectors
  | .write lba count _ => lba < 2 ^ 28 ∧ 1 ≤ count ∧ count ≤ 256 ∧ lba + count ≤ sectors

def requests_run : List Request → σ → List (Bool × List UInt8) × σ
  | [], s => ([], s)
  | r :: rs, s =>
    let (result, s) := r.run io s
    let (results, s) := requests_run rs s
    (result :: results, s)

def requests_expect : List Request → Fat.Fs → List (Bool × List UInt8) × Fat.Fs
  | [], fs => ([], fs)
  | r :: rs, fs =>
    let (result, fs) := r.expect fs
    let (results, fs) := requests_expect rs fs
    (result :: results, fs)

end MyOS.Ata
