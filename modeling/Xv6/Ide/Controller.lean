import Xv6.Disk.Memide

/-!
The disk controller as the driver of `ide.c` sees it, and `idewait` and
`idestart`. The disk executes the command it was given and then raises one interrupt.
-/

namespace Xv6.Ide

abbrev SECTOR_SIZE : Nat := 512

abbrev IDE_BSY : Nat := 0x80
abbrev IDE_DRDY : Nat := 0x40
abbrev IDE_DF : Nat := 0x20
abbrev IDE_ERR : Nat := 0x01

abbrev IDE_CMD_READ : Nat := 0x20
abbrev IDE_CMD_WRITE : Nat := 0x30
abbrev IDE_CMD_RDMUL : Nat := 0xc4
abbrev IDE_CMD_WRMUL : Nat := 0xc5

inductive Phase
  | ready
  | data
  | busy
  deriving DecidableEq, Repr

structure Ctl where
  count : Nat := 0
  lba0 : Nat := 0
  lba1 : Nat := 0
  lba2 : Nat := 0
  drive : Nat := 0xe0
  command : Nat := 0
  control : Nat := 0
  port : Block := .zero
  phase : Phase := .ready
  intr : Bool := false
  media : Nat → Disk

inductive Port
  | count
  | lba0
  | lba1
  | lba2
  | drive
  | command
  | control
  deriving DecidableEq, Repr

namespace Ctl

def outb (c : Ctl) (port : Port) (v : Nat) : Ctl :=
  match port with
  | .count => { c with count := v }
  | .lba0 => { c with lba0 := v }
  | .lba1 => { c with lba1 := v }
  | .lba2 => { c with lba2 := v }
  | .drive => { c with drive := v }
  | .command =>
    { c with command := v, phase := if v = IDE_CMD_WRITE ∨ v = IDE_CMD_WRMUL then .data else .busy }
  | .control => { c with control := v }

def outsl (c : Ctl) (data : Block) : Ctl :=
  { c with port := data, phase := if c.phase = .data then .busy else c.phase }

def status (c : Ctl) : Nat :=
  if c.phase = .busy then IDE_BSY else IDE_DRDY

def sector (c : Ctl) : Nat :=
  c.lba0 + c.lba1 * 2 ^ 8 + c.lba2 * 2 ^ 16 + c.drive % 2 ^ 4 * 2 ^ 24

def unit (c : Ctl) : Nat :=
  c.drive / 2 ^ 4 % 2

def execute (c : Ctl) : Ctl :=
  let c :=
    if c.command = IDE_CMD_READ then
      { c with port := c.media c.unit c.sector }
    else if c.command = IDE_CMD_WRITE then
      { c with media := Function.update c.media c.unit
                          (Function.update (c.media c.unit) c.sector c.port) }
    else
      c
  { c with phase := .ready, intr := c.control / 2 % 2 = 0 }

end Ctl

def idewait (c : Ctl) (checkerr : Bool) : Option Int :=
  if c.status &&& (IDE_BSY ||| IDE_DRDY) = IDE_DRDY then
    some (if checkerr ∧ c.status &&& (IDE_DF ||| IDE_ERR) ≠ 0 then -1 else 0)
  else
    none

inductive Halt
  | idestart
  | blockno
  | notLocked
  | nothingToDo
  | notPresent
  deriving DecidableEq, Repr

abbrev sectorPerBlock : Nat := BSIZE / SECTOR_SIZE

abbrev readCmd : Nat := if sectorPerBlock = 1 then IDE_CMD_READ else IDE_CMD_RDMUL

abbrev writeCmd : Nat := if sectorPerBlock = 1 then IDE_CMD_WRITE else IDE_CMD_WRMUL

section
variable {P : Type}

def issue (c : Ctl) (b : Buf P) : Ctl :=
  let sector := b.blockno * sectorPerBlock
  let c := c.outb .control 0
  let c := c.outb .count sectorPerBlock
  let c := c.outb .lba0 (sector &&& 0xff)
  let c := c.outb .lba1 (sector >>> 8 &&& 0xff)
  let c := c.outb .lba2 (sector >>> 16 &&& 0xff)
  let c := c.outb .drive (0xe0 ||| (b.dev &&& 1) <<< 4 ||| (sector >>> 24 &&& 0x0f))
  if b.dirty then
    (c.outb .command writeCmd).outsl b.data
  else
    c.outb .command readCmd

def idestart (c : Ctl) (b : Option (Buf P)) : Option (Except Halt Ctl) :=
  match b with
  | none => some (.error .idestart)
  | some b =>
    if b.blockno ≥ FSSIZE then
      some (.error .blockno)
    else if sectorPerBlock > 7 then
      some (.error .idestart)
    else
      (idewait c false).map fun _ => .ok (issue c b)

end

inductive Command
  | read (unit sector : Nat)
  | write (unit sector : Nat) (data : Block)

def Command.ofBuf {P : Type} (b : Buf P) : Command :=
  if b.dirty then .write b.dev b.blockno b.data else .read b.dev b.blockno

namespace Ctl

def executing (c : Ctl) : Option Command :=
  if c.phase = .busy ∨ c.intr then
    if c.command = IDE_CMD_READ then
      some (.read c.unit c.sector)
    else if c.command = IDE_CMD_WRITE then
      some (.write c.unit c.sector c.port)
    else
      none
  else
    none

end Ctl

theorem shiftRight_and (x i k : Nat) : x >>> i &&& (2 ^ k - 1) = x / 2 ^ i % 2 ^ k := by
  rw [Nat.and_two_pow_sub_one_eq_mod, Nat.shiftRight_eq_div_pow]

theorem drive_eq (dev x : Nat) (hx : x < 2 ^ 4)
    : 0xe0 ||| (dev &&& 1) <<< 4 ||| x = 0xe0 + dev % 2 * 2 ^ 4 + x := by
  have hbit : ∀ d < 2, ∀ x < 2 ^ 4, 0xe0 ||| d <<< 4 ||| x = 0xe0 + d * 2 ^ 4 + x := by decide
  rw [Nat.and_one_is_mod]
  exact hbit _ (Nat.mod_lt _ Nat.two_pos) x hx

section
variable {P : Type} {c : Ctl} {b : Buf P}

theorem idewait_of_ne_busy (h : c.phase ≠ .busy) (checkerr : Bool) : idewait c checkerr = some 0 := by
  unfold idewait Ctl.status
  rw [if_neg h]
  cases checkerr <;> rfl

theorem idestart_eq (h : c.phase ≠ .busy) (hb : b.blockno < FSSIZE)
    : idestart c (some b) = some (.ok (issue c b)) := by
  unfold idestart
  rw [idewait_of_ne_busy h]
  dsimp only
  rw [if_neg (Nat.not_le_of_lt hb), if_neg (by decide)]
  rfl

theorem issue_media (c : Ctl) (b : Buf P) : (issue c b).media = c.media := by
  unfold issue
  dsimp only
  split <;> rfl

theorem issue_intr (c : Ctl) (b : Buf P) : (issue c b).intr = c.intr := by
  unfold issue
  dsimp only
  split <;> rfl

theorem issue_control (c : Ctl) (b : Buf P) : (issue c b).control = 0 := by
  unfold issue
  dsimp only
  split <;> rfl

theorem issue_phase (c : Ctl) (b : Buf P) : (issue c b).phase = .busy := by
  unfold issue
  dsimp only
  split <;> rfl

theorem issue_drive (c : Ctl) (b : Buf P)
    : (issue c b).drive = 0xe0 + b.dev % 2 * 2 ^ 4 + b.blockno / 2 ^ 24 % 2 ^ 4 := by
  have h := drive_eq b.dev (b.blockno / 2 ^ 24 % 2 ^ 4) (Nat.mod_lt _ (by decide))
  rw [← h, ← shiftRight_and, ← Nat.mul_one b.blockno]
  unfold issue
  dsimp only
  split <;> rfl

theorem issue_sector (c : Ctl) (b : Buf P) (hb : b.blockno < 2 ^ 28)
    : (issue c b).sector = b.blockno := by
  have hlba : (issue c b).lba0 = b.blockno % 2 ^ 8 ∧ (issue c b).lba1 = b.blockno / 2 ^ 8 % 2 ^ 8
      ∧ (issue c b).lba2 = b.blockno / 2 ^ 16 % 2 ^ 8 := by
    rw [← Nat.and_two_pow_sub_one_eq_mod, ← shiftRight_and, ← shiftRight_and, ← Nat.mul_one b.blockno]
    unfold issue
    dsimp only
    split <;> exact ⟨rfl, rfl, rfl⟩
  unfold Ctl.sector
  rw [hlba.1, hlba.2.1, hlba.2.2, issue_drive]
  omega

theorem issue_unit (c : Ctl) (b : Buf P) (hb : b.dev < 2) : (issue c b).unit = b.dev := by
  unfold Ctl.unit
  rw [issue_drive]
  omega

theorem issue_executing (c : Ctl) (hdev : b.dev < 2) (hb : b.blockno < 2 ^ 28)
    : (issue c b).executing = some (.ofBuf b) := by
  unfold Ctl.executing Command.ofBuf
  rw [if_pos (.inl (issue_phase c b)), issue_sector c b hb, issue_unit c b hdev]
  cases hdirty : b.dirty with
  | true =>
    have hcommand : (issue c b).command = IDE_CMD_WRITE ∧ (issue c b).port = b.data := by
      unfold issue
      rw [hdirty]
      exact ⟨rfl, rfl⟩
    rw [hcommand.1, hcommand.2]
    rfl
  | false =>
    have hcommand : (issue c b).command = IDE_CMD_READ := by
      unfold issue
      rw [hdirty]
      rfl
    rw [hcommand]
    rfl

theorem execute_phase (c : Ctl) : c.execute.phase = .ready := by
  unfold Ctl.execute
  rfl

theorem execute_control (c : Ctl) : c.execute.control = c.control := by
  unfold Ctl.execute
  dsimp only
  split
  . rfl
  . split <;> rfl

theorem execute_intr (c : Ctl) (h : c.control = 0) : c.execute.intr = true := by
  rw [← execute_control] at h
  unfold Ctl.execute at *
  dsimp only at *
  rw [h]
  rfl

theorem execute_media (hexec : c.executing = some (.ofBuf b))
    : c.execute.media b.dev = (Memide.sync (c.media b.dev) b).1 := by
  unfold Ctl.executing Command.ofBuf at hexec
  unfold Ctl.execute Memide.sync
  split at hexec
  . split at hexec
    . next hread =>
      split at hexec
      . cases hexec
      . next hdirty =>
        rw [if_pos hread, if_neg hdirty]
    . next hread =>
      split at hexec
      . next hwrite =>
        split at hexec
        . next hdirty =>
          injection hexec with hexec
          injection hexec with hunit hsector hport
          rw [if_neg hread, if_pos hwrite, if_pos hdirty, hunit, hsector, hport]
          exact Function.update_self ..
        . cases hexec
      . cases hexec
  . cases hexec

theorem execute_port (hexec : c.executing = some (.ofBuf b)) (hdirty : b.dirty = false)
    : c.execute.port = (Memide.sync (c.media b.dev) b).2.data := by
  unfold Ctl.executing Command.ofBuf at hexec
  unfold Ctl.execute Memide.sync
  rw [hdirty] at hexec ⊢
  split at hexec
  . split at hexec
    . next hread =>
      injection hexec with hexec
      injection hexec with hunit hsector
      rw [if_pos hread, hunit, hsector]
      rfl
    . split at hexec <;> cases hexec
  . cases hexec

theorem execute_executing (hcontrol : c.control = 0) (hexec : c.executing = some (.ofBuf b))
    : c.execute.executing = some (.ofBuf b) := by
  have hintr : c.execute.intr = true := execute_intr c hcontrol
  rw [← hexec]
  have hphase : c.phase = .busy ∨ c.intr = true := by
    unfold Ctl.executing at hexec
    split at hexec
    . assumption
    . cases hexec
  unfold Ctl.executing
  rw [if_pos (.inr hintr), if_pos hphase]
  unfold Ctl.execute
  dsimp only
  split
  . rfl
  . split <;> rfl

end
end Xv6.Ide
