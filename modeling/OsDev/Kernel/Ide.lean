import OsDev.Kernel.Console

/-! The disk driver (kernel/drivers/ide.c) against a drive that may answer anything.
Every access to a port is logged, so that the order of the handshake can be stated. -/

namespace OsDev.Kernel.Ide
open OsDev.Machine.Memory OsDev.Machine.Program OsDev.Kernel.Console

abbrev Port := BitVec 16

def IDE_SECTOR_SIZE : Nat := 512
def BLOCK_SIZE : Nat := 1024
def SECTORS_PER_BLOCK : Nat := BLOCK_SIZE / IDE_SECTOR_SIZE
def FSSIZE : Word := 1000#32
def IDE_WAIT_CYCLES : Nat := 15

def IDE_IO_BASE : Port := 0x1F0#16
def IDE_DATA : Port := IDE_IO_BASE + 0#16
def IDE_SECTORS : Port := IDE_IO_BASE + 2#16
def IDE_LBA_LO : Port := IDE_IO_BASE + 3#16
def IDE_LBA_MI : Port := IDE_IO_BASE + 4#16
def IDE_LBA_HI : Port := IDE_IO_BASE + 5#16
def IDE_SELECT : Port := IDE_IO_BASE + 6#16
def IDE_STATUS : Port := IDE_IO_BASE + 7#16
def IDE_COMMAND : Port := IDE_IO_BASE + 7#16
def IDE_CTRL_BASE : Port := 0x3F6#16
def IDE_ALT_STATUS : Port := IDE_CTRL_BASE + 0#16
def IDE_CONTROL : Port := IDE_CTRL_BASE + 0#16

def IDE_STATUS_ERR : Byte := 0x01#8
def IDE_STATUS_DRQ : Byte := 0x08#8
def IDE_STATUS_DF : Byte := 0x20#8
def IDE_STATUS_RDY : Byte := 0x40#8
def IDE_STATUS_BSY : Byte := 0x80#8

def IDE_CMD_READ : Byte := 0x20#8
def IDE_CMD_WRITE : Byte := 0x30#8
def IDE_CMD_RDMUL : Byte := 0xC4#8
def IDE_CMD_WRMUL : Byte := 0xC5#8
def IDE_CMD_IDFY : Byte := 0xEC#8

def IDE_SEL : Word := 0xA0#32
def IDE_SEL_LBA : Word := 0x40#32
def ATA_IDENT_MODEL : Nat := 27

def LBA_SELECT (drive : BitVec 16) (sector : Word) : Byte :=
  (IDE_SEL ||| IDE_SEL_LBA ||| ((drive.setWidth 32 &&& 1#32) <<< 4) ||| (sector.sshiftRight 24 &&& 0x0f#32)).setWidth 8

/-- Some bit of the mask is set. -/
def anyOf (status mask : Byte) : Bool := status &&& mask ≠ 0#8

/-- The accesses to the ports of the drive. -/
inductive Access where
  | inb (port : Port) (value : Byte)
  | outb (port : Port) (value : Byte)
  | insl (port : Port) (words : List Word)
  | outsl (port : Port) (words : List Word)
  deriving DecidableEq, Repr

/-- `struct block_req`; the link to the next request is never read. -/
structure BlockReq where
  flags : BitVec 16
  dev : BitVec 16
  blockNo : Word
  data : Fin BLOCK_SIZE → Byte

def BLOCK_DIRTY : BitVec 16 := 1#16 <<< 2

/-- The driver and the rest of what its drive is going to answer. -/
structure IdeState where
  /-- The bytes read from the registers of the drive, in the order in which they are read. -/
  drive : Nat → Byte
  /-- The words read from its data port. -/
  words : Nat → Word
  asked : Nat
  taken : Nat
  /-- Every access so far, newest first. -/
  log : List Access
  /-- `ide_identify_data`, byte by byte. -/
  identify : List Byte
  console : List Byte

def inb (port : Port) : Prog IdeState Byte := fun s =>
  .ok (s.drive s.asked) { s with asked := s.asked + 1, log := .inb port (s.drive s.asked) :: s.log }

def outb (port : Port) (value : Byte) : Prog IdeState Unit := modify fun s => { s with log := .outb port value :: s.log }

def insl (port : Port) (count : Nat) : Prog IdeState (List Word) := fun s =>
  let words := (List.range count).map fun i => s.words (s.taken + i)
  .ok words { s with taken := s.taken + count, log := .insl port words :: s.log }

def outsl (port : Port) (words : List Word) : Prog IdeState Unit := modify fun s => { s with log := .outsl port words :: s.log }

def say (text : List Byte) : Prog IdeState Unit := modify fun s => { s with console := s.console ++ text }

/-- The macro `error` on a line of `ide_init`. -/
def error {α : Type} (message : String) (line : Nat) : Prog IdeState α := do
  say (cstring "ERROR: " ++ cstring message ++ cstring "\n")
  say (cstring (place "ide_init" "kernel/drivers/ide.c" line))
  kpanic "error occurred"

/-- The status the loop was left with, or none after too many turns. -/
def ideWaitReadyLoop : Nat → Prog IdeState (Option Byte)
  | 0 => return none
  | i + 1 => do
      let status ← inb IDE_ALT_STATUS
      if status &&& (IDE_STATUS_BSY ||| IDE_STATUS_RDY) = IDE_STATUS_RDY then return some status
      else ideWaitReadyLoop i

def ideWaitReady : Prog IdeState Bool := do
  match ← ideWaitReadyLoop IDE_WAIT_CYCLES with
  | none => return false
  | some status => return !anyOf status (IDE_STATUS_DF ||| IDE_STATUS_ERR)

/-- The drive has not finished, as far as the driver can tell. -/
def waiting (status : Byte) : Bool := anyOf status IDE_STATUS_BSY && anyOf status (IDE_STATUS_DRQ ||| IDE_STATUS_ERR)

/-- The loop that follows IDENTIFY. It has no bound of its own; after `turns` turns the run is cut off. -/
def identifyLoop : Nat → Prog IdeState Byte
  | 0 => throw .spin
  | turns + 1 => do
      let status ← inb IDE_ALT_STATUS
      if (← inb IDE_LBA_MI) ≠ 0#8 then error "ide_init: drive on primary bus is not PATA" 96
      else if (← inb IDE_LBA_HI) ≠ 0#8 then error "ide_init: drive on primary bus is not PATA" 96
      else if waiting status then identifyLoop turns
      else return status

/-- `ide_init` up to the last look at the status. -/
def identifyDrive (turns : Nat) : Prog IdeState Unit := do
  outb IDE_SELECT (LBA_SELECT 1#16 0#32)
  let _ ← ideWaitReady
  outb IDE_CONTROL 0#8
  outb IDE_SECTORS 0#8
  outb IDE_LBA_LO 0#8
  outb IDE_LBA_MI 0#8
  outb IDE_LBA_HI 0#8
  outb IDE_COMMAND IDE_CMD_IDFY
  if (← inb IDE_ALT_STATUS) = 0#8 then error "ide_init: drive does not exist on primary bus" 92
  else if anyOf (← identifyLoop turns) IDE_STATUS_ERR then error "ide_init: error returned from the IDENTIFY command" 101
  else pure ()

def wordBytes (w : Word) : List Byte := (List.range 4).map fun i => w.extractLsb' (8 * i) 8

/-- The name of the model; the two bytes of each word are swapped, and the last one is cut off. -/
def modelName (data : List Byte) : List Byte :=
  let ptr (i : Nat) : Byte := data.getD (2 * ATA_IDENT_MODEL + i) 0#8
  ((List.range 39).map fun i => if i % 2 = 0 then ptr (i + 1) else ptr (i - 1)).takeWhile (· ≠ 0#8)

def readIdentify : Prog IdeState Unit := do
  modify fun s => { s with identify := List.replicate 512 0#8 }
  let words ← insl IDE_DATA (256 * 2 / 4)
  modify fun s => { s with identify := words.flatMap wordBytes }
  say (cstring "ide_init: found ATA drive model: " ++ modelName (← get).identify ++ cstring "\n")

/-- The block as it goes to the drive, a word at a time. -/
def dwords (data : Fin BLOCK_SIZE → Byte) : List Word :=
  List.ofFn fun i : Fin (BLOCK_SIZE / 4) =>
    data ⟨4 * i + 3, by have := i.isLt; unfold BLOCK_SIZE at *; omega⟩ ++
    data ⟨4 * i + 2, by have := i.isLt; unfold BLOCK_SIZE at *; omega⟩ ++
    data ⟨4 * i + 1, by have := i.isLt; unfold BLOCK_SIZE at *; omega⟩ ++
    data ⟨4 * i, by have := i.isLt; unfold BLOCK_SIZE at *; omega⟩

/-- The result of `ide_wait_ready` is not looked at. -/
def ideStart : Option BlockReq → Prog IdeState Unit
  | none => kpanic "ide_start"
  | some b =>
      if FSSIZE ≤ b.blockNo then kpanic "incorrect blockno"
      else if 7 < SECTORS_PER_BLOCK then kpanic "ide_start"
      else do
        let sector := b.blockNo * BitVec.ofNat 32 SECTORS_PER_BLOCK
        let readCmd := if SECTORS_PER_BLOCK = 1 then IDE_CMD_READ else IDE_CMD_RDMUL
        let writeCmd := if SECTORS_PER_BLOCK = 1 then IDE_CMD_WRITE else IDE_CMD_WRMUL
        let _ ← ideWaitReady
        outb IDE_CONTROL 0#8
        outb IDE_SECTORS (BitVec.ofNat 8 SECTORS_PER_BLOCK)
        outb IDE_LBA_LO (sector.setWidth 8)
        outb IDE_LBA_MI ((sector.sshiftRight 8).setWidth 8)
        outb IDE_LBA_HI ((sector.sshiftRight 16).setWidth 8)
        outb IDE_SELECT (LBA_SELECT b.dev sector)
        if b.flags &&& BLOCK_DIRTY ≠ 0#16 then do
          outb IDE_COMMAND writeCmd
          outsl IDE_DATA (dwords b.data)
        else outb IDE_COMMAND readCmd

/-- The request `ide_init` makes up. -/
def greeting : BlockReq where
  flags := BLOCK_DIRTY
  dev := 1#16
  blockNo := 0#32
  data := fun i => (cstring "FOUDIL WAS HERE").getD i 0#8

def ideInit (turns : Nat) : Prog IdeState Unit := do
  identifyDrive turns
  readIdentify
  ideStart (some greeting)

/-- The driver before its first access. -/
def idle (drive : Nat → Byte) (words : Nat → Word) : IdeState := ⟨drive, words, 0, 0, [], List.replicate 512 0#8, []⟩

/-- One more byte read from a register. -/
def IdeState.heard (s : IdeState) (port : Port) : IdeState :=
  { s with asked := s.asked + 1, log := .inb port (s.drive s.asked) :: s.log }

/-- One more byte written to a register. -/
def IdeState.told (s : IdeState) (port : Port) (value : Byte) : IdeState := { s with log := .outb port value :: s.log }

theorem run_outb (port : Port) (value : Byte) (s : IdeState) : (outb port value).run s = .ok () (s.told port value) := rfl

theorem run_inb (port : Port) (s : IdeState) : (inb port).run s = .ok (s.drive s.asked) (s.heard port) := rfl

section Drive
variable (drive : Nat → Byte)

/-- How many bytes have been read once `ide_wait_ready` is done, if it starts at byte `i`. -/
def afterWait : Nat → Nat → Nat
  | 0, i => i
  | turns + 1, i =>
      if drive i &&& (IDE_STATUS_BSY ||| IDE_STATUS_RDY) = IDE_STATUS_RDY then i + 1 else afterWait turns (i + 1)

/-- From byte `i` on, the loop that follows IDENTIFY is left after `n` more turns. -/
structure Leaves (i n : Nat) : Prop where
  waits : ∀ j < n, waiting (drive (i + 3 * j)) = true
  signature : ∀ j ≤ n, drive (i + 3 * j + 1) = 0#8 ∧ drive (i + 3 * j + 2) = 0#8
  done : waiting (drive (i + 3 * n)) = false

/-- The drive passes for one that has taken the IDENTIFY command. -/
def Accepted : Prop :=
  let i := afterWait drive IDE_WAIT_CYCLES 0
  drive i ≠ 0#8 ∧ ∃ n, Leaves drive (i + 1) n ∧ anyOf (drive (i + 1 + 3 * n)) IDE_STATUS_ERR = false

variable {drive} {i n : Nat}

theorem leaves_zero : Leaves drive i 0 ↔ drive (i + 1) = 0#8 ∧ drive (i + 2) = 0#8 ∧ waiting (drive i) = false := by
  constructor
  · rintro ⟨-, signature, done⟩
    obtain ⟨middle, high⟩ := signature 0 (Nat.le_refl 0)
    exact ⟨middle, high, done⟩
  · rintro ⟨middle, high, done⟩
    refine ⟨by simp, ?_, done⟩
    intro j none
    obtain rfl : j = 0 := by omega
    exact ⟨middle, high⟩

theorem leaves_succ : Leaves drive i (n + 1) ↔
    drive (i + 1) = 0#8 ∧ drive (i + 2) = 0#8 ∧ waiting (drive i) = true ∧ Leaves drive (i + 3) n := by
  have shift (j : Nat) : i + 3 + 3 * j = i + 3 * (j + 1) := by omega
  constructor
  · rintro ⟨waits, signature, done⟩
    obtain ⟨middle, high⟩ := signature 0 (Nat.zero_le _)
    refine ⟨middle, high, waits 0 (by omega), ?_, ?_, ?_⟩
    · intro j less
      rw [shift]
      exact waits (j + 1) (by omega)
    · intro j upto
      rw [shift]
      exact signature (j + 1) (by omega)
    · rw [shift]
      exact done
  · rintro ⟨middle, high, first, waits, signature, done⟩
    refine ⟨?_, ?_, ?_⟩
    · intro j less
      cases j with
      | zero => exact first
      | succ j =>
        rw [← shift]
        exact waits j (by omega)
    · intro j upto
      cases j with
      | zero => exact ⟨middle, high⟩
      | succ j =>
        rw [← shift]
        exact signature j (by omega)
    · rw [← shift]
      exact done

end Drive

theorem run_ideWaitReadyLoop (turns : Nat) (s : IdeState) :
    ∃ status t, (ideWaitReadyLoop turns).run s = .ok status t ∧ t.drive = s.drive ∧
      t.asked = afterWait s.drive turns s.asked := by
  induction turns generalizing s with
  | zero => exact ⟨none, s, rfl, rfl, rfl⟩
  | succ turns ih =>
    rw [ideWaitReadyLoop, run_bind_ok (run_inb _ s), run_ite, afterWait]
    split
    · exact ⟨_, _, rfl, rfl, rfl⟩
    · exact ih (s.heard IDE_ALT_STATUS)

theorem run_ideWaitReady (s : IdeState) :
    ∃ ready t, ideWaitReady.run s = .ok ready t ∧ t.drive = s.drive ∧ t.asked = afterWait s.drive IDE_WAIT_CYCLES s.asked := by
  obtain ⟨status, t, ran, same, asked⟩ := run_ideWaitReadyLoop IDE_WAIT_CYCLES s
  unfold ideWaitReady
  rw [run_bind_ok ran]
  cases status with
  | none => exact ⟨_, t, rfl, same, asked⟩
  | some status => exact ⟨_, t, rfl, same, asked⟩

theorem error_not_ok {α : Type} {message : String} {line : Nat} {s t : IdeState} {a : α} :
    (error message line).run s ≠ .ok a t := by
  rintro ⟨⟩

/-- The signature bytes of the first turn count however the loop goes on. -/
theorem Leaves.first {drive : Nat → Byte} {i n : Nat} (leaves : Leaves drive i n) :
    drive (i + 1) = 0#8 ∧ drive (i + 2) = 0#8 := leaves.signature 0 (Nat.zero_le n)

/-- The loop comes back exactly when the drive lets it, with the status of the last turn. -/
theorem identifyLoop_returns_iff (turns : Nat) (s : IdeState) (status : Byte) :
    (∃ t, (identifyLoop turns).run s = .ok status t) ↔
      ∃ n < turns, Leaves s.drive s.asked n ∧ status = s.drive (s.asked + 3 * n) := by
  induction turns generalizing s with
  | zero =>
    constructor
    · rintro ⟨t, ⟨⟩⟩
    · rintro ⟨n, less, -⟩
      omega
  | succ turns ih =>
    rw [identifyLoop, run_bind_ok (run_inb _ s), run_bind_ok (run_inb _ _), run_ite]
    change (∃ t, (if s.drive (s.asked + 1) ≠ 0#8 then _ else _) = _) ↔ _
    by_cases middle : s.drive (s.asked + 1) = 0#8
    case neg =>
      rw [if_pos middle]
      constructor
      · rintro ⟨t, ran⟩
        exact absurd ran error_not_ok
      · rintro ⟨n, -, leaves, -⟩
        exact absurd leaves.first.1 middle
    rw [if_neg (not_not.mpr middle), run_bind_ok (run_inb _ _), run_ite]
    change (∃ t, (if s.drive (s.asked + 2) ≠ 0#8 then _ else _) = _) ↔ _
    by_cases high : s.drive (s.asked + 2) = 0#8
    case neg =>
      rw [if_pos high]
      constructor
      · rintro ⟨t, ran⟩
        exact absurd ran error_not_ok
      · rintro ⟨n, -, leaves, -⟩
        exact absurd leaves.first.2 high
    rw [if_neg (not_not.mpr high), run_ite]
    cases busy : waiting (s.drive s.asked) with
    | true =>
      rw [if_pos rfl, ih]
      change (∃ n < turns, Leaves s.drive (s.asked + 3) n ∧ status = s.drive (s.asked + 3 + 3 * n)) ↔ _
      constructor
      · rintro ⟨n, less, leaves, rfl⟩
        refine ⟨n + 1, by omega, leaves_succ.mpr ⟨middle, high, busy, leaves⟩, ?_⟩
        rw [show s.asked + 3 + 3 * n = s.asked + 3 * (n + 1) by omega]
      · rintro ⟨n, less, leaves, rfl⟩
        cases n with
        | zero =>
          rw [(leaves_zero.mp leaves).2.2] at busy
          cases busy
        | succ n =>
          refine ⟨n, by omega, (leaves_succ.mp leaves).2.2.2, ?_⟩
          rw [show s.asked + 3 + 3 * n = s.asked + 3 * (n + 1) by omega]
    | false =>
      rw [if_neg (by decide)]
      constructor
      · rintro ⟨t, ran⟩
        cases ran
        exact ⟨0, by omega, leaves_zero.mpr ⟨middle, high, busy⟩, rfl⟩
      · rintro ⟨n, less, leaves, rfl⟩
        cases n with
        | zero => exact ⟨_, rfl⟩
        | succ n =>
          rw [(leaves_succ.mp leaves).2.2.1] at busy
          cases busy

/-- The last part of `identifyDrive`, once the drive has got the command. -/
theorem run_identifyDrive (turns : Nat) (s : IdeState) :
    ∃ u, u.drive = s.drive ∧ u.asked = afterWait s.drive IDE_WAIT_CYCLES s.asked + 1 ∧
      (identifyDrive turns).run s = EStateM.run (do
        if s.drive (afterWait s.drive IDE_WAIT_CYCLES s.asked) = 0#8 then error "ide_init: drive does not exist on primary bus" 92
        else if anyOf (← identifyLoop turns) IDE_STATUS_ERR then error "ide_init: error returned from the IDENTIFY command" 101
        else pure ()) u := by
  obtain ⟨ready, t, waited, same, asked⟩ := run_ideWaitReady (s.told IDE_SELECT (LBA_SELECT 1#16 0#32))
  change t.drive = s.drive at same
  change t.asked = afterWait s.drive IDE_WAIT_CYCLES s.asked at asked
  obtain ⟨w, code, sameDrive, sameAsked⟩ : ∃ w : IdeState, (identifyDrive turns).run s = EStateM.run (do
        if (← inb IDE_ALT_STATUS) = 0#8 then error "ide_init: drive does not exist on primary bus" 92
        else if anyOf (← identifyLoop turns) IDE_STATUS_ERR then error "ide_init: error returned from the IDENTIFY command" 101
        else pure ()) w ∧ w.drive = t.drive ∧ w.asked = t.asked := by
    unfold identifyDrive
    rw [run_bind_ok (run_outb _ _ s), run_bind_ok waited, run_bind_ok (run_outb _ _ _), run_bind_ok (run_outb _ _ _),
      run_bind_ok (run_outb _ _ _), run_bind_ok (run_outb _ _ _), run_bind_ok (run_outb _ _ _), run_bind_ok (run_outb _ _ _)]
    exact ⟨_, rfl, rfl, rfl⟩
  rw [code, run_bind_ok (run_inb _ _), ← asked, ← sameAsked, ← same, ← sameDrive]
  exact ⟨w.heard IDE_ALT_STATUS, rfl, rfl, rfl⟩

/-- The part up to the last look at the status comes back, given enough turns, exactly
when the drive passes. -/
theorem identifyDrive_returns_iff (s : IdeState) (start : s.asked = 0) :
    (∃ turns t, (identifyDrive turns).run s = .ok () t) ↔ Accepted s.drive := by
  constructor
  · rintro ⟨turns, t, ran⟩
    obtain ⟨u, same, asked, code⟩ := run_identifyDrive turns s
    rw [start] at asked code
    rw [code, run_ite] at ran
    split at ran
    case isTrue => exact absurd ran error_not_ok
    case isFalse present =>
      obtain ⟨status, v, looped, rest⟩ := run_bind_eq_ok ran
      rw [run_ite] at rest
      split at rest
      case isTrue => exact absurd rest error_not_ok
      case isFalse clean =>
        obtain ⟨n, -, leaves, rfl⟩ := (identifyLoop_returns_iff turns u status).mp ⟨v, looped⟩
        rw [same, asked] at leaves clean
        exact ⟨present, n, leaves, by simpa using clean⟩
  · rintro ⟨present, n, leaves, clean⟩
    obtain ⟨u, same, asked, code⟩ := run_identifyDrive (n + 1) s
    rw [start] at asked code
    rw [← asked, ← same] at leaves clean
    obtain ⟨v, looped⟩ := (identifyLoop_returns_iff (n + 1) u _).mpr ⟨n, by omega, leaves, rfl⟩
    refine ⟨n + 1, v, ?_⟩
    rw [code, run_ite, if_neg present, run_bind_ok looped, run_ite, if_neg (by simp [clean])]
    rfl

/-- A transfer of data words. -/
def Access.isBurst : Access → Bool
  | .insl port _ => port = IDE_DATA
  | .outsl port _ => port = IDE_DATA
  | _ => false

def Access.isCommand : Access → Bool
  | .outb port _ => port = IDE_COMMAND
  | _ => false

/-- A status read that shows BSY clear, DRQ set and ERR clear. -/
def Access.showsReady : Access → Bool
  | .inb port status => (port = IDE_STATUS || port = IDE_ALT_STATUS) && !anyOf status IDE_STATUS_BSY &&
      anyOf status IDE_STATUS_DRQ && !anyOf status IDE_STATUS_ERR
  | _ => false

/-- Such a read was made since the last command. -/
def Granted (log : List Access) : Prop := ∃ read ∈ log.takeWhile (!·.isCommand), read.showsReady = true

/-- Every transfer was granted by what came before it. -/
def Handshake (log : List Access) : Prop :=
  ∀ after burst before, log = after ++ burst :: before → burst.isBurst = true → Granted before

/-- `ide_init`, and requests that may follow it. -/
def session (turns : Nat) (later : List BlockReq) : Prog IdeState Unit := do
  ideInit turns
  later.forM fun b => ideStart (some b)

section Handshake
variable (drive : Nat → Byte) (words : Nat → Word)

/-- The state in which `ide_start` is called. -/
def Called (b : BlockReq) (s : IdeState) : Prop :=
  (b = greeting ∧ ∃ turns, EStateM.run (do identifyDrive turns; readIdentify) (idle drive words) = .ok () s) ∨
    ∃ turns before, (session turns before).run (idle drive words) = .ok () s

/-- The handshake of the drive in every run. -/
structure Handshaken : Prop where
  bursts : ∀ turns later, Handshake (finalState ((session turns later).run (idle drive words))).log
  commands : ∀ b s t, Called drive words b s → ideWaitReady.run s = .ok false t →
    (finalState ((ideStart (some b)).run s)).log.filter Access.isCommand = t.log.filter Access.isCommand

variable {drive words}

/-- The transfers so far. -/
def bursts (s : IdeState) : List Access := s.log.filter Access.isBurst

theorem bursts_inb (port : Port) : Preserves bursts (inb port) := fun _ => rfl

theorem bursts_outb (port : Port) (value : Byte) : Preserves bursts (outb port value) := fun _ => rfl

theorem bursts_error {α : Type} (message : String) (line : Nat) :
    Preserves bursts (error message line : Prog IdeState α) := fun _ => rfl

theorem bursts_ideWaitReadyLoop (turns : Nat) : Preserves bursts (ideWaitReadyLoop turns) := by
  induction turns with
  | zero => exact preserves_pure none
  | succ turns ih =>
    apply (bursts_inb _).bind
    intro status
    exact (preserves_pure _).ite ih

theorem bursts_ideWaitReady : Preserves bursts ideWaitReady := by
  apply (bursts_ideWaitReadyLoop _).bind
  intro status
  cases status with
  | none => exact preserves_pure _
  | some status => exact preserves_pure _

theorem bursts_identifyLoop (turns : Nat) : Preserves bursts (identifyLoop turns) := by
  induction turns with
  | zero => exact preserves_throw .spin
  | succ turns ih =>
    apply (bursts_inb _).bind
    intro status
    apply (bursts_inb _).bind
    intro middle
    apply (bursts_error _ _).ite
    apply (bursts_inb _).bind
    intro high
    exact (bursts_error _ _).ite (ih.ite (preserves_pure _))

/-- No data is transferred before the drive has passed. -/
theorem bursts_identifyDrive (turns : Nat) : Preserves bursts (identifyDrive turns) := by
  apply (bursts_outb _ _).bind fun _ => ?_
  apply bursts_ideWaitReady.bind fun _ => ?_
  apply (bursts_outb _ _).bind fun _ => ?_
  apply (bursts_outb _ _).bind fun _ => ?_
  apply (bursts_outb _ _).bind fun _ => ?_
  apply (bursts_outb _ _).bind fun _ => ?_
  apply (bursts_outb _ _).bind fun _ => ?_
  apply (bursts_outb _ _).bind fun _ => ?_
  apply (bursts_inb _).bind fun _ => ?_
  apply (bursts_error _ _).ite
  apply (bursts_identifyLoop turns).bind fun _ => ?_
  exact (bursts_error _ _).ite (preserves_pure _)

theorem handshake_of_no_bursts {log : List Access} (noBurst : log.filter Access.isBurst = []) : Handshake log := by
  rintro after burst before rfl isBurst
  rw [List.filter_eq_nil_iff] at noBurst
  exact absurd isBurst (noBurst burst (by simp))

theorem run_readIdentify (s : IdeState) : ∃ t, readIdentify.run s = .ok () t := ⟨_, rfl⟩

/-- A dirty block follows the command at once. -/
theorem run_ideStart_dirty {b : BlockReq} (s : IdeState) (known : b.blockNo < FSSIZE) (dirty : b.flags &&& BLOCK_DIRTY ≠ 0#16) :
    ∃ t before, (ideStart (some b)).run s = .ok () t ∧
      t.log = .outsl IDE_DATA (dwords b.data) :: .outb IDE_COMMAND IDE_CMD_WRMUL :: before := by
  obtain ⟨ready, t, waited, -⟩ := run_ideWaitReady s
  unfold ideStart
  rw [run_ite, if_neg (BitVec.not_le.mpr known), run_ite, if_neg (by decide), run_bind_ok waited, run_bind_ok (run_outb _ _ _),
    run_bind_ok (run_outb _ _ _), run_bind_ok (run_outb _ _ _), run_bind_ok (run_outb _ _ _), run_bind_ok (run_outb _ _ _),
    run_bind_ok (run_outb _ _ _), run_ite, if_pos dirty, run_bind_ok (run_outb _ _ _)]
  exact ⟨_, _, rfl, rfl⟩

theorem not_granted_after_command (value : Byte) (before : List Access) : ¬ Granted (.outb IDE_COMMAND value :: before) := by
  simp [Granted, Access.isCommand]

/-- With a drive that passes, `ide_init` goes through and has written its block too early. -/
theorem accepted_not_granted (accepted : Accepted drive) :
    ∃ turns t, (session turns []).run (idle drive words) = .ok () t ∧ ¬ Handshake t.log := by
  obtain ⟨turns, u, identified⟩ := (identifyDrive_returns_iff (idle drive words) rfl).mpr accepted
  obtain ⟨v, filled⟩ := run_readIdentify u
  obtain ⟨t, before, started, log⟩ := run_ideStart_dirty (b := greeting) v (by decide) (by decide)
  refine ⟨turns, t, run_bind_ok ((run_bind_ok identified).trans ((run_bind_ok filled).trans started)), ?_⟩
  intro kept
  exact not_granted_after_command _ _ (kept [] _ _ log rfl)

/-- The handshake is kept exactly with a drive that `ide_init` turns away: with any other
one the first block is written without a look at the status. -/
theorem ide_handshake_iff (drive : Nat → Byte) (words : Nat → Word) : Handshaken drive words ↔ ¬ Accepted drive := by
  constructor
  · intro handshaken accepted
    obtain ⟨turns, t, ran, broken⟩ := @accepted_not_granted drive words accepted
    apply broken
    have transferred := handshaken.bursts turns []
    rw [ran] at transferred
    exact transferred
  · intro refused
    have stopped (turns : Nat) : ∃ e u, (identifyDrive turns).run (idle drive words) = .error e u := by
      cases outcome : (identifyDrive turns).run (idle drive words) with
      | ok a t => exact absurd ((identifyDrive_returns_iff (idle drive words) rfl).mp ⟨turns, t, outcome⟩) refused
      | error e u => exact ⟨e, u, rfl⟩
    constructor
    · intro turns later
      obtain ⟨e, u, ran⟩ := stopped turns
      have whole : (session turns later).run (idle drive words) = .error e u := run_bind_error (run_bind_error ran)
      rw [whole]
      apply handshake_of_no_bursts
      exact (bursts_identifyDrive turns).error ran
    · rintro b s t (⟨-, turns, called⟩ | ⟨turns, before, called⟩) -
      · obtain ⟨e, u, ran⟩ := stopped turns
        rw [run_bind_error ran] at called
        cases called
      · obtain ⟨e, u, ran⟩ := stopped turns
        have whole : (session turns before).run (idle drive words) = .error e u := run_bind_error (run_bind_error ran)
        rw [whole] at called
        cases called

/-- With no drive on the bus, nothing is transferred. -/
theorem ide_handshake_absent : Handshaken (fun _ => 0#8) (fun _ => 0#32) :=
  (ide_handshake_iff _ _).mpr fun accepted => accepted.1 rfl

/-- A drive that is ready whenever it is asked, and offers its IDENTIFY block at once. -/
def readyDrive (i : Nat) : Byte := [0x50#8, 0x58#8, 0x58#8, 0#8, 0#8, 0x50#8].getD i 0#8

theorem ready_drive_not_handshaken : ∃ turns t, (session turns []).run (idle readyDrive fun _ => 0#32) = .ok () t ∧
    ¬ Handshake t.log := by
  have leaves : Leaves readyDrive 2 0 := leaves_zero.mpr ⟨rfl, rfl, by decide⟩
  exact accepted_not_granted ⟨by decide, 0, leaves, by decide⟩

end Handshake

end OsDev.Kernel.Ide
