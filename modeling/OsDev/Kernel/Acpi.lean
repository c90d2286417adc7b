import OsDev.Kernel.Console

/-! The ACPI tables (kernel/drivers/acpi.c) and what `cpu_init` makes of them. Every
array the parser stores into is taken as unbounded here, and every index is logged. -/

namespace OsDev.Kernel.Acpi
open OsDev.Machine.Memory OsDev.Machine.Program OsDev.Kernel.Mmu OsDev.Kernel.StringLib OsDev.Kernel.Console

def MAX_CPUS : Nat := 16
def MAX_IOAPIC : Nat := 4

def ACPI_RSDP_CHECKSUM_LENGTH : Word := 20#32

def MADT_CPU : Byte := 0#8
def MADT_IOAPIC : Byte := 1#8
def MADT_INT : Byte := 2#8

def RSDP_SIGNATURE : List Byte := cstring "RSD PTR "
def MADT_SIGNATURE : List Byte := cstring "APIC"

/-- `sizeof(struct sdt)` and `sizeof(struct madt)`. -/
def sdtSize : Addr := 36#32
def madtSize : Addr := 8#32

structure CpuInfo where
  id : Byte
  apic : Byte
  deriving DecidableEq, Repr

structure IoapicInfo where
  id : Byte
  addr : Word
  base : Word
  deriving DecidableEq, Repr

/-- `struct acpi_info`. -/
structure AcpiInfo where
  numCpus : Nat
  cpu : Nat → CpuInfo
  numIoapic : Nat
  ioapic : Nat → IoapicInfo
  intMap : Byte → Word

def AcpiInfo.zero : AcpiInfo := ⟨0, fun _ => ⟨0#8, 0#8⟩, 0, fun _ => ⟨0#8, 0#32, 0#32⟩, fun _ => 0#32⟩

/-- What the code touches, apart from the headers of the tables. -/
inductive Event where
  /-- A byte of the root pointer structure is read. -/
  | rsdp (a : Addr)
  /-- The table at `p` is looked at. -/
  | table (p : Addr)
  /-- A byte is read as part of an entry of the MADT. -/
  | entry (a : Addr)
  | storeCpu (i : Nat)
  | storeIoapic (i : Nat)
  | storeIntMap (i : Nat)
  /-- `cpus[i]` is written. -/
  | storeApicid (i : Nat)
  deriving DecidableEq, Repr

structure AcpiState where
  mem : Mem
  info : AcpiInfo
  /-- `cpus[i].apicid` -/
  apicid : Nat → Byte
  /-- Oldest first. -/
  log : List Event
  /-- The calls of `cprintf`, oldest first. -/
  console : List (String × List Word)

def note (events : List Event) : Prog AcpiState Unit := modify fun s => { s with log := s.log ++ events }

def say (fmt : String) (args : List Word) : Prog AcpiState Unit := modify fun s => { s with console := s.console ++ [(fmt, args)] }

/-- The bytes of a region. -/
def region (m : Mem) (a : Addr) (i : Nat) : Byte := m (a + BitVec.ofNat 32 i)

def literal (text : List Byte) (i : Nat) : Byte := text.getD i 0#8

def addresses (a : Addr) (size : Nat) : List Addr := (List.range size).map fun i => a + BitVec.ofNat 32 i

def entryByte (a : Addr) : Prog AcpiState Byte := do
  note [.entry a]
  return (← get).mem a

def entryWord (a : Addr) : Prog AcpiState Word := do
  note ((addresses a 4).map .entry)
  return read32 (← get).mem a

/-- A later state of the parser. -/
@[simps -fullyApplied] def AcpiState.after (s : AcpiState) (info : AcpiInfo) (log : List Event) : AcpiState :=
  { s with info := info, log := s.log ++ log }

@[simp] theorem after_after (s : AcpiState) (info info' : AcpiInfo) (log log' : List Event) :
    (s.after info log).after info' log' = s.after info' (log ++ log') := by simp [AcpiState.after]

theorem after_self (s : AcpiState) : s.after s.info [] = s := by simp [AcpiState.after]

theorem run_note (events : List Event) (s : AcpiState) : (note events).run s = .ok () (s.after s.info events) := rfl

theorem run_say (fmt : String) (args : List Word) (s : AcpiState) :
    (say fmt args).run s = .ok () { s with console := s.console ++ [(fmt, args)] } := rfl

theorem run_entryByte (a : Addr) (s : AcpiState) : (entryByte a).run s = .ok (s.mem a) (s.after s.info [.entry a]) := rfl

theorem run_entryWord (a : Addr) (s : AcpiState) :
    (entryWord a).run s = .ok (read32 s.mem a) (s.after s.info ((addresses a 4).map .entry)) := rfl

def AcpiInfo.addCpu (info : AcpiInfo) (cpu : CpuInfo) : AcpiInfo :=
  { info with cpu := Function.update info.cpu info.numCpus cpu, numCpus := info.numCpus + 1 }

def AcpiInfo.addIoapic (info : AcpiInfo) (ioapic : IoapicInfo) : AcpiInfo :=
  { info with ioapic := Function.update info.ioapic info.numIoapic ioapic, numIoapic := info.numIoapic + 1 }

def AcpiInfo.remap (info : AcpiInfo) (source : Byte) (target : Word) : AcpiInfo :=
  { info with intMap := Function.update info.intMap source target }

/-- The `switch` of `parse_madt`. A processor counts as enabled by its number. -/
def parseEntry (e : Addr) : Prog AcpiState Unit := do
  let type ← entryByte e
  if type = MADT_CPU then do
    if (← entryByte (e + 2#32)) &&& 1#8 = 0#8 then pure ()
    else do
      let id ← entryByte (e + 2#32)
      let apic ← entryByte (e + 3#32)
      note [.storeCpu (← get).info.numCpus]
      modify fun s => { s with info := s.info.addCpu ⟨id, apic⟩ }
  else if type = MADT_IOAPIC then do
    let id ← entryByte (e + 2#32)
    let addr ← entryWord (e + 4#32)
    let base ← entryWord (e + 8#32)
    note [.storeIoapic (← get).info.numIoapic]
    modify fun s => { s with info := s.info.addIoapic ⟨id, addr, base⟩ }
  else if type = MADT_INT then do
    let source ← entryByte (e + 3#32)
    let target ← entryWord (e + 4#32)
    note [.storeIntMap source.toNat]
    modify fun s => { s with info := s.info.remap source target }
  else pure ()

/-- The loop has no bound of its own: near the top of the address space `e` may start again at 0. After `turns` turns
the run is cut off. -/
def parseMadtLoop (stop : Addr) : Nat → Addr → Prog AcpiState Unit
  | 0, _ => throw .spin
  | turns + 1, e =>
      if e < stop then do
        if (← entryByte (e + 1#32)) = 0#8 then pure ()
        else do
          parseEntry e
          let len ← entryByte (e + 1#32)
          parseMadtLoop stop turns (e + len.setWidth 32)
      else pure ()

def parseMadt (turns : Nat) (madt : Addr) (len : Word) : Prog AcpiState Unit := do
  say "Local Interrupt Controller: 0x%x\n" [read32 (← get).mem madt]
  parseMadtLoop (madt + len) turns (madt + madtSize)

def read64 (m : Mem) (a : Addr) : BitVec 64 := read32 m (a + 4#32) ++ read32 m a

/-- The address of the `i`-th table, which is cut to 32 bits. -/
def listedTable (m : Mem) (sdt : Addr) (revision : Byte) (i : Nat) : Addr :=
  if revision ≠ 0#8 then P2V ((read64 m (sdt + sdtSize + BitVec.ofNat 32 (8 * i))).setWidth 32)
  else P2V (read32 m (sdt + sdtSize + BitVec.ofNat 32 (4 * i)))

/-- An unsigned division, whose result goes into an `int`. -/
def sdtEntries (len : Word) (revision : Byte) : Int := ((len - sdtSize) / (if revision ≠ 0#8 then 8#32 else 4#32)).toInt

def isMadt (m : Mem) (table : Addr) : Bool := memcmp (region m table) (literal MADT_SIGNATURE) 4 = 0

/-- The length field of a table. -/
def tableLen (m : Mem) (table : Addr) : Word := read32 m (table + 4#32)

def parseSdtLoop (turns : Nat) (sdt : Addr) (revision : Byte) : Nat → Nat → Prog AcpiState Unit
  | 0, _ => pure ()
  | left + 1, i => do
      let m := (← get).mem
      let table := listedTable m sdt revision i
      note [.table table]
      if isMadt m table then do
        parseMadt turns (table + sdtSize) (tableLen m table)
        parseSdtLoop turns sdt revision left (i + 1)
      else parseSdtLoop turns sdt revision left (i + 1)

def parseSdt (turns : Nat) (sdt : Addr) (revision : Byte) : Prog AcpiState Unit := do
  parseSdtLoop turns sdt revision (sdtEntries (tableLen (← get).mem sdt) revision).toNat 0

/-- The loop of `scan_rsdp`; 2^28 steps of 16 bytes go round the address space. -/
def scanRsdpLoop (m : Mem) (stop : Addr) : Nat → Addr → Prog AcpiState Addr
  | 0, _ => throw .spin
  | fuel + 1, p =>
      if p < stop then
        if memcmp (region m p) (literal RSDP_SIGNATURE) 8 = 0 then return p
        else scanRsdpLoop m stop fuel (p + 16#32)
      else return 0#32

def scanRsdp (start stop : Addr) : Prog AcpiState Addr := do
  scanRsdpLoop (← get).mem (P2V stop) (2 ^ 28 + 1) (P2V start)

/-- The segment of the Extended BIOS Data Area is in a word of the BIOS data. -/
def ebda (m : Mem) : Addr :=
  (BitVec.ofNat 32 ((m (P2V 0x40e#32)).toNat + 2 ^ 8 * (m (P2V 0x40f#32)).toNat)) <<< 4

def findRsdp : Prog AcpiState Addr := do
  let start := ebda (← get).mem
  let p ← scanRsdp start (start + 1024#32)
  if p ≠ 0#32 then return p
  else scanRsdp 0xE0000#32 0xFFFFF#32

def rsdpByte (a : Addr) : Prog AcpiState Byte := do
  note [.rsdp a]
  return (← get).mem a

def rsdpWord (a : Addr) : Prog AcpiState Word := do
  note ((addresses a 4).map .rsdp)
  return read32 (← get).mem a

/-- The loop of `compute_checksum`. -/
def computeChecksumLoop (stop : Addr) : Nat → Addr → Byte → Prog AcpiState Byte
  | 0, _, _ => throw .spin
  | fuel + 1, buffer, sum =>
      if buffer < stop then do
        let b ← rsdpByte buffer
        computeChecksumLoop stop fuel (buffer + 1#32) (sum + b)
      else return sum

def computeChecksum (buffer : Addr) (length : Word) : Prog AcpiState Byte :=
  computeChecksumLoop (buffer + length) (2 ^ 32) buffer 0#8

/-- A root pointer that was not found is 0, which is not checked. Of the 64-bit address only the low word counts. -/
def acpiInit (turns : Nat) : Prog AcpiState Unit := do
  let rsdp ← findRsdp
  let root ← if (← rsdpByte (rsdp + 15#32)) ≠ 0#8 then rsdpWord (rsdp + 24#32) else rsdpWord (rsdp + 16#32)
  if (← computeChecksum rsdp ACPI_RSDP_CHECKSUM_LENGTH) ≠ 0#8 then say "WARN: Invalid RSDP checksum\n" []
  else do
    let revision ← rsdpByte (rsdp + 15#32)
    parseSdt turns (P2V root) revision

def cpuInitLoop : Nat → Nat → Prog AcpiState Unit
  | 0, _ => pure ()
  | left + 1, i => do
      note [.storeApicid i]
      modify fun s => { s with apicid := Function.update s.apicid i (s.info.cpu i).apic }
      cpuInitLoop left (i + 1)

def cpuInit : Prog AcpiState Unit := do
  let s ← get
  say "CPUS: %d\n" [BitVec.ofNat 32 s.info.numCpus]
  cpuInitLoop s.info.numCpus 0

end OsDev.Kernel.Acpi
