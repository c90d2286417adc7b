import OsDev.Kernel.Console

/-! The physical memory map of the firmware (kernel/pmem.c): which entry is taken for
the memory above 1 MiB, and which for the ACPI tables. -/

namespace OsDev.Kernel.Pmem
open OsDev.Machine.Memory OsDev.Machine.Program OsDev.Kernel.SpinLocks OsDev.Kernel.Mmu OsDev.Kernel.State
  OsDev.Kernel.Console

/-- `struct e820_entry`; the extended attributes are never read. -/
structure E820Entry where
  base : BitVec 64
  len : BitVec 64
  type : Word
  deriving DecidableEq, Repr

def E820_TYPE_RAM : Word := 1#32
def E820_TYPE_RESERVED : Word := 2#32
def E820_TYPE_ACPI : Word := 3#32

def PMEM_EXTENDED_ADDR : BitVec 64 := 0x100000#64

/-- Without the address line, bit 20 of every physical address is lost. -/
def masked (a20 : Bool) (pa : Addr) : Addr := if a20 then pa else pa &&& ~~~0x100000#32

def a20Enabled (a20 : Bool) : Prog KernelState Bool := do
  let r := P2V (masked a20 0x012345#32)
  let w := P2V (masked a20 0x112345#32)
  store32 r 0x87654321#32
  store32 w 0x12345678#32
  let low ← load32 r
  let high ← load32 w
  return low ≠ high

/-- The two words of a 64-bit argument, as they lie on the stack. -/
def words64 (x : BitVec 64) : List Word := [x.setWidth 32, (x >>> 32).setWidth 32]

/-- The pointers `extmem` and `acpi` are the entries they point to. The global `acpi` is
0 before the loop. -/
def scanEntries : List E820Entry → Option E820Entry → Option E820Entry →
    Prog KernelState (Option E820Entry × Option E820Entry)
  | [], extmem, acpi => return (extmem, acpi)
  | entry :: rest, extmem, acpi => do
      cprintf "BIOS-e820: [base=%l length=%l] type=%d\n" (words64 entry.base ++ words64 entry.len ++ [entry.type])
      let extmem := if extmem.isNone ∧ entry.type = E820_TYPE_RAM ∧ PMEM_EXTENDED_ADDR ≤ entry.base then some entry
        else extmem
      if acpi.isNone ∧ (entry.type = E820_TYPE_ACPI ∨ extmem.isSome ∧ entry.type = E820_TYPE_RESERVED) then do
        modify fun s => { s with acpiLen := entry.len.setWidth 32 }
        scanEntries rest extmem (some entry)
      else scanEntries rest extmem acpi

/-- What is left to do once both entries are known. -/
def setMemory : Option E820Entry × Option E820Entry → Prog KernelState Unit
  | (none, _) => kpanic "extended memory not found"
  | (some _, none) => kpanic "acpi memory not found"
  | (some extmem, some entry) => do
      modify fun s => { s with acpi := entry.base.setWidth 32 }
      let s ← get
      cprintf "ACPI Info: 0x%p, len=0x%x\n" [s.acpi, s.acpiLen]
      modify fun s => { s with physEnd := (extmem.base + extmem.len).setWidth 32 }

/-- A map with no entries counts as no map. -/
def pmemInit (a20 : Bool) (info : Option (List E820Entry)) : Prog KernelState Unit := do
  if !(← a20Enabled a20) then kpanic "A20 line not enabled" else
  match info with
  | none | some [] => kpanic "physical memory map not initialized"
  | some entries => do
    print "BIOS-provided physical RAM map:\n"
    let chosen ← scanEntries entries none none
    setMemory chosen

/-- An entry for the memory above 1 MiB. -/
def isExtended (entry : E820Entry) : Bool := entry.type = E820_TYPE_RAM ∧ PMEM_EXTENDED_ADDR ≤ entry.base

/-- The first entry above 1 MiB. -/
def extendedEntry (map : List E820Entry) : Option E820Entry := map.find? isExtended

/-- The first entry that is of the ACPI type, or reserved and behind an entry above 1 MiB. -/
def tablesEntry (behind : Bool) : List E820Entry → Option E820Entry
  | [] => none
  | entry :: rest =>
      if entry.type = E820_TYPE_ACPI ∨ behind ∧ entry.type = E820_TYPE_RESERVED then some entry
      else tablesEntry (behind || isExtended entry) rest

def acpiEntry (map : List E820Entry) : Option E820Entry := tablesEntry false map

/-- The length is noted as soon as the entry is found. -/
def withTables (s : KernelState) (found : Option E820Entry) : KernelState :=
  match found with
  | none => s
  | some entry => { s with acpiLen := entry.len.setWidth 32 }

theorem run_a20Enabled (a20 : Bool) (s : KernelState) : ∃ m, (a20Enabled a20).run s = .ok a20 (s.setMem m) := by
  refine ⟨write32 (write32 s.mem (P2V (masked a20 0x012345#32)) 0x87654321#32) (P2V (masked a20 0x112345#32)) 0x12345678#32, ?_⟩
  unfold a20Enabled
  rw [run_bind_ok (run_store32 _ _ s), run_bind_ok (run_store32 _ _ _), run_bind_ok (run_load32 _ _),
    run_bind_ok (run_load32 _ _), EStateM.run_pure]
  simp only [KernelState.put_mem, read32_write32_self]
  cases a20 with
  | false =>
    have same : masked false 0x112345#32 = masked false 0x012345#32 := by decide
    simp [same, read32_write32_self]
  | true =>
    have apart : Disjoint (span (P2V 0x112345#32) 4) (span (P2V 0x012345#32) 4) :=
      (span_disjoint _ _ _ _ (by decide) (by decide)).symm
    have low : read32 (write32 (write32 s.mem (P2V 0x012345#32) 0x87654321#32) (P2V 0x112345#32) 0x12345678#32)
        (P2V 0x012345#32) = 0x87654321#32 := by
      rw [read32_write32_disjoint _ _ _ _ apart, read32_write32_self]
    simp [masked, low]

section Scan
variable (entry : E820Entry) (extmem acpi : Option E820Entry) (rest : List E820Entry)

theorem isExtended_iff : isExtended entry = true ↔ entry.type = E820_TYPE_RAM ∧ PMEM_EXTENDED_ADDR ≤ entry.base := by
  simp [isExtended]

theorem extmem_or : (if extmem.isNone ∧ entry.type = E820_TYPE_RAM ∧ PMEM_EXTENDED_ADDR ≤ entry.base then some entry
    else extmem).or (extendedEntry rest) = extmem.or (extendedEntry (entry :: rest)) := by
  simp only [← isExtended_iff]
  cases extmem with
  | some old => simp
  | none => by_cases here : isExtended entry <;> simp [here, extendedEntry]

theorem extmem_isSome : (if extmem.isNone ∧ entry.type = E820_TYPE_RAM ∧ PMEM_EXTENDED_ADDR ≤ entry.base then some entry
    else extmem).isSome = (extmem.isSome || isExtended entry) := by
  simp only [← isExtended_iff]
  cases extmem with
  | some old => simp
  | none => by_cases here : isExtended entry <;> simp [here]

/-- An entry above 1 MiB is not a reserved one, so it makes no difference that it counts at once. -/
theorem tables_wanted (behind : Bool) :
    (entry.type = E820_TYPE_ACPI ∨ (behind || isExtended entry) ∧ entry.type = E820_TYPE_RESERVED) ↔
      (entry.type = E820_TYPE_ACPI ∨ behind ∧ entry.type = E820_TYPE_RESERVED) := by
  by_cases reserved : entry.type = E820_TYPE_RESERVED
  · have other : isExtended entry = false := by simp [isExtended, reserved, E820_TYPE_RESERVED, E820_TYPE_RAM]
    simp [other]
  · simp [reserved]

end Scan

theorem run_scanEntries (map : List E820Entry) (extmem acpi : Option E820Entry) (s : KernelState) (quiet : Quiet s.cpu) :
    ∃ chars cpu, Settled s.cpu cpu ∧ (scanEntries map extmem acpi).run s =
      .ok (extmem.or (extendedEntry map), acpi.or (tablesEntry extmem.isSome map))
        (((if acpi.isNone then withTables s (tablesEntry extmem.isSome map) else s).print chars).setCpu cpu) := by
  induction map generalizing extmem acpi s with
  | nil =>
    refine ⟨[], s.cpu, quiet.settled, ?_⟩
    simp [scanEntries, extendedEntry, tablesEntry, withTables, print_nil]
  | cons entry rest ih =>
    obtain ⟨first, cpu, settled, printed⟩ := run_cprintf_plain "BIOS-e820: [base=%l length=%l] type=%d\n"
      (words64 entry.base ++ words64 entry.len ++ [entry.type]) s quiet (by decide)
    rw [scanEntries, run_bind_ok printed]
    have above := extmem_or entry extmem rest
    have behind := extmem_isSome entry extmem
    simp only
    generalize (if extmem.isNone ∧ entry.type = E820_TYPE_RAM ∧ PMEM_EXTENDED_ADDR ≤ entry.base then some entry
      else extmem) = extmem' at above behind ⊢
    rw [run_ite, behind]
    simp only [tables_wanted, tablesEntry]
    rw [← above]
    by_cases wanted : entry.type = E820_TYPE_ACPI ∨ extmem.isSome ∧ entry.type = E820_TYPE_RESERVED
    · cases acpi with
      | none =>
        rw [if_pos ⟨rfl, wanted⟩, run_bind_ok (EStateM.run_modify _ _)]
        obtain ⟨second, cpu', settled', later⟩ := ih extmem' (some entry)
          { (s.print first).setCpu cpu with acpiLen := entry.len.setWidth 32 } settled.quiet
        refine ⟨first ++ second, cpu', settled.trans settled', ?_⟩
        rw [later]
        simp [wanted, withTables, KernelState.print, KernelState.put]
      | some old =>
        rw [if_neg (by simp)]
        obtain ⟨second, cpu', settled', later⟩ := ih extmem' (some old) ((s.print first).setCpu cpu) settled.quiet
        refine ⟨first ++ second, cpu', settled.trans settled', ?_⟩
        rw [later]
        simp [KernelState.print, KernelState.put]
    · rw [if_neg (fun both => wanted both.2), if_neg wanted]
      obtain ⟨second, cpu', settled', later⟩ := ih extmem' acpi ((s.print first).setCpu cpu) settled.quiet
      refine ⟨first ++ second, cpu', settled.trans settled', ?_⟩
      rw [later, behind]
      cases acpi with
      | none => cases tablesEntry (extmem.isSome || isExtended entry) rest <;> simp [withTables, KernelState.print, KernelState.put]
      | some old => simp [KernelState.print, KernelState.put]

/-- The two entries decide what `pmem_init` leaves behind. -/
def mapped (s : KernelState) (extmem entry : E820Entry) : KernelState :=
  { s with
    acpi := entry.base.setWidth 32
    acpiLen := entry.len.setWidth 32
    physEnd := (extmem.base + extmem.len).setWidth 32 }

theorem run_setMemory {extmem entry : E820Entry} {s : KernelState} (quiet : Quiet s.cpu)
    (length : s.acpiLen = entry.len.setWidth 32) :
    ∃ chars cpu, Settled s.cpu cpu ∧
      (setMemory (some extmem, some entry)).run s = .ok () (((mapped s extmem entry).print chars).setCpu cpu) := by
  obtain ⟨chars, cpu, settled, printed⟩ := run_cprintf_plain "ACPI Info: 0x%p, len=0x%x\n"
    [entry.base.setWidth 32, s.acpiLen] { s with acpi := entry.base.setWidth 32 } quiet (by decide)
  refine ⟨chars, cpu, settled, ?_⟩
  unfold setMemory
  rw [run_bind_ok (EStateM.run_modify _ _), run_bind_ok (EStateM.run_get _), run_bind_ok printed, EStateM.run_modify]
  simp [mapped, KernelState.print, KernelState.put, length]

/-- What runs once the line and the map have passed. -/
theorem run_pmemInit_chosen {map : List E820Entry} {s : KernelState} (quiet : Quiet s.cpu) (nonempty : map ≠ []) :
    ∃ m chars cpu, Settled s.cpu cpu ∧ (pmemInit true (some map)).run s =
      (setMemory (extendedEntry map, acpiEntry map)).run (((withTables s (acpiEntry map)).print chars).put m cpu s.freelist) := by
  obtain ⟨m, line⟩ := run_a20Enabled true s
  obtain ⟨first, cpu, settled, printed⟩ := run_print "BIOS-provided physical RAM map:\n" (s.setMem m) quiet (by decide)
  obtain ⟨second, cpu', settled', scanned⟩ := run_scanEntries map none none (((s.setMem m).print first).setCpu cpu)
    settled.quiet
  refine ⟨m, first ++ second, cpu', settled.trans settled', ?_⟩
  have code : (pmemInit true (some map)).run s = EStateM.run (do
      print "BIOS-provided physical RAM map:\n"
      let chosen ← scanEntries map none none
      setMemory chosen) (s.setMem m) := by
    unfold pmemInit
    rw [run_bind_ok line]
    cases map with
    | nil => exact absurd rfl nonempty
    | cons entry rest => rfl
  rw [code, run_bind_ok printed, run_bind_ok scanned]
  unfold acpiEntry
  simp only [Option.none_or, Option.isSome_none, Option.isNone_none, ↓reduceIte]
  cases tablesEntry false map <;> simp [withTables, KernelState.print, KernelState.put]

theorem run_pmemInit {map : List E820Entry} {extmem entry : E820Entry} {s : KernelState} (quiet : Quiet s.cpu)
    (above : extendedEntry map = some extmem) (tables : acpiEntry map = some entry) :
    ∃ m chars cpu, Settled s.cpu cpu ∧
      (pmemInit true (some map)).run s = .ok () (((mapped s extmem entry).print chars).put m cpu s.freelist) := by
  have nonempty : map ≠ [] := by
    rintro rfl
    cases above
  obtain ⟨m, first, cpu, settled, ran⟩ := run_pmemInit_chosen quiet nonempty
  rw [above, tables] at ran
  obtain ⟨second, cpu', settled', last⟩ := @run_setMemory extmem entry
    (((withTables s (some entry)).print first).put m cpu s.freelist) settled.quiet rfl
  refine ⟨m, first ++ second, cpu', settled.trans settled', ?_⟩
  rw [ran, last]
  simp [mapped, withTables, KernelState.print, KernelState.put]

/-- `pmem_init` comes back only if it has found both entries. -/
theorem pmemInit_eq_ok {a20 : Bool} {info : Option (List E820Entry)} {s t : KernelState} (quiet : Quiet s.cpu)
    (ran : (pmemInit a20 info).run s = .ok () t) :
    ∃ map extmem entry, a20 = true ∧ info = some map ∧ extendedEntry map = some extmem ∧ acpiEntry map = some entry := by
  cases a20 with
  | false =>
    obtain ⟨m, line⟩ := run_a20Enabled false s
    unfold pmemInit at ran
    rw [run_bind_ok line] at ran
    cases ran
  | true =>
    obtain ⟨m, line⟩ := run_a20Enabled true s
    rcases info with _ | map
    · unfold pmemInit at ran
      rw [run_bind_ok line] at ran
      cases ran
    by_cases empty : map = []
    · subst empty
      unfold pmemInit at ran
      rw [run_bind_ok line] at ran
      cases ran
    obtain ⟨m, chars, cpu, settled, same⟩ := run_pmemInit_chosen quiet empty
    rw [same] at ran
    cases above : extendedEntry map with
    | none =>
      rw [above] at ran
      cases ran
    | some extmem =>
      cases tables : acpiEntry map with
      | none =>
        rw [above, tables] at ran
        cases ran
      | some entry => exact ⟨map, extmem, entry, rfl, rfl, above, tables⟩

end OsDev.Kernel.Pmem
