import OsDev.Kernel.Isr

/-! The interrupt descriptor table (kernel/idt.c). -/

namespace OsDev.Kernel.Idt
open OsDev.Machine.Memory OsDev.Machine.X86 OsDev.Kernel.Isr

structure IdtEntry where
  baseLo : BitVec 16
  selector : BitVec 16
  zero : BitVec 8
  typeAttr : BitVec 8
  baseHi : BitVec 16
  deriving DecidableEq, Repr

def SEG_KCODE : Nat := 1

def IDT_IRQ_BASE : Nat := 32
def IDT_IRQ_SIZE_MAX : Nat := 48
def IDT_TRAP_SYSCALL : Nat := 64

def IDT_DESCRIPTOR_X32_INTERRUPT : BitVec 8 := 0x0e#8
def IDT_DESCRIPTOR_X32_TRAP : BitVec 8 := 0x0f#8
def IDT_DESCRIPTOR_RING3 : BitVec 8 := 0x60#8
def IDT_DESCRIPTOR_PRESENT : BitVec 8 := 0x80#8
def IDT_DESCRIPTOR_EXCEPTION : BitVec 8 := IDT_DESCRIPTOR_X32_INTERRUPT ||| IDT_DESCRIPTOR_PRESENT
def IDT_DESCRIPTOR_EXTERNAL : BitVec 8 := IDT_DESCRIPTOR_X32_INTERRUPT ||| IDT_DESCRIPTOR_PRESENT
def IDT_DESCRIPTOR_CALL : BitVec 8 := IDT_DESCRIPTOR_X32_TRAP ||| IDT_DESCRIPTOR_PRESENT ||| IDT_DESCRIPTOR_RING3

abbrev Table := Nat → IdtEntry

def idtSetDescriptor (idx : Nat) (base : Addr) (selector : BitVec 16) (flags : BitVec 8) (idt : Table) : Table :=
  Function.update idt idx
    { baseLo := base.setWidth 16
      selector := selector
      zero := 0#8
      typeAttr := flags
      baseHi := (base >>> 16).setWidth 16 }

/-- One gate per vector, all to the kernel's code segment. -/
def setGates (isrStubTable : Nat → Addr) (flags : BitVec 8) (vectors : List Nat) (idt : Table) : Table :=
  vectors.foldl (fun idt vector =>
    idtSetDescriptor vector (isrStubTable vector) (BitVec.ofNat 16 (SEG_KCODE <<< 3)) flags idt) idt

/-- The table once `idt_init` has run. Unused entries are zero. -/
def idtInit (isrStubTable : Nat → Addr) : Table :=
  let zeroed : Table := fun _ => ⟨0#16, 0#16, 0#8, 0#8, 0#16⟩
  let exceptions := setGates isrStubTable IDT_DESCRIPTOR_EXCEPTION (List.range IDT_IRQ_BASE) zeroed
  let interrupts := setGates isrStubTable IDT_DESCRIPTOR_EXTERNAL
    (List.range' IDT_IRQ_BASE (IDT_IRQ_SIZE_MAX - IDT_IRQ_BASE)) exceptions
  setGates isrStubTable IDT_DESCRIPTOR_CALL [IDT_TRAP_SYSCALL] interrupts

/-- How the processor reads an entry. Only present 32-bit interrupt and trap gates occur. -/
def gateOf (entry : IdtEntry) : Option Gate :=
  let kind := entry.typeAttr &&& 0x1f#8
  if entry.typeAttr.getLsbD 7 ∧ (kind = IDT_DESCRIPTOR_X32_INTERRUPT ∨ kind = IDT_DESCRIPTOR_X32_TRAP) then
    some ⟨entry.selector, entry.baseHi ++ entry.baseLo, kind = IDT_DESCRIPTOR_X32_INTERRUPT⟩
  else none

def entryFor (base : Addr) (flags : BitVec 8) : IdtEntry :=
  ⟨base.setWidth 16, 0x8#16, 0#8, flags, (base >>> 16).setWidth 16⟩

theorem setGates_apply (isrStubTable : Nat → Addr) (flags : BitVec 8) (vectors : List Nat) (idt : Table) (vector : Nat) :
    setGates isrStubTable flags vectors idt vector =
      if vector ∈ vectors then entryFor (isrStubTable vector) flags else idt vector := by
  induction vectors generalizing idt with
  | nil => simp [setGates]
  | cons first rest ih =>
    have step : setGates isrStubTable flags (first :: rest) idt =
        setGates isrStubTable flags rest (Function.update idt first (entryFor (isrStubTable first) flags)) := rfl
    rw [step, ih]
    by_cases later : vector ∈ rest
    · simp [later]
    · by_cases here : vector = first
      · simp [here]
      · simp [later, here]

theorem offset_recompose (base : Addr) : (base >>> 16).setWidth 16 ++ base.setWidth 16 = base := by
  apply BitVec.eq_of_getLsbD_eq
  intro i small
  rw [BitVec.getLsbD_append (x := (base >>> 16).setWidth 16) (y := base.setWidth 16) (i := i)]
  by_cases low : i < 16
  · simp [low]
  · have high : i - 16 < 16 := by omega
    have back : 16 + (i - 16) = i := by omega
    simp [low, high, back]

theorem gateOf_entryFor (base : Addr) :
    gateOf (entryFor base IDT_DESCRIPTOR_EXCEPTION) = some ⟨0x8#16, base, true⟩ ∧
      gateOf (entryFor base IDT_DESCRIPTOR_CALL) = some ⟨0x8#16, base, false⟩ := by
  simp [gateOf, entryFor, offset_recompose, IDT_DESCRIPTOR_EXCEPTION, IDT_DESCRIPTOR_CALL, IDT_DESCRIPTOR_X32_INTERRUPT,
    IDT_DESCRIPTOR_X32_TRAP, IDT_DESCRIPTOR_PRESENT, IDT_DESCRIPTOR_RING3]

/-- Every stub is behind a gate to level 0, and only the system call keeps interrupts enabled. -/
theorem gateOf_idtInit (isrStubTable : Nat → Addr) (vector : Nat) (known : vector ∈ stubVectors) :
    gateOf (idtInit isrStubTable vector) = some ⟨0x8#16, isrStubTable vector, decide (vector ≠ IDT_TRAP_SYSCALL)⟩ := by
  obtain ⟨masking, calling⟩ := gateOf_entryFor (isrStubTable vector)
  simp only [stubVectors, List.mem_append, List.mem_range, List.mem_singleton] at known
  by_cases call : vector = IDT_TRAP_SYSCALL
  · have entry : idtInit isrStubTable vector = entryFor (isrStubTable vector) IDT_DESCRIPTOR_CALL := by
      simp [idtInit, setGates_apply, call]
    rw [entry, calling]
    simp [call]
  · have entry : idtInit isrStubTable vector = entryFor (isrStubTable vector) IDT_DESCRIPTOR_EXCEPTION := by
      have below : vector < 48 := known.resolve_right call
      by_cases exception : vector < IDT_IRQ_BASE
      · have early : ¬ IDT_IRQ_BASE ≤ vector := by omega
        simp [idtInit, setGates_apply, call, exception, early]
      · have late : IDT_IRQ_BASE ≤ vector ∧ vector < IDT_IRQ_BASE + (IDT_IRQ_SIZE_MAX - IDT_IRQ_BASE) :=
          ⟨by omega, below⟩
        simp [idtInit, setGates_apply, call, late, IDT_DESCRIPTOR_EXTERNAL, IDT_DESCRIPTOR_EXCEPTION]
    rw [entry, masking]
    simp [call]

end OsDev.Kernel.Idt
