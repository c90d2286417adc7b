import OsDev.Machine.Memory
import OsDev.Machine.Pic8259
import OsDev.Machine.Program

/-! The interrupt controllers' driver (kernel/pic.c). -/

namespace OsDev.Kernel.Pic
open OsDev.Machine.Memory OsDev.Machine.Program OsDev.Machine.Pic8259

abbrev Port := BitVec 16

def IO_PORT_PIC1_COMMAND : Port := 0x20#16
def IO_PORT_PIC1_DATA : Port := 0x21#16
def IO_PORT_PIC2_COMMAND : Port := 0xa0#16
def IO_PORT_PIC2_DATA : Port := 0xa1#16

def PIC_EOI : Byte := 0x20#8
def ICW1_ICW4 : Byte := 0x01#8
def ICW1_INIT : Byte := 0x10#8
def ICW4_8086 : Byte := 0x01#8
def PIC1_INTERRUPT_START : Byte := 0x20#8
def PIC2_INTERRUPT_START : Byte := 0x28#8
def PIC_INT_TIMER : Nat := 0

def outb (port : Port) (v : Byte) : Prog Pair Unit := modify (·.outb port v)

def inb (port : Port) : Prog Pair Byte := do return (← get).inb port

def picSendEoi (irq : Byte) : Prog Pair Unit := do
  if 8#8 ≤ irq then outb IO_PORT_PIC2_COMMAND PIC_EOI else pure ()
  outb IO_PORT_PIC1_COMMAND PIC_EOI

/-- The controller of a line, and the line's number there. -/
def portOf (numirq : Nat) : Port × Nat :=
  if numirq < 8 then (IO_PORT_PIC1_DATA, numirq) else (IO_PORT_PIC2_DATA, numirq - 8)

def picEnableIrqLine (numirq : Nat) : Prog Pair Unit := do
  let (port, numirq) := portOf numirq
  let mask ← inb port
  outb port (mask &&& ~~~(BitVec.ofNat 8 (1 <<< numirq)))

def picDisableIrqLine (numirq : Nat) : Prog Pair Unit := do
  let (port, numirq) := portOf numirq
  let mask ← inb port
  outb port (mask ||| BitVec.ofNat 8 (1 <<< numirq))

def picInit : Prog Pair Unit := do
  let mask1 ← inb IO_PORT_PIC1_DATA
  let mask2 ← inb IO_PORT_PIC2_DATA
  outb IO_PORT_PIC1_COMMAND (ICW1_INIT ||| ICW1_ICW4)
  outb IO_PORT_PIC2_COMMAND (ICW1_INIT ||| ICW1_ICW4)
  outb IO_PORT_PIC1_DATA PIC1_INTERRUPT_START
  outb IO_PORT_PIC2_DATA PIC2_INTERRUPT_START
  outb IO_PORT_PIC1_DATA 4#8
  outb IO_PORT_PIC2_DATA 2#8
  outb IO_PORT_PIC1_DATA ICW4_8086
  outb IO_PORT_PIC2_DATA ICW4_8086
  outb IO_PORT_PIC1_DATA mask1
  outb IO_PORT_PIC2_DATA mask2
  picDisableIrqLine PIC_INT_TIMER

theorem run_outb (port : Port) (v : Byte) (p : Pair) : (outb port v).run p = .ok () (p.outb port v) := rfl

theorem run_inb (port : Port) (p : Pair) : (inb port).run p = .ok (p.inb port) p := rfl

theorem run_picSendEoi (irq : Byte) (p : Pair) : (picSendEoi irq).run p =
    .ok () ((if 8#8 ≤ irq then p.outb IO_PORT_PIC2_COMMAND PIC_EOI else p).outb IO_PORT_PIC1_COMMAND PIC_EOI) := by
  by_cases second : 8#8 ≤ irq
  · simp only [picSendEoi, if_pos second]
    rfl
  · simp only [picSendEoi, if_neg second]
    rfl

section Ports
variable (p : Pair) (v : Byte)

@[simp] theorem outb_master_command : p.outb IO_PORT_PIC1_COMMAND v = { p with master := p.master.command v } := rfl

@[simp] theorem outb_master_data : p.outb IO_PORT_PIC1_DATA v = { p with master := p.master.data v } := rfl

@[simp] theorem outb_slave_command : p.outb IO_PORT_PIC2_COMMAND v = p.setSlave (p.slave.command v) := rfl

@[simp] theorem outb_slave_data : p.outb IO_PORT_PIC2_DATA v = p.setSlave (p.slave.data v) := rfl

end Ports

/-- A chip that is being initialised, or has no request, does not signal. -/
theorem next_of_no_request {c : Chip} (quiet : c.irr = noLine) : c.next = none := by
  apply Chip.next_eq_none.mpr
  intro i
  simp [Chip.eligible, quiet, noLine]

theorem setSlave_quiet {p : Pair} {c : Chip} (quiet : c.irr = noLine) : p.setSlave c = { p with slave := c } := by
  have silent := next_of_no_request quiet
  simp only [Pair.setSlave, silent, ne_eq, not_true_eq_false, and_false, if_false]

/-- A chip after the four initialisation words and a mask. -/
def initialised (base wiring mask : Byte) : Chip :=
  { irr := noLine
    isr := noLine
    imr := mask
    base := base
    wiring := wiring
    stage := .ready
    needsIcw4 := true
    single := false
    autoEoi := false }

theorem data_initialised (base wiring mask : Byte) (aligned : base &&& 0xf8#8 = base) (c : Chip) :
    ((((c.command (ICW1_INIT ||| ICW1_ICW4)).data base).data wiring).data ICW4_8086).data mask =
      initialised base wiring mask := by
  simp [Chip.command, Chip.data, Chip.last, initialised, ICW1_INIT, ICW1_ICW4, ICW4_8086, aligned]

theorem command_irr (c : Chip) : (c.command (ICW1_INIT ||| ICW1_ICW4)).irr = noLine := by
  simp [Chip.command, ICW1_INIT, ICW1_ICW4]

theorem initialised_irr (base wiring mask : Byte) : (initialised base wiring mask).irr = noLine := by
  simp [initialised]

theorem data_irr (c : Chip) (v : Byte) : (c.data v).irr = c.irr := by
  unfold Chip.data
  split <;> rfl

theorem run_picInit (p : Pair) : picInit.run p = .ok ()
    ⟨initialised PIC1_INTERRUPT_START 4#8 (p.master.imr ||| 1#8),
      initialised PIC2_INTERRUPT_START 2#8 p.slave.imr⟩ := by
  have masters := data_initialised PIC1_INTERRUPT_START 4#8 (p.inb IO_PORT_PIC1_DATA) (by decide) p.master
  have slaves := data_initialised PIC2_INTERRUPT_START 2#8 (p.inb IO_PORT_PIC2_DATA) (by decide) p.slave
  simp only [picInit, EStateM.run_bind, run_outb, run_inb, outb_master_command, outb_master_data, outb_slave_command,
    outb_slave_data, setSlave_quiet, data_irr, command_irr, masters, slaves, initialised_irr]
  rfl

/-- The call that opens or closes a line. -/
def setLine (l : Line) (opens : Bool) : Prog Pair Unit :=
  if opens then picEnableIrqLine l.number else picDisableIrqLine l.number

def setLines : List (Line × Bool) → Prog Pair Unit
  | [] => pure ()
  | (l, opens) :: calls => do
    setLine l opens
    setLines calls

/-- The controllers as the kernel wants them before it enables interrupts. -/
structure Prepared (p : Pair) : Prop where
  settled : p.Settled PIC1_INTERRUPT_START PIC2_INTERRUPT_START
  serving : p.Serving none
  pending : p.master.irr = noLine ∧ p.slave.irr = noLine

theorem Prepared.cascaded {p : Pair} (prepared : Prepared p) : p.Cascaded :=
  fun signals => absurd (next_of_no_request prepared.pending.2) signals

theorem prepared_picInit (p : Pair) : Prepared
    ⟨initialised PIC1_INTERRUPT_START 4#8 (p.master.imr ||| 1#8),
      initialised PIC2_INTERRUPT_START 2#8 p.slave.imr⟩ :=
  ⟨⟨rfl, rfl, rfl, rfl, rfl, rfl, (by decide : ∀ i : Fin 8, (4#8).getLsbD i = decide (i = cascade)), rfl⟩,
    ⟨rfl, rfl⟩, ⟨rfl, rfl⟩⟩

theorem bit_getLsbD : ∀ i j : Fin 8, (BitVec.ofNat 8 (1 <<< i.val)).getLsbD j.val = decide (i = j) := by decide

/-- The mask a call writes for the mask it reads. -/
def newMask (opens : Bool) (mask : Byte) (i : Nat) : Byte :=
  if opens then mask &&& ~~~(BitVec.ofNat 8 (1 <<< i)) else mask ||| BitVec.ofNat 8 (1 <<< i)

theorem newMask_getLsbD (opens : Bool) (mask : Byte) (i j : Fin 8) :
    (newMask opens mask i).getLsbD j = if i = j then !opens else mask.getLsbD j := by
  cases opens with
  | false =>
    change (mask ||| BitVec.ofNat 8 (1 <<< i.val)).getLsbD j = _
    rw [BitVec.getLsbD_or, bit_getLsbD]
    by_cases same : i = j <;> simp [same]
  | true =>
    change (mask &&& ~~~(BitVec.ofNat 8 (1 <<< i.val))).getLsbD j = _
    rw [BitVec.getLsbD_and, BitVec.getLsbD_not, bit_getLsbD]
    by_cases same : i = j <;> simp [same]

theorem run_setLine (l : Line) (opens : Bool) (p : Pair) : (setLine l opens).run p =
    .ok () (p.outb (portOf l.number).1 (newMask opens (p.inb (portOf l.number).1) (portOf l.number).2)) := by
  cases opens <;> rfl

theorem portOf_slave (i : Fin 8) : portOf (8 + i.val) = (IO_PORT_PIC2_DATA, i.val) := by
  simp [portOf]

theorem portOf_master (i : Fin 8) : portOf i.val = (IO_PORT_PIC1_DATA, i.val) := by
  simp [portOf]

/-- A new mask for the chip of a line. -/
def setMask (p : Pair) (mask : Byte) : Line → Pair
  | .master _ => { p with master := { p.master with imr := mask } }
  | .slave _ => { p with slave := { p.slave with imr := mask } }

theorem Prepared.outb_mask {p : Pair} (prepared : Prepared p) (mask : Byte) (l : Line) :
    p.outb (portOf l.number).1 mask = setMask p mask l ∧ Prepared (setMask p mask l) := by
  obtain ⟨settled, serving, pending⟩ := prepared
  cases l with
  | master i =>
    refine ⟨?_, ⟨⟨settled.1, settled.2, settled.3, settled.4, settled.5, settled.6, settled.7, settled.8⟩, serving, pending⟩⟩
    rw [Line.number, portOf_master, outb_master_data, Chip.data_ready settled.masterReady]
    rfl
  | slave i =>
    refine ⟨?_, ⟨⟨settled.1, settled.2, settled.3, settled.4, settled.5, settled.6, settled.7, settled.8⟩, serving, pending⟩⟩
    rw [Line.number, portOf_slave, outb_slave_data, setSlave_quiet ((data_irr _ _).trans pending.2),
      Chip.data_ready settled.slaveReady]
    rfl

/-- One call opens or closes its own line and no other. -/
theorem Prepared.setLine {p : Pair} (prepared : Prepared p) (l : Line) (opens : Bool) :
    ∃ q, (Pic.setLine l opens).run p = .ok () q ∧ Prepared q ∧
      ∀ k, q.masked k = if l = k then !opens else p.masked k := by
  obtain ⟨wrote, kept⟩ := prepared.outb_mask (newMask opens (p.inb (portOf l.number).1) (portOf l.number).2) l
  refine ⟨_, (run_setLine l opens p).trans (by rw [wrote]), kept, fun k => ?_⟩
  cases l with
  | master i =>
    rw [Line.number, portOf_master]
    cases k with
    | master j =>
      simp only [Line.master.injEq]
      exact newMask_getLsbD opens _ i j
    | slave j => simp [Pair.masked, setMask]
  | slave i =>
    rw [Line.number, portOf_slave]
    cases k with
    | master j => simp [Pair.masked, setMask]
    | slave j =>
      simp only [Line.slave.injEq]
      exact newMask_getLsbD opens _ i j

/-- Whether a line is masked after some calls, the last one on the line deciding. -/
def maskedAfter (calls : List (Line × Bool)) (before : Bool) (l : Line) : Bool :=
  calls.foldl (fun closed call => if call.1 = l then !call.2 else closed) before

theorem Prepared.setLines {p : Pair} (prepared : Prepared p) (calls : List (Line × Bool)) :
    ∃ q, (setLines calls).run p = .ok () q ∧ Prepared q ∧ ∀ l, q.masked l = maskedAfter calls (p.masked l) l := by
  induction calls generalizing p with
  | nil => exact ⟨p, rfl, prepared, fun _ => rfl⟩
  | cons call calls ih =>
    obtain ⟨l, opens⟩ := call
    obtain ⟨q, first, kept, one⟩ := prepared.setLine l opens
    obtain ⟨r, rest, last, all⟩ := ih kept
    refine ⟨r, by rw [Pic.setLines, run_bind_ok first]; exact rest, last, fun k => ?_⟩
    rw [all, one]
    rfl

/-- Whatever state the firmware left the controllers in, even half-way through an
initialisation or with interrupts in service. -/
theorem pic_init_lines (p : Pair) (calls : List (Line × Bool)) :
    ∃ q, (do picInit; setLines calls : Prog Pair Unit).run p = .ok () q ∧ Prepared q ∧
      ∀ l, q.masked l = maskedAfter calls (decide (l = .master 0) || p.masked l) l := by
  obtain ⟨q, ran, prepared, all⟩ := (prepared_picInit p).setLines calls
  refine ⟨q, (run_bind_ok (run_picInit p)).trans ran, prepared, fun l => ?_⟩
  have start : Pair.masked ⟨initialised PIC1_INTERRUPT_START 4#8 (p.master.imr ||| 1#8),
      initialised PIC2_INTERRUPT_START 2#8 p.slave.imr⟩ l = (decide (l = .master 0) || p.masked l) := by
    cases l with
    | master i =>
      have first : (1#8).getLsbD i.val = decide (0 = i) := bit_getLsbD 0 i
      simp only [Pair.masked, initialised, BitVec.getLsbD_or, first, Line.master.injEq, eq_comm, Bool.or_comm]
    | slave i => simp [Pair.masked, initialised]
  rw [all, start]

end OsDev.Kernel.Pic
