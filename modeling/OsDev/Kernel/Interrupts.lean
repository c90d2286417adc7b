import OsDev.Kernel.Idt
import OsDev.Kernel.Pic
import OsDev.Kernel.Syscall

/-! Interrupts from their arrival to their end (kernel/idt.c and the handlers that
are registered there). Devices may raise and drop their lines between any two
accesses to the controllers. -/

namespace OsDev.Kernel.Interrupts
open OsDev.Machine.Memory OsDev.Machine.Program OsDev.Machine.Pic8259
open OsDev.Kernel.State OsDev.Kernel.Console OsDev.Kernel.Frames OsDev.Kernel.Proc OsDev.Kernel.Idt OsDev.Kernel.Pic
  OsDev.Kernel.Syscall

def IDT_INT_GPFLT : Byte := 13#8
def IDT_INT_PGFLT : Byte := 14#8
def IDT_IRQ_TIMER : Nat := 0
def IDT_IRQ_KEYBOARD : Nat := 1
def IDT_IRQ_COM1 : Nat := 4
def IDT_IRQ_IDE1 : Nat := 14

/-- Drivers whose handlers neither touch the controllers nor the kernel's state. -/
inductive Driver where
  | kbd
  | com1
  | ide
  deriving DecidableEq, Repr

/-- The functions that are ever registered. -/
inductive Isr where
  | protectionFault
  | pageFault
  | timer
  | driver (which : Driver)
  | syscall
  deriving DecidableEq, Repr

structure Board (δ : Type) where
  kernel : KernelState
  pics : Pair
  isrTable : Byte → Option Isr
  ticks : BitVec 64
  cr2 : Addr
  /-- What the drivers keep. -/
  devices : δ

variable {δ : Type}

def onKernel {α : Type} (part : Prog KernelState α) : Prog (Board δ) α :=
  zoom Board.kernel (fun kernel b => { b with kernel := kernel }) part

def onPics {α : Type} (part : Prog Pair α) : Prog (Board δ) α :=
  zoom Board.pics (fun pics b => { b with pics := pics }) part

def onDevices {α : Type} (part : Prog δ α) : Prog (Board δ) α :=
  zoom Board.devices (fun devices b => { b with devices := devices }) part

theorem run_onKernel_ok {α : Type} {part : Prog KernelState α} {b : Board δ} {kernel : KernelState} {a : α}
    (ran : part.run b.kernel = .ok a kernel) : (onKernel part).run b = .ok a { b with kernel := kernel } := run_zoom_ok ran

theorem run_onPics_ok {α : Type} {part : Prog Pair α} {b : Board δ} {pics : Pair} {a : α}
    (ran : part.run b.pics = .ok a pics) : (onPics part).run b = .ok a { b with pics := pics } := run_zoom_ok ran

def isrRegister (intNo : Byte) (handler : Isr) : Prog (Board δ) Unit := do
  if (← get).isrTable intNo ≠ none then
    onKernel (cprintf "isr: handler already registered for interrupt # %d" [intNo.setWidth 32])
  else modify fun b => { b with isrTable := Function.update b.isrTable intNo (some handler) }

def protectionFaultHandler (state : Addr) : Prog KernelState Unit := do
  let selector ← load32 (state + TrapField.errCode.offset)
  let eip ← load32 (state + TrapField.eip.offset)
  warn ("Caught protection fault \x7b\n" ++ "  eip = 0x%x\n" ++ "  external: %d\n" ++ "  table:    %d\n" ++
      "  index:    %d\n" ++ "\x7d")
    [eip, selector &&& 1#32, (selector >>> 1) &&& 3#32, (selector >>> 3) &&& 0x1fff#32]
  kpanic "protection fault not handled!"

def pageFaultHandler (faultyAddr state : Addr) : Prog KernelState Unit := do
  let errCode ← load32 (state + TrapField.errCode.offset)
  let flag (i : Nat) : Word := if errCode.getLsbD i then 1#32 else 0#32
  warn ("Caught page fault \x7b\n" ++ "  faulty addr = 0x%p\n" ++ "  present: %d\n" ++ "  write:   %d\n" ++
      "  user:    %d\n" ++ "\x7d")
    [faultyAddr, flag 0, flag 1, flag 2]
  kpanic "page fault not handled!"

def timerInterruptHandler : Prog (Board δ) Unit := modify fun b => { b with ticks := b.ticks + 1#64 }

section Handler
variable (drivers : Driver → Prog δ Unit)

def callIsr (state : Addr) : Isr → Prog (Board δ) Unit
  | .protectionFault => onKernel (protectionFaultHandler state)
  | .pageFault => do
    let faultyAddr := (← get).cr2
    onKernel (pageFaultHandler faultyAddr state)
  | .timer => timerInterruptHandler
  | .driver which => onDevices (drivers which)
  | .syscall => onKernel (syscallHandler state)

def intNoAt (state : Addr) : Prog (Board δ) Word := onKernel (load32 (state + TrapField.intNo.offset))

/-- `isr_handler` up to and including the call of the registered handler. What it
prints before a panic ends with the name of the current process. -/
def isrDispatch (state : Addr) (intNo : Byte) : Prog (Board δ) Unit := do
  match (← get).isrTable intNo with
  | none => do
    let _ ← onKernel (do deref (← myproc))
    kpanic "isr_handler"
  | some isr => callIsr drivers state isr

def isrHandler (state : Addr) : Prog (Board δ) Unit := do
  let intNo := (← intNoAt state).setWidth 8
  isrDispatch drivers state intNo
  if intNo.toNat < IDT_IRQ_SIZE_MAX then do
    let irqNo := (← intNoAt state) - BitVec.ofNat 32 IDT_IRQ_BASE
    onPics (picSendEoi (irqNo.setWidth 8))
  else pure ()

/-- Where `isr_handler` stands between two accesses to the controllers. -/
inductive IsrPoint where
  | start
  | handled (intNo : Byte)
  | slaveEnded
  deriving DecidableEq, Repr

/-- The code from one point to the next; `none` is the return. -/
def isrCode (state : Addr) : IsrPoint → Prog (Board δ) (Option IsrPoint)
  | .start => do
    let intNo := (← intNoAt state).setWidth 8
    isrDispatch drivers state intNo
    return some (.handled intNo)
  | .handled intNo =>
    if intNo.toNat < IDT_IRQ_SIZE_MAX then do
      let irqNo := ((← intNoAt state) - BitVec.ofNat 32 IDT_IRQ_BASE).setWidth 8
      if 8#8 ≤ irqNo then do
        onPics (outb IO_PORT_PIC2_COMMAND PIC_EOI)
        return some .slaveEnded
      else do
        onPics (outb IO_PORT_PIC1_COMMAND PIC_EOI)
        return none
    else return none
  | .slaveEnded => do
    onPics (outb IO_PORT_PIC1_COMMAND PIC_EOI)
    return none

/-- The pieces in a row, without interruption. -/
def isrPieces (state : Addr) : Nat → IsrPoint → Prog (Board δ) Unit
  | 0, _ => throw .spin
  | fuel + 1, point => do
    match ← isrCode drivers state point with
    | some next => isrPieces state fuel next
    | none => pure ()

theorem run_isrCode_start (state : Addr) (b : Board δ) :
    (isrCode drivers state .start).run b =
      match (isrDispatch drivers state ((TrapField.intNo.read b.kernel.mem state).setWidth 8)).run b with
      | .ok _ t => .ok (some (.handled ((TrapField.intNo.read b.kernel.mem state).setWidth 8))) t
      | .error e t => .error e t := by
  rw [isrCode, run_bind_ok (show (intNoAt state).run b = .ok (TrapField.intNo.read b.kernel.mem state) b from rfl)]
  cases outcome : (isrDispatch drivers state ((TrapField.intNo.read b.kernel.mem state).setWidth 8)).run b with
  | ok a t => rw [run_bind_ok outcome]; rfl
  | error e t => rw [run_bind_error outcome]

theorem isrHandler_pieces (state : Addr) (b : Board δ) :
    (isrHandler drivers state).run b = (isrPieces drivers state 3 .start).run b := by
  have start := run_isrCode_start drivers state b
  rw [isrHandler, isrPieces,
    run_bind_ok (show (intNoAt state).run b = .ok (TrapField.intNo.read b.kernel.mem state) b from rfl)]
  generalize (TrapField.intNo.read b.kernel.mem state).setWidth 8 = intNo at start
  cases outcome : (isrDispatch drivers state intNo).run b with
  | error e t =>
    rw [outcome] at start
    rw [run_bind_error outcome, run_bind_error start]
  | ok a t =>
    rw [outcome] at start
    rw [run_bind_ok outcome, run_bind_ok start]
    by_cases device : intNo.toNat < IDT_IRQ_SIZE_MAX
    · have irq : (intNoAt state).run t = .ok (TrapField.intNo.read t.kernel.mem state) t := rfl
      have eoi := run_onPics_ok (b := t)
        (run_picSendEoi ((TrapField.intNo.read t.kernel.mem state - BitVec.ofNat 32 IDT_IRQ_BASE).setWidth 8) t.pics)
      simp only [isrPieces, isrCode, if_pos device, EStateM.run_bind, irq, run_ite]
      rw [eoi]
      split
      next second => rfl
      next first => rfl
    · simp only [isrPieces, isrCode, device]
      rfl

end Handler

/-- Every call of `isr_register`, in the order in which `main` reaches them. -/
def registrations : List (Byte × Isr) :=
  [(IDT_INT_GPFLT, .protectionFault),
    (BitVec.ofNat 8 (IDT_IRQ_BASE + IDT_IRQ_TIMER), .timer),
    (BitVec.ofNat 8 (IDT_IRQ_BASE + IDT_IRQ_KEYBOARD), .driver .kbd),
    (IDT_INT_PGFLT, .pageFault),
    (BitVec.ofNat 8 (IDT_IRQ_BASE + IDT_IRQ_COM1), .driver .com1),
    (BitVec.ofNat 8 IDT_TRAP_SYSCALL, .syscall),
    (BitVec.ofNat 8 (IDT_IRQ_BASE + IDT_IRQ_IDE1), .driver .ide)]

def registerAll : List (Byte × Isr) → Prog (Board δ) Unit
  | [] => pure ()
  | (intNo, handler) :: rest => do
    isrRegister intNo handler
    registerAll rest

/-- The table once all of them are registered. -/
def bootTable (intNo : Byte) : Option Isr := registrations.lookup intNo

theorem run_isrRegister {intNo : Byte} {b : Board δ} (free : b.isrTable intNo = none) (handler : Isr) :
    (isrRegister intNo handler).run b =
      .ok () { b with isrTable := Function.update b.isrTable intNo (some handler) } := by
  simp only [isrRegister, run_bind_ok (EStateM.run_get b), free, ne_eq, not_true_eq_false, if_false]
  rfl

theorem run_registerAll (list : List (Byte × Isr)) (b : Board δ) (distinct : (list.map Prod.fst).Nodup)
    (free : ∀ intNo ∈ list.map Prod.fst, b.isrTable intNo = none) :
    (registerAll list).run b = .ok () { b with isrTable := fun intNo => (list.lookup intNo).or (b.isrTable intNo) } := by
  induction list generalizing b with
  | nil => rfl
  | cons entry rest ih =>
    obtain ⟨intNo, handler⟩ := entry
    simp only [List.map_cons, List.nodup_cons] at distinct
    rw [registerAll, run_bind_ok (run_isrRegister (free intNo (by simp)) handler), ih _ distinct.2]
    · congr 2
      funext v
      by_cases here : v = intNo
      · subst here
        have absent : rest.lookup v = none := by
          rw [List.lookup_eq_none_iff]
          intro pair member
          rw [bne_iff_ne]
          exact fun same => distinct.1 (List.mem_map.mpr ⟨pair, member, same.symm⟩)
        simp [absent]
      · have differs : (v == intNo) = false := beq_eq_false_iff_ne.mpr here
        simp only [List.lookup_cons, differs, Function.update_of_ne here]
    · intro v member
      have other : v ≠ intNo := fun same => distinct.1 (same ▸ member)
      exact (Function.update_of_ne other ..).trans (free v (by simp [member]))

/-- What `main` registers from the zeroed table. -/
theorem boot_registers (b : Board δ) (zeroed : b.isrTable = fun _ => none) :
    (registerAll registrations).run b = .ok () { b with isrTable := bootTable } := by
  rw [run_registerAll _ _ (by decide) fun _ _ => by rw [zeroed], zeroed]
  congr 2
  funext v
  exact Option.or_none

/-- Where the processor is: in code outside `isr_handler`, inside it for an interrupt
that a controller's line or, without one, the IOAPIC sent, or stopped. -/
inductive Point where
  | running
  | inside (state : Addr) (point : IsrPoint) (source : Option Line)
  | stopped
  deriving DecidableEq

/-- The board, and how often each line's request was latched, handled, and dropped
again by its device. -/
structure System (δ : Type) where
  board : Board δ
  point : Point
  latched : Line → Nat
  served : Line → Nat
  withdrawn : Line → Nat

/-- One more on a line. -/
def bump (counts : Line → Nat) (l : Line) : Line → Nat := Function.update counts l (counts l + 1)

/-- The processor masks interrupts and pushes a frame. -/
def arrived (b : Board δ) (mem : Mem) : Board δ :=
  { b with kernel := (b.kernel.setMem mem).setCpu { b.kernel.cpu with flIf := false } }

/-- `iret` to code that was interruptible. -/
def resumed (b : Board δ) : Board δ := { b with kernel := b.kernel.setCpu { b.kernel.cpu with flIf := true } }

def COM1_VECTOR : Byte := BitVec.ofNat 8 (IDT_IRQ_BASE + IDT_IRQ_COM1)

inductive Step (drivers : Driver → Prog δ Unit) : System δ → System δ → Prop where
  | raise (σ : System δ) (l : Line) (wired : l.Wired) :
      Step drivers σ { σ with
        board := { σ.board with pics := σ.board.pics.raise l }
        latched := if σ.board.pics.pending l then σ.latched else bump σ.latched l }
  | withdraw (σ : System δ) (l : Line) (wired : l.Wired) :
      Step drivers σ { σ with
        board := { σ.board with pics := σ.board.pics.withdraw l }
        withdrawn := if σ.board.pics.pending l then bump σ.withdrawn l else σ.withdrawn }
  | work (σ : System δ) (kernel : KernelState) (cr2 : Addr) (devices : δ) (outside : σ.point = .running) :
      Step drivers σ { σ with board := { σ.board with kernel := kernel, cr2 := cr2, devices := devices } }
  | interrupt (σ : System δ) (mem : Mem) (state : Addr) (outside : σ.point = .running)
      (enabled : σ.board.kernel.cpu.flIf = true)
      (frame : TrapField.intNo.read mem state = σ.board.pics.acknowledge.1.setWidth 32) :
      Step drivers σ { σ with
        board := arrived { σ.board with pics := σ.board.pics.acknowledge.2 } mem
        point := .inside state .start σ.board.pics.chosen }
  | message (σ : System δ) (mem : Mem) (state : Addr) (outside : σ.point = .running)
      (enabled : σ.board.kernel.cpu.flIf = true) (frame : TrapField.intNo.read mem state = COM1_VECTOR.setWidth 32) :
      Step drivers σ { σ with board := arrived σ.board mem, point := .inside state .start none }
  | call (σ : System δ) (state : Addr) (next : IsrPoint) (source : Option Line) (board : Board δ)
      (here : σ.point = .inside state .start source)
      (ran : (isrCode drivers state .start).run σ.board = .ok (some next) board) :
      Step drivers σ { σ with
        board := board
        point := .inside state next source
        served := source.elim σ.served (bump σ.served) }
  | proceed (σ : System δ) (state : Addr) (point next : IsrPoint) (source : Option Line) (board : Board δ)
      (here : σ.point = .inside state point source) (later : point ≠ .start)
      (ran : (isrCode drivers state point).run σ.board = .ok (some next) board) :
      Step drivers σ { σ with board := board, point := .inside state next source }
  | leave (σ : System δ) (state : Addr) (point : IsrPoint) (source : Option Line) (board : Board δ)
      (here : σ.point = .inside state point source)
      (ran : (isrCode drivers state point).run σ.board = .ok none board) :
      Step drivers σ { σ with board := resumed board, point := .running }
  | stop (σ : System δ) (state : Addr) (point : IsrPoint) (source : Option Line) (board : Board δ) (e : Stop)
      (here : σ.point = .inside state point source)
      (ran : (isrCode drivers state point).run σ.board = .error e board) :
      Step drivers σ { σ with board := board, point := .stopped }

/-- Before the scheduler enables interrupts for the first time. -/
structure Initial (σ : System δ) : Prop where
  settled : σ.board.pics.Settled PIC1_INTERRUPT_START PIC2_INTERRUPT_START
  cascaded : σ.board.pics.Cascaded
  serving : σ.board.pics.Serving none
  table : σ.board.isrTable = bootTable
  ticks : σ.board.ticks = 0#64
  point : σ.point = .running
  latched : ∀ l, σ.latched l = (σ.board.pics.pending l).toNat
  served : ∀ l, σ.served l = 0
  withdrawn : ∀ l, σ.withdrawn l = 0

/-- The vector with which an interrupt of this source arrives: 47 and 39 are those of
the requests that had gone when they were accepted. -/
def Arrives (source : Option Line) (v : Byte) : Prop :=
  match source with
  | some l => if l.Wired then v = l.vector PIC1_INTERRUPT_START PIC2_INTERRUPT_START else v = 0x2f#8
  | none => v = 0x27#8 ∨ v = COM1_VECTOR

/-- Requests are neither lost nor served twice; `hand` has been accepted and not handled yet. -/
def Balanced (σ : System δ) (hand : Option Line) : Prop :=
  ∀ l : Line, l.Wired → σ.latched l =
    σ.served l + σ.withdrawn l + (σ.board.pics.pending l).toNat + if hand = some l then 1 else 0

/-- What holds of the controllers and the counts at each point. -/
def Placed (σ : System δ) : Point → Prop
  | .running => σ.board.pics.Serving none ∧ Balanced σ none
  | .inside state .start source =>
    σ.board.pics.Serving source ∧ Balanced σ source ∧
      ∃ v, Arrives source v ∧ TrapField.intNo.read σ.board.kernel.mem state = v.setWidth 32
  | .inside state (.handled intNo) source =>
    σ.board.pics.Serving source ∧ Balanced σ none ∧ Arrives source intNo ∧ bootTable intNo ≠ none ∧
      TrapField.intNo.read σ.board.kernel.mem state = intNo.setWidth 32
  | .inside _ .slaveEnded _ => σ.board.pics.Serving (some (.master cascade)) ∧ Balanced σ none
  | .stopped => True

structure Inv (σ : System δ) : Prop where
  settled : σ.board.pics.Settled PIC1_INTERRUPT_START PIC2_INTERRUPT_START
  cascaded : σ.board.pics.Cascaded
  table : σ.board.isrTable = bootTable
  ticks : σ.board.ticks = BitVec.ofNat 64 (σ.served (.master 0))
  placed : Placed σ σ.point

theorem initial_inv {σ : System δ} (initial : Initial σ) : Inv σ where
  settled := initial.settled
  cascaded := initial.cascaded
  table := initial.table
  ticks := by rw [initial.ticks, initial.served]
  placed := by
    rw [initial.point]
    refine ⟨initial.serving, fun l _ => ?_⟩
    simp [initial.latched, initial.served, initial.withdrawn]

section Counts
variable {σ : System δ} {hand : Option Line} {l : Line}

theorem Balanced.raise (balanced : Balanced σ hand) (wired : l.Wired) :
    Balanced { σ with
      board := { σ.board with pics := σ.board.pics.raise l }
      latched := if σ.board.pics.pending l then σ.latched else bump σ.latched l } hand := by
  intro k wiredK
  have before := balanced k wiredK
  have after := (Pair.moved_raise wired (p := σ.board.pics)).pending k wiredK
  by_cases same : k = l
  · subst same
    cases pending : σ.board.pics.pending k with
    | false =>
      simp only [pending, Bool.toNat_false] at before
      simp only [after, if_true, Bool.false_eq_true, if_false, bump, Function.update_self, Bool.toNat_true]
      omega
    | true =>
      simp only [pending] at before
      simp only [after, if_true]
      exact before
  · simp only [after, if_neg same]
    split
    · exact before
    · simpa [bump, same] using before

theorem Balanced.withdraw (balanced : Balanced σ hand) (wired : l.Wired) :
    Balanced { σ with
      board := { σ.board with pics := σ.board.pics.withdraw l }
      withdrawn := if σ.board.pics.pending l then bump σ.withdrawn l else σ.withdrawn } hand := by
  intro k wiredK
  have before := balanced k wiredK
  have after := (Pair.moved_withdraw wired (p := σ.board.pics)).pending k wiredK
  by_cases same : k = l
  · subst same
    cases pending : σ.board.pics.pending k with
    | false =>
      simp only [pending] at before
      simp only [after, if_true, Bool.false_eq_true, if_false]
      exact before
    | true =>
      simp only [pending, Bool.toNat_true] at before
      simp only [after, if_true, bump, Function.update_self, Bool.toNat_false]
      omega
  · simp only [after, if_neg same]
    split
    · simpa [bump, same] using before
    · exact before

/-- Counts only see the requests. -/
theorem Balanced.congr {τ : System δ} (balanced : Balanced σ hand) (latched : τ.latched = σ.latched)
    (served : τ.served = σ.served) (withdrawn : τ.withdrawn = σ.withdrawn)
    (pending : ∀ k : Line, k.Wired → τ.board.pics.pending k = σ.board.pics.pending k) : Balanced τ hand := by
  intro k wired
  rw [latched, served, withdrawn, pending k wired]
  exact balanced k wired

/-- The handler's call takes the request out of hand. -/
theorem Balanced.call {τ : System δ} {source : Option Line} (balanced : Balanced σ source) (latched : τ.latched = σ.latched)
    (served : τ.served = source.elim σ.served (bump σ.served)) (withdrawn : τ.withdrawn = σ.withdrawn)
    (pics : τ.board.pics = σ.board.pics) : Balanced τ none := by
  intro k wired
  have before := balanced k wired
  rw [latched, served, withdrawn, pics]
  cases source with
  | none => exact before
  | some l =>
    by_cases same : l = k
    · subst same
      simp only [Option.elim_some, bump, Function.update_self, reduceCtorEq, if_false]
      simp only [if_true] at before
      omega
    · have other : k ≠ l := fun eq => same eq.symm
      simpa [bump, same, other] using before

end Counts

theorem arrives_acknowledge {p : Pair} (settled : p.Settled PIC1_INTERRUPT_START PIC2_INTERRUPT_START)
    (cascaded : p.Cascaded) (free : p.Serving none) :
    Arrives p.chosen p.acknowledge.1 ∧ p.acknowledge.2.Serving p.chosen := by
  obtain ⟨answered, -, -⟩ := Pair.acknowledge_spec settled cascaded free
  generalize p.chosen = source at answered
  generalize p.acknowledge.1 = v at answered
  generalize p.acknowledge.2 = q at answered
  cases answered with
  | line l _ wired _ serving _ => exact ⟨(if_pos wired).mpr rfl, serving⟩
  | spurious _ => exact ⟨.inl (by decide), free⟩
  | orphan _ _ _ serving _ => exact ⟨by simp [Arrives, Line.Wired]; decide, serving⟩

theorem Balanced.acknowledge {σ : System δ} (balanced : Balanced σ none)
    (settled : σ.board.pics.Settled PIC1_INTERRUPT_START PIC2_INTERRUPT_START)
    (cascaded : σ.board.pics.Cascaded) (free : σ.board.pics.Serving none) (kernel : KernelState) (point : Point) :
    Balanced { σ with board := { σ.board with kernel := kernel, pics := σ.board.pics.acknowledge.2 }, point := point }
      σ.board.pics.chosen := by
  obtain ⟨answered, -, -⟩ := Pair.acknowledge_spec settled cascaded free
  intro k wired
  have before := balanced k wired
  simp only [reduceCtorEq, if_false] at before
  change σ.latched k = σ.served k + σ.withdrawn k + (σ.board.pics.acknowledge.2.pending k).toNat +
    if σ.board.pics.chosen = some k then 1 else 0
  generalize σ.board.pics.chosen = source at answered
  generalize σ.board.pics.acknowledge.1 = v at answered
  generalize σ.board.pics.acknowledge.2 = q at answered
  cases answered with
  | line l _ _ asked _ pending =>
    rw [pending k wired]
    by_cases same : k = l
    · subst same
      rw [asked] at before
      simpa using before
    · have other : l ≠ k := fun eq => same eq.symm
      simpa [same, other] using before
  | spurious _ => simpa using before
  | orphan _ _ _ _ pending =>
    have other : Line.master cascade ≠ k := fun eq => wired eq.symm
    rw [pending k wired]
    simpa [other] using before

/-- The handlers that device interrupts can reach. -/
inductive Reaches : Option Line → Byte → Prop where
  | timer : Reaches (some (.master 0)) (BitVec.ofNat 8 (IDT_IRQ_BASE + IDT_IRQ_TIMER))
  | kbd : Reaches (some (.master 1)) (BitVec.ofNat 8 (IDT_IRQ_BASE + IDT_IRQ_KEYBOARD))
  | com1 : Reaches (some (.master 4)) COM1_VECTOR
  | message : Reaches none COM1_VECTOR
  | ide : Reaches (some (.slave 6)) (BitVec.ofNat 8 (IDT_IRQ_BASE + IDT_IRQ_IDE1))

theorem vector_number (l : Line) :
    l.vector PIC1_INTERRUPT_START PIC2_INTERRUPT_START = BitVec.ofNat 8 (IDT_IRQ_BASE + l.number) := by
  cases l with
  | master i => revert i; decide
  | slave i => revert i; decide

theorem bootTable_master : ∀ i : Fin 8, (Line.master i).Wired →
    bootTable ((Line.master i).vector PIC1_INTERRUPT_START PIC2_INTERRUPT_START) ≠ none → i = 0 ∨ i = 1 ∨ i = 4 := by
  decide

theorem bootTable_slave : ∀ i : Fin 8,
    bootTable ((Line.slave i).vector PIC1_INTERRUPT_START PIC2_INTERRUPT_START) ≠ none → i = 6 := by
  decide

theorem Arrives.reaches {source : Option Line} {v : Byte} (arrives : Arrives source v) (registered : bootTable v ≠ none) :
    Reaches source v := by
  cases source with
  | none =>
    rcases arrives with rfl | rfl
    · exact absurd (by decide) registered
    · exact .message
  | some l =>
    by_cases wired : l.Wired
    · obtain rfl : v = _ := (if_pos wired).mp arrives
      cases l with
      | master i =>
        rcases bootTable_master i wired registered with rfl | rfl | rfl
        · exact .timer
        · exact .kbd
        · exact .com1
      | slave i =>
        obtain rfl := bootTable_slave i registered
        exact .ide
    · obtain rfl : v = 0x2f#8 := (if_neg wired).mp arrives
      exact absurd (by decide) registered

section Code
variable {drivers : Driver → Prog δ Unit} {b : Board δ} {state : Addr} {v : Byte} {source : Option Line}

theorem run_intNoAt (frame : TrapField.intNo.read b.kernel.mem state = v.setWidth 32) :
    (intNoAt state).run b = .ok (v.setWidth 32) b := by
  have ran := run_onKernel_ok (b := b) (run_load32 (state + TrapField.intNo.offset) b.kernel)
  rw [TrapField.read] at frame
  rw [frame] at ran
  exact ran

/-- A driver's handler changes what the driver keeps; the timer's changes the ticks. -/
theorem dispatch_ok {b' : Board δ} (table : b.isrTable = bootTable) (reaches : Reaches source v)
    (ran : (isrDispatch drivers state v).run b = .ok () b') :
    ∃ devices, b' = { b with
      ticks := if source = some (.master 0) then b.ticks + 1#64 else b.ticks
      devices := devices } := by
  have driver (which : Driver) (entry : bootTable v = some (.driver which)) :
      ∃ devices, b' = { b with devices := devices } := by
    rw [isrDispatch, run_bind_ok (EStateM.run_get b), table, entry] at ran
    change (onDevices (drivers which)).run b = .ok () b' at ran
    cases outcome : (drivers which).run b.devices with
    | ok a devices =>
      rw [onDevices, run_zoom_ok outcome] at ran
      cases ran
      exact ⟨devices, rfl⟩
    | error e devices =>
      rw [onDevices, run_zoom_error outcome] at ran
      cases ran
  cases reaches with
  | timer =>
    rw [isrDispatch, run_bind_ok (EStateM.run_get b), table] at ran
    cases ran
    exact ⟨b.devices, rfl⟩
  | kbd => exact driver .kbd (by decide)
  | com1 => exact driver .com1 (by decide)
  | message => exact driver .com1 (by decide)
  | ide => exact driver .ide (by decide)

theorem start_ok {next : Option IsrPoint} {b' : Board δ} (table : b.isrTable = bootTable) (arrives : Arrives source v)
    (frame : TrapField.intNo.read b.kernel.mem state = v.setWidth 32)
    (ran : (isrCode drivers state .start).run b = .ok next b') :
    next = some (.handled v) ∧ bootTable v ≠ none ∧ ∃ devices, b' = { b with
      ticks := if source = some (.master 0) then b.ticks + 1#64 else b.ticks
      devices := devices } := by
  have narrow : (v.setWidth 32).setWidth 8 = v := by simp
  rw [isrCode, run_bind_ok (run_intNoAt frame), narrow] at ran
  obtain ⟨⟨⟩, t, dispatched, last⟩ := run_bind_eq_ok ran
  cases last
  have registered : bootTable v ≠ none := by
    intro missing
    rw [isrDispatch, run_bind_ok (EStateM.run_get b), table, missing] at dispatched
    obtain ⟨_, u, -, panics⟩ := run_bind_eq_ok dispatched
    cases panics
  exact ⟨rfl, registered, dispatch_ok table (arrives.reaches registered) dispatched⟩

variable (drivers state) in
/-- The registered handler returns, provided a driver's does. -/
theorem run_dispatch {isr : Isr} (table : b.isrTable = bootTable) (entry : bootTable v = some isr) (reaches : Reaches source v)
    (returns : ∀ which, isr = .driver which → ∃ devices, (drivers which).run b.devices = .ok () devices) :
    ∃ b', (isrDispatch drivers state v).run b = .ok () b' ∧
      b'.ticks = (if source = some (.master 0) then b.ticks + 1#64 else b.ticks) ∧ b'.kernel = b.kernel ∧ b'.pics = b.pics ∧
      ∀ which, isr = .driver which → (drivers which).run b.devices = .ok () b'.devices := by
  have ran : (isrDispatch drivers state v).run b = (callIsr drivers state isr).run b := by
    rw [isrDispatch, run_bind_ok (EStateM.run_get b), table, entry]
  have driver (which : Driver) (same : isr = .driver which) (other : source ≠ some (.master 0)) :
      ∃ b', (isrDispatch drivers state v).run b = .ok () b' ∧
        b'.ticks = (if source = some (.master 0) then b.ticks + 1#64 else b.ticks) ∧ b'.kernel = b.kernel ∧
        b'.pics = b.pics ∧ ∀ which, isr = .driver which → (drivers which).run b.devices = .ok () b'.devices := by
    obtain ⟨devices, returned⟩ := returns which same
    refine ⟨{ b with devices := devices }, ?_, (if_neg other).symm, rfl, rfl, ?_⟩
    · rw [ran, same]
      exact run_zoom_ok returned
    · rintro _ rfl
      cases same
      exact returned
  cases reaches with
  | timer =>
    obtain rfl : Isr.timer = isr := Option.some.inj entry
    exact ⟨{ b with ticks := b.ticks + 1#64 }, ran, rfl, rfl, rfl, fun _ => Isr.noConfusion⟩
  | kbd => exact driver .kbd (Option.some.inj entry).symm (by decide)
  | com1 => exact driver .com1 (Option.some.inj entry).symm (by decide)
  | message => exact driver .com1 (Option.some.inj entry).symm (by decide)
  | ide => exact driver .ide (Option.some.inj entry).symm (by decide)

variable (drivers) in
/-- The end of interrupt goes to the controllers that have the line in service. -/
theorem run_handled (reaches : Reaches source v) (frame : TrapField.intNo.read b.kernel.mem state = v.setWidth 32) :
    (isrCode drivers state (.handled v)).run b =
      if source = some (.slave 6) then
        .ok (some .slaveEnded) { b with pics := b.pics.setSlave b.pics.slave.eoi }
      else .ok none { b with pics := { b.pics with master := b.pics.master.eoi } } := by
  cases reaches <;> simp only [isrCode, run_ite, run_bind_ok (run_intNoAt frame)] <;> rfl

end Code

/-- Steps of the devices are seen from no point of the code. -/
theorem Placed.moved {σ τ : System δ} {point : Point} (placed : Placed σ point)
    (serving : ∀ service, σ.board.pics.Serving service → τ.board.pics.Serving service)
    (balanced : ∀ hand, Balanced σ hand → Balanced τ hand) (kernel : τ.board.kernel = σ.board.kernel) :
    Placed τ point := by
  cases point with
  | running => exact ⟨serving _ placed.1, balanced _ placed.2⟩
  | stopped => trivial
  | inside state point source => cases point with
    | start =>
      obtain ⟨served, counts, frame⟩ := placed
      refine ⟨serving _ served, balanced _ counts, ?_⟩
      rw [kernel]
      exact frame
    | handled intNo =>
      obtain ⟨served, counts, frame⟩ := placed
      refine ⟨serving _ served, balanced _ counts, ?_⟩
      rw [kernel]
      exact frame
    | slaveEnded => exact ⟨serving _ placed.1, balanced _ placed.2⟩

section Steps
variable {drivers : Driver → Prog δ Unit} {σ τ : System δ}

theorem Inv.moved (inv : Inv σ) {l : Line} {raised : Bool} (moved : Pair.Moved σ.board.pics τ.board.pics l raised)
    (balanced : ∀ hand, Balanced σ hand → Balanced τ hand) (kernel : τ.board.kernel = σ.board.kernel)
    (table : τ.board.isrTable = σ.board.isrTable) (ticks : τ.board.ticks = σ.board.ticks) (point : τ.point = σ.point)
    (served : τ.served = σ.served) : Inv τ where
  settled := moved.settled _ _ inv.settled
  cascaded := moved.cascaded inv.cascaded
  table := table.trans inv.table
  ticks := by
    rw [ticks, served]
    exact inv.ticks
  placed := by
    rw [point]
    exact inv.placed.moved moved.serving balanced kernel

/-- The registered handler has run. -/
theorem Inv.call (inv : Inv σ) {state : Addr} {next : IsrPoint} {source : Option Line} {board : Board δ}
    (here : σ.point = .inside state .start source)
    (ran : (isrCode drivers state .start).run σ.board = .ok (some next) board) :
    Inv { σ with
      board := board
      point := .inside state next source
      served := source.elim σ.served (bump σ.served) } := by
  have placed := inv.placed
  rw [here] at placed
  obtain ⟨serving, balanced, v, arrives, frame⟩ := placed
  obtain ⟨handled, registered, devices, rfl⟩ := start_ok inv.table arrives frame ran
  obtain rfl := Option.some.inj handled
  refine ⟨inv.settled, inv.cascaded, inv.table, ?_, ⟨serving, ?_, arrives, registered, frame⟩⟩
  · by_cases timer : source = some (.master 0)
    · subst timer
      simp only [if_true, Option.elim_some, bump, Function.update_self, inv.ticks, BitVec.ofNat_add]
    · have others : (source.elim σ.served (bump σ.served)) (.master 0) = σ.served (.master 0) := by
        cases source with
        | none => rfl
        | some l => exact Function.update_of_ne (fun same => timer (by rw [same])) ..
      simp only [if_neg timer, others, inv.ticks]
  · exact balanced.call rfl rfl rfl rfl

/-- The first end of interrupt, for a line of the second controller. -/
theorem Inv.proceed (inv : Inv σ) {state : Addr} {point next : IsrPoint} {source : Option Line} {board : Board δ}
    (here : σ.point = .inside state point source) (later : point ≠ .start)
    (ran : (isrCode drivers state point).run σ.board = .ok (some next) board) :
    Inv { σ with board := board, point := .inside state next source } := by
  have placed := inv.placed
  rw [here] at placed
  cases point with
  | start => exact absurd rfl later
  | slaveEnded => cases ran
  | handled intNo =>
    obtain ⟨serving, balanced, arrives, registered, frame⟩ := placed
    rw [run_handled _ (arrives.reaches registered) frame] at ran
    split at ran
    next slave =>
      cases ran
      subst slave
      have ended := Pair.ended_slave σ.board.pics
      exact ⟨ended.settled _ _ inv.settled, ended.cascaded inv.cascaded, inv.table, inv.ticks,
        ⟨Pair.eoi_slave serving, balanced.congr rfl rfl rfl ended.pending⟩⟩
    next => cases ran

/-- An end of interrupt to the first controller, of the one interrupt it has in service if any. -/
theorem serving_eoi_master {p : Pair} {source : Option Line} (serving : p.Serving source)
    (own : ∀ i, source ≠ some (.slave i)) : ({ p with master := p.master.eoi } : Pair).Serving none := by
  cases source with
  | none =>
    rw [Chip.eoi_of_free serving.1]
    exact serving
  | some l => cases l with
    | master i => exact Pair.eoi_master serving
    | slave i => exact absurd rfl (own i)

theorem Inv.leave (inv : Inv σ) {state : Addr} {point : IsrPoint} {source : Option Line} {board : Board δ}
    (here : σ.point = .inside state point source)
    (ran : (isrCode drivers state point).run σ.board = .ok none board) :
    Inv { σ with board := resumed board, point := .running } := by
  have placed := inv.placed
  have ended := Pair.ended_master σ.board.pics
  rw [here] at placed
  cases point with
  | start =>
    obtain ⟨serving, balanced, v, arrives, frame⟩ := placed
    obtain ⟨handled, -⟩ := start_ok inv.table arrives frame ran
    cases handled
  | slaveEnded =>
    cases ran
    exact ⟨ended.settled _ _ inv.settled, ended.cascaded inv.cascaded, inv.table, inv.ticks,
      ⟨Pair.eoi_master placed.1, placed.2.congr rfl rfl rfl ended.pending⟩⟩
  | handled intNo =>
    obtain ⟨serving, balanced, arrives, registered, frame⟩ := placed
    have reaches := arrives.reaches registered
    rw [run_handled _ reaches frame] at ran
    split at ran
    next => cases ran
    next own =>
      cases ran
      have served : ({ σ.board.pics with master := σ.board.pics.master.eoi } : Pair).Serving none := by
        apply serving_eoi_master serving
        rintro i rfl
        cases reaches
        exact own rfl
      exact ⟨ended.settled _ _ inv.settled, ended.cascaded inv.cascaded, inv.table, inv.ticks,
        ⟨served, balanced.congr rfl rfl rfl ended.pending⟩⟩

/-- Until the kernel stops, that is. -/
def Alive (σ : System δ) : Prop := σ.point ≠ .stopped

theorem inv_step (inv : Alive σ → Inv σ) (step : Step drivers σ τ) (alive : Alive τ) : Inv τ := by
  have outside (here : σ.point = .running) : Inv σ ∧ σ.board.pics.Serving none ∧ Balanced σ none := by
    have known := inv (by rw [Alive, here]; exact Point.noConfusion)
    have placed := known.placed
    rw [here] at placed
    exact ⟨known, placed⟩
  have inside {state point source} (here : σ.point = .inside state point source) : Inv σ :=
    inv (by rw [Alive, here]; exact Point.noConfusion)
  cases step with
  | raise l wired =>
    exact (inv alive).moved (Pair.moved_raise wired) (fun _ balanced => balanced.raise wired) rfl rfl rfl rfl rfl
  | withdraw l wired =>
    exact (inv alive).moved (Pair.moved_withdraw wired) (fun _ balanced => balanced.withdraw wired) rfl rfl rfl rfl rfl
  | work kernel cr2 devices here =>
    obtain ⟨known, serving, balanced⟩ := outside here
    refine ⟨known.settled, known.cascaded, known.table, known.ticks, ?_⟩
    change Placed _ σ.point
    rw [here]
    exact ⟨serving, balanced⟩
  | interrupt mem state here enabled frame =>
    obtain ⟨known, serving, balanced⟩ := outside here
    obtain ⟨-, settled, cascaded⟩ := Pair.acknowledge_spec known.settled known.cascaded serving
    obtain ⟨arrives, accepted⟩ := arrives_acknowledge known.settled known.cascaded serving
    exact ⟨settled, cascaded, known.table, known.ticks,
      ⟨accepted, balanced.acknowledge known.settled known.cascaded serving _ _, _, arrives, frame⟩⟩
  | message mem state here enabled frame =>
    obtain ⟨known, serving, balanced⟩ := outside here
    exact ⟨known.settled, known.cascaded, known.table, known.ticks, ⟨serving, balanced, _, .inr rfl, frame⟩⟩
  | call state next source board here ran => exact (inside here).call here ran
  | proceed state point next source board here later ran => exact (inside here).proceed here later ran
  | leave state point source board here ran => exact (inside here).leave here ran
  | stop state point source board e here ran => exact absurd rfl alive

theorem run_inv (run : Reachable Initial (Step drivers) σ) (alive : Alive σ) : Inv σ := by
  have base (τ : System δ) (initial : Initial τ) (_ : Alive τ) : Inv τ := initial_inv initial
  exact run.invariant base (fun _ _ => inv_step) alive

end Steps

/-- The request a controller has handed over and whose handler has not been called yet. -/
def Point.hand : Point → Option Line
  | .inside _ .start source => source
  | _ => none

theorem Inv.balanced {σ : System δ} (inv : Inv σ) (alive : Alive σ) : Balanced σ σ.point.hand := by
  have placed := inv.placed
  cases here : σ.point with
  | stopped => exact absurd here alive
  | running =>
    rw [here] at placed
    exact placed.2
  | inside state point source =>
    rw [here] at placed
    cases point with
    | start => exact placed.2.1
    | handled intNo => exact placed.2.1
    | slaveEnded => exact placed.2

/-- Over any run, with devices that raise and drop their lines at any time. -/
theorem interrupts_conserved (drivers : Driver → Prog δ Unit) (σ : System δ) (run : Reachable Initial (Step drivers) σ)
    (alive : Alive σ) :
    (σ.point = .running → σ.board.pics.Serving none) ∧
      (∀ l : Line, l.Wired → σ.latched l = σ.served l + σ.withdrawn l + (σ.board.pics.pending l).toNat +
        if σ.point.hand = some l then 1 else 0) ∧
      σ.board.ticks = BitVec.ofNat 64 (σ.served (.master 0)) := by
  have inv := run_inv run alive
  refine ⟨fun here => ?_, inv.balanced alive, inv.ticks⟩
  have placed := inv.placed
  rw [here] at placed
  exact placed.1

/-- `isr_handler` in one go, once its handler has returned: nothing is left in service. -/
theorem run_pieces_handled (drivers : Driver → Prog δ Unit) {b : Board δ} {state : Addr} {v : Byte} {l : Line}
    (reaches : Reaches (some l) v) (frame : TrapField.intNo.read b.kernel.mem state = v.setWidth 32)
    (serving : b.pics.Serving (some l)) :
    ∃ pics, (isrPieces drivers state 2 (.handled v)).run b = .ok () { b with pics := pics } ∧ pics.Serving none ∧
      ∀ k : Line, k.Wired → pics.pending k = b.pics.pending k := by
  have code := run_handled drivers reaches frame
  cases l with
  | master i =>
    rw [if_neg (by simp)] at code
    refine ⟨_, ?_, Pair.eoi_master serving, (Pair.ended_master b.pics).pending⟩
    rw [isrPieces, run_bind_ok code]
    rfl
  | slave i =>
    have last : i = 6 := by cases reaches; rfl
    rw [if_pos (by rw [last])] at code
    refine ⟨_, ?_, Pair.eoi_master (Pair.eoi_slave serving), fun k wired => ?_⟩
    · rw [isrPieces, run_bind_ok code]
      rfl
    · exact ((Pair.ended_master _).pending k wired).trans ((Pair.ended_slave b.pics).pending k wired)

/-- At any time in any run, the next interrupt is that of the deliverable line of highest
priority; its own handler is called, and afterwards it is no longer pending or in service. -/
theorem next_interrupt_served (drivers : Driver → Prog δ Unit) (σ : System δ) (run : Reachable Initial (Step drivers) σ)
    (here : σ.point = .running) (l : Line) (ready : σ.board.pics.Deliverable l)
    (highest : ∀ k, σ.board.pics.Deliverable k → Pair.rank l ≤ Pair.rank k)
    (backed : σ.board.pics.master.irr cascade = true → σ.board.pics.slave.next ≠ none) (isr : Isr)
    (entry : bootTable (l.vector PIC1_INTERRUPT_START PIC2_INTERRUPT_START) = some isr)
    (returns : ∀ which, isr = .driver which → ∃ devices, (drivers which).run σ.board.devices = .ok () devices)
    (mem : Mem) (state : Addr) (frame : TrapField.intNo.read mem state = σ.board.pics.acknowledge.1.setWidth 32) :
    σ.board.pics.acknowledge.1 = BitVec.ofNat 8 (IDT_IRQ_BASE + l.number) ∧
    ∃ b, (isrHandler drivers state).run (arrived { σ.board with pics := σ.board.pics.acknowledge.2 } mem) = .ok () b ∧
      b.pics.Serving none ∧
      (∀ k : Line, k.Wired → b.pics.pending k = if k = l then false else σ.board.pics.pending k) ∧
      b.ticks = (if l = .master 0 then σ.board.ticks + 1#64 else σ.board.ticks) ∧
      ∀ which, isr = .driver which → (drivers which).run σ.board.devices = .ok () b.devices := by
  have inv := run_inv run (by rw [Alive, here]; exact Point.noConfusion)
  have free := inv.placed
  rw [here] at free
  obtain ⟨answered, -, -⟩ := Pair.acknowledge_spec inv.settled inv.cascaded free.1
  rw [Pair.chosen_of_highest free.1 inv.settled inv.cascaded backed ready highest] at answered
  generalize σ.board.pics.acknowledge.1 = v at answered frame
  generalize σ.board.pics.acknowledge.2 = q at answered
  cases answered with
  | orphan => exact absurd rfl ready.wired
  | line _ _ wired asked serving pending =>
    have reaches : Reaches (some l) (l.vector PIC1_INTERRUPT_START PIC2_INTERRUPT_START) :=
      Arrives.reaches ((if_pos wired).mpr rfl) (by simp [entry])
    obtain ⟨b, dispatched, ticks, kernel, pics, drove⟩ := run_dispatch drivers state
      (b := arrived { σ.board with pics := q } mem) inv.table entry reaches returns
    have start := run_isrCode_start drivers state (arrived { σ.board with pics := q } mem)
    have narrow : (TrapField.intNo.read (arrived { σ.board with pics := q } mem).kernel.mem state).setWidth 8 =
        l.vector PIC1_INTERRUPT_START PIC2_INTERRUPT_START := by
      change (TrapField.intNo.read mem state).setWidth 8 = _
      rw [frame]
      simp
    rw [narrow, dispatched] at start
    have pushed : TrapField.intNo.read b.kernel.mem state =
        (l.vector PIC1_INTERRUPT_START PIC2_INTERRUPT_START).setWidth 32 := by
      rw [kernel]
      exact frame
    have inService : b.pics.Serving (some l) := by
      rw [pics]
      exact serving
    obtain ⟨last, ended, idle, kept⟩ := run_pieces_handled drivers reaches pushed inService
    refine ⟨vector_number l, { b with pics := last }, ?_, idle, fun k wired => ?_, ?_, drove⟩
    · rw [isrHandler_pieces, isrPieces, run_bind_ok start]
      exact ended
    · rw [kept k wired, pics]
      exact pending k wired
    · simp only [Option.some.injEq] at ticks
      exact ticks

/-- The timer's line is requested and nothing else has happened yet. -/
def oneTick : System Unit where
  board :=
    { kernel := boot (fun _ => 0#8) 0#32
      pics := Pair.raise ⟨⟨noLine, noLine, 0xf8#8, 0x20#8, 4#8, .ready, true, false, false⟩,
        ⟨noLine, noLine, 0xff#8, 0x28#8, 2#8, .ready, true, false, false⟩⟩ (.master firstLine)
      isrTable := bootTable
      ticks := 0#64
      cr2 := 0#32
      devices := () }
  point := .running
  latched := fun l => if l = .master firstLine then 1 else 0
  served := fun _ => 0
  withdrawn := fun _ => 0

theorem oneTick_initial : Initial oneTick where
  settled := ⟨rfl, rfl, rfl, rfl, rfl, rfl, by decide, rfl⟩
  cascaded := fun signals => absurd (next_of_no_request rfl) signals
  serving := ⟨rfl, rfl⟩
  table := rfl
  ticks := rfl
  point := rfl
  latched l := by
    cases l with
    | master i => revert i; decide
    | slave i => revert i; decide
  served _ := rfl
  withdrawn _ := rfl

def tickFrame : Addr := 0x80105000#32

/-- Memory in which the frame of a timer interrupt has been pushed. -/
def tickMem : Mem := write32 (fun _ => 0#8) (tickFrame + TrapField.intNo.offset) 0x20#32

theorem tickMem_frame : TrapField.intNo.read tickMem tickFrame = oneTick.board.pics.acknowledge.1.setWidth 32 := by
  decide +kernel

theorem next_interrupt_served_timer : ∃ b, (isrHandler (fun _ => pure ()) tickFrame).run
    (arrived { oneTick.board with pics := oneTick.board.pics.acknowledge.2 } tickMem) = .ok () b ∧
      b.pics.Serving none ∧ b.ticks = 1#64 := by
  have ready : oneTick.board.pics.Deliverable (.master 0) := ⟨by decide, rfl, by decide, fun _ => Line.noConfusion⟩
  obtain ⟨-, b, ran, idle, -, ticks, -⟩ := next_interrupt_served (fun _ => pure ()) oneTick (.start oneTick_initial) rfl
    (.master 0) ready (fun _ _ => Nat.zero_le _) (fun asked => absurd asked (by decide)) .timer (by decide)
    (fun _ => Isr.noConfusion) tickMem tickFrame tickMem_frame
  exact ⟨b, ran, idle, ticks⟩

/-- The scheduler enables interrupts, and the timer's is accepted. -/
theorem interrupts_conserved_accepted : ∃ σ : System Unit, Reachable Initial (Step fun _ => pure ()) σ ∧ Alive σ ∧
    σ.point.hand = some (.master 0) ∧
    σ.latched (.master 0) = σ.served (.master 0) + σ.withdrawn (.master 0) + (σ.board.pics.pending (.master 0)).toNat + 1 := by
  have chosen : oneTick.board.pics.chosen = some (.master 0) := by decide +kernel
  have enabled : Reachable Initial (Step fun _ => pure ()) _ := .next (.start oneTick_initial) (Step.work oneTick
    { oneTick.board.kernel with cpu := { oneTick.board.kernel.cpu with flIf := true } } 0#32 () rfl)
  have accepted := Reachable.next enabled (Step.interrupt _ tickMem tickFrame rfl rfl tickMem_frame)
  have conserved := (interrupts_conserved (fun _ => pure ()) _ accepted Point.noConfusion).2.1 (.master 0) (by decide)
  exact ⟨_, accepted, Point.noConfusion, chosen, conserved.trans (congrArg (_ + ·) (if_pos chosen))⟩

end OsDev.Kernel.Interrupts
