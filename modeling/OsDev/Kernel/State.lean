import OsDev.Kernel.SpinLocks
import OsDev.Kernel.Mmu

/-! The variables of the kernel, as one record, and access to memory through the
page directory in CR3. -/

namespace OsDev.Kernel.State
open OsDev.Machine.Memory OsDev.Machine.Program OsDev.Kernel.SpinLocks OsDev.Kernel.Mmu

def NPROC : Nat := 64
def KSTACKSIZE : Addr := PGSIZE

inductive ProcessState where
  | unused
  | initial
  | runnable
  | running
  | sleeping
  | zombie
  deriving DecidableEq, Repr

/-- `struct process`; the name is left out, it is only ever printed. -/
structure Process where
  pid : BitVec 16
  context : Addr
  state : ProcessState
  xstate : Word
  pgdir : Addr
  kstack : Addr
  sz : Word
  tf : Addr
  deriving DecidableEq, Repr

structure KernelState where
  mem : Mem
  cpu : Processor
  /-- `cpus[0].proc`, as an index into the process table. -/
  proc : Option (Fin NPROC)
  /-- `cpus[0].ts`, of which the processor reads the stack it switches to on a trap from ring 3. -/
  esp0 : Addr
  ss0 : BitVec 16
  cr3 : Addr
  kheapStart : Addr
  kheapEnd : Addr
  useLock : Bool
  freelist : Addr
  /-- The address the linker gave to `kmem.freelist`. -/
  KMEM_SENTINEL : Addr
  physEnd : Addr
  acpi : Addr
  acpiLen : Addr
  kpgdir : Addr
  ptable : Fin NPROC → Process
  nextpid : BitVec 16
  initproc : Option (Fin NPROC)
  consLocking : Bool
  /-- Every character handed to `consputc`, oldest first. -/
  console : List Word
  /-- Every byte address read through a pointer that may come from user space. -/
  accessed : List Addr

def Process.zero : Process := ⟨0#16, 0#32, .unused, 0#32, 0#32, 0#32, 0#32, 0#32⟩

/-- The initial values of the kernel's variables, with interrupts off. -/
def boot (mem : Mem) (sentinel : Addr) : KernelState where
  mem := mem
  cpu := ⟨false, 0, false, fun _ => unlocked⟩
  proc := none
  esp0 := 0#32
  ss0 := 0#16
  cr3 := 0#32
  kheapStart := 0#32
  kheapEnd := 0x07fe0000#32
  useLock := false
  freelist := 0#32
  KMEM_SENTINEL := sentinel
  physEnd := 0#32
  acpi := 0#32
  acpiLen := 0#32
  kpgdir := 0#32
  ptable := fun _ => Process.zero
  nextpid := 1#16
  initproc := none
  consLocking := false
  console := []
  accessed := []

theorem boot_quiet (mem : Mem) (sentinel : Addr) : Quiet (boot mem sentinel).cpu :=
  ⟨⟨Int.le_refl 0, fun _ => rfl, (by decide : (0 : Int) + 2 < 2 ^ 31)⟩, fun _ => rfl⟩

/-- Memory, the processor and the head of the free list are what the memory
subsystem changes. -/
@[simps -fullyApplied] def KernelState.put (s : KernelState) (mem : Mem) (cpu : Processor) (freelist : Addr) : KernelState :=
  { s with mem := mem, cpu := cpu, freelist := freelist }

abbrev KernelState.setMem (s : KernelState) (mem : Mem) : KernelState := s.put mem s.cpu s.freelist
abbrev KernelState.setCpu (s : KernelState) (cpu : Processor) : KernelState := s.put s.mem cpu s.freelist
abbrev KernelState.setFreelist (s : KernelState) (freelist : Addr) : KernelState := s.put s.mem s.cpu freelist

/-- Some more characters on the console. -/
@[simps -fullyApplied] def KernelState.print (s : KernelState) (chars : List Word) : KernelState :=
  { s with console := s.console ++ chars }

theorem print_nil (s : KernelState) : s.print [] = s := by simp [KernelState.print]

@[simp] theorem print_print (s : KernelState) (first second : List Word) :
    (s.print first).print second = s.print (first ++ second) := by simp [KernelState.print]

@[simp] theorem put_put (s : KernelState) (m m' : Mem) (c c' : Processor) (f f' : Addr) :
    (s.put m c f).put m' c' f' = s.put m' c' f' := rfl

@[simp] theorem print_put (s : KernelState) (m : Mem) (c : Processor) (f : Addr) (chars : List Word) :
    (s.put m c f).print chars = (s.print chars).put m c f := rfl

@[simp] theorem put_self (s : KernelState) : s.put s.mem s.cpu s.freelist = s := rfl

def onCpu {α : Type} (part : Prog Processor α) : Prog KernelState α :=
  zoom KernelState.cpu (fun cpu s => s.setCpu cpu) part

theorem run_onCpu_ok {α : Type} {part : Prog Processor α} {s : KernelState} {cpu : Processor} {a : α}
    (ran : part.run s.cpu = .ok a cpu) : (onCpu part).run s = .ok a (s.setCpu cpu) := run_zoom_ok ran

theorem onCpu_eq_ok {α : Type} {part : Prog Processor α} {s t : KernelState} {a : α} (ran : (onCpu part).run s = .ok a t) :
    ∃ cpu, t = s.setCpu cpu := by
  simp only [onCpu, zoom, EStateM.run] at ran
  split at ran
  · cases ran
    exact ⟨_, rfl⟩
  · cases ran

def load32 (a : Addr) : Prog KernelState Word := do return read32 (← get).mem a

def store32 (a : Addr) (v : Word) : Prog KernelState Unit := modify fun s => s.setMem (write32 s.mem a v)

@[simp] theorem run_load32 (a : Addr) (s : KernelState) : (load32 a).run s = .ok (read32 s.mem a) s := rfl

@[simp] theorem run_store32 (a : Addr) (v : Word) (s : KernelState) :
    (store32 a v).run s = .ok () (s.setMem (write32 s.mem a v)) := rfl

/-- The byte a virtual address names under the page directory in CR3. -/
def byteAt (s : KernelState) (a : Addr) : Option Byte :=
  (translation s.mem (P2V s.cr3) a).map fun t => s.mem (P2V t.pa)

/-- A read through a pointer. The page fault handler knows no way to recover. -/
def vload (a : Addr) : Prog KernelState Byte := do
  modify fun s => { s with accessed := a :: s.accessed }
  match byteAt (← get) a with
  | some b => return b
  | none => kpanic "page fault not handled!"

/-- The user memory of a process: every address below `sz` is mapped. -/
def Sees (u : Mem) (sz : Word) (s : KernelState) : Prop := ∀ a, a < sz → byteAt s a = some (u a)

/-- Some more reads through user addresses. -/
@[simps -fullyApplied] def KernelState.noted (s : KernelState) (reads : List Addr) : KernelState :=
  { s with accessed := reads ++ s.accessed }

@[simp] theorem noted_noted (s : KernelState) (first second : List Addr) :
    (s.noted first).noted second = s.noted (second ++ first) := by simp [KernelState.noted]

@[simp] theorem print_noted (s : KernelState) (reads : List Addr) (chars : List Word) :
    (s.noted reads).print chars = (s.print chars).noted reads := rfl

@[simp] theorem noted_put (s : KernelState) (m : Mem) (c : Processor) (f : Addr) (reads : List Addr) :
    (s.put m c f).noted reads = (s.noted reads).put m c f := rfl

theorem noted_nil (s : KernelState) : s.noted [] = s := rfl

theorem Sees.noted {u : Mem} {sz : Word} {s : KernelState} (sees : Sees u sz s) (reads : List Addr) :
    Sees u sz (s.noted reads) := sees

theorem Sees.print {u : Mem} {sz : Word} {s : KernelState} (sees : Sees u sz s) (chars : List Word) :
    Sees u sz (s.print chars) := sees

theorem run_vload_byte {s : KernelState} {a : Addr} {b : Byte} (byte : byteAt s a = some b) :
    (vload a).run s = .ok b (s.noted [a]) := by
  have same : byteAt (s.noted [a]) a = some b := byte
  unfold vload
  rw [run_bind_ok (EStateM.run_modify _ _), run_bind_ok (EStateM.run_get _)]
  change EStateM.run (match byteAt (s.noted [a]) a with
    | some b => pure b
    | none => kpanic "page fault not handled!") (s.noted [a]) = _
  rw [same]
  rfl

theorem run_vload {u : Mem} {sz : Word} {s : KernelState} (sees : Sees u sz s) (a : Addr) (inside : a < sz) :
    (vload a).run s = .ok (u a) (s.noted [a]) := run_vload_byte (sees a inside)

end OsDev.Kernel.State
