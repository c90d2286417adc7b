import OsDev.Kernel.Frames
import OsDev.Kernel.Paging

/-! Processes (kernel/proc.c). `swtch` is the processor's business, so a function
that calls it is given here in the pieces before and after the call. -/

namespace OsDev.Kernel.Proc
open OsDev.Machine.Memory OsDev.Machine.Program OsDev.Kernel.SpinLocks OsDev.Kernel.Mmu OsDev.Kernel.StringLib
  OsDev.Kernel.State OsDev.Kernel.Console OsDev.Kernel.Kalloc OsDev.Kernel.Paging OsDev.Kernel.Frames

abbrev Slot := Fin NPROC

def firstSlot : Slot := ⟨0, Nat.succ_pos 63⟩

/-- What the linker knows: two code addresses and the embedded first program. -/
structure Image where
  trapret : Addr
  enterProcess : Addr
  userInitStart : Addr
  userInitSize : Addr

def warn (text : String) (args : List Word) : Prog KernelState Unit := cprintf ("WARN: " ++ text ++ "\n") args

@[simps -fullyApplied] def setSlot (s : KernelState) (p : Slot) (entry : Process) : KernelState :=
  { s with ptable := Function.update s.ptable p entry }

def updateSlot (p : Slot) (change : Process → Process) : Prog KernelState Unit :=
  modify fun s => setSlot s p (change (s.ptable p))

def setState (p : Slot) (state : ProcessState) : Prog KernelState Unit := updateSlot p ({ · with state := state })

def processInit : Prog KernelState Unit := onCpu (initlock .ptable)

def findUnused (s : KernelState) : Option Slot :=
  (List.finRange NPROC).find? fun p => (s.ptable p).state = .unused

def takePid (p : Slot) : Prog KernelState Unit := do
  let pid := (← get).nextpid
  updateSlot p ({ · with pid := pid })
  modify fun s => { s with nextpid := s.nextpid + 1#16 }

/-- `p->kstack = kalloc()`, returned as well. -/
def takeKstack (p : Slot) : Prog KernelState Addr := do
  let kstack ← kalloc
  updateSlot p ({ · with kstack := kstack })
  return kstack

/-- Room for the trap frame at the top of the stack, below it the return address
into `trapret`, below that the context `swtch` pops. -/
def layoutKstack (image : Image) (p : Slot) : Prog KernelState Unit := do
  let sp := ((← get).ptable p).kstack + KSTACKSIZE
  let sp := sp - BitVec.ofNat 32 interruptStateSize
  updateSlot p ({ · with tf := sp })
  let sp := sp - 4#32
  store32 sp image.trapret
  let sp := sp - BitVec.ofNat 32 contextSize
  updateSlot p ({ · with context := sp })
  modify fun s => s.setMem (memset s.mem sp 0#8 contextSize)
  store32 (sp + ContextField.eip.offset) image.enterProcess

def processAlloc (image : Image) : Prog KernelState (Option Slot) := do
  onCpu (acquire .ptable)
  match findUnused (← get) with
  | none =>
    onCpu (release .ptable)
    warn "new_process: process table is full, no free slot" []
    return none
  | some p =>
    setState p .initial
    takePid p
    onCpu (release .ptable)
    if (← takeKstack p) = 0#32 then do
      setState p .unused
      warn "new_process: failed to allocate kernel stack page" []
      return none
    else do
      layoutKstack image p
      return some p

/-- `assert(p != NULL)` of the caller. -/
def assertSlot : Option Slot → Prog KernelState Slot
  | none => assertFail "initproc_init" "kernel/proc.c" 126
  | some p => pure p

/-- `initproc = p; if((p->pgdir = setupkvm()) == 0) panic(..)` -/
def takePgdir (p : Slot) : Prog KernelState Unit := do
  modify fun s => { s with initproc := some p }
  let pgdir ← setupkvm
  updateSlot p ({ · with pgdir := pgdir })
  if pgdir = 0#32 then kpanic "initproc: out of memory?" else pure ()

def loadImage (image : Image) (p : Slot) : Prog KernelState Unit := do
  inituvm ((← get).ptable p).pgdir image.userInitStart image.userInitSize

def FL_IF : Word := 0x200#32

/-- The size, and a trap frame that starts user code at address 0. -/
def initFrame (p : Slot) : Prog KernelState Unit := do
  updateSlot p ({ · with sz := PGSIZE })
  let tf := ((← get).ptable p).tf
  modify fun s => s.setMem (memset s.mem tf 0#8 interruptStateSize)
  store32 (tf + TrapField.cs.offset) 0x1b#32
  store32 (tf + TrapField.ds.offset) 0x23#32
  store32 (tf + TrapField.ss.offset) 0x23#32
  store32 (tf + TrapField.eflags.offset) FL_IF
  store32 (tf + TrapField.esp.offset) PGSIZE
  store32 (tf + TrapField.eip.offset) 0#32

def initprocInit (image : Image) : Prog KernelState Unit := do
  let p ← assertSlot (← processAlloc image)
  takePgdir p
  loadImage image p
  initFrame p
  onCpu (acquire .ptable)
  setState p .runnable
  onCpu (release .ptable)

def enterProcess : Prog KernelState Unit := onCpu (release .ptable)

def myproc : Prog KernelState (Option Slot) := do
  onCpu pushcli
  let _ ← onCpu mycpu
  let p := (← get).proc
  onCpu popcli
  return p

/-- A null process pointer is not mapped. -/
def deref : Option Slot → Prog KernelState Slot
  | none => kpanic "page fault not handled!"
  | some p => pure p

/-- `enter_scheduler` up to its `swtch`: the interrupt state it keeps in a local. -/
def enterScheduler : Prog KernelState Bool := do
  if !(← onCpu (holding .ptable)) then kpanic "sched ptable.lock" else
  let _ ← onCpu mycpu
  if (← get).cpu.ncli ≠ 1 then kpanic "sched locks" else
  let p ← deref (← myproc)
  if ((← get).ptable p).state = .running then kpanic "sched running" else
  if ← onCpu readeflags then kpanic "sched interruptible" else
  let _ ← onCpu mycpu
  let intena := (← get).cpu.intena
  let _ ← onCpu mycpu
  return intena

/-- `enter_scheduler` from its `swtch` on. -/
def resumeScheduled (intena : Bool) : Prog KernelState Unit := do
  let _ ← onCpu mycpu
  modify fun s => s.setCpu { s.cpu with intena := intena }

/-- `exit` up to its `acquire`. -/
def exitBegin : Prog KernelState (Option Slot) := do
  let p ← myproc
  if p = (← get).initproc then warn "init exiting" [] else pure ()
  return p

def exitStatus (p : Option Slot) (status : Word) : Prog KernelState Slot := do
  let p ← deref p
  updateSlot p ({ · with xstate := status })
  return p

/-- The task segment's descriptor, its I/O map base and the task register are the
processor's business and never change afterwards. -/
def switchuvm (p : Option Slot) : Prog KernelState Unit :=
  match p with
  | none => kpanic "switchuvm: no process"
  | some p => do
    let entry := (← get).ptable p
    if entry.kstack = 0#32 then kpanic "switchuvm: no kstack" else
    if entry.pgdir = 0#32 then kpanic "switchuvm: no pgdir" else
    onCpu pushcli
    let _ ← onCpu mycpu
    modify fun s => { s with ss0 := 0x10#16 }
    let _ ← onCpu mycpu
    modify fun s => { s with esp0 := entry.kstack + KSTACKSIZE }
    pagingSwitchPgdir (V2P entry.pgdir)
    onCpu popcli

def switchkvm : Prog KernelState Unit := do pagingSwitchPgdir (V2P (← get).kpgdir)

@[simp] theorem setSlot_same (s : KernelState) (p : Slot) (entry : Process) : (setSlot s p entry).ptable p = entry := by
  simp [setSlot]

@[simp] theorem setSlot_setSlot (s : KernelState) (p : Slot) (first second : Process) :
    setSlot (setSlot s p first) p second = setSlot s p second := by simp [setSlot]

@[simp] theorem setSlot_put (s : KernelState) (p : Slot) (entry : Process) (m : Mem) (c : Processor) (f : Addr) :
    setSlot (s.put m c f) p entry = (setSlot s p entry).put m c f := rfl

@[simp] theorem run_updateSlot (p : Slot) (change : Process → Process) (s : KernelState) :
    (updateSlot p change).run s = .ok () (setSlot s p (change (s.ptable p))) := rfl

@[simp] theorem run_setState (p : Slot) (state : ProcessState) (s : KernelState) :
    (setState p state).run s = .ok () (setSlot s p { s.ptable p with state := state }) := rfl

/-- Where `process_alloc` puts the trap frame, the return address and the context. -/
def tfOf (kstack : Addr) : Addr := kstack + KSTACKSIZE - BitVec.ofNat 32 interruptStateSize
def contextOf (kstack : Addr) : Addr := tfOf kstack - 4#32 - BitVec.ofNat 32 contextSize

/-- The stack of a new process. -/
def firstStack (image : Image) (m : Mem) (kstack : Addr) : Mem :=
  write32 (memset (write32 m (tfOf kstack - 4#32) image.trapret) (contextOf kstack) 0#8 contextSize)
    (contextOf kstack + ContextField.eip.offset) image.enterProcess

theorem run_layoutKstack (image : Image) (p : Slot) (s : KernelState) :
    (layoutKstack image p).run s = .ok () ((setSlot s p { s.ptable p with
      tf := tfOf (s.ptable p).kstack, context := contextOf (s.ptable p).kstack }).setMem
        (firstStack image s.mem (s.ptable p).kstack)) := by
  unfold layoutKstack
  rw [run_bind_ok (EStateM.run_get s), run_bind_ok (run_updateSlot _ _ _), run_bind_ok (run_store32 _ _ _),
    run_bind_ok (run_updateSlot _ _ _), run_bind_ok (EStateM.run_modify _ _), run_store32]
  simp [firstStack, tfOf, contextOf, KernelState.setMem]

theorem run_takePid (p : Slot) (s : KernelState) :
    (takePid p).run s = .ok () { setSlot s p { s.ptable p with pid := s.nextpid } with nextpid := s.nextpid + 1#16 } :=
  rfl

theorem run_initFrame (p : Slot) (s : KernelState) :
    ∃ m, (initFrame p).run s = .ok () ((setSlot s p { s.ptable p with sz := PGSIZE }).setMem m) :=
  ⟨_, rfl⟩

theorem run_exitStatus (p : Slot) (status : Word) (s : KernelState) :
    (exitStatus (some p) status).run s = .ok p (setSlot s p { s.ptable p with xstate := status }) := rfl

theorem run_myproc (s : KernelState) (calm : Calm s.cpu) :
    myproc.run s = .ok s.proc (s.setCpu (settle s.cpu)) := by
  have depth := calm.depth
  have room := calm.room
  have pushed := run_onCpu_ok (s := s) (run_pushcli s.cpu depth (by omega))
  unfold myproc
  rw [run_bind_ok pushed, run_bind_ok (run_onCpu_ok (run_mycpu _ rfl)), run_bind_ok (EStateM.run_get _),
    run_bind_ok (run_onCpu_ok (run_popcli _ rfl (by change 1 ≤ s.cpu.ncli + 1; omega) (by change s.cpu.ncli + 1 < 2 ^ 31; omega)))]
  rw [EStateM.run_pure]
  by_cases outer : s.cpu.ncli = 0
  · simp [settle, outer, KernelState.setCpu]
  · have masked := calm.masked (by omega)
    simp [settle, outer, masked, KernelState.setCpu]

theorem run_warn (text : String) (args : List Word) (s : KernelState) (quiet : Quiet s.cpu)
    (simple : plain (cstring ("WARN: " ++ text ++ "\n")) = true) :
    ∃ chars cpu, Settled s.cpu cpu ∧ (warn text args).run s = .ok () ((s.print chars).setCpu cpu) :=
  run_cprintf_plain _ args s quiet simple

section Alloc
variable (image : Image) {s : KernelState} {p : Slot}

/-- The slot and the number are taken before the stack is asked for. -/
def claimed (s : KernelState) (p : Slot) : KernelState :=
  { setSlot s p { s.ptable p with state := .initial, pid := s.nextpid } with nextpid := s.nextpid + 1#16 }

theorem run_processAlloc_full (quiet : Quiet s.cpu) (found : findUnused s = none) :
    ∃ chars cpu, (processAlloc image).run s = .ok none ((s.print chars).setCpu cpu) := by
  obtain ⟨inside, enter, leave⟩ := run_release_acquire .ptable s.cpu quiet.toCalm (quiet.free .ptable)
  obtain ⟨chars, cpu, -, warned⟩ := run_warn "new_process: process table is full, no free slot" []
    (s.setCpu (settle s.cpu)) quiet.settle (by decide)
  refine ⟨chars, cpu, ?_⟩
  have found' : findUnused (s.setCpu inside) = none := found
  unfold processAlloc
  rw [run_bind_ok (run_onCpu_ok enter), run_bind_ok (EStateM.run_get _)]
  simp only [found']
  have same : (s.setCpu inside).setCpu (settle s.cpu) = s.setCpu (settle s.cpu) := rfl
  rw [run_bind_ok (run_onCpu_ok leave), same, run_bind_ok warned]
  rfl

/-- The part that runs with the lock held. -/
theorem run_processAlloc_claim (quiet : Quiet s.cpu) (found : findUnused s = some p) :
    (processAlloc image).run s = EStateM.run (do
      if (← takeKstack p) = 0#32 then do
        setState p .unused
        warn "new_process: failed to allocate kernel stack page" []
        return none
      else do
        layoutKstack image p
        return some p) ((claimed s p).setCpu (settle s.cpu)) := by
  obtain ⟨inside, enter, leave⟩ := run_release_acquire .ptable s.cpu quiet.toCalm (quiet.free .ptable)
  have found' : findUnused (s.setCpu inside) = some p := found
  unfold processAlloc
  rw [run_bind_ok (run_onCpu_ok enter), run_bind_ok (EStateM.run_get _)]
  simp only [found']
  rw [run_bind_ok (run_setState _ _ _), run_bind_ok (run_takePid _ _), run_bind_ok (run_onCpu_ok leave)]
  simp [claimed, setSlot, KernelState.put]

theorem heap_claimed {free : List Addr} (heap : Heap s free) : Heap ((claimed s p).setCpu (settle s.cpu)) free :=
  ⟨heap.quiet.settle, heap.sentinel, heap.chain, heap.distinct, heap.frames⟩

theorem run_processAlloc_nil (heap : Heap s []) (found : findUnused s = some p) :
    ∃ chars cpu, (processAlloc image).run s = .ok none
      (((setSlot (claimed s p) p { (claimed s p).ptable p with kstack := 0#32, state := .unused }).print chars).setCpu cpu) := by
  obtain ⟨cpu, empty, rest⟩ := run_kalloc_nil _ (heap_claimed (p := p) heap)
  rw [run_processAlloc_claim image heap.quiet found, takeKstack, bind_assoc, run_bind_ok empty, bind_assoc,
    run_bind_ok (run_updateSlot _ _ _), pure_bind, run_ite, if_pos rfl, run_bind_ok (run_setState _ _ _)]
  generalize after : setSlot _ p _ = t
  have quiet : Quiet t.cpu := by
    rw [← after]
    exact rest.quiet
  obtain ⟨chars, cpu', -, warned⟩ := run_warn "new_process: failed to allocate kernel stack page" [] t quiet (by decide)
  refine ⟨chars, cpu', ?_⟩
  rw [run_bind_ok warned, ← after]
  simp [setSlot, KernelState.put, KernelState.print]

theorem run_processAlloc_cons {kstack : Addr} {others : List Addr} (heap : Heap s (kstack :: others))
    (found : findUnused s = some p) :
    ∃ cpu freelist, (processAlloc image).run s = .ok (some p)
      ((setSlot (claimed s p) p { (claimed s p).ptable p with
        kstack := kstack, tf := tfOf kstack, context := contextOf kstack }).put (firstStack image s.mem kstack) cpu freelist) := by
  obtain ⟨cpu, taken, -⟩ := run_kalloc_cons _ kstack others (heap_claimed (p := p) heap)
  have real : kstack ≠ 0#32 := (heap.frames kstack (by simp)).ne_zero heap.sentinel
  rw [run_processAlloc_claim image heap.quiet found, takeKstack, bind_assoc, run_bind_ok taken, bind_assoc,
    run_bind_ok (run_updateSlot _ _ _), pure_bind, run_ite, if_neg real, run_bind_ok (run_layoutKstack _ _ _)]
  refine ⟨cpu, read32 s.mem kstack, ?_⟩
  simp [setSlot, KernelState.put, claimed]

/-- A new process has a page of the allocator for its kernel stack, with the first frame laid out on it. -/
theorem processAlloc_some {image : Image} {s' : KernelState} {free : List Addr} (heap : Heap s free)
    (ran : (processAlloc image).run s = .ok (some p) s') :
    ∃ kstack ∈ free, (s'.ptable p).kstack = kstack ∧ (s'.ptable p).tf = tfOf kstack ∧
      (s'.ptable p).context = contextOf kstack ∧ s'.mem = firstStack image s.mem kstack := by
  cases found : findUnused s with
  | none =>
    obtain ⟨chars, cpu, other⟩ := run_processAlloc_full image heap.quiet found
    rw [other] at ran
    cases ran
  | some q =>
    cases free with
    | nil =>
      obtain ⟨chars, cpu, other⟩ := run_processAlloc_nil image heap found
      rw [other] at ran
      cases ran
    | cons kstack others =>
      obtain ⟨cpu, freelist, other⟩ := run_processAlloc_cons image heap found
      rw [other] at ran
      cases ran
      refine ⟨kstack, by simp, ?_⟩
      simp

end Alloc

/-- `switchuvm` up to where it loads the directory. -/
theorem run_switchuvm {s : KernelState} {p : Slot} (kstack : (s.ptable p).kstack ≠ 0#32)
    (pgdir : (s.ptable p).pgdir ≠ 0#32) :
    (switchuvm (some p)).run s =
      (do pagingSwitchPgdir (V2P (s.ptable p).pgdir); onCpu popcli : Prog KernelState Unit).run (KernelState.setCpu
        { s with ss0 := 0x10#16, esp0 := (s.ptable p).kstack + KSTACKSIZE }
        { settle s.cpu with flIf := false, ncli := int32 (s.cpu.ncli + 1) }) := by
  unfold switchuvm
  rw [run_bind_ok (EStateM.run_get s)]
  simp only [kstack, pgdir, if_false]
  rw [run_bind_ok (run_onCpu_ok (run_pushcli_int s.cpu)), run_bind_ok (run_onCpu_ok (run_mycpu _ rfl)),
    run_bind_ok (EStateM.run_modify _ _), run_bind_ok (run_onCpu_ok (run_mycpu _ rfl)),
    run_bind_ok (EStateM.run_modify _ _)]
  rfl

/-- The stack the processor switches to on a trap from the process. -/
theorem switchuvm_stack {s s' : KernelState} {p : Slot} (ran : (switchuvm (some p)).run s = .ok () s') :
    s'.esp0 = (s.ptable p).kstack + KSTACKSIZE ∧ s'.ss0 = 0x10#16 := by
  have kstack : (s.ptable p).kstack ≠ 0#32 := by
    intro zero
    simp [switchuvm, zero] at ran
  have pgdir : (s.ptable p).pgdir ≠ 0#32 := by
    intro zero
    simp [switchuvm, zero, kstack] at ran
  rw [run_switchuvm kstack pgdir] at ran
  obtain ⟨_, t, loaded, ran⟩ := run_bind_eq_ok ran
  obtain rfl := pagingSwitchPgdir_eq_ok loaded
  obtain ⟨_, rfl⟩ := onCpu_eq_ok ran
  exact ⟨rfl, rfl⟩

theorem findUnused_unused {s : KernelState} {p : Slot} (found : findUnused s = some p) :
    (s.ptable p).state = .unused := by
  have matched := List.find?_some found
  simpa using matched

theorem findUnused_isSome {s : KernelState} {p : Slot} (unused : (s.ptable p).state = .unused) :
    ∃ q, findUnused s = some q := by
  rw [← Option.isSome_iff_exists, findUnused, List.find?_isSome]
  exact ⟨p, List.mem_finRange p, by simpa using unused⟩

end OsDev.Kernel.Proc
