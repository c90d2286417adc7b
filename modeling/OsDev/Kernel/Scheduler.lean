import OsDev.Kernel.Proc

/-! The scheduler and the process threads as program points, one piece of
kernel/proc.c between two of them. Which thread a context belongs to is taken
for granted here: `swtch` hands the CPU to the thread that saved the context. -/

namespace OsDev.Kernel.Scheduler
open OsDev.Machine.Memory OsDev.Machine.Program OsDev.Kernel.SpinLocks OsDev.Kernel.Mmu OsDev.Kernel.State
  OsDev.Kernel.Proc

/-- Points of `process_alloc` and of what `initproc_init` does afterwards. -/
inductive Creation where
  | lock
  | scan
  | noSlot
  | full
  | claim (p : Slot)
  | number (p : Slot)
  | unlock (p : Slot)
  | stack (p : Slot)
  | giveUp (p : Slot)
  | noStack
  | layout (p : Slot)
  | directory (p : Slot)
  | image (p : Slot)
  | frame (p : Slot)
  | publish (p : Slot)
  | runnable (p : Slot)
  | finish
  deriving DecidableEq

/-- The piece that starts at a point, and the point after it, if any. -/
def createCode (image : Image) : Creation → Prog KernelState (Option Creation)
  | .lock => do
    onCpu (acquire .ptable)
    return some .scan
  | .scan => do
    match findUnused (← get) with
    | none => return some .noSlot
    | some p => return some (.claim p)
  | .noSlot => do
    onCpu (release .ptable)
    return some .full
  | .full => do
    warn "new_process: process table is full, no free slot" []
    let _ ← assertSlot none
    return none
  | .claim p => do
    setState p .initial
    return some (.number p)
  | .number p => do
    takePid p
    return some (.unlock p)
  | .unlock p => do
    onCpu (release .ptable)
    return some (.stack p)
  | .stack p => do
    if (← takeKstack p) = 0#32 then return some (.giveUp p) else return some (.layout p)
  | .giveUp p => do
    setState p .unused
    return some .noStack
  | .noStack => do
    warn "new_process: failed to allocate kernel stack page" []
    let _ ← assertSlot none
    return none
  | .layout p => do
    layoutKstack image p
    return some (.directory p)
  | .directory p => do
    takePgdir p
    return some (.image p)
  | .image p => do
    loadImage image p
    return some (.frame p)
  | .frame p => do
    initFrame p
    return some (.publish p)
  | .publish p => do
    onCpu (acquire .ptable)
    return some (.runnable p)
  | .runnable p => do
    setState p .runnable
    return some .finish
  | .finish => do
    onCpu (release .ptable)
    return none

/-- The points one after the other. -/
def createRun (image : Image) : Nat → Creation → Prog KernelState Unit
  | 0, _ => throw .spin
  | fuel + 1, c => do
    match ← createCode image c with
    | some next => createRun image fuel next
    | none => pure ()

/-- From `setupkvm` on there is only one way. -/
theorem createRun_directory (image : Image) (p : Slot) : createRun image 6 (.directory p) = (do
    takePgdir p
    loadImage image p
    initFrame p
    onCpu (acquire .ptable)
    setState p .runnable
    onCpu (release .ptable)) := by
  simp only [createRun, createCode, bind_assoc, pure_bind, bind_pure_unit]

theorem createRun_stack (image : Image) (p : Slot) : createRun image 8 (.stack p) = (do
    let kstack ← takeKstack p
    if kstack = 0#32 then do
      setState p .unused
      warn "new_process: failed to allocate kernel stack page" []
      let _ ← assertSlot none
      pure ()
    else do
      layoutKstack image p
      createRun image 6 (.directory p)) := by
  rw [createRun]
  simp only [createCode, bind_assoc]
  congr 1
  funext kstack
  split
  · simp only [pure_bind]
    rw [createRun]
    simp only [createCode, bind_assoc, pure_bind]
    rw [createRun]
    simp only [createCode, bind_assoc, pure_bind]
  · simp only [pure_bind]
    rw [createRun]
    simp only [createCode, bind_assoc, pure_bind]

/-- Cutting `process_alloc` and `initproc_init` into points changes nothing. -/
theorem createRun_eq (image : Image) : createRun image 13 .lock = initprocInit image := by
  rw [createRun, initprocInit, processAlloc]
  simp only [createCode, bind_assoc, pure_bind]
  congr 1
  funext _
  rw [createRun]
  simp only [createCode, bind_assoc]
  congr 1
  funext s
  cases findUnused s with
  | none =>
    simp only [pure_bind]
    rw [createRun]
    simp only [createCode, bind_assoc, pure_bind]
    rw [createRun]
    simp only [createCode, bind_assoc, assertSlot, Console.assertFail_bind]
  | some p =>
    simp only [pure_bind]
    rw [createRun]
    simp only [createCode, bind_assoc, pure_bind]
    rw [createRun]
    simp only [createCode, bind_assoc, pure_bind]
    rw [createRun]
    simp only [createCode, bind_assoc, pure_bind, createRun_stack, createRun_directory]
    congr 1
    funext _
    congr 1
    funext _
    congr 1
    funext _
    congr 1
    funext kstack
    split
    · simp only [bind_assoc, pure_bind, assertSlot, Console.assertFail_bind]
    · simp only [bind_assoc, pure_bind, assertSlot]

/-- Points of the boot thread, which ends in `scheduler`. -/
inductive MainPoint where
  | boot
  | creating (c : Creation)
  | enter
  | loop
  | lock
  | scan (i : Nat)
  | chosen (p : Slot)
  | switched (p : Slot)
  | leave (p : Slot)
  /-- Inside the `swtch` to the process. -/
  | away (p : Slot)
  | back (p : Slot)
  | cleared (p : Slot)

def mainCode (image : Image) : MainPoint → Option (Prog KernelState MainPoint)
  | .boot | .leave _ | .away _ => none
  | .creating c => some do
    match ← createCode image c with
    | some next => return .creating next
    | none => return .boot
  | .enter => some do
    let _ ← onCpu mycpu
    modify fun s => { s with proc := none }
    return .loop
  | .loop => some do
    onCpu sti
    return .lock
  | .lock => some do
    onCpu (acquire .ptable)
    return .scan 0
  | .scan i => some (
    if bound : i < NPROC then do
      if ((← get).ptable ⟨i, bound⟩).state ≠ .runnable then return .scan (i + 1) else
      modify fun s => { s with proc := some ⟨i, bound⟩ }
      return .chosen ⟨i, bound⟩
    else do
      onCpu (release .ptable)
      return .loop)
  | .chosen p => some do
    switchuvm (some p)
    return .switched p
  | .switched p => some do
    setState p .running
    return .leave p
  | .back p => some do
    switchkvm
    return .cleared p
  | .cleared p => some do
    modify fun s => { s with proc := none }
    return .scan (p.val + 1)

/-- Points of a process thread. -/
inductive ProcPoint where
  | absent
  | enter
  | kernel
  | user
  /-- At the start of `syscall_handler`. -/
  | trap (tf : Addr)
  | creating (c : Creation)
  | exit (status : Word)
  | exitLock (p : Option Slot) (status : Word)
  | exitMark (p : Option Slot) (status : Word)
  | exitZombie (p : Slot)
  | sched
  | swtch (intena : Bool)
  /-- Inside the `swtch` to the scheduler. -/
  | gone (intena : Bool)
  | resumed (intena : Bool)
  | zombie

def procCode (image : Image) : ProcPoint → Option (Prog KernelState ProcPoint)
  | .absent | .kernel | .user | .swtch _ | .gone _ => none
  | .enter => some do
    enterProcess
    return .kernel
  | .trap tf => some do
    let p ← deref (← myproc)
    updateSlot p ({ · with tf := tf })
    return .kernel
  | .creating c => some do
    match ← createCode image c with
    | some next => return .creating next
    | none => return .kernel
  | .exit status => some do
    let p ← exitBegin
    return .exitLock p status
  | .exitLock p status => some do
    onCpu (acquire .ptable)
    return .exitMark p status
  | .exitMark p status => some do
    let p ← exitStatus p status
    return .exitZombie p
  | .exitZombie p => some do
    setState p .zombie
    return .sched
  | .sched => some do
    let intena ← enterScheduler
    return .swtch intena
  | .resumed intena => some do
    resumeScheduled intena
    return .zombie
  | .zombie => some (kpanic "zombie exit")

/-- The thread that has the CPU is the boot thread when `running` is empty. A
panic ends everything; what the piece that panicked had written is not kept. -/
structure System where
  kernel : KernelState
  running : Option Slot
  main : MainPoint
  procs : Slot → ProcPoint
  stopped : Option String

/-- Once the first context is on its stack, a new process can be switched to. -/
def spawn (procs : Slot → ProcPoint) : Creation → Slot → ProcPoint
  | .layout p => Function.update procs p .enter
  | _ => procs

def MainPoint.spawn (procs : Slot → ProcPoint) : MainPoint → Slot → ProcPoint
  | .creating c => Scheduler.spawn procs c
  | _ => procs

def ProcPoint.spawn (procs : Slot → ProcPoint) : ProcPoint → Slot → ProcPoint
  | .creating c => Scheduler.spawn procs c
  | _ => procs

/-- Where a thread goes on when its context is switched to. -/
def ProcPoint.resume : ProcPoint → ProcPoint
  | .gone intena => .resumed intena
  | point => point

inductive Step (image : Image) : System → System → Prop where
  | main {σ : System} {code : Prog KernelState MainPoint} {next : MainPoint} {t : KernelState}
      (live : σ.stopped = none) (turn : σ.running = none) (piece : mainCode image σ.main = some code)
      (ran : code.run σ.kernel = .ok next t) :
      Step image σ { σ with kernel := t, main := next, procs := σ.main.spawn σ.procs }
  | mainPanic {σ : System} {code : Prog KernelState MainPoint} {message : String} {t : KernelState}
      (live : σ.stopped = none) (turn : σ.running = none) (piece : mainCode image σ.main = some code)
      (ran : code.run σ.kernel = .error (.panic message) t) : Step image σ { σ with stopped := some message }
  | proc {σ : System} {code : Prog KernelState ProcPoint} {next : ProcPoint} {t : KernelState} (q : Slot)
      (live : σ.stopped = none) (turn : σ.running = some q) (piece : procCode image (σ.procs q) = some code)
      (ran : code.run σ.kernel = .ok next t) :
      Step image σ { σ with kernel := t, procs := Function.update ((σ.procs q).spawn σ.procs) q next }
  | procPanic {σ : System} {code : Prog KernelState ProcPoint} {message : String} {t : KernelState} (q : Slot)
      (live : σ.stopped = none) (turn : σ.running = some q) (piece : procCode image (σ.procs q) = some code)
      (ran : code.run σ.kernel = .error (.panic message) t) : Step image σ { σ with stopped := some message }
  /-- `main` creates another process. -/
  | create {σ : System} (live : σ.stopped = none) (turn : σ.running = none) (here : σ.main = .boot) :
      Step image σ { σ with main := .creating .lock }
  | scheduler {σ : System} (live : σ.stopped = none) (turn : σ.running = none) (here : σ.main = .boot) :
      Step image σ { σ with main := .enter }
  /-- The scheduler's `swtch(&(c->scheduler), p->context)`. -/
  | dispatch {σ : System} (p : Slot) (live : σ.stopped = none) (turn : σ.running = none) (here : σ.main = .leave p) :
      Step image σ { σ with
        running := some p, main := .away p, procs := Function.update σ.procs p (σ.procs p).resume }
  /-- The `swtch(&p->context, mycpu()->scheduler)` of `enter_scheduler`. -/
  | swtch {σ : System} {intena : Bool} (q p : Slot) (live : σ.stopped = none) (turn : σ.running = some q)
      (here : σ.procs q = .swtch intena) (waits : σ.main = .away p) :
      Step image σ { σ with running := none, main := .back p, procs := Function.update σ.procs q (.gone intena) }
  /-- `trapret` and `iret`, with any saved interrupt flag. -/
  | iret {σ : System} (q : Slot) (flag : Bool) (live : σ.stopped = none) (turn : σ.running = some q)
      (here : σ.procs q = .kernel) :
      Step image σ { σ with
        kernel := σ.kernel.setCpu { σ.kernel.cpu with flIf := flag }, procs := Function.update σ.procs q .user }
  /-- The trap of a system call writes its frame into memory and keeps the interrupt flag. -/
  | syscall {σ : System} (q : Slot) (m : Mem) (tf : Addr) (live : σ.stopped = none) (turn : σ.running = some q)
      (here : σ.procs q = .user) :
      Step image σ { σ with kernel := σ.kernel.setMem m, procs := Function.update σ.procs q (.trap tf) }
  /-- What else a process does: its own memory, the console. -/
  | work {σ : System} (q : Slot) (m : Mem) (chars : List Word) (live : σ.stopped = none) (turn : σ.running = some q)
      (here : σ.procs q = .kernel ∨ σ.procs q = .user) :
      Step image σ { σ with kernel := (σ.kernel.print chars).setMem m }
  | exit {σ : System} (q : Slot) (status : Word) (live : σ.stopped = none) (turn : σ.running = some q)
      (here : σ.procs q = .kernel) : Step image σ { σ with procs := Function.update σ.procs q (.exit status) }
  /-- A process creates another one, as `main` does. -/
  | fork {σ : System} (q : Slot) (live : σ.stopped = none) (turn : σ.running = some q) (here : σ.procs q = .kernel) :
      Step image σ { σ with procs := Function.update σ.procs q (.creating .lock) }

/-- After `paging_init` and `process_init`: the kernel's page directory is in use,
no lock is taken and every slot of the table is zero. -/
structure Initial (σ : System) : Prop where
  quiet : Quiet σ.kernel.cpu
  ncli : σ.kernel.cpu.ncli = 0
  proc : σ.kernel.proc = none
  cr3 : σ.kernel.cr3 = V2P σ.kernel.kpgdir
  unused : ∀ q, σ.kernel.ptable q = Process.zero
  running : σ.running = none
  main : σ.main = .boot
  procs : ∀ q, σ.procs q = .absent
  stopped : σ.stopped = none

end OsDev.Kernel.Scheduler
