import OsDev.Kernel.MemoryFrame
import OsDev.Kernel.Scheduler

/-! The process table, the CPU record, CR3 and the task segment over whole runs
of the scheduler, stated at each program point. -/

namespace OsDev.Kernel.SchedulerRuns
open OsDev.Machine.Memory OsDev.Machine.Program OsDev.Kernel.SpinLocks OsDev.Kernel.Mmu OsDev.Kernel.State
  OsDev.Kernel.Console OsDev.Kernel.MemoryFrame OsDev.Kernel.Paging OsDev.Kernel.Proc OsDev.Kernel.Scheduler

/-- The moves of a slot of the process table. -/
inductive Moves : ProcessState → ProcessState → Prop where
  | stay (state : ProcessState) : Moves state state
  | claim : Moves .unused .initial
  | giveUp : Moves .initial .unused
  | publish : Moves .initial .runnable
  | dispatch : Moves .runnable .running
  | exit : Moves .running .zombie

/-- The panics that would report a broken process table. -/
def dispatchPanics : List String :=
  ["switchuvm: no process", "switchuvm: no kstack", "switchuvm: no pgdir", "zombie exit"]

def Allowed (stop : Stop) : Prop := ∀ message ∈ dispatchPanics, stop ≠ .panic message

instance (stop : Stop) : Decidable (Allowed stop) :=
  inferInstanceAs (Decidable (∀ message ∈ dispatchPanics, stop ≠ .panic message))

/-- `ptable.lock` is held, and nothing else. -/
structure Locked (p : Processor) : Prop where
  ncli : p.ncli = 1
  flIf : p.flIf = false
  taken : p.locks .ptable = taken
  others : ∀ lk, lk ≠ .ptable → p.locks lk = unlocked

structure Free (p : Processor) : Prop extends Quiet p where
  ncli : p.ncli = 0

/-- What the points of the scheduler and of a process say about is all the same. -/
structure SameTable (s t : KernelState) : Prop where
  proc : t.proc = s.proc
  cr3 : t.cr3 = s.cr3
  esp0 : t.esp0 = s.esp0
  kpgdir : t.kpgdir = s.kpgdir
  ptable : t.ptable = s.ptable

def NoneRunning (s : KernelState) : Prop := ∀ q, (s.ptable q).state ≠ .running

/-- Between dispatches. -/
structure Scanning (s : KernelState) : Prop where
  proc : s.proc = none
  cr3 : s.cr3 = V2P s.kpgdir
  idle : NoneRunning s

/-- The CPU is set up for the process. -/
structure Dressed (s : KernelState) (p : Slot) : Prop where
  proc : s.proc = some p
  cr3 : s.cr3 = V2P (s.ptable p).pgdir
  esp0 : s.esp0 = (s.ptable p).kstack + KSTACKSIZE

/-- The CPU belongs to the process, which is the only one that is RUNNING. -/
structure Owns (s : KernelState) (p : Slot) : Prop extends Dressed s p where
  only : ∀ q, (s.ptable q).state = .running ↔ q = p

/-- A RUNNABLE process can be switched to. -/
def Table (s : KernelState) (procs : Slot → ProcPoint) : Prop :=
  ∀ q, (s.ptable q).state = .runnable →
    (s.ptable q).kstack ≠ 0#32 ∧ (s.ptable q).pgdir ≠ 0#32 ∧ procs q = .enter

theorem SameTable.scanning {s t : KernelState} (same : SameTable s t) (scan : Scanning s) : Scanning t :=
  ⟨same.proc.trans scan.proc, by rw [same.cr3, same.kpgdir, scan.cr3], fun q => by rw [same.ptable]; exact scan.idle q⟩

theorem SameTable.dressed {s t : KernelState} {p : Slot} (same : SameTable s t) (dressed : Dressed s p) :
    Dressed t p :=
  ⟨same.proc.trans dressed.proc, by rw [same.cr3, same.ptable, dressed.cr3],
    by rw [same.esp0, same.ptable, dressed.esp0]⟩

theorem SameTable.owns {s t : KernelState} {p : Slot} (same : SameTable s t) (owns : Owns s p) : Owns t p :=
  ⟨same.dressed owns.toDressed, fun q => by rw [same.ptable]; exact owns.only q⟩

theorem SameTable.table {s t : KernelState} {procs : Slot → ProcPoint} (same : SameTable s t)
    (table : Table s procs) : Table t procs := by
  intro q
  rw [same.ptable]
  exact table q

theorem sameTable_put (s : KernelState) (m : Mem) (c : Processor) (f : Addr) : SameTable s (s.put m c f) :=
  ⟨rfl, rfl, rfl, rfl, rfl⟩

theorem sameTable_print (s : KernelState) (chars : List Word) (m : Mem) (c : Processor) (f : Addr) :
    SameTable s ((s.print chars).put m c f) :=
  ⟨rfl, rfl, rfl, rfl, rfl⟩

theorem Free.settled {p q : Processor} (free : Free p) (settled : Settled p q) : Free q :=
  ⟨settled.quiet, settled.ncli.trans free.ncli⟩

theorem Free.acquire {s : KernelState} (free : Free s.cpu) :
    ∃ c, (onCpu (acquire .ptable)).run s = .ok () (s.setCpu c) ∧ Locked c := by
  refine ⟨_, run_onCpu_ok (run_acquire .ptable s.cpu free.toCalm (by simp [free.free, unlocked])), ?_⟩
  refine ⟨?_, rfl, by simp, fun lk ne => ?_⟩
  · change s.cpu.ncli + 1 = 1
    rw [free.ncli]
    rfl
  · rw [setLock_other _ _ _ _ ne]
    exact free.free lk

theorem Locked.release {s : KernelState} (locked : Locked s.cpu) :
    ∃ c, (onCpu (release .ptable)).run s = .ok () (s.setCpu c) ∧ Free c := by
  have held : Held (s.cpu.locks .ptable) := by simp [Held, locked.taken, SpinLocks.taken]
  refine ⟨_, run_onCpu_ok (run_release .ptable s.cpu locked.flIf (by rw [locked.ncli]) (by rw [locked.ncli]; decide) held), ?_⟩
  have zero : s.cpu.ncli - 1 = 0 := by rw [locked.ncli]; rfl
  refine ⟨⟨⟨by change 0 ≤ s.cpu.ncli - 1; omega, fun inside => ?_, by change s.cpu.ncli - 1 + 2 < 2 ^ 31; omega⟩, fun lk => ?_⟩,
    zero⟩
  · change 0 < s.cpu.ncli - 1 at inside
    omega
  · change (setLock .ptable unlocked s.cpu).locks lk = unlocked
    by_cases same : lk = .ptable
    · rw [same, setLock_self]
    · rw [setLock_other _ _ _ _ same]
      exact locked.others lk same

theorem yields_assertFail {α : Type} {function file : String} {line : Nat} {s : KernelState} {post : α → KernelState → Prop}
    (calm : Calm s.cpu) (free : s.cpu.locks .cons = unlocked) (simple : plain (cstring (place function file line)) = true) :
    Yields Allowed (assertFail function file line) post s := by
  obtain ⟨t, ran⟩ := run_assertFail calm free simple
  exact yields_error ran (by decide)

theorem yields_confined {α : Type} {code : Prog KernelState α} (confined : Confined code) {s : KernelState}
    (quiet : Quiet s.cpu) :
    Yields Allowed code (fun _ t => ∃ m c f, t = s.put m c f ∧ Settled s.cpu c) s := by
  have apart : ∀ message ∈ memoryPanics, Allowed (.panic message) := by decide
  unfold Yields
  cases outcome : code.run s with
  | ok a t => exact confined.returns s a t quiet outcome
  | error e t =>
    cases e with
    | spin => intro message _; simp
    | panic message => exact apart message (confined.stops s message t quiet outcome)

/-- What a piece of process creation may do to the table, for a thread that is itself in a process or in `main`. -/
structure Built (s t : KernelState) (procs procs' : Slot → ProcPoint) : Prop where
  proc : t.proc = s.proc
  cr3 : t.cr3 = s.cr3
  esp0 : t.esp0 = s.esp0
  kpgdir : t.kpgdir = s.kpgdir
  running : ∀ q, (s.ptable q).state = .running → t.ptable q = s.ptable q ∧ procs' q = procs q
  old : ∀ q, (t.ptable q).state = .running → (s.ptable q).state = .running
  moves : ∀ q, Moves (s.ptable q).state (t.ptable q).state
  table : Table t procs'

theorem Built.scanning {s t : KernelState} {procs procs' : Slot → ProcPoint} (built : Built s t procs procs')
    (scan : Scanning s) : Scanning t :=
  ⟨built.proc.trans scan.proc, by rw [built.cr3, built.kpgdir, scan.cr3],
    fun q running => scan.idle q (built.old q running)⟩

theorem Built.owns {s t : KernelState} {procs procs' : Slot → ProcPoint} {p : Slot} (built : Built s t procs procs')
    (owns : Owns s p) : Owns t p ∧ procs' p = procs p := by
  have mine := built.running p ((owns.only p).mpr rfl)
  refine ⟨⟨⟨built.proc.trans owns.proc, by rw [built.cr3, mine.1, owns.cr3], by rw [built.esp0, mine.1, owns.esp0]⟩,
    fun q => ⟨fun running => (owns.only q).mp (built.old q running), fun same => ?_⟩⟩, mine.2⟩
  rw [same, mine.1]
  exact (owns.only p).mpr rfl

theorem SameTable.built {s t : KernelState} {procs : Slot → ProcPoint} (same : SameTable s t) (table : Table s procs) :
    Built s t procs procs where
  proc := same.proc
  cr3 := same.cr3
  esp0 := same.esp0
  kpgdir := same.kpgdir
  running q _ := ⟨by rw [same.ptable], rfl⟩
  old q running := by rwa [same.ptable] at running
  moves q := by rw [same.ptable]; exact .stay _
  table := same.table table

/-- Only the slot under construction changes. -/
theorem built_slot {s t : KernelState} {p : Slot} {entry : Process} {procs procs' : Slot → ProcPoint}
    (same : SameTable (setSlot s p entry) t) (others : ∀ q, q ≠ p → procs' q = procs q)
    (before : (s.ptable p).state ≠ .running) (after : entry.state ≠ .running) (move : Moves (s.ptable p).state entry.state)
    (ready : entry.state = .runnable → entry.kstack ≠ 0#32 ∧ entry.pgdir ≠ 0#32 ∧ procs' p = .enter)
    (table : Table s procs) : Built s t procs procs' := by
  have slot : ∀ q, t.ptable q = if q = p then entry else s.ptable q := by
    intro q
    rw [same.ptable, setSlot_ptable, Function.update_apply]
  refine ⟨same.proc, same.cr3, same.esp0, same.kpgdir, fun q running => ?_, fun q running => ?_, fun q => ?_,
    fun q runnable => ?_⟩
  · have ne : q ≠ p := fun eq => before (eq ▸ running)
    exact ⟨by rw [slot, if_neg ne], others q ne⟩
  · rw [slot] at running
    split at running
    · exact absurd running after
    · exact running
  · rw [slot]
    split
    next eq => exact eq ▸ move
    next => exact .stay _
  · rw [slot] at runnable ⊢
    split at runnable
    next eq => rw [if_pos eq, eq]; exact ready runnable
    next ne => rw [if_neg ne, others q ne]; exact table q runnable

/-- A slot that stays INITIAL can be neither run nor dispatched, whatever is filled in. -/
theorem built_initial {s t : KernelState} {p : Slot} {entry : Process} {procs procs' : Slot → ProcPoint}
    (same : SameTable (setSlot s p entry) t) (others : ∀ q, q ≠ p → procs' q = procs q)
    (initial : (s.ptable p).state = .initial) (kept : entry.state = .initial) (table : Table s procs) :
    Built s t procs procs' := by
  apply built_slot same others
  · rw [initial]
    decide
  · rw [kept]
    decide
  · rw [initial, kept]
    exact .stay _
  · intro runnable
    rw [kept] at runnable
    cases runnable
  · exact table

/-- The lock is held from the scan to the number, and around the last write. -/
def holds : Creation → Bool
  | .scan | .noSlot | .claim _ | .number _ | .unlock _ | .runnable _ | .finish => true
  | _ => false

/-- What has been built so far. -/
def Progress (s : KernelState) (procs : Slot → ProcPoint) : Creation → Prop
  | .lock | .scan | .noSlot | .full | .noStack | .finish => True
  | .claim p => (s.ptable p).state = .unused
  | .number p | .unlock p | .stack p | .giveUp p => (s.ptable p).state = .initial
  | .layout p => (s.ptable p).state = .initial ∧ (s.ptable p).kstack ≠ 0#32
  | .directory p => (s.ptable p).state = .initial ∧ (s.ptable p).kstack ≠ 0#32 ∧ procs p = .enter
  | .image p | .frame p | .publish p | .runnable p =>
    (s.ptable p).state = .initial ∧ (s.ptable p).kstack ≠ 0#32 ∧ procs p = .enter ∧ (s.ptable p).pgdir ≠ 0#32

structure Creating (s : KernelState) (procs : Slot → ProcPoint) (c : Creation) : Prop where
  lock : if holds c then Locked s.cpu else Free s.cpu
  progress : Progress s procs c

/-- The state after a piece: the next point's, or no lock held when there is none. -/
def Created (s : KernelState) (procs procs' : Slot → ProcPoint) (next : Option Creation) (t : KernelState) : Prop :=
  Built s t procs procs' ∧ match next with
    | some c => Creating t procs' c
    | none => Free t.cpu

theorem create_failed {s : KernelState} {procs procs' : Slot → ProcPoint} (free : Free s.cpu) (text : String)
    (simple : plain (cstring ("WARN: " ++ text ++ "\n")) = true) :
    Yields Allowed (do
      warn text []
      let _ ← assertSlot none
      return none) (Created s procs procs') s := by
  obtain ⟨chars, c, settled, ran⟩ := run_warn text [] s free.toQuiet simple
  have failed : Yields Allowed (assertSlot none) (fun _ _ => False) ((s.print chars).setCpu c) :=
    yields_assertFail settled.quiet.toCalm (settled.quiet.free .cons) (by decide)
  exact yields_bind_ok ran (failed.bind fun _ _ returned => returned.elim)

theorem takeKstack_yields {s : KernelState} (quiet : Quiet s.cpu) (p : Slot) :
    Yields Allowed (takeKstack p) (fun kstack t => ∃ m c f, Settled s.cpu c ∧
      t = (setSlot s p { s.ptable p with kstack := kstack }).put m c f) s := by
  refine (yields_confined confined_kalloc quiet).bind fun kstack t ⟨m, c, f, same, settled⟩ => ?_
  subst same
  exact yields_bind_ok (run_updateSlot _ _ _) (yields_pure ⟨m, c, f, settled, by simp⟩)

theorem takePgdir_yields {s : KernelState} (quiet : Quiet s.cpu) (p : Slot) :
    Yields Allowed (takePgdir p) (fun _ t => ∃ pgdir m c f, pgdir ≠ 0#32 ∧ Settled s.cpu c ∧
      t = (setSlot { s with initproc := some p } p { s.ptable p with pgdir := pgdir }).put m c f) s := by
  refine yields_bind_ok (EStateM.run_modify _ _) ?_
  have same : Quiet { s with initproc := some p }.cpu := quiet
  refine (yields_confined confined_setupkvm same).bind fun pgdir t ⟨m, c, f, same, settled⟩ => ?_
  subst same
  refine yields_bind_ok (run_updateSlot _ _ _) ?_
  split
  next => exact yields_kpanic (by decide)
  next nonzero => exact yields_pure ⟨pgdir, m, c, f, nonzero, settled, by simp⟩

theorem create_step (image : Image) {s : KernelState} {procs : Slot → ProcPoint} (c : Creation)
    (creating : Creating s procs c) (table : Table s procs) :
    Yields Allowed (createCode image c) (Created s procs (spawn procs c)) s := by
  obtain ⟨lock, progress⟩ := creating
  cases c with
  | lock =>
    obtain ⟨c, ran, locked⟩ := Free.acquire lock
    exact yields_bind_ok ran (yields_pure ⟨(sameTable_put _ _ _ _).built table, locked, trivial⟩)
  | scan =>
    refine yields_bind_ok (EStateM.run_get s) ?_
    have same : Built s s procs procs := (sameTable_put s s.mem s.cpu s.freelist).built table
    cases found : findUnused s with
    | none => exact yields_pure ⟨same, lock, trivial⟩
    | some p => exact yields_pure ⟨same, lock, findUnused_unused found⟩
  | noSlot =>
    obtain ⟨c, ran, free⟩ := Locked.release lock
    exact yields_bind_ok ran (yields_pure ⟨(sameTable_put _ _ _ _).built table, free, trivial⟩)
  | full => exact create_failed lock _ (by decide)
  | claim p =>
    have unused : (s.ptable p).state = .unused := progress
    refine yields_bind_ok (run_setState _ _ _) (yields_pure ⟨?_, lock, by simp [Progress]⟩)
    exact built_slot ⟨rfl, rfl, rfl, rfl, rfl⟩ (fun _ _ => rfl) (by simp [unused]) (by simp) (unused ▸ .claim)
      (by simp) table
  | number p =>
    have initial : (s.ptable p).state = .initial := progress
    refine yields_bind_ok (run_takePid _ _) (yields_pure ⟨?_, lock, by simp [Progress, initial]⟩)
    exact built_initial ⟨rfl, rfl, rfl, rfl, rfl⟩ (fun _ _ => rfl) initial initial table
  | unlock p =>
    obtain ⟨c, ran, free⟩ := Locked.release lock
    exact yields_bind_ok ran (yields_pure ⟨(sameTable_put _ _ _ _).built table, free, progress⟩)
  | stack p =>
    have initial : (s.ptable p).state = .initial := progress
    refine (takeKstack_yields lock.toQuiet p).bind fun kstack t ⟨m, c, f, settled, same⟩ => ?_
    have built : Built s t procs procs := by
      subst same
      exact built_initial ⟨rfl, rfl, rfl, rfl, rfl⟩ (fun _ _ => rfl) initial initial table
    have free : Free t.cpu := same ▸ lock.settled settled
    split
    next => exact yields_pure ⟨built, free, by simp [Progress, same, initial]⟩
    next nonzero => exact yields_pure ⟨built, free, by simp [Progress, same, initial, nonzero]⟩
  | giveUp p =>
    have initial : (s.ptable p).state = .initial := progress
    refine yields_bind_ok (run_setState _ _ _) (yields_pure ⟨?_, lock, trivial⟩)
    exact built_slot ⟨rfl, rfl, rfl, rfl, rfl⟩ (fun _ _ => rfl) (by simp [initial]) (by simp) (initial ▸ .giveUp)
      (by simp) table
  | noStack => exact create_failed lock _ (by decide)
  | layout p =>
    obtain ⟨initial, kstack⟩ := progress
    refine yields_bind_ok (run_layoutKstack image p s) (yields_pure ⟨?_, lock, by simp [Progress, spawn, initial, kstack]⟩)
    exact built_initial (sameTable_put _ _ _ _) (fun q ne => Function.update_of_ne ne _ _) initial initial table
  | directory p =>
    obtain ⟨initial, kstack, enter⟩ := progress
    refine (takePgdir_yields lock.toQuiet p).bind fun _ t ⟨pgdir, m, c, f, nonzero, settled, same⟩ => ?_
    subst same
    refine yields_pure ⟨?_, lock.settled settled, by simp [Progress, spawn, initial, kstack, enter, nonzero]⟩
    exact built_initial ⟨rfl, rfl, rfl, rfl, rfl⟩ (fun _ _ => rfl) initial initial table
  | image p =>
    have loaded : Yields Allowed (loadImage image p) (fun _ t => ∃ m c f, t = s.put m c f ∧ Settled s.cpu c) s :=
      yields_bind_ok (EStateM.run_get s) (yields_confined (confined_inituvm _ _ _) lock.toQuiet)
    refine loaded.bind fun _ t ⟨m, c, f, same, settled⟩ => ?_
    subst same
    exact yields_pure ⟨(sameTable_put _ _ _ _).built table, lock.settled settled, progress⟩
  | frame p =>
    obtain ⟨initial, kstack, enter, pgdir⟩ := progress
    obtain ⟨m, ran⟩ := run_initFrame p s
    refine yields_bind_ok ran (yields_pure ⟨?_, lock, by simp [Progress, spawn, initial, kstack, enter, pgdir]⟩)
    exact built_initial (sameTable_put _ _ _ _) (fun _ _ => rfl) initial initial table
  | publish p =>
    obtain ⟨c, ran, locked⟩ := Free.acquire lock
    exact yields_bind_ok ran (yields_pure ⟨(sameTable_put _ _ _ _).built table, locked, progress⟩)
  | runnable p =>
    obtain ⟨initial, kstack, enter, pgdir⟩ := progress
    refine yields_bind_ok (run_setState _ _ _) (yields_pure ⟨?_, lock, trivial⟩)
    exact built_slot ⟨rfl, rfl, rfl, rfl, rfl⟩ (fun _ _ => rfl) (by simp [initial]) (by simp) (initial ▸ .publish)
      (fun _ => ⟨kstack, pgdir, enter⟩) table
  | finish =>
    obtain ⟨c, ran, free⟩ := Locked.release lock
    exact yields_bind_ok ran (yields_pure ⟨(sameTable_put _ _ _ _).built table, free⟩)

/-- What holds at each point of the boot thread while it has the CPU. -/
def AtMain (s : KernelState) (procs : Slot → ProcPoint) : MainPoint → Prop
  | .boot | .enter | .loop | .lock => Scanning s ∧ Free s.cpu
  | .creating c => Scanning s ∧ Creating s procs c
  | .scan _ => Scanning s ∧ Locked s.cpu
  | .chosen p => Locked s.cpu ∧ NoneRunning s ∧ s.proc = some p ∧ (s.ptable p).state = .runnable
  | .switched p => Locked s.cpu ∧ NoneRunning s ∧ Dressed s p ∧ (s.ptable p).state = .runnable
  | .leave p => Locked s.cpu ∧ Owns s p ∧ procs p = .enter
  | .away _ => False
  | .back _ => Locked s.cpu ∧ NoneRunning s
  | .cleared _ => Locked s.cpu ∧ NoneRunning s ∧ s.cr3 = V2P s.kpgdir

/-- What holds at each point of the process that has the CPU. -/
def AtProc (s : KernelState) (procs : Slot → ProcPoint) (q : Slot) : ProcPoint → Prop
  | .enter => Owns s q ∧ Locked s.cpu
  | .kernel | .user | .trap _ | .exit _ => Owns s q ∧ Free s.cpu
  | .creating c => Owns s q ∧ Creating s procs c
  | .exitLock p _ => Owns s q ∧ Free s.cpu ∧ p = some q
  | .exitMark p _ => Owns s q ∧ Locked s.cpu ∧ p = some q
  | .exitZombie p => Owns s q ∧ Locked s.cpu ∧ p = q
  | .sched | .swtch _ => NoneRunning s ∧ Locked s.cpu ∧ s.proc = some q ∧ (s.ptable q).state = .zombie
  | .absent | .gone _ | .resumed _ | .zombie => False

theorem Locked.settle {p : Processor} (locked : Locked p) : settle p = p := by
  have inner : ¬ p.ncli = 0 := by rw [locked.ncli]; decide
  simp [SpinLocks.settle, inner]

theorem Locked.calm {p : Processor} (locked : Locked p) : Calm p :=
  ⟨by rw [locked.ncli]; decide, fun _ => locked.flIf, by rw [locked.ncli]; decide⟩

theorem Free.settle {p : Processor} (free : Free p) : Free (settle p) := ⟨free.toQuiet.settle, free.ncli⟩

/-- `switchuvm` only fails for a page directory at the very bottom of the kernel half. -/
theorem yields_switchuvm {s : KernelState} {p : Slot} (locked : Locked s.cpu) (kstack : (s.ptable p).kstack ≠ 0#32)
    (pgdir : (s.ptable p).pgdir ≠ 0#32) :
    Yields Allowed (switchuvm (some p)) (fun _ t => ∃ c, Locked c ∧ t = KernelState.setCpu { s with
      ss0 := 0x10#16, esp0 := (s.ptable p).kstack + KSTACKSIZE, cr3 := V2P (s.ptable p).pgdir } c) s := by
  unfold Yields
  rw [run_switchuvm kstack pgdir]
  change Yields Allowed (do pagingSwitchPgdir (V2P (s.ptable p).pgdir); onCpu popcli) _ _
  have two : int32 (s.cpu.ncli + 1) = 2 := by rw [locked.ncli]; decide
  rw [two]
  by_cases bottom : V2P (s.ptable p).pgdir = 0#32
  · rw [pagingSwitchPgdir, if_pos bottom]
    have masked : Calm { settle s.cpu with flIf := false, ncli := 2 } :=
      ⟨(by decide : (0 : Int) ≤ 2), fun _ => rfl, (by decide : (2 : Int) + 2 < 2 ^ 31)⟩
    have stopped (u : KernelState) (same : u.cpu = { settle s.cpu with flIf := false, ncli := 2 }) :
        Yields Allowed (assertFail "paging_switch_pgdir" "kernel/paging.c" 113 : Prog KernelState Unit) (fun _ _ => False) u :=
      yields_assertFail (same ▸ masked) (by rw [same]; exact locked.others .cons (by decide)) (by decide)
    exact (stopped _ rfl).bind fun _ _ returned => returned.elim
  · have left := run_popcli { settle s.cpu with flIf := false, ncli := 2 } rfl (by decide : (1 : Int) ≤ 2)
      (by decide : (2 : Int) < 2 ^ 31)
    refine yields_bind_ok (run_pagingSwitchPgdir bottom _) (yields_ok (run_onCpu_ok left) ⟨_, ?_, rfl⟩)
    exact ⟨rfl, rfl, locked.taken, locked.others⟩

theorem yields_switchkvm {s : KernelState} (locked : Locked s.cpu) :
    Yields Allowed switchkvm (fun _ t => t = { s with cr3 := V2P s.kpgdir }) s := by
  refine yields_bind_ok (EStateM.run_get s) ?_
  by_cases bottom : V2P s.kpgdir = 0#32
  · rw [pagingSwitchPgdir, if_pos bottom]
    exact yields_assertFail locked.calm (locked.others .cons (by decide)) (by decide)
  · exact yields_ok (run_pagingSwitchPgdir bottom s) rfl

theorem Table.setSlot {s : KernelState} {procs : Slot → ProcPoint} {p : Slot} {entry : Process} (table : Table s procs)
    (other : entry.state ≠ .runnable) : Table (setSlot s p entry) procs := by
  intro q
  simp only [setSlot_ptable, Function.update_apply]
  split
  · exact fun runnable => absurd runnable other
  · exact table q

theorem moves_setSlot {s : KernelState} {p : Slot} {entry : Process} (move : Moves (s.ptable p).state entry.state)
    (q : Slot) : Moves (s.ptable q).state ((setSlot s p entry).ptable q).state := by
  simp only [setSlot_ptable, Function.update_apply]
  split
  next same => exact same ▸ move
  next => exact .stay _

/-- What one piece of a thread's code leaves: its next point holds, and the table only moved as it may. -/
structure Stepped (at' : Prop) (s t : KernelState) (procs' : Slot → ProcPoint) : Prop where
  point : at'
  table : Table t procs'
  moves : ∀ q, Moves (s.ptable q).state (t.ptable q).state

theorem SameTable.stepped {s t : KernelState} {procs : Slot → ProcPoint} {at' : Prop} (same : SameTable s t)
    (table : Table s procs) (point : at') : Stepped at' s t procs :=
  ⟨point, same.table table, fun q => by rw [same.ptable]; exact .stay _⟩

theorem yields_mycpu (s : KernelState) : Yields Allowed (onCpu mycpu) (fun _ t => t = s) s := by
  cases enabled : s.cpu.flIf with
  | false => exact yields_ok (run_onCpu_ok (run_mycpu s.cpu enabled)) rfl
  | true =>
    have failed : mycpu.run s.cpu = .error (.panic "mycpu called with interrupts enabled\n") s.cpu := by
      simp [mycpu, readeflags, enabled]
    exact yields_error (run_zoom_error failed) (by decide)

theorem Free.withIf {p : Processor} (free : Free p) (flag : Bool) : Free { p with flIf := flag } where
  depth := free.depth
  masked inside := by
    rw [free.ncli] at inside
    contradiction
  room := free.room
  free := free.free
  ncli := free.ncli

theorem main_step (image : Image) {s : KernelState} {procs : Slot → ProcPoint} (point : MainPoint)
    (here : AtMain s procs point) (table : Table s procs) (code : Prog KernelState MainPoint)
    (piece : mainCode image point = some code) :
    Yields Allowed code (fun next t =>
      Stepped (AtMain t (point.spawn procs) next) s t (point.spawn procs)) s := by
  cases point with
  | boot | leave _ | away _ => cases piece
  | creating c =>
    cases piece
    refine (create_step image c here.2 table).bind fun next t created => ?_
    have scan := created.1.scanning here.1
    cases next with
    | none => exact yields_pure ⟨⟨scan, created.2⟩, created.1.table, created.1.moves⟩
    | some c => exact yields_pure ⟨⟨scan, created.2⟩, created.1.table, created.1.moves⟩
  | enter =>
    cases piece
    refine (yields_mycpu s).bind fun _ t same => yields_bind_ok (EStateM.run_modify _ _) ?_
    subst same
    exact yields_pure ⟨⟨⟨rfl, here.1.cr3, here.1.idle⟩, here.2⟩, table, fun q => .stay _⟩
  | loop =>
    cases piece
    have same := sameTable_put s s.mem { s.cpu with flIf := true } s.freelist
    refine yields_bind_ok (run_onCpu_ok (EStateM.run_modify _ _)) ?_
    exact yields_pure (same.stepped table ⟨same.scanning here.1, here.2.withIf true⟩)
  | lock =>
    cases piece
    obtain ⟨c, ran, locked⟩ := here.2.acquire
    have same := sameTable_put s s.mem c s.freelist
    exact yields_bind_ok ran (yields_pure (same.stepped table ⟨same.scanning here.1, locked⟩))
  | scan i =>
    cases piece
    split
    next bound =>
      refine yields_bind_ok (EStateM.run_get s) ?_
      split
      next => exact yields_pure ⟨here, table, fun q => .stay _⟩
      next runnable =>
        have runnable : (s.ptable ⟨i, bound⟩).state = .runnable := not_not.mp runnable
        refine yields_bind_ok (EStateM.run_modify _ _) (yields_pure ⟨?_, table, fun q => .stay _⟩)
        exact ⟨here.2, here.1.idle, rfl, runnable⟩
    next =>
      obtain ⟨c, ran, free⟩ := here.2.release
      have same := sameTable_put s s.mem c s.freelist
      exact yields_bind_ok ran (yields_pure (same.stepped table ⟨same.scanning here.1, free⟩))
  | chosen p =>
    cases piece
    obtain ⟨locked, idle, proc, runnable⟩ := here
    obtain ⟨kstack, pgdir, -⟩ := table p runnable
    refine (yields_switchuvm locked kstack pgdir).bind fun _ t ⟨c, inside, same⟩ => ?_
    subst same
    exact yields_pure ⟨⟨inside, idle, ⟨proc, rfl, rfl⟩, runnable⟩, table, fun q => .stay _⟩
  | switched p =>
    cases piece
    obtain ⟨locked, idle, dressed, runnable⟩ := here
    refine yields_bind_ok (run_setState _ _ _) (yields_pure ⟨⟨locked, ?_, (table p runnable).2.2⟩, ?_, ?_⟩)
    · refine ⟨⟨dressed.proc, by simpa using dressed.cr3, by simpa using dressed.esp0⟩, fun q => ?_⟩
      simp only [setSlot_ptable, Function.update_apply]
      split
      next same => simp [same]
      next ne => simp [ne, idle q]
    · exact table.setSlot (by simp)
    · exact moves_setSlot (runnable ▸ .dispatch)
  | back p =>
    cases piece
    refine (yields_switchkvm here.1).bind fun _ t same => ?_
    subst same
    exact yields_pure ⟨⟨here.1, here.2, rfl⟩, table, fun q => .stay _⟩
  | cleared p =>
    cases piece
    refine yields_bind_ok (EStateM.run_modify _ _) (yields_pure ⟨⟨⟨rfl, here.2.2, here.2.1⟩, here.1⟩, table, fun q => .stay _⟩)

theorem Owns.running {s : KernelState} {q : Slot} (owns : Owns s q) : (s.ptable q).state = .running :=
  (owns.only q).mpr rfl

/-- The process's own entry may change in what the dispatch does not depend on. -/
theorem Owns.setSlot {s : KernelState} {q : Slot} {entry : Process} (owns : Owns s q) (state : entry.state = .running)
    (pgdir : entry.pgdir = (s.ptable q).pgdir) (kstack : entry.kstack = (s.ptable q).kstack) :
    Owns (setSlot s q entry) q := by
  refine ⟨⟨owns.proc, by simpa [pgdir] using owns.cr3, by simpa [kstack] using owns.esp0⟩, fun r => ?_⟩
  simp only [setSlot_ptable, Function.update_apply]
  split
  next same => simp [same, state]
  next ne => exact owns.only r

/-- Slots under construction are not the running process's. -/
theorem Creating.update {s : KernelState} {procs : Slot → ProcPoint} {q : Slot} {c : Creation} (point : ProcPoint)
    (creating : Creating s procs c) (running : (s.ptable q).state = .running) :
    Creating s (Function.update procs q point) c := by
  have other : ∀ p, (s.ptable p).state = .initial → Function.update procs q point p = procs p := by
    intro p initial
    refine Function.update_of_ne (fun same => ?_) _ _
    rw [same, running] at initial
    cases initial
  refine ⟨creating.lock, ?_⟩
  have progress := creating.progress
  cases c with
  | directory p => exact ⟨progress.1, progress.2.1, (other p progress.1).trans progress.2.2⟩
  | image p | frame p | publish p | runnable p =>
    exact ⟨progress.1, progress.2.1, (other p progress.1).trans progress.2.2.1, progress.2.2.2⟩
  | lock | scan | noSlot | full | noStack | finish | claim _ | number _ | unlock _ | stack _ | giveUp _ | layout _ =>
    exact progress

theorem AtProc.update {s : KernelState} {procs : Slot → ProcPoint} {q : Slot} {point : ProcPoint} (other : ProcPoint)
    (here : AtProc s procs q point) : AtProc s (Function.update procs q other) q point := by
  cases point with
  | creating c => exact ⟨here.1, here.2.update other here.1.running⟩
  | _ => exact here

theorem AtProc.not_runnable {s : KernelState} {procs : Slot → ProcPoint} {q : Slot} {point : ProcPoint}
    (here : AtProc s procs q point) : (s.ptable q).state ≠ .runnable := by
  cases point with
  | sched | swtch _ => rw [here.2.2.2]; decide
  | absent | gone _ | resumed _ | zombie => exact here.elim
  | enter | kernel | user | trap _ | exit _ | creating _ | exitLock _ _ | exitMark _ _ | exitZombie _ =>
    rw [here.1.running]
    decide

theorem Table.update {s : KernelState} {procs : Slot → ProcPoint} {q : Slot} (table : Table s procs) (point : ProcPoint)
    (other : (s.ptable q).state ≠ .runnable) : Table s (Function.update procs q point) := by
  intro r runnable
  have ne : r ≠ q := fun same => other (same ▸ runnable)
  rw [Function.update_of_ne ne]
  exact table r runnable

/-- The process moves on to its next point. -/
theorem Stepped.update {s t : KernelState} {procs : Slot → ProcPoint} {q : Slot} {next : ProcPoint}
    (stepped : Stepped (AtProc t procs q next) s t procs) :
    Stepped (AtProc t (Function.update procs q next) q next) s t (Function.update procs q next) :=
  ⟨stepped.point.update next, stepped.table.update next stepped.point.not_runnable, stepped.moves⟩

theorem yields_exitBegin {s : KernelState} (free : Free s.cpu) :
    Yields Allowed exitBegin (fun p t => p = s.proc ∧ SameTable s t ∧ Free t.cpu) s := by
  refine yields_bind_ok (run_myproc s free.toCalm) (yields_bind_ok (EStateM.run_get _) ?_)
  split
  · obtain ⟨chars, c, settled, ran⟩ :=
      run_warn "init exiting" [] (s.setCpu (SpinLocks.settle s.cpu)) free.settle.toQuiet (by decide)
    exact yields_bind_ok ran (yields_pure ⟨rfl, sameTable_print _ _ _ _ _, free.settle.settled settled⟩)
  · exact yields_pure ⟨rfl, sameTable_put _ _ _ _, free.settle⟩

theorem run_enterScheduler {s : KernelState} {q : Slot} (locked : Locked s.cpu) (proc : s.proc = some q)
    (left : (s.ptable q).state ≠ .running) : enterScheduler.run s = .ok s.cpu.intena s := by
  have held : Held (s.cpu.locks .ptable) := by simp [Held, locked.taken, SpinLocks.taken]
  have probe : (onCpu (holding .ptable)).run s = .ok true s := by
    have ran := run_holding .ptable s.cpu locked.calm
    rw [locked.settle, decide_eq_true held] at ran
    exact run_onCpu_ok ran
  have found : myproc.run s = .ok (some q) s := by
    rw [run_myproc s locked.calm, locked.settle, proc]
    rfl
  have asked : (onCpu mycpu).run s = .ok 0 s := run_onCpu_ok (run_mycpu s.cpu locked.flIf)
  have flags : (onCpu readeflags).run s = .ok false s := run_onCpu_ok (by simp [readeflags, locked.flIf])
  unfold enterScheduler
  rw [run_bind_ok probe]
  simp only [Bool.not_true, Bool.false_eq_true, if_false]
  rw [run_bind_ok asked, run_bind_ok (EStateM.run_get _)]
  simp only [locked.ncli, ne_eq, not_true_eq_false, if_false]
  rw [run_bind_ok found, deref, run_bind_ok (EStateM.run_pure _ _), run_bind_ok (EStateM.run_get _)]
  simp only [left, if_false]
  rw [run_bind_ok flags]
  simp only [Bool.false_eq_true, if_false]
  rw [run_bind_ok asked, run_bind_ok (EStateM.run_get _), run_bind_ok asked, EStateM.run_pure]

theorem proc_step (image : Image) {s : KernelState} {procs : Slot → ProcPoint} (q : Slot) (point : ProcPoint)
    (here : AtProc s procs q point) (table : Table s procs) (code : Prog KernelState ProcPoint)
    (piece : procCode image point = some code) :
    Yields Allowed code (fun next t =>
      Stepped (AtProc t (point.spawn procs) q next) s t (point.spawn procs)) s := by
  cases point with
  | absent | kernel | user | swtch _ | gone _ => cases piece
  | resumed _ | zombie => exact here.elim
  | enter =>
    cases piece
    obtain ⟨c, ran, free⟩ := here.2.release
    have same := sameTable_put s s.mem c s.freelist
    exact yields_bind_ok ran (yields_pure (same.stepped table ⟨same.owns here.1, free⟩))
  | trap tf =>
    cases piece
    have same := sameTable_put s s.mem (settle s.cpu) s.freelist
    have owns := same.owns here.1
    refine yields_bind_ok (run_myproc s here.2.toCalm) ?_
    rw [here.1.proc, deref]
    refine yields_bind_ok (EStateM.run_pure _ _) (yields_bind_ok (run_updateSlot _ _ _) (yields_pure ⟨⟨?_, here.2.settle⟩, ?_, ?_⟩))
    · exact owns.setSlot owns.running rfl rfl
    · exact (same.table table).setSlot (by rw [owns.running]; decide)
    · exact moves_setSlot (.stay _)
  | creating c =>
    cases piece
    refine (create_step image c here.2 table).bind fun next t created => ?_
    have owns := (created.1.owns here.1).1
    cases next with
    | none => exact yields_pure ⟨⟨owns, created.2⟩, created.1.table, created.1.moves⟩
    | some c => exact yields_pure ⟨⟨owns, created.2⟩, created.1.table, created.1.moves⟩
  | exit status =>
    cases piece
    refine (yields_exitBegin here.2).bind fun p t ⟨found, same, free⟩ => ?_
    exact yields_pure (same.stepped table ⟨same.owns here.1, free, found.trans here.1.proc⟩)
  | exitLock p status =>
    cases piece
    obtain ⟨c, ran, locked⟩ := here.2.1.acquire
    have same := sameTable_put s s.mem c s.freelist
    exact yields_bind_ok ran (yields_pure (same.stepped table ⟨same.owns here.1, locked, here.2.2⟩))
  | exitMark p status =>
    cases piece
    obtain ⟨owns, locked, rfl⟩ := here
    refine yields_bind_ok (run_exitStatus _ _ _) (yields_pure ⟨⟨owns.setSlot owns.running rfl rfl, locked, rfl⟩, ?_, ?_⟩)
    · exact table.setSlot (by rw [owns.running]; decide)
    · exact moves_setSlot (.stay _)
  | exitZombie p =>
    cases piece
    obtain ⟨owns, locked, rfl⟩ := here
    refine yields_bind_ok (run_setState _ _ _) (yields_pure ⟨⟨fun r => ?_, locked, owns.proc, by simp⟩, ?_, ?_⟩)
    · simp only [setSlot_ptable, Function.update_apply]
      split
      next => simp
      next ne => exact fun running => ne ((owns.only r).mp running)
    · exact table.setSlot (by simp)
    · exact moves_setSlot (owns.running ▸ .exit)
  | sched =>
    cases piece
    obtain ⟨idle, locked, proc, left⟩ := here
    refine yields_bind_ok (run_enterScheduler locked proc (by rw [left]; decide)) (yields_pure ⟨?_, table, fun r => .stay _⟩)
    exact ⟨idle, locked, proc, left⟩

structure Inv (σ : System) : Prop where
  stopped : ∀ message, σ.stopped = some message → message ∉ dispatchPanics
  table : Table σ.kernel σ.procs
  main : σ.running = none → AtMain σ.kernel σ.procs σ.main
  proc : ∀ q, σ.running = some q → AtProc σ.kernel σ.procs q (σ.procs q) ∧ ∃ p, σ.main = .away p

theorem initial_inv {σ : System} (first : Initial σ) : Inv σ where
  stopped message failed := by
    rw [first.stopped] at failed
    cases failed
  table q runnable := by
    rw [first.unused] at runnable
    cases runnable
  main _ := by
    rw [first.main]
    refine ⟨⟨first.proc, first.cr3, fun q running => ?_⟩, first.quiet, first.ncli⟩
    rw [first.unused] at running
    cases running
  proc q turn := by
    rw [first.running] at turn
    cases turn

/-- What one step of any thread leaves. -/
structure Kept (σ τ : System) : Prop extends Inv τ where
  moves : ∀ q, Moves (σ.kernel.ptable q).state (τ.kernel.ptable q).state

theorem Inv.panicked {σ : System} {message : String} (inv : Inv σ) (other : Allowed (.panic message)) :
    Kept σ { σ with stopped := some message } where
  stopped told same := by
    cases same
    exact fun listed => other _ listed rfl
  table := inv.table
  main := inv.main
  proc := inv.proc
  moves q := .stay _

/-- The running process goes from one point to another and changes nothing the others rely on. -/
theorem Inv.atProc {σ : System} {t : KernelState} {procs : Slot → ProcPoint} {q : Slot} {next : ProcPoint} (inv : Inv σ)
    (turn : σ.running = some q) (stepped : Stepped (AtProc t procs q next) σ.kernel t procs) :
    Kept σ { σ with kernel := t, procs := Function.update procs q next } where
  stopped := inv.stopped
  table := stepped.update.table
  main idle := by
    rw [turn] at idle
    cases idle
  proc r same := by
    have eq : q = r := Option.some.inj (turn.symm.trans same)
    subst eq
    refine ⟨?_, (inv.proc q turn).2⟩
    change AtProc t (Function.update procs q next) q (Function.update procs q next q)
    rw [Function.update_self]
    exact stepped.update.point
  moves := stepped.moves

theorem Inv.atMain {σ : System} {t : KernelState} {procs : Slot → ProcPoint} {next : MainPoint} (inv : Inv σ)
    (turn : σ.running = none) (stepped : Stepped (AtMain t procs next) σ.kernel t procs) :
    Kept σ { σ with kernel := t, main := next, procs := procs } where
  stopped := inv.stopped
  table := stepped.table
  main _ := stepped.point
  proc q same := by
    rw [turn] at same
    cases same
  moves := stepped.moves

theorem step_kept (image : Image) {σ τ : System} (inv : Inv σ) (step : Step image σ τ) : Kept σ τ := by
  cases step with
  | @main code next t live turn piece ran =>
    exact inv.atMain turn ((main_step image σ.main (inv.main turn) inv.table code piece).returned ran)
  | @mainPanic code message t live turn piece ran =>
    exact inv.panicked ((main_step image σ.main (inv.main turn) inv.table code piece).stopped ran)
  | @proc code next t q live turn piece ran =>
    exact inv.atProc turn ((proc_step image q (σ.procs q) (inv.proc q turn).1 inv.table code piece).returned ran)
  | @procPanic code message t q live turn piece ran =>
    exact inv.panicked ((proc_step image q (σ.procs q) (inv.proc q turn).1 inv.table code piece).stopped ran)
  | create live turn here =>
    have at' := inv.main turn
    rw [here] at at'
    exact inv.atMain turn ⟨⟨at'.1, at'.2, trivial⟩, inv.table, fun q => .stay _⟩
  | scheduler live turn here =>
    have at' := inv.main turn
    rw [here] at at'
    exact inv.atMain turn ⟨at', inv.table, fun q => .stay _⟩
  | dispatch p live turn here =>
    have at' := inv.main turn
    rw [here] at at'
    obtain ⟨locked, owns, enter⟩ := at'
    refine ⟨⟨inv.stopped, inv.table.update _ (by rw [owns.running]; decide), fun idle => (by cases idle), fun q same => ?_⟩,
      fun q => .stay _⟩
    cases same
    refine ⟨?_, p, rfl⟩
    simp only [Function.update_self, enter]
    exact ⟨owns, locked⟩
  | @swtch intena q p live turn here waits =>
    have at' := (inv.proc q turn).1
    rw [here] at at'
    obtain ⟨idle, locked, -, left⟩ := at'
    exact ⟨⟨inv.stopped, inv.table.update _ (by rw [left]; decide), fun _ => ⟨locked, idle⟩, fun q same => (by cases same)⟩,
      fun q => .stay _⟩
  | iret q flag live turn here =>
    have at' := (inv.proc q turn).1
    rw [here] at at'
    have same := sameTable_put σ.kernel σ.kernel.mem { σ.kernel.cpu with flIf := flag } σ.kernel.freelist
    exact inv.atProc turn (same.stepped inv.table ⟨same.owns at'.1, at'.2.withIf flag⟩)
  | syscall q m tf live turn here =>
    have at' := (inv.proc q turn).1
    rw [here] at at'
    have same := sameTable_put σ.kernel m σ.kernel.cpu σ.kernel.freelist
    exact inv.atProc turn (same.stepped inv.table ⟨same.owns at'.1, at'.2⟩)
  | work q m chars live turn here =>
    have at' := (inv.proc q turn).1
    have same := sameTable_print σ.kernel chars m σ.kernel.cpu σ.kernel.freelist
    have stays : AtProc ((σ.kernel.print chars).setMem m) σ.procs q (σ.procs q) := by
      rcases here with here | here
      all_goals
        rw [here] at at' ⊢
        exact ⟨same.owns at'.1, at'.2⟩
    have kept := inv.atProc turn (same.stepped inv.table stays)
    rwa [Function.update_eq_self] at kept
  | exit q status live turn here =>
    have at' := (inv.proc q turn).1
    rw [here] at at'
    exact inv.atProc turn ⟨at', inv.table, fun q => .stay _⟩
  | fork q live turn here =>
    have at' := (inv.proc q turn).1
    rw [here] at at'
    exact inv.atProc turn ⟨⟨at'.1, at'.2, trivial⟩, inv.table, fun q => .stay _⟩

theorem run_inv (image : Image) {σ : System} (run : Reachable Initial (Step image) σ) : Inv σ := by
  refine Reachable.invariant (fun σ first => ?_) (fun σ τ inv step => ?_) run
  · exact initial_inv first
  · exact (step_kept image inv step).toInv

theorem AtMain.one_running {s : KernelState} {procs : Slot → ProcPoint} {point : MainPoint} (here : AtMain s procs point)
    (q r : Slot) (first : (s.ptable q).state = .running) (second : (s.ptable r).state = .running) : q = r := by
  cases point with
  | boot | enter | loop | lock | creating _ | scan _ => exact absurd first (here.1.idle q)
  | chosen _ | switched _ | cleared _ => exact absurd first (here.2.1 q)
  | back _ => exact absurd first (here.2 q)
  | leave p => exact ((here.2.1.only q).mp first).trans ((here.2.1.only r).mp second).symm
  | away _ => exact here.elim

theorem AtProc.one_running {s : KernelState} {procs : Slot → ProcPoint} {p : Slot} {point : ProcPoint}
    (here : AtProc s procs p point) (q r : Slot) (first : (s.ptable q).state = .running)
    (second : (s.ptable r).state = .running) : q = r := by
  cases point with
  | sched | swtch _ => exact absurd first (here.1 q)
  | absent | gone _ | resumed _ | zombie => exact here.elim
  | enter | kernel | user | trap _ | exit _ | creating _ | exitLock _ _ | exitMark _ _ | exitZombie _ =>
    exact ((here.1.only q).mp first).trans ((here.1.only r).mp second).symm

theorem AtProc.unlocked_owns {s : KernelState} {procs : Slot → ProcPoint} {q : Slot} {point : ProcPoint}
    (here : AtProc s procs q point) (free : (s.cpu.locks .ptable).locked = 0#32) : Owns s q := by
  cases point with
  | sched | swtch _ =>
    rw [here.2.1.taken] at free
    cases free
  | absent | gone _ | resumed _ | zombie => exact here.elim
  | enter | kernel | user | trap _ | exit _ | creating _ | exitLock _ _ | exitMark _ _ | exitZombie _ => exact here.1

theorem scheduler_safety (image : Image) (σ : System) (run : Reachable Initial (Step image) σ) :
    (∀ q r, (σ.kernel.ptable q).state = .running → (σ.kernel.ptable r).state = .running → q = r) ∧
    (∀ q, σ.running = some q → (σ.kernel.cpu.locks .ptable).locked = 0#32 →
      σ.kernel.proc = some q ∧ (σ.kernel.ptable q).state = .running ∧
      σ.kernel.cr3 = V2P (σ.kernel.ptable q).pgdir ∧ σ.kernel.esp0 = (σ.kernel.ptable q).kstack + KSTACKSIZE) ∧
    (∀ i, σ.running = none → σ.main = .scan i →
      σ.kernel.proc = none ∧ (∀ q, (σ.kernel.ptable q).state ≠ .running) ∧ σ.kernel.cr3 = V2P σ.kernel.kpgdir) ∧
    (∀ τ, Step image σ τ → ∀ q, Moves (σ.kernel.ptable q).state (τ.kernel.ptable q).state) ∧
    (∀ q, (σ.kernel.ptable q).state = .runnable →
      (σ.kernel.ptable q).kstack ≠ 0#32 ∧ (σ.kernel.ptable q).pgdir ≠ 0#32) ∧
    (∀ τ, Step image σ τ → ∀ q, (σ.kernel.ptable q).state = .zombie → τ.running = some q → σ.running = some q) ∧
    ∀ message, σ.stopped = some message → message ∉ dispatchPanics := by
  have inv := run_inv image run
  refine ⟨fun q r first second => ?_, fun q turn free => ?_, fun i turn here => ?_, fun τ step => ?_,
    fun q runnable => ?_, fun τ step q zombie turn => ?_, inv.stopped⟩
  · cases turn : σ.running with
    | none => exact (inv.main turn).one_running q r first second
    | some p => exact (inv.proc p turn).1.one_running q r first second
  · have owns := (inv.proc q turn).1.unlocked_owns free
    exact ⟨owns.proc, owns.running, owns.cr3, owns.esp0⟩
  · have at' := inv.main turn
    rw [here] at at'
    exact ⟨at'.1.proc, at'.1.idle, at'.1.cr3⟩
  · exact (step_kept image inv step).moves
  · exact ⟨(inv.table q runnable).1, (inv.table q runnable).2.1⟩
  · cases step with
    | dispatch p live idle here =>
      cases turn
      have at' := inv.main idle
      rw [here] at at'
      rw [at'.2.1.running] at zombie
      cases zombie
    | swtch => cases turn
    | main | mainPanic | proc | procPanic | create | scheduler | iret | syscall | work | exit | fork => exact turn

end OsDev.Kernel.SchedulerRuns
