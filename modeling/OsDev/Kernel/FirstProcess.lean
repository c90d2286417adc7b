import OsDev.Kernel.Fairness

/-! From the firmware's memory map to user mode: the kernel comes up, creates its first
process, and the scheduler cannot but give it the CPU. -/

namespace OsDev.Kernel.FirstProcess
open OsDev.Machine.Memory OsDev.Machine.Program OsDev.Machine.X86 OsDev.Machine.Liveness
open OsDev.Kernel.SpinLocks OsDev.Kernel.Mmu OsDev.Kernel.State OsDev.Kernel.Kalloc OsDev.Kernel.KallocRuns
  OsDev.Kernel.AddressSpace OsDev.Kernel.Pmem OsDev.Kernel.KernelHalf OsDev.Kernel.HeapRam OsDev.Kernel.Frames OsDev.Kernel.Proc
  OsDev.Kernel.Swtch OsDev.Kernel.Isr OsDev.Kernel.FirstDispatch OsDev.Kernel.Scheduler OsDev.Kernel.Holdings
  OsDev.Kernel.Newborn OsDev.Kernel.Startup OsDev.Kernel.Isolation OsDev.Kernel.Fairness
open OsDev.Kernel.Gdt (KernelTable)
open OsDev.Kernel.SchedulerRuns (Inv Free Locked Owns step_kept scheduler_safety)

/-- What the kernel needs of the firmware and of the linker. -/
structure Bootable (image : Image) (map : List E820Entry) (kEnd : Addr) (extmem entry : E820Entry) (s : KernelState) : Prop where
  suitable : Suitable map kEnd extmem entry
  sentinel : s.KMEM_SENTINEL < PGROUNDUP kEnd
  linked : image.userInitStart.toNat + image.userInitSize.toNat ≤ (PGROUNDUP kEnd).toNat
  small : image.userInitSize < PGSIZE
  tables : (neededTables (mapped s extmem entry)).card + 1 ≤ (rangePages (PGROUNDUP kEnd) phaseEnd).length
  pages : 2 * (neededTables (mapped s extmem entry)).card + 3 ≤ (allPages kEnd (mapped s extmem entry).physEnd).length

section Switch
variable {image : Image} {s t : KernelState} {free free' : List Addr} {p : Slot} {kstack pgdir : Addr} {m returned : Core}
  {old : Addr}

/-- The first switch to a process that `initproc_init` has made. -/
theorem born_firstRun (born : Born image p s t free free' kstack pgdir) (heap : Heap s free) (found : findUnused s = some p)
    (call : SwtchCall t.kheapStart m old (t.ptable p).context) (content : Set.EqOn m.mem t.mem (span kstack 4096))
    (body : ∃ depth ≤ 4028, Cdecl depth interruptStateSize (swtch m) returned) :
    ∃ s', FirstRun image free s s' p m old returned ∧ (s'.ptable p).kstack = kstack := by
  cases free with
  | nil => cases born.head
  | cons k rest =>
    obtain rfl : k = kstack := Option.some.inj born.head
    obtain ⟨c, f, created⟩ := run_processAlloc_cons image heap found
    refine ⟨_, ⟨heap, created, ?_, ?_, body⟩, by simp⟩
    · simp only [KernelState.put_ptable, KernelState.put_mem, setSlot_same]
      intro x inside
      exact (content inside.1).trans (born.stack inside)
    · rw [born.advanced.start, born.entry] at call
      simpa using call

theorem born_enters (born : Born image p s t free free' kstack pgdir) (heap : Heap s free) (found : findUnused s = some p)
    (table : KernelTable m.gdt) (call : SwtchCall t.kheapStart m old (t.ptable p).context)
    (content : Set.EqOn m.mem t.mem (span kstack 4096))
    (body : ∃ depth ≤ 4028, Cdecl depth interruptStateSize (swtch m) returned) :
    (swtch m).eip = image.enterProcess ∧ returned.eip = image.trapret ∧
      ∃ user, attempt trapretCode returned = some user ∧ Enters initprocFrame user := by
  obtain ⟨s', setup, stack⟩ := born_firstRun born heap found call content body
  obtain ⟨-, switched⟩ := setup.switched
  have ready := setup.atTrapret
  rw [stack] at switched ready
  have frame : frameOf m (tfOf kstack) = initprocFrame := by
    funext field
    rw [← born.frame field]
    exact read32_congr fun x inside => content (tf_subset_page kstack (field_subset_frame field kstack inside))
  have left := ready.leaves (by rw [frame]; exact initproc_outer table)
  rw [frame] at left
  exact ⟨switched.eip, ready.eip, _, left, enters_restored _ _ _⟩

end Switch

/-- The process has left `enter_process`, on its own stack and in its own address space. -/
structure Entered (t : KernelState) (p : Slot) (σ : System) : Prop where
  turn : σ.running = some p
  point : σ.procs p = .kernel
  mem : σ.kernel.mem = t.mem
  cr3 : σ.kernel.cr3 = V2P (t.ptable p).pgdir
  esp0 : σ.kernel.esp0 = (t.ptable p).kstack + KSTACKSIZE
  current : σ.kernel.proc = some p
  idle : Free σ.kernel.cpu

section Entry
variable {image : Image} {t : KernelState} {p : Slot} {σ : System}

/-- A process inside a piece of kernel code is alone. -/
theorem proc_only {code : Prog KernelState ProcPoint} {next : ProcPoint} {u : KernelState} (turn : σ.running = some p)
    (piece : procCode image (σ.procs p) = some code) (ran : code.run σ.kernel = .ok next u) (τ : System)
    (step : Step image σ τ) : τ = { σ with kernel := u, procs := Function.update ((σ.procs p).spawn σ.procs) p next } := by
  cases step with
  | proc q live turn' piece' ran' =>
    cases turn.symm.trans turn'
    cases piece.symm.trans piece'
    cases ran.symm.trans ran'
    rfl
  | procPanic q live turn' piece' ran' =>
    cases turn.symm.trans turn'
    cases piece.symm.trans piece'
    cases ran.symm.trans ran'
  | iret q flag live turn' here | syscall q m tf live turn' here | exit q status live turn' here | fork q live turn' here
  | swtch q r live turn' here =>
    cases turn.symm.trans turn'
    rw [here] at piece
    cases piece
  | work q m chars live turn' here =>
    cases turn.symm.trans turn'
    rcases here with here | here
    all_goals
      rw [here] at piece
      cases piece
  | main live turn' | mainPanic live turn' | create live turn' | scheduler live turn' | dispatch q live turn' =>
    cases turn.symm.trans turn'

theorem dispatched_enters (given : Dispatched t p σ) : Inevitable (Step image) (Entered t p) σ := by
  have at' := (given.inv.proc p given.turn).1
  rw [given.point] at at'
  obtain ⟨owns, locked⟩ := at'
  obtain ⟨c, released, idle⟩ := locked.release
  have piece : procCode image (σ.procs p) = some (do enterProcess; return .kernel) := by rw [given.point]; rfl
  have ran : (do enterProcess; return .kernel : Prog KernelState ProcPoint).run σ.kernel = .ok .kernel (σ.kernel.setCpu c) := by
    rw [enterProcess, run_bind_ok released]
    rfl
  refine inevitable_of_only (Step.proc p given.live given.turn piece ran) (proc_only given.turn piece ran) (.here ?_)
  refine ⟨given.turn, Function.update_self _ _ _, given.mem, ?_, ?_, owns.proc, idle⟩
  · refine owns.cr3.trans ?_
    rw [given.table, Function.update_self]
  · refine owns.esp0.trans ?_
    rw [given.table, Function.update_self]

/-- With one RUNNABLE process, `scheduler` comes to it. -/
theorem scheduler_enters (inv : Inv σ) (live : σ.stopped = none) (turn : σ.running = none) (here : σ.main = .enter)
    (masked : σ.kernel.cpu.flIf = false) (switch : Switchable σ.kernel)
    (only : ∀ q, (σ.kernel.ptable q).state = .runnable ↔ q = p) : Inevitable (Step image) (Entered σ.kernel p) σ := by
  have sched : Scheduling σ.kernel σ := ⟨inv, live, turn, rfl, rfl, rfl⟩
  have nearest : Nearest σ.kernel 0 p := ⟨(only p).mpr rfl, fun r runnable => by rw [(only r).mp runnable]⟩
  have dispatched : Inevitable (Step image) (Dispatched σ.kernel p) σ :=
    sched.enter masked here fun τ looping point => looping.loop point fun υ scanning start => scanning.scan switch nearest start
  exact dispatched.trans fun τ given => dispatched_enters given

end Entry

theorem boot_enters_user (image : Image) (map : List E820Entry) (kEnd : Addr) (extmem entry : E820Entry) (mem : Mem)
    (sentinel : Addr) (bootable : Bootable image map kEnd extmem entry (boot mem sentinel)) :
    ∃ s t p σ, (startKernel true (some map) kEnd).run (boot mem sentinel) = .ok () s ∧ (initprocInit image).run s = .ok () t ∧
      Reachable (· = ⟨s, none, .boot, fun _ => .absent, none⟩) (TameStep image) σ ∧ σ.kernel = t ∧ σ.main = .enter ∧
      Inevitable (Step image) (Entered t p) σ ∧
      Isolated s t (t.ptable p).pgdir image.userInitStart image.userInitSize ∧
      ∀ m returned old, KernelTable m.gdt → SwtchCall t.kheapStart m old (t.ptable p).context →
        Set.EqOn m.mem t.mem (span (t.ptable p).kstack 4096) →
        (∃ depth ≤ 4028, Cdecl depth interruptStateSize (swtch m) returned) →
        (swtch m).eip = image.enterProcess ∧ returned.eip = image.trapret ∧
          ∃ user, attempt trapretCode returned = some user ∧ Enters initprocFrame user := by
  obtain ⟨s, free, started, prepared⟩ := run_startKernel bootable.suitable (boot_quiet mem sentinel) rfl bootable.sentinel
    (fun _ => rfl) bootable.tables
  have idle : Free s.cpu := Free.settled ⟨boot_quiet mem sentinel, rfl⟩ prepared.settled
  have unused (q : Slot) : s.ptable q = Process.zero := by rw [prepared.kept.1]; rfl
  obtain ⟨p, found⟩ := findUnused_isSome (s := s) (p := firstSlot) (by rw [unused]; rfl)
  have tables : neededTables s = neededTables (mapped (boot mem sentinel) extmem entry) := by
    simp only [neededTables, kernelPages, prepared.map.physEnd, prepared.map.acpi, prepared.map.acpiLen]
  have count := prepared.count
  rw [tables, prepared.map.physEnd] at count
  have pages := bootable.pages
  obtain ⟨kstack, pgdir, t, free', pieces, born⟩ := born image idle prepared.spaces found (by rw [tables]; omega) bootable.small
    (by rw [prepared.start]; exact bootable.linked)
  have created : (initprocInit image).run s = .ok () t := by
    rw [← createRun_eq]
    exact pieces.run
  have ready : Ready image ⟨s, none, .boot, fun _ => .absent, none⟩ :=
    ready_of_prepared prepared ⟨boot_quiet mem sentinel, rfl⟩ (fun _ => rfl) rfl bootable.linked
  have begun : Reachable (· = ⟨s, none, .boot, fun _ => .absent, none⟩) (TameStep image) ⟨s, none, .boot, fun _ => .absent, none⟩ :=
    .start rfl
  obtain ⟨procs, run⟩ := create_reachable (fun _ _ step _ => step) begun rfl rfl rfl pieces
  have entered : Reachable (· = ⟨s, none, .boot, fun _ => .absent, none⟩) (TameStep image) ⟨t, none, .enter, procs, none⟩ :=
    .next run ⟨Step.scheduler rfl rfl rfl, tame_boot rfl rfl⟩
  have held : Held image ⟨t, none, .enter, procs, none⟩ :=
    Reachable.invariant (fun υ same => same ▸ ready.held) (fun _ _ held taken => held.step taken.1 taken.2) entered
  have only (q : Slot) : (t.ptable q).state = .runnable ↔ q = p := by
    by_cases same : q = p
    · simp [same, born.entry]
    · simp [same, born.others q same, unused q, Process.zero]
  have start : t.kheapStart = PGROUNDUP kEnd := born.advanced.start.trans prepared.start
  have high : KERNBASE < t.kheapStart := by
    have bounds := bootable.suitable.loaded.bounds
    rw [start]
    unfold KERNBASE
    bv_omega
  have masked : t.cpu.flIf = false := by
    rw [born.settled.flIf, prepared.settled.flIf]
    rfl
  refine ⟨s, t, p, _, started, created, entered, rfl, rfl, ?_, ?_, fun m returned old table call content body => ?_⟩
  · exact scheduler_enters held.inv rfl rfl rfl masked (spaces_switchable born.spaces high) only
  · rw [born.entry]
    exact born.space
  · rw [show (t.ptable p).kstack = kstack by rw [born.entry]] at content
    exact born_enters born (prepared.spaces.heap s.cpu idle.toQuiet) found table call content body

theorem small_bootable : Bootable smallUser smallMap 0x80103000#32 ⟨0x100000#64, 0x300000#64, E820_TYPE_RAM⟩
    ⟨0x7fe0000#64, 0x20000#64, E820_TYPE_ACPI⟩ (boot (fun _ => 0#8) 0x80000000#32) := by
  have few : (neededTables (mapped (boot (fun _ => 0#8) 0x80000000#32) ⟨0x100000#64, 0x300000#64, E820_TYPE_RAM⟩
      ⟨0x7fe0000#64, 0x20000#64, E820_TYPE_ACPI⟩)).card ≤ 7 := small_tables rfl rfl rfl
  have many := small_pages
  refine ⟨small_suitable, by decide, by decide, by decide, by omega, ?_⟩
  rw [allPages, List.length_append]
  omega

theorem boot_enters_user_small : ∃ s t p σ,
    (startKernel true (some smallMap) 0x80103000#32).run (boot (fun _ => 0#8) 0x80000000#32) = .ok () s ∧
    (initprocInit smallUser).run s = .ok () t ∧ σ.kernel = t ∧ Inevitable (Step smallUser) (Entered t p) σ := by
  obtain ⟨s, t, p, σ, started, created, -, kernel, -, inevitable, -⟩ := boot_enters_user smallUser smallMap 0x80103000#32 _ _ _ _
    small_bootable
  exact ⟨s, t, p, σ, started, created, kernel, inevitable⟩

/-- On the small machine the first process is dispatched, and has released `ptable.lock`. -/
theorem one_dispatched : ∃ σ q, Reachable Scheduler.Initial (Step smallUser) σ ∧ σ.running = some q ∧ Free σ.kernel.cpu := by
  obtain ⟨σ, q, run, high, waiting, live, turn, here⟩ := one_waiting
  have held := run_held run
  obtain ⟨free, spaces⟩ := held.spaces
  have sched : Scheduling σ.kernel σ := ⟨held.inv, live, turn, rfl, rfl, rfl⟩
  have given : Inevitable (Step smallUser) (fun τ => ∃ p, Entered σ.kernel p τ) σ :=
    (sched.nearest_runs (spaces_switchable spaces high) (by rw [here]; rfl) waiting).trans fun τ ⟨p, _, dispatched⟩ =>
      (dispatched_enters dispatched).mono fun υ entered => ⟨p, entered⟩
  obtain ⟨τ, arrived, p, entered⟩ := given.reachable (run.mono (fun _ ready => ready.toInitial) fun _ _ step => step.1)
  exact ⟨τ, p, arrived, entered.turn, entered.idle⟩

theorem scheduler_safety_dispatched : ∃ σ q, Reachable Scheduler.Initial (Step smallUser) σ ∧ σ.running = some q ∧
    σ.kernel.proc = some q ∧ (σ.kernel.ptable q).state = .running ∧ σ.kernel.cr3 = V2P (σ.kernel.ptable q).pgdir ∧
    σ.kernel.esp0 = (σ.kernel.ptable q).kstack + KSTACKSIZE := by
  obtain ⟨σ, q, run, turn, idle⟩ := one_dispatched
  exact ⟨σ, q, run, turn, (scheduler_safety smallUser σ run).2.1 q turn (by rw [idle.free]; rfl)⟩

end OsDev.Kernel.FirstProcess
