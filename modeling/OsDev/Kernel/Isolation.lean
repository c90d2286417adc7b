import OsDev.Kernel.Startup

/-! Isolation over whole runs of the scheduler: no step of one process reaches the
memory of another. -/

namespace OsDev.Kernel.Isolation
open OsDev.Machine.Memory OsDev.Machine.Program OsDev.Machine.LinkedChain
open OsDev.Kernel.SpinLocks OsDev.Kernel.Mmu OsDev.Kernel.State OsDev.Kernel.Kalloc OsDev.Kernel.Paging
  OsDev.Kernel.PageTables OsDev.Kernel.MapPages OsDev.Kernel.AddressSpace OsDev.Kernel.FreeVm OsDev.Kernel.Proc
  OsDev.Kernel.Scheduler OsDev.Kernel.Console OsDev.Kernel.Holdings OsDev.Kernel.Newborn OsDev.Kernel.Startup
  OsDev.Kernel.Pmem
open OsDev.Kernel.SchedulerRuns (Inv Creating Progress Free Locked Owns Moves holds)

theorem unprinted_view : Unprinted view := ⟨fun _ _ => rfl, fun _ _ => rfl, fun _ _ => rfl⟩

/-- What memory management depends on, with the directory that the processor walks. -/
def sight (s : KernelState) := (view s, s.cr3)

theorem unprinted_sight : Unprinted sight := ⟨fun _ _ => rfl, fun _ _ => rfl, fun _ _ => rfl⟩

theorem seen {α : Type} {code : Prog KernelState α} (kept : Preserves sight code) : Preserves view code :=
  fun s => congrArg Prod.fst (kept s)

theorem sight_setSlot {s : KernelState} {p : Slot} {entry : Process} (kstack : entry.kstack = (s.ptable p).kstack)
    (pgdir : entry.pgdir = (s.ptable p).pgdir) : sight (setSlot s p entry) = sight s :=
  Prod.ext (view_setSlot kstack pgdir) rfl

theorem preserves_updateSlot (p : Slot) {change : Process → Process}
    (same : ∀ entry, (change entry).kstack = entry.kstack ∧ (change entry).pgdir = entry.pgdir) :
    Preserves sight (updateSlot p change) :=
  fun s => sight_setSlot (same (s.ptable p)).1 (same (s.ptable p)).2

theorem preserves_setState (p : Slot) (state : ProcessState) : Preserves sight (setState p state) :=
  preserves_updateSlot p fun _ => ⟨rfl, rfl⟩

theorem preserves_takePid (p : Slot) : Preserves sight (takePid p) :=
  fun s => @sight_setSlot s p { s.ptable p with pid := s.nextpid } rfl rfl

/-- The slot a piece of process creation is about. -/
def slotOf : Creation → Owner
  | .claim p | .number p | .unlock p | .stack p | .giveUp p | .layout p | .directory p | .image p | .frame p | .publish p
  | .runnable p => some p
  | .lock | .scan | .noSlot | .full | .noStack | .finish => none

/-- What the later pieces rely on. -/
def Started (s : KernelState) : Creation → Prop
  | .directory p | .frame p => (s.ptable p).tf = tfOf (s.ptable p).kstack
  | .image p => (s.ptable p).tf = tfOf (s.ptable p).kstack ∧ pteAt s.mem (s.ptable p).pgdir 0 = 0#32
  | _ => True

section Pieces
variable {s t : KernelState} {free : List Addr} {procs : Slot → ProcPoint}

/-- A piece that memory management does not notice. -/
theorem unnoticed {α β ν : Type} {part : KernelState → ν} {code : Prog KernelState α} {next : α → β} {b : β}
    (kept : Preserves part code) (ran : (do let a ← code; return next a : Prog KernelState β).run s = .ok b t) :
    part t = part s ∧ ∃ a, b = next a := by
  obtain ⟨a, u, first, last⟩ := run_bind_eq_ok ran
  cases last
  exact ⟨kept.ok first, a, rfl⟩

/-- What a piece needs to lose no page: nothing is overwritten, and the image page gets its table. -/
def Thrifty (s : KernelState) (free : List Addr) : Creation → Prop
  | .stack p => (s.ptable p).kstack = 0#32
  | .directory p => (s.ptable p).pgdir = 0#32
  | .image _ => 2 ≤ free.length
  | _ => True

/-- A piece of process creation works on the pages of its slot. -/
structure Worked (c : Creation) (next : Option Creation) (s t : KernelState) (free free' : List Addr) : Prop where
  moved : Moved (slotOf c) s t free free'
  whole : Thrifty s free c → Whole (slotOf c) s t free free'
  started : ∀ c', next = some c' → Started t c'

theorem worked_unseen {c : Creation} {next : Option Creation} (spaces : Spaces s free) (same : view t = view s)
    (started : ∀ c', next = some c' → Started t c') : Worked c next s t free free := by
  obtain ⟨moved, whole⟩ := spaces.stay same (slotOf c)
  exact ⟨moved, fun _ => whole, started⟩

theorem create_worked {image : Image} {c : Creation} {next : Option Creation} (creating : Creating s procs c)
    (spaces : Spaces s free) (started : Started s c)
    (low : image.userInitStart.toNat + image.userInitSize.toNat ≤ s.kheapStart.toNat)
    (supplied : ∀ p, c = .image p → free ≠ []) (ran : (createCode image c).run s = .ok next t) :
    ∃ free', Worked c next s t free free' := by
  obtain ⟨lock, progress⟩ := creating
  cases c with
  | lock | noSlot | unlock p | publish p =>
    obtain ⟨same, -, rfl⟩ := unnoticed (preserves_onCpu unprinted_view _) ran
    exact ⟨free, worked_unseen spaces same fun c' same => by cases same; trivial⟩
  | finish =>
    obtain ⟨same, -, rfl⟩ := unnoticed (preserves_onCpu unprinted_view _) ran
    exact ⟨free, worked_unseen spaces same fun c' same => by cases same⟩
  | claim p | giveUp p | runnable p =>
    obtain ⟨same, -, rfl⟩ := unnoticed (seen (preserves_setState _ _)) ran
    exact ⟨free, worked_unseen spaces same fun c' same => by cases same; trivial⟩
  | number p =>
    obtain ⟨same, -, rfl⟩ := unnoticed (seen (preserves_takePid _)) ran
    exact ⟨free, worked_unseen spaces same fun c' same => by cases same; trivial⟩
  | scan =>
    rw [createCode, run_bind_ok (EStateM.run_get s)] at ran
    cases found : findUnused s with
    | none =>
      rw [found] at ran
      cases ran
      exact ⟨free, worked_unseen spaces rfl fun c' same => by cases same; trivial⟩
    | some p =>
      rw [found] at ran
      cases ran
      exact ⟨free, worked_unseen spaces rfl fun c' same => by cases same; trivial⟩
  | full | noStack =>
    obtain ⟨-, u, -, rest⟩ := run_bind_eq_ok ran
    obtain ⟨_, v, failed, -⟩ := run_bind_eq_ok rest
    exact absurd failed assertFail_ne_ok
  | stack p =>
    obtain ⟨k, u, taken, rest⟩ := run_bind_eq_ok ran
    obtain ⟨free', moved, whole⟩ := takeKstack_moved spaces lock.toQuiet taken
    rw [run_ite] at rest
    split at rest
    all_goals
      cases rest
      exact ⟨free', moved, whole, fun c' same => by cases same; trivial⟩
  | layout p =>
    obtain ⟨_, u, laid, rest⟩ := run_bind_eq_ok ran
    obtain ⟨moved, whole, top⟩ := layoutKstack_moved spaces progress.2 laid
    cases rest
    exact ⟨free, moved, fun _ => whole, fun c' same => by cases same; exact top⟩
  | directory p =>
    obtain ⟨_, u, built, rest⟩ := run_bind_eq_ok ran
    obtain ⟨pgdir, v, free', fresh, -, same, moved, whole⟩ := takePgdir_moved spaces lock.toQuiet built
    cases rest
    refine ⟨free', moved, whole, fun c' next => ?_⟩
    cases next
    rw [Started, same, setSlot_same]
    exact ⟨started, fresh.lower (spaces.congr (t := { s with initproc := some p }) rfl).firmware 0 (by decide)⟩
  | image p =>
    obtain ⟨_, u, loaded, rest⟩ := run_bind_eq_ok ran
    cases free with
    | nil => exact absurd rfl (supplied p rfl)
    | cons q others =>
      obtain ⟨free', placed, moved, whole⟩ := loadImage_moved spaces lock.toQuiet progress.2.2.2 low started.2 loaded
      obtain ⟨m, c, f, same⟩ := placed.kept
      cases rest
      refine ⟨free', moved, fun ample => whole ?_, fun c' next => ?_⟩
      · rintro rfl
        have two : 2 ≤ 1 := ample
        omega
      · cases next
        rw [Started, same]
        exact started.1
  | frame p =>
    obtain ⟨_, u, framed, rest⟩ := run_bind_eq_ok ran
    obtain ⟨moved, whole⟩ := initFrame_moved spaces progress.2.1 started framed
    cases rest
    exact ⟨free, moved, fun _ => whole, fun c' same => by cases same; trivial⟩

theorem preserves_myproc : Preserves sight myproc :=
  (preserves_onCpu unprinted_sight _).bind fun _ => (preserves_onCpu unprinted_sight _).bind fun _ =>
    preserves_get.bind fun _ => (preserves_onCpu unprinted_sight _).bind fun _ => preserves_pure _

theorem preserves_deref (p : Option Slot) : Preserves sight (deref p) := by
  cases p with
  | none => exact preserves_throw _
  | some p => exact preserves_pure p

theorem preserves_exitBegin : Preserves sight exitBegin := by
  refine preserves_myproc.bind fun p => preserves_get.bind fun s => ?_
  split
  · exact (preserves_cprintf unprinted_sight _ _).bind fun _ => preserves_pure _
  · exact (preserves_pure _).bind fun _ => preserves_pure _

theorem preserves_exitStatus (p : Option Slot) (status : Word) : Preserves sight (exitStatus p status) := by
  refine (preserves_deref p).bind fun p => Preserves.bind ?_ fun _ => preserves_pure _
  exact preserves_updateSlot p fun _ => ⟨rfl, rfl⟩

theorem preserves_enterScheduler : Preserves sight enterScheduler := by
  have cpu {α : Type} (part : Prog Processor α) : Preserves sight (onCpu part) := preserves_onCpu unprinted_sight part
  refine (cpu _).bind fun held => (preserves_throw _).ite ((cpu _).bind fun _ => preserves_get.bind fun s => ?_)
  refine (preserves_throw _).ite (preserves_myproc.bind fun p => (preserves_deref p).bind fun p => ?_)
  refine preserves_get.bind fun s => (preserves_throw _).ite ((cpu _).bind fun flag => (preserves_throw _).ite ?_)
  exact (cpu _).bind fun _ => preserves_get.bind fun s => (cpu _).bind fun _ => preserves_pure _

theorem preserves_pagingSwitchPgdir (pgdir : Addr) : Preserves view (pagingSwitchPgdir pgdir) :=
  (preserves_assertFail unprinted_view).ite (preserves_modify fun _ => rfl)

theorem preserves_switchuvm (p : Option Slot) : Preserves view (switchuvm p) := by
  have cpu {α : Type} (part : Prog Processor α) : Preserves view (onCpu part) := preserves_onCpu unprinted_view part
  cases p with
  | none => exact preserves_throw _
  | some p =>
    refine preserves_get.bind fun s => (preserves_throw _).ite ((preserves_throw _).ite ((cpu _).bind fun _ => ?_))
    refine (cpu _).bind fun _ => Preserves.bind ?_ fun _ => (cpu _).bind fun _ => Preserves.bind ?_ fun _ =>
      (preserves_pagingSwitchPgdir _).bind fun _ => cpu _
    · exact preserves_modify fun _ => by simp only [view]
    · exact preserves_modify fun _ => by simp only [view]

end Pieces

def mainCreation : MainPoint → Option Creation
  | .creating c => some c
  | _ => none

def procCreation : ProcPoint → Option Creation
  | .creating c => some c
  | _ => none

/-- The process creation that the thread with the CPU is in. -/
def creation (σ : System) : Option Creation :=
  match σ.running with
  | none => mainCreation σ.main
  | some q => procCreation (σ.procs q)

/-- Whose pages a step may change: those of the process under creation, or of the running one. -/
def actor (σ : System) : Owner := (creation σ).elim σ.running slotOf

/-- User code writes where the processor lets it, and the trap goes to the kernel stack; kernel code for the
process also has the variables of the kernel (`SyscallRuns` has the proof for system calls). `inituvm`, which does
not ask, gets a page. -/
structure Tame (σ τ : System) : Prop where
  user : ∀ q, σ.running = some q → σ.procs q = .user → ∀ x, τ.kernel.mem x ≠ σ.kernel.mem x →
    Storable σ.kernel q x ∨ (σ.kernel.ptable q).kstack ≠ 0#32 ∧ x ∈ span (σ.kernel.ptable q).kstack 4096
  kernel : ∀ q, σ.running = some q → σ.procs q = .kernel → ∀ x, τ.kernel.mem x ≠ σ.kernel.mem x →
    x < σ.kernel.kheapStart ∨ Storable σ.kernel q x ∨
      (σ.kernel.ptable q).kstack ≠ 0#32 ∧ x ∈ span (σ.kernel.ptable q).kstack 4096
  supplied : ∀ p, creation σ = some (.image p) → σ.kernel.freelist ≠ σ.kernel.KMEM_SENTINEL

def TameStep (image : Image) (σ τ : System) : Prop := Step image σ τ ∧ Tame σ τ

/-- `inituvm` finds a page for the image, and one for the table that maps it. -/
def Ample (σ : System) : Prop := ∀ p, creation σ = some (.image p) → ∃ page more rest,
  Chain (read32 σ.kernel.mem) σ.kernel.KMEM_SENTINEL σ.kernel.freelist (page :: more :: rest)

/-- After `paging_init` and `kinit2`. -/
structure Ready (image : Image) (σ : System) : Prop extends Initial σ where
  spaces : ∃ free, Spaces σ.kernel free
  real : σ.kernel.kpgdir ≠ 0#32
  low : image.userInitStart.toNat + image.userInitSize.toNat ≤ σ.kernel.kheapStart.toNat

/-- Past its creation. -/
def Made (entry : Process) : Prop := entry.state ≠ .unused ∧ entry.state ≠ .initial

structure Held (image : Image) (σ : System) : Prop where
  inv : Inv σ
  mapped : ∀ q, Made (σ.kernel.ptable q) → (σ.kernel.ptable q).pgdir ≠ 0#32
  spaces : ∃ free, Spaces σ.kernel free
  started : ∀ c, creation σ = some c → Started σ.kernel c
  low : image.userInitStart.toNat + image.userInitSize.toNat ≤ σ.kernel.kheapStart.toNat

section Steps
variable {image : Image} {σ τ : System}

/-- The directory in CR3 stays, or that of the kernel or of a process takes its place. -/
def Retargeted (s t : KernelState) : Prop :=
  t.cr3 = s.cr3 ∨ ∃ i, (∀ q, i = some q → Made (s.ptable q) ∧ (s.ptable q).pgdir ≠ 0#32) ∧ t.cr3 = V2P (root s i)

theorem switchuvm_cr3 {p : Slot} {u : Unit} {s t : KernelState} (ran : (switchuvm (some p)).run s = .ok u t) :
    (s.ptable p).pgdir ≠ 0#32 ∧ t.cr3 = V2P (s.ptable p).pgdir := by
  unfold switchuvm at ran
  rw [run_bind_ok (EStateM.run_get s), run_ite] at ran
  split at ran
  case isTrue => cases ran
  rw [run_ite] at ran
  split at ran
  case isTrue => cases ran
  case isFalse _ mapped =>
    refine ⟨mapped, ?_⟩
    obtain ⟨_, _, -, ran⟩ := run_bind_eq_ok ran
    obtain ⟨_, _, -, ran⟩ := run_bind_eq_ok ran
    obtain ⟨_, _, -, ran⟩ := run_bind_eq_ok ran
    obtain ⟨_, _, -, ran⟩ := run_bind_eq_ok ran
    obtain ⟨_, _, -, ran⟩ := run_bind_eq_ok ran
    obtain ⟨_, v, loaded, ran⟩ := run_bind_eq_ok ran
    obtain ⟨cpu, rfl⟩ := onCpu_eq_ok ran
    obtain rfl := pagingSwitchPgdir_eq_ok loaded
    rfl

/-- The piece of a thread is one of process creation, or memory management does not notice it. -/
theorem main_noticed {point next : MainPoint} {code : Prog KernelState MainPoint} {s t : KernelState}
    (piece : mainCode image point = some code) (ran : code.run s = .ok next t)
    (made : ∀ p, point = .chosen p → Made (s.ptable p)) :
    (∃ c after, point = .creating c ∧ (createCode image c).run s = .ok after t ∧ mainCreation next = after) ∨
      mainCreation point = none ∧ mainCreation next = none ∧ view t = view s ∧ Retargeted s t := by
  have kept {α : Type} {first : Prog KernelState α} {after : α → MainPoint} (same : Preserves sight first)
      (plain : ∀ a, mainCreation (after a) = none)
      (ran : (do let a ← first; return after a : Prog KernelState MainPoint).run s = .ok next t) :
      mainCreation next = none ∧ view t = view s ∧ Retargeted s t := by
    obtain ⟨unseen, a, rfl⟩ := unnoticed same ran
    exact ⟨plain a, congrArg Prod.fst unseen, .inl (congrArg Prod.snd unseen)⟩
  cases point with
  | boot | leave _ | away _ => cases piece
  | creating c =>
    cases piece
    obtain ⟨after, u, created, ended⟩ := run_bind_eq_ok ran
    cases after with
    | none =>
      cases ended
      exact .inl ⟨c, none, rfl, created, rfl⟩
    | some c' =>
      cases ended
      exact .inl ⟨c, some c', rfl, created, rfl⟩
  | enter =>
    cases piece
    obtain ⟨_, u, asked, ended⟩ := run_bind_eq_ok ran
    have same := (preserves_onCpu unprinted_sight _).ok asked
    cases ended
    exact .inr ⟨rfl, rfl, congrArg Prod.fst same, .inl (congrArg Prod.snd same)⟩
  | loop | lock =>
    cases piece
    exact .inr ⟨rfl, kept (preserves_onCpu unprinted_sight _) (fun _ => rfl) ran⟩
  | chosen p =>
    cases piece
    obtain ⟨_, u, loaded, ended⟩ := run_bind_eq_ok ran
    have same := (preserves_switchuvm _).ok loaded
    obtain ⟨mapped, cr3⟩ := switchuvm_cr3 loaded
    cases ended
    refine .inr ⟨rfl, rfl, same, .inr ⟨some p, fun q here => ?_, cr3⟩⟩
    cases here
    exact ⟨made p rfl, mapped⟩
  | switched p =>
    cases piece
    exact .inr ⟨rfl, kept (preserves_setState _ _) (fun _ => rfl) ran⟩
  | back p =>
    cases piece
    obtain ⟨_, u, loaded, ended⟩ := run_bind_eq_ok ran
    cases ended
    rw [switchkvm, run_bind_ok (EStateM.run_get s)] at loaded
    obtain rfl := pagingSwitchPgdir_eq_ok loaded
    refine .inr ⟨rfl, rfl, rfl, .inr ⟨none, fun q here => ?_, rfl⟩⟩
    cases here
  | cleared p =>
    cases piece
    cases ran
    exact .inr ⟨rfl, rfl, rfl, .inl rfl⟩
  | scan i =>
    cases piece
    split at ran
    next bound =>
      rw [run_bind_ok (EStateM.run_get s), run_ite] at ran
      split at ran
      · cases ran
        exact .inr ⟨rfl, rfl, rfl, .inl rfl⟩
      · cases ran
        exact .inr ⟨rfl, rfl, rfl, .inl rfl⟩
    next => exact .inr ⟨rfl, kept (preserves_onCpu unprinted_sight _) (fun _ => rfl) ran⟩

theorem proc_noticed {point next : ProcPoint} {code : Prog KernelState ProcPoint} {s t : KernelState}
    (piece : procCode image point = some code) (ran : code.run s = .ok next t) :
    (∃ c after, point = .creating c ∧ (createCode image c).run s = .ok after t ∧ procCreation next = after) ∨
      procCreation point = none ∧ procCreation next = none ∧ view t = view s ∧ Retargeted s t := by
  have kept {α : Type} {first : Prog KernelState α} {after : α → ProcPoint} (same : Preserves sight first)
      (plain : ∀ a, procCreation (after a) = none)
      (ran : (do let a ← first; return after a : Prog KernelState ProcPoint).run s = .ok next t) :
      procCreation next = none ∧ view t = view s ∧ Retargeted s t := by
    obtain ⟨unseen, a, rfl⟩ := unnoticed same ran
    exact ⟨plain a, congrArg Prod.fst unseen, .inl (congrArg Prod.snd unseen)⟩
  cases point with
  | absent | kernel | user | swtch _ | gone _ => cases piece
  | creating c =>
    cases piece
    obtain ⟨after, u, created, ended⟩ := run_bind_eq_ok ran
    cases after with
    | none =>
      cases ended
      exact .inl ⟨c, none, rfl, created, rfl⟩
    | some c' =>
      cases ended
      exact .inl ⟨c, some c', rfl, created, rfl⟩
  | enter | exitLock p status =>
    cases piece
    exact .inr ⟨rfl, kept (preserves_onCpu unprinted_sight _) (fun _ => rfl) ran⟩
  | trap tf =>
    cases piece
    obtain ⟨p, u, found, ran⟩ := run_bind_eq_ok ran
    obtain ⟨p, v, known, ran⟩ := run_bind_eq_ok ran
    have same := (preserves_myproc.ok found)
    have same' := ((preserves_deref _).ok known).trans same
    rw [run_bind_ok (run_updateSlot _ _ _)] at ran
    cases ran
    have last := (@sight_setSlot v p { v.ptable p with tf := tf } rfl rfl).trans same'
    exact .inr ⟨rfl, rfl, congrArg Prod.fst last, .inl (congrArg Prod.snd last)⟩
  | exit status =>
    cases piece
    exact .inr ⟨rfl, kept preserves_exitBegin (fun _ => rfl) ran⟩
  | exitMark p status =>
    cases piece
    exact .inr ⟨rfl, kept (preserves_exitStatus _ _) (fun _ => rfl) ran⟩
  | exitZombie p =>
    cases piece
    exact .inr ⟨rfl, kept (preserves_setState _ _) (fun _ => rfl) ran⟩
  | sched =>
    cases piece
    exact .inr ⟨rfl, kept preserves_enterScheduler (fun _ => rfl) ran⟩
  | resumed intena =>
    cases piece
    refine .inr ⟨rfl, kept ?_ (fun _ => rfl) ran⟩
    exact (preserves_onCpu unprinted_sight _).bind fun _ => preserves_modify fun _ => rfl
  | zombie =>
    cases piece
    cases ran

/-- What a step can do to the memory and to the creation of a process. -/
inductive Change (image : Image) (σ τ : System) : Prop where
  | created (c : Creation) (here : creation σ = some c) (ran : (createCode image c).run σ.kernel = .ok (creation τ) τ.kernel)
  | unseen (same : view τ.kernel = view σ.kernel) (cr3 : Retargeted σ.kernel τ.kernel) (before : creation σ = none)
      (next : creation τ = none ∨ creation τ = some .lock)
  | halted (kernel : τ.kernel = σ.kernel) (next : creation τ = creation σ)
  | worked (q : Slot) (m : Mem) (chars : List Word) (turn : σ.running = some q) (here : σ.procs q = .kernel ∨ σ.procs q = .user)
      (kernel : τ.kernel = (σ.kernel.print chars).setMem m) (plain : creation τ = none)

theorem step_change (step : Step image σ τ) (held : Inv σ) : Change image σ τ := by
  cases step with
  | @main code next t live turn piece ran =>
    have here : creation σ = mainCreation σ.main := by rw [creation, turn]
    have later : creation { σ with kernel := t, main := next, procs := σ.main.spawn σ.procs } = mainCreation next := by
      simp only [creation, turn]
    have made (p : Slot) (point : σ.main = .chosen p) : Made (σ.kernel.ptable p) := by
      have at' := held.main turn
      rw [point] at at'
      simp [Made, at'.2.2.2]
    rcases main_noticed piece ran made with ⟨c, after, point, created, goes⟩ | ⟨before, plain, same, cr3⟩
    · rw [point] at here
      exact .created c here (by rw [later, goes]; exact created)
    · exact .unseen same cr3 (here.trans before) (.inl (later.trans plain))
  | @proc code next t q live turn piece ran =>
    have here : creation σ = procCreation (σ.procs q) := by rw [creation, turn]
    have later : creation { σ with kernel := t, procs := Function.update ((σ.procs q).spawn σ.procs) q next } =
        procCreation next := by
      simp only [creation, turn, Function.update_self]
    rcases proc_noticed piece ran with ⟨c, after, point, created, goes⟩ | ⟨before, plain, same, cr3⟩
    · rw [point] at here
      exact .created c here (by rw [later, goes]; exact created)
    · exact .unseen same cr3 (here.trans before) (.inl (later.trans plain))
  | mainPanic live turn piece ran | procPanic q live turn piece ran => exact .halted rfl rfl
  | create live turn here =>
    refine .unseen rfl (.inl rfl) ?_ (.inr ?_)
    · simp only [creation, turn, here, mainCreation]
    · simp only [creation, turn, mainCreation]
  | scheduler live turn here =>
    refine .unseen rfl (.inl rfl) ?_ (.inl ?_)
    · simp only [creation, turn, here, mainCreation]
    · simp only [creation, turn, mainCreation]
  | dispatch p live turn here =>
    have at' := held.main turn
    rw [here] at at'
    refine .unseen rfl (.inl rfl) ?_ (.inl ?_)
    · simp only [creation, turn, here, mainCreation]
    · simp only [creation, Function.update_self, at'.2.2, ProcPoint.resume, procCreation]
  | swtch q p live turn here waits =>
    refine .unseen rfl (.inl rfl) ?_ (.inl ?_)
    · simp only [creation, turn, here, procCreation]
    · simp only [creation, mainCreation]
  | iret q flag live turn here =>
    refine .unseen rfl (.inl rfl) ?_ (.inl ?_)
    · simp only [creation, turn, here, procCreation]
    · simp only [creation, turn, Function.update_self, procCreation]
  | syscall q m tf live turn here =>
    refine .worked q m [] turn (.inr here) (by rw [print_nil]) ?_
    simp only [creation, turn, Function.update_self, procCreation]
  | work q m chars live turn here =>
    refine .worked q m chars turn here rfl ?_
    rcases here with here | here
    all_goals simp only [creation, turn, here, procCreation]
  | exit q status live turn here =>
    refine .unseen rfl (.inl rfl) ?_ (.inl ?_)
    · simp only [creation, turn, here, procCreation]
    · simp only [creation, turn, Function.update_self, procCreation]
  | fork q live turn here =>
    refine .unseen rfl (.inl rfl) ?_ (.inr ?_)
    · simp only [creation, turn, here, procCreation]
    · simp only [creation, turn, Function.update_self, procCreation]

/-- What a step leaves to all the others, and what it may lose. -/
structure Progressed (σ τ : System) (free free' : List Addr) : Prop where
  moved : Moved (actor σ) σ.kernel τ.kernel free free'
  whole : (∀ c, creation σ = some c → Thrifty σ.kernel free c) → Whole (actor σ) σ.kernel τ.kernel free free'
  started : ∀ c, creation τ = some c → Started τ.kernel c
  pgdirs : ∀ q, Made (σ.kernel.ptable q) → (τ.kernel.ptable q).pgdir = (σ.kernel.ptable q).pgdir

/-- A slot under creation is INITIAL, or still UNUSED. -/
theorem creating_not_made {s : KernelState} {procs : Slot → ProcPoint} {c : Creation} {p : Slot}
    (creating : Creating s procs c) (here : slotOf c = some p) : ¬ Made (s.ptable p) := by
  have progress := creating.progress
  intro made
  cases c with
  | lock | scan | noSlot | full | noStack | finish => cases here
  | claim r =>
    cases here
    exact made.1 progress
  | number r | unlock r | stack r | giveUp r =>
    cases here
    exact made.2 progress
  | layout r | directory r | image r | frame r | publish r | runnable r =>
    cases here
    exact made.2 progress.1

theorem Held.creating (held : Held image σ) {c : Creation} (here : creation σ = some c) : Creating σ.kernel σ.procs c := by
  unfold creation at here
  split at here
  next turn =>
    have at' := held.inv.main turn
    cases point : σ.main with
    | creating c' =>
      rw [point] at here at'
      cases here
      exact at'.2
    | _ =>
      rw [point] at here
      cases here
  next q turn =>
    have at' := (held.inv.proc q turn).1
    cases point : σ.procs q with
    | creating c' =>
      rw [point] at here at'
      cases here
      exact at'.2
    | _ =>
      rw [point] at here
      cases here

/-- A process that is past its creation is changed by nobody else. -/
theorem Held.not_actor (held : Held image σ) {r : Slot} (made : Made (σ.kernel.ptable r)) (other : σ.running ≠ some r) :
    some r ≠ actor σ := by
  intro same
  rw [actor] at same
  cases here : creation σ with
  | none =>
    rw [here] at same
    exact other same.symm
  | some c =>
    rw [here] at same
    exact creating_not_made (held.creating here) same.symm made

/-- The running process, at work in the kernel or in user mode, is past its creation and creates nobody. -/
theorem Held.at_work (held : Held image σ) {q : Slot} (turn : σ.running = some q)
    (here : σ.procs q = .kernel ∨ σ.procs q = .user) : Made (σ.kernel.ptable q) ∧ creation σ = none := by
  have owns : Owns σ.kernel q := by
    have at' := (held.inv.proc q turn).1
    rcases here with here | here
    all_goals
      rw [here] at at'
      exact at'.1
  refine ⟨by simp [Made, owns.running], ?_⟩
  rcases here with here | here
  all_goals simp only [creation, turn, here, procCreation]

theorem step_progressed (held : Held image σ) (step : Step image σ τ) (tame : Tame σ τ) {free : List Addr}
    (spaces : Spaces σ.kernel free) : ∃ free', Progressed σ τ free free' := by
  cases step_change step held.inv with
  | created c here ran =>
    have creating := held.creating here
    have supplied (p : Slot) (same : c = .image p) : free ≠ [] := by
      rintro rfl
      subst same
      exact tame.supplied p here (spaces.heap idle idle_quiet).chain
    obtain ⟨free', worked⟩ := create_worked creating spaces (held.started c here) held.low supplied ran
    have same : actor σ = slotOf c := by rw [actor, here]; rfl
    refine ⟨free', same ▸ worked.moved, fun thrifty => same ▸ worked.whole (thrifty c here), worked.started, fun q made => ?_⟩
    exact worked.moved.roots (some q) fun mine => creating_not_made creating mine.symm made
  | halted kernel next =>
    obtain ⟨moved, whole⟩ := spaces.stay (congrArg view kernel) (actor σ)
    refine ⟨free, moved, fun _ => whole, fun c later => ?_, fun q _ => by rw [kernel]⟩
    rw [kernel]
    exact held.started c (next ▸ later)
  | unseen same cr3 before next =>
    obtain ⟨moved, whole⟩ := spaces.stay same (actor σ)
    obtain ⟨-, -, -, -, -, -, -, -, -, slots⟩ := view_eq same
    refine ⟨free, moved, fun _ => whole, fun c later => ?_, fun q _ => (slots q).2⟩
    rcases next with next | next
    · rw [next] at later
      cases later
    · rw [next] at later
      cases later
      trivial
  | worked q m chars turn here kernel plain =>
    obtain ⟨made, idle⟩ := held.at_work turn here
    have mine : actor σ = some q := by rw [actor, idle]; exact turn
    have confined : ∀ x, m x ≠ σ.kernel.mem x → x < σ.kernel.kheapStart ∨ Storable σ.kernel q x ∨
        (σ.kernel.ptable q).kstack ≠ 0#32 ∧ x ∈ span (σ.kernel.ptable q).kstack 4096 := by
      intro x changed
      have written : τ.kernel.mem x ≠ σ.kernel.mem x := by rw [kernel]; exact changed
      rcases here with here | here
      · exact tame.kernel q turn here x written
      · exact .inr (tame.user q turn here x written)
    obtain ⟨moved, whole⟩ := spaces.write (spaces.work_data (held.mapped q made) confined)
    have same : view τ.kernel = view (σ.kernel.setMem m) := by rw [kernel]; rfl
    refine ⟨free, mine ▸ moved.congr same, fun _ => mine ▸ whole.congr same, fun c creating => ?_, fun r _ => ?_⟩
    · rw [plain] at creating
      cases creating
    · rw [kernel]
      rfl

theorem Ready.held (ready : Ready image σ) : Held image σ where
  inv := SchedulerRuns.initial_inv ready.toInitial
  mapped q made := by
    rw [ready.unused] at made
    exact absurd rfl made.1
  spaces := ready.spaces
  started c same := by
    simp only [creation, ready.running, ready.main, mainCreation] at same
    cases same
  low := ready.low

/-- A process that is past its creation was so before, or is RUNNABLE now. -/
theorem made_before {a b : ProcessState} (move : Moves a b) (made : b ≠ .unused ∧ b ≠ .initial) :
    b = .runnable ∨ a ≠ .unused ∧ a ≠ .initial := by
  cases move with
  | stay => exact .inr made
  | claim => exact absurd rfl made.2
  | giveUp => exact absurd rfl made.1
  | publish => exact .inl rfl
  | dispatch | exit => exact .inr (by decide)

theorem made_kept {a b : ProcessState} (move : Moves a b) (made : a ≠ .unused ∧ a ≠ .initial) :
    (b ≠ .unused ∧ b ≠ .initial) ∧ (b = .runnable → a = .runnable) := by
  cases move with
  | stay => exact ⟨made, id⟩
  | claim => exact absurd rfl made.1
  | giveUp | publish => exact absurd rfl made.2
  | dispatch | exit => exact ⟨by decide, by simp⟩

theorem Held.step (held : Held image σ) (step : Step image σ τ) (tame : Tame σ τ) : Held image τ := by
  have kept := SchedulerRuns.step_kept image held.inv step
  obtain ⟨free, spaces⟩ := held.spaces
  obtain ⟨free', progressed⟩ := step_progressed held step tame spaces
  refine ⟨kept.toInv, fun q made => ?_, ⟨free', progressed.moved.spaces spaces⟩, progressed.started, ?_⟩
  · rcases made_before (kept.moves q) made with runnable | before
    · exact (kept.table q runnable).2.1
    · rw [progressed.pgdirs q before]
      exact held.mapped q before
  · rw [progressed.moved.bounds.1]
    exact held.low

theorem run_held (run : Reachable (Ready image) (TameStep image) σ) : Held image σ :=
  Reachable.invariant (fun _ ready => ready.held) (fun _ _ held ⟨step, tame⟩ => held.step step tame) run

/-- The boot thread is tame as long as `inituvm` finds its pages. -/
theorem tame_main (turn : σ.running = none) (ample : Ample σ) : Tame σ τ := by
  refine ⟨fun q other => ?_, fun q other => ?_, fun p creating => ?_⟩
  · rw [turn] at other
    cases other
  · rw [turn] at other
    cases other
  · obtain ⟨page, more, rest, head, inner, -⟩ := ample p creating
    exact head ▸ inner

theorem ample_main {point : MainPoint} (turn : σ.running = none) (here : σ.main = point)
    (other : ∀ p, point ≠ .creating (.image p)) : Ample σ := by
  intro p creating
  cases point with
  | creating c =>
    simp only [creation, turn, here, mainCreation] at creating
    cases creating
    exact absurd rfl (other p)
  | _ =>
    simp only [creation, turn, here, mainCreation] at creating
    cases creating

/-- Outside process creation it always is. -/
theorem tame_boot (turn : σ.running = none) (past : mainCreation σ.main = none) : Tame σ τ := by
  refine tame_main turn fun p creating => ?_
  rw [creation, turn] at creating
  cases past.symm.trans creating

/-- The boot thread runs the next piece of the scheduler. -/
theorem main_reachable {first : System → Prop} {procs : Slot → ProcPoint} {s t : KernelState} {point next : MainPoint}
    {code : Prog KernelState MainPoint} (run : Reachable first (TameStep image) ⟨s, none, point, procs, none⟩)
    (past : mainCreation point = none) (piece : mainCode image point = some code) (ran : code.run s = .ok next t) :
    Reachable first (TameStep image) ⟨t, none, next, procs, none⟩ := by
  have still : point.spawn procs = procs := by
    cases point with
    | creating c => cases past
    | _ => rfl
  have step : Step image ⟨s, none, point, procs, none⟩ _ := .main rfl rfl piece ran
  simp only [still] at step
  exact .next run ⟨step, tame_boot rfl past⟩

section Pieces
variable {first : System → Prop} {next : System → System → Prop} {n : Nat} {s t : KernelState}

/-- The boot thread goes through the pieces of process creation. -/
theorem pieces_reachable (allowed : ∀ σ τ, TameStep image σ τ → Ample σ → next σ τ) {c : Creation} (pieces : Pieces image n c s t)
    (run : Reachable first next σ) (live : σ.stopped = none) (turn : σ.running = none)
    (here : σ.main = .creating c) (kernel : σ.kernel = s) :
    ∃ procs, Reachable first next { σ with kernel := t, main := .boot, procs := procs } := by
  have step {c : Creation} {σ : System} {code : Prog KernelState MainPoint} {point : MainPoint} {t : KernelState}
      (run : Reachable first next σ) (live : σ.stopped = none) (turn : σ.running = none) (ample : Ample σ)
      (here : σ.main = .creating c) (piece : mainCode image (.creating c) = some code) (ran : code.run σ.kernel = .ok point t) :
      Reachable first next { σ with kernel := t, main := point, procs := σ.main.spawn σ.procs } :=
    .next run (allowed _ _ ⟨Step.main live turn (by rw [here]; exact piece) ran, tame_main turn ample⟩ ample)
  induction pieces generalizing σ with
  | @last c s t plain ran =>
    subst kernel
    have ample : Ample σ := ample_main turn here fun p same => by
      cases same
      cases plain
    exact ⟨_, step run live turn ample here rfl (run_bind_ok ran)⟩
  | @more n c following s u t supplied ran rest ih =>
    subst kernel
    have ample : Ample σ := by
      intro p creating
      simp only [creation, turn, here, mainCreation] at creating
      cases creating
      exact supplied rfl
    have done := ih (step run live turn ample here rfl (run_bind_ok ran)) live turn rfl rfl
    exact done

/-- `main` creates a process. -/
theorem create_reachable (allowed : ∀ σ τ, TameStep image σ τ → Ample σ → next σ τ) (run : Reachable first next σ)
    (live : σ.stopped = none) (turn : σ.running = none) (here : σ.main = .boot) (pieces : Pieces image n .lock σ.kernel t) :
    ∃ procs, Reachable first next { σ with kernel := t, main := .boot, procs := procs } := by
  have ample : Ample σ := ample_main turn here fun _ => MainPoint.noConfusion
  have begun : Reachable first next { σ with main := .creating .lock } :=
    .next run (allowed _ _ ⟨Step.create live turn here, tame_main turn ample⟩ ample)
  have done := pieces_reachable allowed pieces begun live turn rfl rfl
  exact done

end Pieces

end Steps

/-- The kernel that `main` has prepared is ready for processes. -/
theorem ready_of_prepared {image : Image} {kEnd : Addr} {extmem entry : E820Entry} {s t : KernelState} {free : List Addr}
    (prepared : Prepared kEnd extmem entry s t free) (idle : Free s.cpu) (unused : ∀ q, s.ptable q = Process.zero)
    (nobody : s.proc = none)
    (low : image.userInitStart.toNat + image.userInitSize.toNat ≤ (PGROUNDUP kEnd).toNat) :
    Ready image ⟨t, none, .boot, fun _ => .absent, none⟩ where
  quiet := prepared.settled.quiet
  ncli := prepared.settled.ncli.trans idle.ncli
  proc := prepared.kept.2.2.trans nobody
  cr3 := prepared.cr3
  unused q := (congrFun prepared.kept.1 q).trans (unused q)
  running := rfl
  main := rfl
  procs _ := rfl
  stopped := rfl
  spaces := ⟨free, prepared.spaces⟩
  real := prepared.real
  low := by
    change _ ≤ t.kheapStart.toNat
    rw [prepared.start]
    exact low

theorem processes_isolated (image : Image) (σ : System) (run : Reachable (Ready image) (TameStep image) σ) :
    (∀ q r x, q ≠ r → (σ.kernel.ptable q).pgdir ≠ 0#32 → (σ.kernel.ptable r).pgdir ≠ 0#32 → Seen σ.kernel q x →
      ¬ Seen σ.kernel r x) ∧
    (∀ q x, (σ.kernel.ptable q).pgdir ≠ 0#32 → Seen σ.kernel q x → σ.kernel.kheapStart ≤ x ∧
      (∀ i, ∀ page ∈ stackPages σ.kernel i ++ walkPages σ.kernel.mem (root σ.kernel i), x ∉ span page 4096) ∧
      ∀ free, Chain (read32 σ.kernel.mem) σ.kernel.KMEM_SENTINEL σ.kernel.freelist free → ∀ page ∈ free, x ∉ span page 4096) ∧
    ∀ τ, TameStep image σ τ → ∀ r, Made (σ.kernel.ptable r) → σ.running ≠ some r →
      (τ.kernel.ptable r).pgdir = (σ.kernel.ptable r).pgdir ∧
      (∀ a, translation τ.kernel.mem (σ.kernel.ptable r).pgdir a = translation σ.kernel.mem (σ.kernel.ptable r).pgdir a) ∧
      ∀ x, Seen σ.kernel r x → τ.kernel.mem x = σ.kernel.mem x := by
  have held := run_held run
  obtain ⟨free, spaces⟩ := held.spaces
  refine ⟨fun q r x ne mappedQ mappedR => spaces.seen_apart ne mappedQ mappedR, fun q x mapped seen => ?_,
    fun τ ⟨step, tame⟩ r made other => ?_⟩
  · obtain ⟨above, kernel, pooled⟩ := spaces.seen_off mapped seen
    refine ⟨above, kernel, fun list chain => ?_⟩
    have same : list = free := chain_unique chain (spaces.heap idle idle_quiet).chain
    exact same ▸ pooled
  · obtain ⟨free', progressed⟩ := step_progressed held step tame spaces
    have after := progressed.moved.spaces spaces
    refine ⟨progressed.pgdirs r made, spaces.seen_kept after (held.mapped r made) (progressed.pgdirs r made) ?_⟩
    exact progressed.moved.untouched (some r) (held.not_actor made other)

def smallUser : Image := ⟨0x80100100#32, 0x80100200#32, 0x80101000#32, 100#32⟩

/-- A new process sees something. -/
theorem born_seen {image : Image} {p : Slot} {s t : KernelState} {free free' : List Addr} {kstack pgdir : Addr}
    (born : Born image p s t free free' kstack pgdir) : (t.ptable p).pgdir ≠ 0#32 ∧ ∃ x, Seen t p x := by
  have here : (t.ptable p).pgdir = pgdir := by rw [born.entry]
  obtain ⟨mapping, walk, user⟩ := (born.space.user 0#32).mpr (by decide)
  exact ⟨by rw [here]; exact born.mapped, _, 0#32, mapping, by rw [here]; exact walk, user, rfl⟩

/-- The small machine after `initproc_init`. -/
theorem small_born : ∃ s t free free' q kstack pgdir,
    Prepared 0x80103000#32 ⟨0x100000#64, 0x300000#64, E820_TYPE_RAM⟩ ⟨0x7fe0000#64, 0x20000#64, E820_TYPE_ACPI⟩
      (boot (fun _ => 0#8) 0x80000000#32) s free ∧ Ready smallUser ⟨s, none, .boot, fun _ => .absent, none⟩ ∧
    Free s.cpu ∧ (∀ r, (s.ptable r).state = .unused) ∧ Pieces smallUser 13 .lock s t ∧
    Born smallUser q s t free free' kstack pgdir ∧ (neededTables t).card ≤ 7 ∧ 23 ≤ free'.length ∧
    t.kheapStart = 0x80103000#32 ∧ t.cpu.flIf = false := by
  obtain ⟨s, free, -, prepared, few, many⟩ := small_prepared
  have low : smallUser.userInitStart.toNat + smallUser.userInitSize.toNat ≤ (PGROUNDUP 0x80103000#32).toNat := by decide
  have ready := ready_of_prepared prepared ⟨boot_quiet _ _, rfl⟩ (fun _ => rfl) rfl low
  have unused (q : Slot) : (s.ptable q).state = .unused := by rw [prepared.kept.1]; rfl
  obtain ⟨q, found⟩ := findUnused_isSome (unused firstSlot)
  have idle : Free s.cpu := Free.settled ⟨boot_quiet _ _, rfl⟩ prepared.settled
  obtain ⟨k, d, t, free', pieces, born⟩ := born smallUser idle prepared.spaces found (by omega) (by decide)
    (by rw [prepared.start]; exact low)
  have count := born.count
  refine ⟨s, t, free, free', q, k, d, prepared, ready, idle, unused, pieces, born, ?_, by omega, ?_, ?_⟩
  · rw [neededTables, kernelPages, born.advanced.firmware.1, born.advanced.firmware.2.1, born.advanced.firmware.2.2]
    exact few
  · rw [born.advanced.start, prepared.start]
    decide
  · rw [born.settled.flIf, prepared.settled.flIf]
    rfl

theorem two_processes : ∃ σ q r x y, Reachable (Ready smallUser) (TameStep smallUser) σ ∧ q ≠ r ∧
    (σ.kernel.ptable q).pgdir ≠ 0#32 ∧ (σ.kernel.ptable r).pgdir ≠ 0#32 ∧ Seen σ.kernel q x ∧ Seen σ.kernel r y := by
  obtain ⟨s, t, free, free', q, k, d, -, ready, idle, unused, first, born, few, many, start, -⟩ := small_born
  have allowed (σ τ : System) (step : TameStep smallUser σ τ) (_ : Ample σ) : TameStep smallUser σ τ := step
  obtain ⟨procs, run⟩ := create_reachable allowed (.start ready) rfl rfl rfl first
  have : Nontrivial Slot := inferInstanceAs (Nontrivial (Fin 64))
  obtain ⟨other, ne⟩ := exists_ne q
  obtain ⟨r, found⟩ := findUnused_isSome (s := t) (p := other) (by rw [born.others other ne]; exact unused other)
  have differ : q ≠ r := by
    rintro rfl
    have state := findUnused_unused found
    rw [born.entry] at state
    cases state
  obtain ⟨k', d', u, free'', pieces, born'⟩ := Newborn.born smallUser (idle.settled born.settled) born.spaces found (by omega)
    (by decide) (by rw [start]; decide)
  obtain ⟨procs', run'⟩ := create_reachable allowed run rfl rfl rfl pieces
  obtain ⟨mapped, x, seen⟩ := born_seen born
  obtain ⟨mapped', y, seen'⟩ := born_seen born'
  have same : (u.ptable q).pgdir = (t.ptable q).pgdir := by rw [born'.others q differ]
  have kept := born.spaces.seen_kept born'.spaces mapped same
    (born'.advanced.untouched (some q) fun eq => differ (Option.some.inj eq))
  refine ⟨_, q, r, x, y, run', differ, by rw [same]; exact mapped, mapped', ?_, seen'⟩
  obtain ⟨a, mapping, walk, user, byte⟩ := seen
  exact ⟨a, mapping, by rw [same, kept.1]; exact walk, user, byte⟩

theorem processes_isolated_two : ∃ σ q r x y, Reachable (Ready smallUser) (TameStep smallUser) σ ∧ Seen σ.kernel q x ∧
    Seen σ.kernel r y ∧ ¬ Seen σ.kernel r x ∧ ¬ Seen σ.kernel q y := by
  obtain ⟨σ, q, r, x, y, run, ne, mappedQ, mappedR, seen, seen'⟩ := two_processes
  have apart := (processes_isolated smallUser σ run).1
  exact ⟨σ, q, r, x, y, run, seen, seen', apart q r x ne mappedQ mappedR seen, apart r q y ne.symm mappedR mappedQ seen'⟩

end OsDev.Kernel.Isolation
