import Mathlib.Data.Finset.Max
import OsDev.Machine.Liveness
import OsDev.Kernel.Isolation

/-! The order in which the scheduler gives the CPU to the processes. -/

namespace OsDev.Kernel.Fairness
open OsDev.Machine.Memory OsDev.Machine.Program OsDev.Machine.Liveness
open OsDev.Kernel.SpinLocks OsDev.Kernel.Mmu OsDev.Kernel.State OsDev.Kernel.Kalloc OsDev.Kernel.Paging
  OsDev.Kernel.AddressSpace OsDev.Kernel.Proc OsDev.Kernel.Scheduler OsDev.Kernel.Holdings OsDev.Kernel.Newborn
  OsDev.Kernel.Startup OsDev.Kernel.Isolation
open OsDev.Kernel.SchedulerRuns (Inv AtMain Free Locked Owns Moves step_kept)

/-- How many slots a scan from `i` on looks at before it comes to `q`. -/
def turns (i : Nat) (q : Slot) : Nat := if i ≤ q.val then q.val - i else NPROC - i + q.val

theorem turns_lt (i : Nat) (q : Slot) : turns i q < NPROC := by
  have bound := q.isLt
  unfold turns
  split <;> omega

theorem turns_self (q : Slot) : turns q.val q = 0 := by simp [turns]

theorem turns_next {i : Nat} {q : Slot} (other : i ≠ q.val) (inside : i < NPROC) : turns (i + 1) q < turns i q := by
  unfold turns
  split <;> split <;> omega

theorem turns_wrap {i : Nat} (q : Slot) (outside : ¬ i < NPROC) : turns 0 q ≤ turns i q := by
  have bound := q.isLt
  unfold turns
  split <;> split <;> omega

/-- The slot the scheduler looks at next. -/
def position : MainPoint → Nat
  | .boot | .creating _ | .enter | .loop | .lock => 0
  | .scan i => i
  | .chosen p | .switched p | .leave p => p.val
  | .away p | .back p | .cleared p => p.val + 1

/-- The CPU goes from the scheduler to a process. -/
def Dispatches (σ τ : System) : Prop := σ.running = none ∧ τ.running ≠ none

section Bypass
variable {image : Image} {σ τ : System} {q : Slot}

theorem main_turns {point next : MainPoint} {code : Prog KernelState MainPoint} {s t : KernelState}
    (piece : mainCode image point = some code) (ran : code.run s = .ok next t) (waiting : (s.ptable q).state = .runnable) :
    turns (position next) q ≤ turns (position point) q := by
  cases point with
  | boot | leave _ | away _ => cases piece
  | creating c =>
    cases piece
    obtain ⟨after, u, -, ended⟩ := run_bind_eq_ok ran
    cases after with
    | none | some _ =>
      cases ended
      exact le_refl _
  | enter | loop | lock | chosen p | switched p | back p | cleared p =>
    cases piece
    obtain ⟨-, u, -, ended⟩ := run_bind_eq_ok ran
    cases ended
    exact le_refl _
  | scan i =>
    cases piece
    split at ran
    next bound =>
      rw [run_bind_ok (EStateM.run_get s), run_ite] at ran
      split at ran
      next skipped =>
        cases ran
        have other : i ≠ q.val := fun same => skipped (by simpa [same] using waiting)
        exact (turns_next other bound).le
      next =>
        cases ran
        exact le_refl _
    next outside =>
      obtain ⟨-, u, -, ended⟩ := run_bind_eq_ok ran
      cases ended
      exact turns_wrap q outside

/-- A process that waits comes nearer with each process that is dispatched. -/
theorem step_turns (inv : Inv σ) (waiting : (σ.kernel.ptable q).state = .runnable) (step : Step image σ τ) :
    turns (position τ.main) q ≤ turns (position σ.main) q ∧
      (Dispatches σ τ → turns (position τ.main) q < turns (position σ.main) q) := by
  cases step with
  | main live turn piece ran => exact ⟨main_turns piece ran waiting, fun given => absurd turn given.2⟩
  | mainPanic live turn => exact ⟨le_refl _, fun given => absurd turn given.2⟩
  | create live turn here | scheduler live turn here =>
    rw [here]
    exact ⟨le_refl _, fun given => absurd turn given.2⟩
  | dispatch p live turn here =>
    have at' := inv.main turn
    rw [here] at at' ⊢
    have other : p.val ≠ q.val := by
      intro same
      obtain rfl := Fin.ext same
      rw [at'.2.1.running] at waiting
      cases waiting
    have nearer := turns_next other p.isLt
    exact ⟨nearer.le, fun _ => nearer⟩
  | swtch r p live turn here waits =>
    rw [waits]
    exact ⟨le_refl _, fun given => absurd rfl given.2⟩
  | proc r live turn | procPanic r live turn | iret r flag live turn | syscall r m tf live turn | work r m chars live turn
  | exit r status live turn | fork r live turn =>
    exact ⟨le_refl _, fun given => absurd given.1 (by rw [turn]; exact Option.some_ne_none r)⟩

theorem dispatches_bounded {n : Nat} (run : Counted (Step image) Dispatches n σ τ) (inv : Inv σ)
    (first : (σ.kernel.ptable q).state = .runnable) (still : (τ.kernel.ptable q).state = .runnable) :
    n + turns (position τ.main) q ≤ turns (position σ.main) q := by
  refine run.bounded (P := fun υ => Inv υ ∧ Made (υ.kernel.ptable q)) (fun υ ω ⟨inv, made⟩ step => ?_)
    (fun υ ω ⟨inv, made⟩ step => ?_) (fun υ ω ⟨inv, _⟩ waiting step => (step_turns inv waiting step).1)
    (fun υ ω ⟨inv, _⟩ waiting step => (step_turns inv waiting step).2) ⟨inv, ?_⟩ still
  · have kept := step_kept image inv step
    exact ⟨kept.toInv, (made_kept (kept.moves q) made).1⟩
  · exact (made_kept ((step_kept image inv step).moves q) made).2
  · simp [Made, first]

end Bypass

/-- The scheduler has the CPU, and nothing has happened to the processes since `s`. -/
structure Scheduling (s : KernelState) (σ : System) : Prop where
  inv : Inv σ
  live : σ.stopped = none
  turn : σ.running = none
  mem : σ.kernel.mem = s.mem
  table : σ.kernel.ptable = s.ptable
  kpgdir : σ.kernel.kpgdir = s.kpgdir

/-- The process has been given the CPU, and nothing else has happened since `s`. -/
structure Dispatched (s : KernelState) (p : Slot) (σ : System) : Prop where
  inv : Inv σ
  live : σ.stopped = none
  turn : σ.running = some p
  point : σ.procs p = .enter
  mem : σ.kernel.mem = s.mem
  table : σ.kernel.ptable = Function.update s.ptable p { s.ptable p with state := .running }

/-- No directory is at the bottom of the kernel half, where `paging_switch_pgdir` takes it for a null pointer. -/
structure Switchable (s : KernelState) : Prop where
  kernel : V2P s.kpgdir ≠ 0#32
  runnable : ∀ p, (s.ptable p).state = .runnable → V2P (s.ptable p).pgdir ≠ 0#32

/-- The RUNNABLE process that a scan from `i` on comes to first. -/
structure Nearest (s : KernelState) (i : Nat) (p : Slot) : Prop where
  runnable : (s.ptable p).state = .runnable
  first : ∀ r, (s.ptable r).state = .runnable → turns i p ≤ turns i r

section Progress
variable {image : Image} {s : KernelState} {σ : System} {goal : System → Prop}

/-- While it has the CPU, the boot thread is alone. -/
theorem main_only {code : Prog KernelState MainPoint} {next : MainPoint} {t : KernelState} (turn : σ.running = none)
    (piece : mainCode image σ.main = some code) (ran : code.run σ.kernel = .ok next t) (τ : System) (step : Step image σ τ) :
    τ = { σ with kernel := t, main := next, procs := σ.main.spawn σ.procs } := by
  cases step with
  | main live _ piece' ran' =>
    cases piece.symm.trans piece'
    cases ran.symm.trans ran'
    rfl
  | mainPanic live _ piece' ran' =>
    cases piece.symm.trans piece'
    cases ran.symm.trans ran'
  | create live _ here | scheduler live _ here | dispatch p live _ here =>
    rw [here] at piece
    cases piece
  | proc r live turn' | procPanic r live turn' | iret r flag live turn' | syscall r m tf live turn' | work r m chars live turn'
  | exit r status live turn' | fork r live turn' | swtch r p live turn' =>
    cases turn.symm.trans turn'

theorem Scheduling.step (sched : Scheduling s σ) {code : Prog KernelState MainPoint} {next : MainPoint} {t : KernelState}
    (piece : mainCode image σ.main = some code) (ran : code.run σ.kernel = .ok next t)
    (same : t.mem = σ.kernel.mem ∧ t.ptable = σ.kernel.ptable ∧ t.kpgdir = σ.kernel.kpgdir)
    (rest : ∀ τ, Scheduling s τ → τ.main = next → Inevitable (Step image) goal τ) : Inevitable (Step image) goal σ := by
  have step := Step.main sched.live sched.turn piece ran
  refine inevitable_of_only step (main_only sched.turn piece ran) (rest _ ?_ rfl)
  exact ⟨(step_kept image sched.inv step).toInv, sched.live, sched.turn, same.1.trans sched.mem, same.2.1.trans sched.table,
    same.2.2.trans sched.kpgdir⟩

theorem run_switchuvm_ok {p : Slot} (locked : Locked s.cpu) (kstack : (s.ptable p).kstack ≠ 0#32)
    (pgdir : (s.ptable p).pgdir ≠ 0#32) (high : V2P (s.ptable p).pgdir ≠ 0#32) :
    ∃ c, (switchuvm (some p)).run s = .ok () (KernelState.setCpu { s with
      ss0 := 0x10#16, esp0 := (s.ptable p).kstack + KSTACKSIZE, cr3 := V2P (s.ptable p).pgdir } c) := by
  have two : int32 (s.cpu.ncli + 1) = 2 := by rw [locked.ncli]; decide
  have switched := run_pagingSwitchPgdir high
  rw [run_switchuvm kstack pgdir, two]
  exact ⟨_, (run_bind_ok (switched _)).trans
    (run_onCpu_ok (run_popcli _ rfl (by decide : (1 : Int) ≤ 2) (by decide : (2 : Int) < 2 ^ 31)))⟩

/-- The `swtch` of the scheduler. -/
theorem leave_dispatches {p : Slot} (inv : Inv σ) (live : σ.stopped = none) (turn : σ.running = none)
    (here : σ.main = .leave p) (mem : σ.kernel.mem = s.mem)
    (table : σ.kernel.ptable = Function.update s.ptable p { s.ptable p with state := .running }) :
    Inevitable (Step image) (Dispatched s p) σ := by
  have at' := inv.main turn
  rw [here] at at'
  have step : Step image σ _ := Step.dispatch p live turn here
  refine .next ⟨_, step⟩ fun τ other => .here ?_
  cases other with
  | dispatch r _ _ here' =>
    cases here.symm.trans here'
    refine ⟨(step_kept image inv step).toInv, live, rfl, ?_, mem, table⟩
    change Function.update σ.procs p (σ.procs p).resume p = .enter
    rw [Function.update_self, at'.2.2]
    rfl
  | main _ _ piece | mainPanic _ _ piece =>
    rw [here] at piece
    cases piece
  | create _ _ here' | scheduler _ _ here' => cases here.symm.trans here'
  | proc r _ turn' | procPanic r _ turn' | iret r flag _ turn' | syscall r m tf _ turn' | work r m chars _ turn'
  | exit r status _ turn' | fork r _ turn' | swtch r p _ turn' =>
    cases turn.symm.trans turn'

theorem Scheduling.switched (sched : Scheduling s σ) {p : Slot} (here : σ.main = .switched p) :
    Inevitable (Step image) (Dispatched s p) σ := by
  have piece : mainCode image σ.main = some (do setState p .running; return .leave p) := by rw [here]; rfl
  have ran : (do setState p .running; return .leave p : Prog KernelState MainPoint).run σ.kernel =
      .ok (.leave p) (setSlot σ.kernel p { σ.kernel.ptable p with state := .running }) := rfl
  have step := Step.main sched.live sched.turn piece ran
  refine inevitable_of_only step (main_only sched.turn piece ran) ?_
  apply leave_dispatches (step_kept image sched.inv step).toInv sched.live sched.turn rfl sched.mem
  rw [setSlot_ptable, sched.table]

theorem Scheduling.chosen (sched : Scheduling s σ) (switch : Switchable s) {p : Slot} (here : σ.main = .chosen p) :
    Inevitable (Step image) (Dispatched s p) σ := by
  have piece : mainCode image σ.main = some (do switchuvm (some p); return .switched p) := by rw [here]; rfl
  have at' := sched.inv.main sched.turn
  rw [here] at at'
  obtain ⟨locked, -, -, runnable⟩ := at'
  obtain ⟨kstack, pgdir, -⟩ := sched.inv.table p runnable
  have high := switch.runnable p (by rw [← sched.table]; exact runnable)
  rw [← sched.table] at high
  obtain ⟨c, ran⟩ := run_switchuvm_ok locked kstack pgdir high
  exact sched.step piece (run_bind_ok ran) ⟨rfl, rfl, rfl⟩ fun τ later point => later.switched point

theorem Scheduling.scan_passes (sched : Scheduling s σ) {i : Nat} (here : σ.main = .scan i) (bound : i < NPROC)
    (other : (s.ptable ⟨i, bound⟩).state ≠ .runnable)
    (rest : ∀ τ, Scheduling s τ → τ.main = .scan (i + 1) → Inevitable (Step image) goal τ) :
    Inevitable (Step image) goal σ := by
  rw [← sched.table] at other
  refine sched.step (t := σ.kernel) (by rw [here]; rfl) ?_ ⟨rfl, rfl, rfl⟩ rest
  rw [dif_pos bound, run_bind_ok (EStateM.run_get _), run_ite, if_pos other]
  rfl

theorem Scheduling.scan_takes (sched : Scheduling s σ) (switch : Switchable s) {p : Slot} (here : σ.main = .scan p.val)
    (found : (s.ptable p).state = .runnable) : Inevitable (Step image) (Dispatched s p) σ := by
  rw [← sched.table] at found
  refine sched.step (t := { σ.kernel with proc := some p }) (by rw [here]; rfl) ?_ ⟨rfl, rfl, rfl⟩
    fun τ later point => later.chosen switch point
  rw [dif_pos p.isLt, run_bind_ok (EStateM.run_get _), run_ite, if_neg (not_not.mpr found)]
  rfl

/-- The scan takes the first RUNNABLE process it comes to. -/
theorem Scheduling.scan_finds (sched : Scheduling s σ) (switch : Switchable s) {p : Slot} {i : Nat}
    (runnable : (s.ptable p).state = .runnable) (ahead : i ≤ p.val)
    (between : ∀ r, (s.ptable r).state = .runnable → i ≤ r.val → p.val ≤ r.val) (here : σ.main = .scan i) :
    Inevitable (Step image) (Dispatched s p) σ := by
  obtain ⟨n, far⟩ := Nat.exists_eq_add_of_le ahead
  induction n generalizing i σ with
  | zero =>
    obtain rfl : p.val = i := far
    exact sched.scan_takes switch here runnable
  | succ n ih =>
    have bound : i < NPROC := by
      have last := p.isLt
      omega
    have skipped : (s.ptable ⟨i, bound⟩).state ≠ .runnable := by
      intro found
      have after := between ⟨i, bound⟩ found (le_refl i)
      dsimp only at after
      omega
    refine sched.scan_passes here bound skipped fun τ later point => ?_
    exact ih later (by omega) (fun r found after => between r found (by omega)) point (by omega)

/-- With no RUNNABLE process ahead, the scan starts again at the bottom of the table. -/
theorem Scheduling.scan_wraps (sched : Scheduling s σ) {i : Nat} (behind : ∀ r, (s.ptable r).state = .runnable → r.val < i)
    (here : σ.main = .scan i) : Inevitable (Step image) (fun τ => Scheduling s τ ∧ τ.main = .loop) σ := by
  generalize left : NPROC - i = n
  induction n generalizing i σ with
  | zero =>
    have at' := sched.inv.main sched.turn
    rw [here] at at'
    obtain ⟨c, ran, -⟩ := at'.2.release
    refine sched.step (t := σ.kernel.setCpu c) (by rw [here]; rfl) ?_ ⟨rfl, rfl, rfl⟩ fun τ later point => .here ⟨later, point⟩
    rw [dif_neg (by omega), run_bind_ok ran]
    rfl
  | succ n ih =>
    have bound : i < NPROC := by omega
    have skipped : (s.ptable ⟨i, bound⟩).state ≠ .runnable := fun found => lt_irrefl i (behind ⟨i, bound⟩ found)
    refine sched.scan_passes here bound skipped fun τ later point => ?_
    exact ih later (fun r found => Nat.lt_succ_of_lt (behind r found)) point (by omega)

theorem Scheduling.lock (sched : Scheduling s σ) (here : σ.main = .lock)
    (rest : ∀ τ, Scheduling s τ → τ.main = .scan 0 → Inevitable (Step image) goal τ) : Inevitable (Step image) goal σ := by
  have at' := sched.inv.main sched.turn
  rw [here] at at'
  obtain ⟨c, ran, -⟩ := at'.2.acquire
  refine sched.step (t := σ.kernel.setCpu c) (by rw [here]; rfl) ?_ ⟨rfl, rfl, rfl⟩ rest
  rw [run_bind_ok ran]
  rfl

theorem Scheduling.loop (sched : Scheduling s σ) (here : σ.main = .loop)
    (rest : ∀ τ, Scheduling s τ → τ.main = .scan 0 → Inevitable (Step image) goal τ) : Inevitable (Step image) goal σ := by
  refine sched.step (t := σ.kernel.setCpu { σ.kernel.cpu with flIf := true }) (by rw [here]; rfl) rfl ⟨rfl, rfl, rfl⟩
    fun τ later point => later.lock point rest

/-- `scheduler` starts with interrupts off, as `mycpu` wants them. -/
theorem Scheduling.enter (sched : Scheduling s σ) (masked : σ.kernel.cpu.flIf = false) (here : σ.main = .enter)
    (rest : ∀ τ, Scheduling s τ → τ.main = .loop → Inevitable (Step image) goal τ) : Inevitable (Step image) goal σ := by
  refine sched.step (t := { σ.kernel with proc := none }) (by rw [here]; rfl) ?_ ⟨rfl, rfl, rfl⟩ rest
  rw [run_bind_ok (run_onCpu_ok (run_mycpu σ.kernel.cpu masked))]
  rfl

/-- There is a nearest one when there is any. -/
theorem exists_nearest (s : KernelState) (i : Nat) {q : Slot} (waiting : (s.ptable q).state = .runnable) :
    ∃ p, Nearest s i p := by
  obtain ⟨p, member, least⟩ := Finset.exists_min_image (Finset.univ.filter fun r => (s.ptable r).state = .runnable) (turns i)
    ⟨q, by simpa using waiting⟩
  exact ⟨p, (Finset.mem_filter.mp member).2, fun r runnable => least r (by simpa using runnable)⟩

theorem Scheduling.scan (sched : Scheduling s σ) (switch : Switchable s) {i : Nat} {p : Slot} (nearest : Nearest s i p)
    (here : σ.main = .scan i) : Inevitable (Step image) (Dispatched s p) σ := by
  have order (r : Slot) (runnable : (s.ptable r).state = .runnable) := nearest.first r runnable
  unfold turns at order
  by_cases ahead : i ≤ p.val
  · apply sched.scan_finds switch nearest.runnable ahead _ here
    intro r runnable after
    have least := order r runnable
    rw [if_pos ahead, if_pos after] at least
    omega
  · have behind (r : Slot) (runnable : (s.ptable r).state = .runnable) : r.val < i := by
      by_contra after
      have least := order r runnable
      rw [if_neg ahead, if_pos (by omega)] at least
      have bound := r.isLt
      omega
    refine (sched.scan_wraps behind here).trans fun τ ⟨later, point⟩ => later.loop point fun υ again start => ?_
    apply again.scan_finds switch nearest.runnable (Nat.zero_le _) _ start
    intro r runnable _
    have least := order r runnable
    have after := behind r runnable
    rw [if_neg ahead, if_neg (by omega)] at least
    omega

theorem Scheduling.cleared (sched : Scheduling s σ) {p : Slot} (here : σ.main = .cleared p)
    (rest : ∀ τ, Scheduling s τ → τ.main = .scan (p.val + 1) → Inevitable (Step image) goal τ) :
    Inevitable (Step image) goal σ :=
  sched.step (t := { σ.kernel with proc := none }) (by rw [here]; rfl) rfl ⟨rfl, rfl, rfl⟩ rest

theorem Scheduling.back (sched : Scheduling s σ) (switch : Switchable s) {p : Slot} (here : σ.main = .back p)
    (rest : ∀ τ, Scheduling s τ → τ.main = .scan (p.val + 1) → Inevitable (Step image) goal τ) :
    Inevitable (Step image) goal σ := by
  have high := switch.kernel
  rw [← sched.kpgdir] at high
  have ran : switchkvm.run σ.kernel = .ok () { σ.kernel with cr3 := V2P σ.kernel.kpgdir } := by
    rw [switchkvm, run_bind_ok (EStateM.run_get _), run_pagingSwitchPgdir high]
  refine sched.step (t := { σ.kernel with cr3 := V2P σ.kernel.kpgdir }) (by rw [here]; rfl) ?_ ⟨rfl, rfl, rfl⟩
    fun τ later point => later.cleared point rest
  rw [run_bind_ok ran]
  rfl

end Progress

/-- The scheduler is in its loop, and has not yet marked a process as RUNNING. -/
def inLoop : MainPoint → Bool
  | .loop | .lock | .scan _ | .chosen _ | .switched _ | .back _ | .cleared _ => true
  | .boot | .creating _ | .enter | .leave _ | .away _ => false

section Turns
variable {image : Image} {s : KernelState} {σ : System}

theorem Scheduling.nearest_runs (sched : Scheduling s σ) (switch : Switchable s) (inside : inLoop σ.main = true) {q : Slot}
    (waiting : (s.ptable q).state = .runnable) :
    Inevitable (Step image) (fun τ => ∃ p, Nearest s (position σ.main) p ∧ Dispatched s p τ) σ := by
  have at' := sched.inv.main sched.turn
  obtain ⟨p, nearest⟩ := exists_nearest s (position σ.main) waiting
  have found (given : Inevitable (Step image) (Dispatched s p) σ) :
      Inevitable (Step image) (fun τ => ∃ p, Nearest s (position σ.main) p ∧ Dispatched s p τ) σ :=
    given.mono fun τ dispatched => ⟨p, nearest, dispatched⟩
  -- a process that has been chosen is the nearest one
  have chosen {r : Slot} (here : position σ.main = r.val) (runnable : (σ.kernel.ptable r).state = .runnable)
      (given : Inevitable (Step image) (Dispatched s r) σ) :
      Inevitable (Step image) (fun τ => ∃ p, Nearest s (position σ.main) p ∧ Dispatched s p τ) σ := by
    refine given.mono fun τ dispatched => ⟨r, ⟨?_, fun other _ => ?_⟩, dispatched⟩
    · rw [← sched.table]
      exact runnable
    · rw [here, turns_self]
      exact Nat.zero_le _
  cases point : σ.main with
  | boot | creating _ | enter | leave _ | away _ =>
    rw [point] at inside
    cases inside
  | chosen r =>
    rw [point] at at'
    rw [← point]
    exact chosen (by rw [point]; rfl) at'.2.2.2 (sched.chosen switch point)
  | switched r =>
    rw [point] at at'
    rw [← point]
    exact chosen (by rw [point]; rfl) at'.2.2.2 (sched.switched point)
  | scan i =>
    rw [← point]
    rw [point] at nearest
    exact found (sched.scan switch nearest point)
  | loop =>
    rw [← point]
    rw [point] at nearest
    exact found (sched.loop point fun τ later start => later.scan switch nearest start)
  | lock =>
    rw [← point]
    rw [point] at nearest
    exact found (sched.lock point fun τ later start => later.scan switch nearest start)
  | back r =>
    rw [← point]
    rw [point] at nearest
    exact found (sched.back switch point fun τ later start => later.scan switch nearest start)
  | cleared r =>
    rw [← point]
    rw [point] at nearest
    exact found (sched.cleared point fun τ later start => later.scan switch nearest start)

/-- The heap, and with it every page directory, lies above the kernel image. -/
theorem spaces_switchable {free : List Addr} (spaces : Spaces s free) (high : KERNBASE < s.kheapStart) : Switchable s := by
  have above (i : Owner) : V2P (root s i) ≠ 0#32 := by
    by_cases absent : root s i = 0#32
    · rw [absent]
      decide
    · have frame := spaces.frames i (root s i) (walkPages_subset i (by rw [walkPages, if_neg absent]; exact List.mem_cons_self))
      have bound := frame.above
      unfold V2P KERNBASE at *
      bv_omega
  exact ⟨above none, fun p _ => above (some p)⟩

end Turns

theorem runnable_gets_its_turn (image : Image) (σ : System) (run : Reachable (Ready image) (TameStep image) σ)
    (high : KERNBASE < σ.kernel.kheapStart) (q : Slot) (waiting : (σ.kernel.ptable q).state = .runnable) :
    (σ.stopped = none → σ.running = none → inLoop σ.main = true → Inevitable (Step image) (fun τ => ∃ p,
      τ.running = some p ∧ Owns τ.kernel p ∧ (σ.kernel.ptable p).state = .runnable ∧
      ∀ r, (σ.kernel.ptable r).state = .runnable → turns (position σ.main) p ≤ turns (position σ.main) r) σ) ∧
    ∀ n τ, Counted (Step image) Dispatches n σ τ → (τ.kernel.ptable q).state = .runnable → n < NPROC := by
  have held := run_held run
  obtain ⟨free, spaces⟩ := held.spaces
  refine ⟨fun live turn inside => ?_, fun n τ path still => ?_⟩
  · have sched : Scheduling σ.kernel σ := ⟨held.inv, live, turn, rfl, rfl, rfl⟩
    refine (sched.nearest_runs (spaces_switchable spaces high) inside waiting).mono fun τ ⟨p, nearest, given⟩ => ?_
    have at' := (given.inv.proc p given.turn).1
    rw [given.point] at at'
    exact ⟨p, given.turn, at'.1, nearest.runnable, nearest.first⟩
  · have spent := dispatches_bounded path held.inv waiting still
    have bound := turns_lt (position σ.main) q
    omega

/-- On the small machine the scheduler has just started, with one process. -/
theorem small_looping : ∃ s t free free' q k d procs, Born smallUser q s t free free' k d ∧ Free t.cpu ∧
    (∀ r, (t.ptable r).state = .runnable ↔ r = q) ∧ t.kheapStart = 0x80103000#32 ∧
    Reachable (Ready smallUser) (TameStep smallUser) ⟨{ t with proc := none }, none, .loop, procs, none⟩ := by
  obtain ⟨s, t, free, free', q, k, d, -, ready, idle, unused, pieces, born, -, -, start, masked⟩ := small_born
  obtain ⟨procs, run⟩ := create_reachable (fun _ _ step _ => step) (.start ready) rfl rfl rfl pieces
  have entered : Reachable (Ready smallUser) (TameStep smallUser) ⟨t, none, .enter, procs, none⟩ :=
    .next run ⟨Step.scheduler rfl rfl rfl, tame_boot rfl rfl⟩
  have ran : (do let _ ← onCpu mycpu; modify fun s => { s with proc := none }; return MainPoint.loop :
      Prog KernelState MainPoint).run t = .ok .loop { t with proc := none } := by
    rw [run_bind_ok (run_onCpu_ok (run_mycpu t.cpu masked))]
    rfl
  refine ⟨s, t, free, free', q, k, d, procs, born, idle.settled born.settled, fun r => ?_, start,
    main_reachable entered rfl rfl ran⟩
  by_cases same : r = q
  · simp [same, born.entry]
  · simp [same, born.others r same, unused r]

theorem one_waiting : ∃ σ q, Reachable (Ready smallUser) (TameStep smallUser) σ ∧ KERNBASE < σ.kernel.kheapStart ∧
    (σ.kernel.ptable q).state = .runnable ∧ σ.stopped = none ∧ σ.running = none ∧ σ.main = .loop := by
  obtain ⟨s, t, free, free', q, k, d, procs, born, -, only, start, looping⟩ := small_looping
  refine ⟨_, q, looping, ?_, (only q).mpr rfl, rfl, rfl, rfl⟩
  change KERNBASE < t.kheapStart
  rw [start]
  decide

theorem runnable_gets_its_turn_first : ∃ σ, σ.running = none ∧ (∃ q, (σ.kernel.ptable q).state = .runnable) ∧
    Inevitable (Step smallUser) (fun τ => ∃ p, τ.running = some p) σ := by
  obtain ⟨σ, q, run, high, waiting, live, turn, here⟩ := one_waiting
  have given := (runnable_gets_its_turn smallUser σ run high q waiting).1 live turn (by rw [here]; rfl)
  exact ⟨σ, turn, ⟨q, waiting⟩, given.mono fun τ ⟨p, runs, _⟩ => ⟨p, runs⟩⟩

end OsDev.Kernel.Fairness
