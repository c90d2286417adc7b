import OsDev.Kernel.LockDiscipline
import Mathlib.Algebra.BigOperators.Group.List.Basic

/-! Boot, the scheduler, process threads and nested interrupt handlers taking
turns on the only CPU, each running any bracketed sequence of calls into
kernel/spinlock.c, with `ptable.lock` handed across `swtch`. What an activation
has open is read off the calls it has made. -/

namespace OsDev.Kernel.LockThreads
open OsDev.Machine.Memory OsDev.Machine.Program OsDev.Machine.Interference
  OsDev.Kernel.SpinLocks OsDev.Kernel.LockSteps OsDev.Kernel.LockDiscipline

/-- The boot thread becomes the scheduler's. -/
inductive ThreadId where
  | scheduler
  | process (slot : Nat)
  deriving DecidableEq

inductive Call where
  | pushcli
  | popcli
  | acquire (lk : LockId)
  | release (lk : LockId)
  | mycpu
  | enterScheduler
  | exit (warns : Bool)
  deriving DecidableEq

def Call.code : Call → List Instr
  | .pushcli => pushcliCode
  | .popcli => popcliCode
  | .acquire lk => acquireCode lk
  | .release lk => releaseCode lk
  | .mycpu => [.mycpu]
  | .enterScheduler => enterSchedulerCode
  | .exit warns => exitCode warns

/-- One activation: the rest of the call it is in, the calls it has begun with
the latest first, and the interrupt flag its `iret` restores. Between two calls
the code is empty. -/
structure Frame where
  code : List Instr
  calls : List Call
  loc : Locals
  savedIf : Bool

section Accounts

/-- The `pushcli` among finished calls that no `popcli` has closed. -/
def openAfter (calls : List Call) : Int := calls.count .pushcli - calls.count .popcli

/-- The locks that finished calls took and did not give back. -/
def locksAfter : List Call → Finset LockId
  | [] => ∅
  | .acquire lk :: earlier => insert lk (locksAfter earlier)
  | .release lk :: earlier => (locksAfter earlier).erase lk
  | _ :: earlier => locksAfter earlier

/-- Inside a call: the `pushcli` that `acquire` makes belongs to the lock from
the exchange on, and `release` gets it back where it clears the lock. -/
def opens : Instr → Int
  | .incNcli | .clearLocked _ => 1
  | .decNcli | .xchg _ => -1
  | _ => 0

def locksBy (held : Finset LockId) : Instr → Finset LockId
  | .xchg lk => insert lk held
  | .clearLocked lk => held.erase lk
  | _ => held

/-- The part of the latest call that has been executed. -/
def Frame.executed (f : Frame) : List Instr :=
  match f.calls with
  | [] => []
  | c :: _ => c.code.take (c.code.length - f.code.length)

def Frame.opened (f : Frame) : Int :=
  if f.code = [] then openAfter f.calls else openAfter f.calls.tail + (f.executed.map opens).sum

def Frame.locks (f : Frame) : Finset LockId :=
  if f.code = [] then locksAfter f.calls else f.executed.foldl locksBy (locksAfter f.calls.tail)

/-- The `pushcli` of a thread that are still open. -/
def openPushcli (frames : List Frame) : Int := (frames.map Frame.opened).sum

/-- How deep a thread has nested, locks included. -/
def depth (frames : List Frame) : Int := (frames.map fun f => f.opened + (f.locks.card : Int)).sum

end Accounts

/-- The activations of the running thread come innermost first; a process that
has none is in user mode. -/
structure System where
  cpu : Processor
  running : ThreadId
  frames : List Frame
  suspended : ThreadId → Option (List Frame)
  booting : Bool
  stopped : Option String

def fresh : Locals := ⟨false, false, false, 0, ∅, none⟩

/-- What `enter_process` starts with: the lock the scheduler took. -/
def handed : Locals := { fresh with held := {.ptable} }

/-- Static storage starts as zero and the boot loader leaves interrupts off. -/
def boot : System :=
  ⟨⟨false, 0, false, fun _ => unlocked⟩, .scheduler, [⟨[], [], fresh, false⟩], fun _ => none, true, none⟩

def Initial (σ : System) : Prop := σ = boot

/-- Proper bracketing: an activation closes only what it opened, a thread takes
only locks that none of its activations holds, and opens another level only at
a depth that fits. -/
def Call.Allowed (fits : Int → Prop) (running : ThreadId) (frames : List Frame) (f : Frame) : Call → Prop
  | .pushcli => fits (depth frames)
  | .popcli => 1 ≤ f.opened
  | .acquire lk => fits (depth frames) ∧ ∀ g ∈ frames, lk ∉ g.locks
  | .release lk => lk ∈ f.locks
  | .mycpu => 1 ≤ f.opened ∨ f.locks.Nonempty
  | .enterScheduler => running ≠ .scheduler ∧ f.opened = 0 ∧ f.locks = {.ptable}
  | .exit _ => running ≠ .scheduler ∧ f.opened = 0 ∧ f.locks = ∅

inductive Step (fits : Int → Prop) : System → System → Prop where
  | access {σ : System} {f : Frame} {rest : List Frame} {i : Instr} {code : List Instr} (live : σ.stopped = none)
      (top : σ.frames = f :: rest) (next : f.code = i :: code) (stays : i ≠ .swtch)
      (exits : spins i ⟨σ.cpu, f.loc⟩ = false) (passes : fails i ⟨σ.cpu, f.loc⟩ = none) :
      Step fits σ { σ with
        cpu := (effect i ⟨σ.cpu, f.loc⟩).cpu
        frames := { f with code := code, loc := (effect i ⟨σ.cpu, f.loc⟩).loc } :: rest }
  | spin {σ : System} {f : Frame} {rest : List Frame} {lk : LockId} {code : List Instr} (live : σ.stopped = none)
      (top : σ.frames = f :: rest) (next : f.code = .xchg lk :: code) (taken : spins (.xchg lk) ⟨σ.cpu, f.loc⟩ = true) :
      Step fits σ { σ with cpu := setLock lk { σ.cpu.locks lk with locked := 1#32 } σ.cpu }
  | panic {σ : System} {f : Frame} {rest : List Frame} {i : Instr} {code : List Instr} {message : String}
      (live : σ.stopped = none) (top : σ.frames = f :: rest) (next : f.code = i :: code)
      (failed : fails i ⟨σ.cpu, f.loc⟩ = some message) : Step fits σ { σ with stopped := some message }
  | schedRunning {σ : System} {f : Frame} {rest : List Frame} {code : List Instr} (live : σ.stopped = none)
      (top : σ.frames = f :: rest) (next : f.code = .checkRunning :: code) :
      Step fits σ { σ with stopped := some "sched running" }
  | call {σ : System} {f : Frame} {rest : List Frame} (c : Call) (live : σ.stopped = none)
      (top : σ.frames = f :: rest) (between : f.code = []) (allowed : c.Allowed fits σ.running σ.frames f) :
      Step fits σ { σ with frames := { f with code := c.code, calls := c :: f.calls } :: rest }
  /-- `main` calls `scheduler`, which first asks for `mycpu()`. -/
  | scheduler {σ : System} {f : Frame} (live : σ.stopped = none) (booting : σ.booting = true)
      (top : σ.frames = [f]) (between : f.code = []) :
      Step fits σ { σ with booting := false, frames := [{ f with code := [.mycpu], calls := .mycpu :: f.calls }] }
  | sti {σ : System} {f : Frame} (live : σ.stopped = none) (loops : σ.booting = false)
      (thread : σ.running = .scheduler) (top : σ.frames = [f]) (between : f.code = [])
      (opened : f.opened = 0) (locks : f.locks = ∅) : Step fits σ { σ with cpu.flIf := true }
  /-- The scheduler's `swtch(&(c->scheduler), p->context)`. -/
  | dispatch {σ : System} {f : Frame} {fs : List Frame} (slot : Nat) (live : σ.stopped = none)
      (loops : σ.booting = false) (thread : σ.running = .scheduler) (top : σ.frames = [f]) (between : f.code = [])
      (opened : f.opened = 0) (locks : f.locks = {.ptable}) (found : σ.suspended (.process slot) = some fs) :
      Step fits σ { σ with
        running := .process slot
        frames := fs
        suspended := Function.update (Function.update σ.suspended (.process slot) none) .scheduler (some [f]) }
  /-- The `swtch(&p->context, mycpu()->scheduler)` of `enter_scheduler`. -/
  | swtch {σ : System} {f : Frame} {rest fs : List Frame} {code : List Instr} (slot : Nat) (live : σ.stopped = none)
      (thread : σ.running = .process slot) (top : σ.frames = f :: rest) (next : f.code = .swtch :: code)
      (found : σ.suspended .scheduler = some fs) :
      Step fits σ { σ with
        running := .scheduler
        frames := fs
        suspended := Function.update (Function.update σ.suspended .scheduler none) (.process slot)
          (some ({ f with code := code } :: rest)) }
  /-- A maskable interrupt goes through an interrupt gate, which clears the flag. -/
  | interrupt {σ : System} (live : σ.stopped = none) (enabled : σ.cpu.flIf = true) :
      Step fits σ { σ with cpu.flIf := false, frames := ⟨[], [], fresh, true⟩ :: σ.frames }
  /-- A system call goes through a trap gate, which keeps the flag. -/
  | syscall {σ : System} (live : σ.stopped = none) (user : σ.frames = []) :
      Step fits σ { σ with frames := [⟨[], [], fresh, σ.cpu.flIf⟩] }
  | iret {σ : System} {f : Frame} {rest : List Frame} (live : σ.stopped = none) (top : σ.frames = f :: rest)
      (between : f.code = []) (opened : f.opened = 0) (locks : f.locks = ∅)
      (returns : rest ≠ [] ∨ σ.running ≠ .scheduler) :
      Step fits σ { σ with cpu.flIf := f.savedIf, frames := rest }
  /-- A new process first runs the `release` of `enter_process`, for the
  `acquire` that the scheduler made, then `trapret` with any saved flags. -/
  | create {σ : System} (slot : Nat) (savedIf : Bool) (live : σ.stopped = none)
      (unused : σ.suspended (.process slot) = none) (other : σ.running ≠ .process slot) :
      Step fits σ { σ with
        suspended := Function.update σ.suspended (.process slot)
          (some [⟨releaseCode .ptable, [.release .ptable, .acquire .ptable], handed, savedIf⟩]) }

section Tied

/-- A call that comes to its end leaves open what its instructions opened. -/
theorem openAfter_cons (c : Call) (earlier : List Call) (returns : ∀ warns, c ≠ .exit warns) :
    openAfter (c :: earlier) = openAfter earlier + (c.code.map opens).sum := by
  cases c with
  | exit warns => exact absurd rfl (returns warns)
  | pushcli =>
    simp [openAfter, Call.code, pushcliCode, opens]
    omega
  | popcli =>
    simp [openAfter, Call.code, popcliCode, opens]
    omega
  | acquire lk => simp [openAfter, Call.code, acquireCode, holdingCode, pushcliCode, popcliCode, opens]
  | release lk => simp [openAfter, Call.code, releaseCode, holdingCode, pushcliCode, popcliCode, opens]
  | mycpu => simp [openAfter, Call.code, opens]
  | enterScheduler =>
    simp [openAfter, Call.code, enterSchedulerCode, myprocCode, holdingCode, pushcliCode, popcliCode, opens]

theorem locksAfter_cons (c : Call) (earlier : List Call) (returns : ∀ warns, c ≠ .exit warns) :
    locksAfter (c :: earlier) = c.code.foldl locksBy (locksAfter earlier) := by
  cases c with
  | exit warns => exact absurd rfl (returns warns)
  | pushcli | popcli | acquire lk | release lk | mycpu | enterScheduler => rfl

/-- `exit` ends in its panic. -/
theorem exit_last {warns : Bool} {done : List Instr} {i : Instr} (whole : done ++ [i] = exitCode warns) :
    i = .panic "zombie exit" := by
  have last := congrArg List.getLast? whole
  simp only [exitCode, ← List.append_assoc, List.getLast?_append, List.getLast?_singleton, Option.some_or] at last
  exact Option.some.inj last

/-- The locals of an activation count what its calls have opened. -/
structure Tied (f : Frame) : Prop where
  opened : (f.loc.opened : Int) = f.opened
  held : f.loc.held = f.locks
  inside : f.code ≠ [] → ∃ c earlier done, f.calls = c :: earlier ∧ done ++ f.code = c.code

/-- An activation whose calls have left nothing open. -/
theorem Tied.nothing {f : Frame} (tied : Tied f) (opened : f.opened = 0) (locks : f.locks = ∅) :
    f.loc.opened = 0 ∧ f.loc.held = ∅ := by
  have count := tied.opened
  exact ⟨by omega, tied.held.trans locks⟩

theorem executed_eq {f : Frame} {c : Call} {earlier : List Call} {done : List Instr} (calls : f.calls = c :: earlier)
    (whole : done ++ f.code = c.code) : f.executed = done := by
  simp [Frame.executed, calls, ← whole]

/-- In the middle of a call. -/
theorem opened_inside {f : Frame} {c : Call} {earlier : List Call} {d : List Instr} (calls : f.calls = c :: earlier)
    (whole : d ++ f.code = c.code) (more : f.code ≠ []) : f.opened = openAfter earlier + (d.map opens).sum := by
  rw [Frame.opened, if_neg more, executed_eq calls whole, calls, List.tail_cons]

theorem locks_inside {f : Frame} {c : Call} {earlier : List Call} {d : List Instr} (calls : f.calls = c :: earlier)
    (whole : d ++ f.code = c.code) (more : f.code ≠ []) : f.locks = d.foldl locksBy (locksAfter earlier) := by
  rw [Frame.locks, if_neg more, executed_eq calls whole, calls, List.tail_cons]

theorem opened_effect (i : Instr) (v : View) (allowed : ready i v) :
    ((effect i v).loc.opened : Int) = v.loc.opened + opens i := by
  cases i with
  | incNcli => simp [effect, opens]
  | clearLocked lk => simp [effect, opens]
  | decNcli =>
    have opened : 1 ≤ v.loc.opened := allowed
    simp only [effect, opens]
    omega
  | xchg lk =>
    have opened : 1 ≤ v.loc.opened := allowed.2.1
    simp only [effect, opens]
    omega
  | _ => simp [effect, opens]

theorem held_effect (i : Instr) (v : View) : (effect i v).loc.held = locksBy v.loc.held i := by
  cases i <;> rfl

/-- One instruction moves the counts of the locals as it moves the accounts. -/
theorem Tied.advance {f : Frame} {i : Instr} {code : List Instr} (tied : Tied f) (cpu : Processor)
    (next : f.code = i :: code) (allowed : ready i ⟨cpu, f.loc⟩) (passes : fails i ⟨cpu, f.loc⟩ = none) :
    Tied { f with code := code, loc := (effect i ⟨cpu, f.loc⟩).loc } := by
  have more : f.code ≠ [] := by simp [next]
  obtain ⟨c, earlier, done, calls, whole⟩ := tied.inside more
  have opened := tied.opened
  have held := tied.held
  rw [opened_inside calls whole more] at opened
  rw [locks_inside calls whole more] at held
  have moved : ((effect i ⟨cpu, f.loc⟩).loc.opened : Int) = openAfter earlier + ((done ++ [i]).map opens).sum := by
    rw [opened_effect i _ allowed]
    simp only [opened, List.map_append, List.sum_append, List.map_cons, List.map_nil, List.sum_singleton]
    omega
  have changed : (effect i ⟨cpu, f.loc⟩).loc.held = (done ++ [i]).foldl locksBy (locksAfter earlier) := by
    rw [held_effect, List.foldl_append]
    exact congrArg (locksBy · i) held
  have rest : (done ++ [i]) ++ code = c.code := by
    rw [List.append_assoc, List.singleton_append, ← next]
    exact whole
  cases code with
  | cons j code =>
    have still : (j :: code) ≠ [] := List.cons_ne_nil _ _
    refine ⟨moved.trans ?_, changed.trans ?_, fun _ => ⟨c, earlier, done ++ [i], calls, rest⟩⟩
    · exact (opened_inside (f := { f with code := j :: code, loc := _ }) calls rest still).symm
    · exact (locks_inside (f := { f with code := j :: code, loc := _ }) calls rest still).symm
  | nil =>
    rw [List.append_nil] at rest
    have returns : ∀ warns, c ≠ .exit warns := by
      rintro warns rfl
      rw [exit_last rest] at passes
      cases passes
    refine ⟨moved.trans ?_, changed.trans ?_, fun ended => absurd rfl ended⟩
    · simp only [Frame.opened, if_true, calls]
      rw [openAfter_cons c earlier returns, rest]
    · simp only [Frame.locks, if_true, calls]
      rw [locksAfter_cons c earlier returns, rest]

theorem Call.code_ne_nil (c : Call) : c.code ≠ [] := by
  cases c <;> simp [Call.code, pushcliCode, popcliCode, acquireCode, releaseCode, holdingCode, enterSchedulerCode, exitCode,
    myprocCode]

/-- A call that has just begun has opened nothing yet. -/
theorem Tied.begin {f : Frame} (tied : Tied f) (between : f.code = []) (c : Call) :
    Tied { f with code := c.code, calls := c :: f.calls } := by
  have opened := tied.opened
  have held := tied.held
  rw [Frame.opened, if_pos between] at opened
  rw [Frame.locks, if_pos between] at held
  refine ⟨opened.trans ?_, held.trans ?_, fun _ => ⟨c, f.calls, [], rfl, rfl⟩⟩
  · rw [opened_inside (d := []) rfl rfl c.code_ne_nil]
    simp
  · rw [locks_inside (d := []) rfl rfl c.code_ne_nil]
    rfl

theorem tied_fresh (savedIf : Bool) : Tied ⟨[], [], fresh, savedIf⟩ := ⟨rfl, rfl, fun more => absurd rfl more⟩

theorem tied_handed (savedIf : Bool) : Tied ⟨releaseCode .ptable, [.release .ptable, .acquire .ptable], handed, savedIf⟩ :=
  ⟨rfl, rfl, fun _ => ⟨.release .ptable, [.acquire .ptable], [], rfl, rfl⟩⟩

end Tied

/-- A call that nothing interrupts goes from its first instruction to its last. -/
theorem reachable_exec {fits : Int → Prop} {σ : System} {f : Frame} {rest : List Frame} {v : View}
    (run : Reachable Initial (Step fits) σ) (live : σ.stopped = none) (top : σ.frames = f :: rest) (stays : .swtch ∉ f.code)
    (ran : exec f.code ⟨σ.cpu, f.loc⟩ = .ok v) :
    Reachable Initial (Step fits) { σ with cpu := v.cpu, frames := { f with code := [], loc := v.loc } :: rest } := by
  obtain ⟨code, calls, loc, savedIf⟩ := f
  induction code generalizing σ loc with
  | nil =>
    cases ran
    obtain ⟨cpu, running, frames, suspended, booting, stopped⟩ := σ
    cases top
    exact run
  | cons i code ih =>
    simp only [exec] at ran
    split at ran
    · cases ran
    · rename_i exits
      split at ran
      · cases ran
      · rename_i passes
        have elsewhere : i ≠ .swtch := fun same => stays (same ▸ List.mem_cons_self)
        have step := Reachable.next run
          (Step.access live top rfl elsewhere (by simpa using exits) passes)
        exact ih step live _ rfl (fun member => stays (List.mem_cons_of_mem _ member)) ran

end OsDev.Kernel.LockThreads
