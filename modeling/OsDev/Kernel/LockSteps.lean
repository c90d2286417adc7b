import OsDev.Kernel.SpinLocks
import OsDev.Machine.Interference
import Mathlib.Data.Finset.Card

/-! The code of kernel/spinlock.c and of `enter_scheduler` one access at a time,
so that an interrupt can fall between any two of them. -/

namespace OsDev.Kernel.LockSteps
open OsDev.Machine.Memory OsDev.Machine.Program OsDev.Machine.Interference OsDev.Kernel.SpinLocks

instance : Fintype LockId := ⟨{.ptable, .kmem, .cons, .ide}, fun lk => by cases lk <;> decide⟩

inductive Instr where
  | readeflags
  | cli
  | mycpu
  /-- `if(mycpu()->ncli == 0) mycpu()->intena = eflags & FL_IF` -/
  | saveIntena
  | incNcli
  /-- `if(readeflags()&FL_IF) panic(message)` -/
  | panicIfEnabled (message : String)
  /-- `if(--mycpu()->ncli < 0) panic("popcli")` -/
  | decNcli
  /-- `if(mycpu()->ncli == 0 && mycpu()->intena) sti()` -/
  | restoreIf
  /-- `r = lock->locked && lock->cpu == mycpu()` -/
  | testLock (lk : LockId)
  /-- `if(r == found) panic(message)` -/
  | panicIfHeld (found : Bool) (message : String)
  /-- One iteration of `while(xchg(&lk->locked, 1) != 0);` -/
  | xchg (lk : LockId)
  | setCpu (lk : LockId)
  | clearCpu (lk : LockId)
  | clearLocked (lk : LockId)
  /-- `if(mycpu()->ncli != 1) panic("sched locks")` -/
  | checkNcli
  /-- `if(p->state == RUNNING) panic("sched running")`; the process table is not part of this model. -/
  | checkRunning
  | keepIntena
  | putIntena
  | swtch
  | panic (message : String)
  deriving DecidableEq

/-- The locals of the functions one activation is inside of, and what it has
opened so far: `opened` counts the increments of `ncli` that belong to no lock,
`window` is the lock whose two fields disagree. -/
structure Locals where
  eflags : Bool
  r : Bool
  intena : Bool
  opened : Nat
  held : Finset LockId
  window : Option LockId

structure View where
  cpu : Processor
  loc : Locals

def effect : Instr → View → View
  | .readeflags, v => { v with loc.eflags := v.cpu.flIf }
  | .cli, v => { v with cpu.flIf := false }
  | .saveIntena, v => { v with cpu.intena := if v.cpu.ncli = 0 then v.loc.eflags else v.cpu.intena }
  | .incNcli, v => { v with cpu.ncli := int32 (v.cpu.ncli + 1), loc.opened := v.loc.opened + 1 }
  | .decNcli, v => { v with cpu.ncli := int32 (v.cpu.ncli - 1), loc.opened := v.loc.opened - 1 }
  | .restoreIf, v => { v with cpu.flIf := v.cpu.flIf || decide (v.cpu.ncli = 0) && v.cpu.intena }
  | .testLock lk, v => { v with loc.r := decide (Held (v.cpu.locks lk)) }
  -- the increment made on entry now belongs to the lock
  | .xchg lk, v => ⟨setLock lk { v.cpu.locks lk with locked := 1#32 } v.cpu,
      { v.loc with opened := v.loc.opened - 1, held := insert lk v.loc.held, window := some lk }⟩
  | .setCpu lk, v => ⟨setLock lk { v.cpu.locks lk with cpu := some 0 } v.cpu, { v.loc with window := none }⟩
  | .clearCpu lk, v => ⟨setLock lk { v.cpu.locks lk with cpu := none } v.cpu, { v.loc with window := some lk }⟩
  | .clearLocked lk, v => ⟨setLock lk { v.cpu.locks lk with locked := 0#32 } v.cpu,
      { v.loc with opened := v.loc.opened + 1, held := v.loc.held.erase lk, window := none }⟩
  | .keepIntena, v => { v with loc.intena := v.cpu.intena }
  | .putIntena, v => { v with cpu.intena := v.loc.intena }
  | .mycpu, v | .panicIfEnabled _, v | .panicIfHeld _ _, v | .checkNcli, v | .checkRunning, v | .swtch, v
  | .panic _, v => v

def mycpuMessage : String := "mycpu called with interrupts enabled\n"

/-- The message an instruction stops with. -/
def fails : Instr → View → Option String
  | .mycpu, v => if v.cpu.flIf then some mycpuMessage else none
  | .saveIntena, v => if v.cpu.ncli = 0 ∧ v.cpu.flIf = true then some mycpuMessage else none
  | .panicIfEnabled message, v => if v.cpu.flIf then some message else none
  | .decNcli, v => if int32 (v.cpu.ncli - 1) < 0 then some "popcli" else none
  | .panicIfHeld found message, v => if v.loc.r = found then some message else none
  | .checkNcli, v => if v.cpu.ncli = 1 then none else some "sched locks"
  | .panic message, _ => some message
  | _, _ => none

/-- The exchange found the lock taken, so the loop goes round again. -/
def spins : Instr → View → Bool
  | .xchg lk, v => (v.cpu.locks lk).locked ≠ 0#32
  | _, _ => false

def pushcliCode : List Instr := [.readeflags, .cli, .mycpu, .saveIntena, .mycpu, .incNcli]

def popcliCode : List Instr :=
  [.panicIfEnabled "popcli - interruptible", .mycpu, .decNcli, .mycpu, .restoreIf]

def holdingCode (lk : LockId) : List Instr := pushcliCode ++ ([.mycpu, .testLock lk] ++ popcliCode)

def acquireCode (lk : LockId) : List Instr :=
  pushcliCode ++ (holdingCode lk ++ [.panicIfHeld true "acquire", .xchg lk, .mycpu, .setCpu lk])

def releaseCode (lk : LockId) : List Instr :=
  holdingCode lk ++ ([.panicIfHeld false "release", .clearCpu lk, .clearLocked lk] ++ popcliCode)

def myprocCode : List Instr := pushcliCode ++ ([.mycpu] ++ popcliCode)

/-- Up to and including the call of `swtch`, and what follows when it returns. -/
def enterSchedulerCode : List Instr :=
  holdingCode .ptable ++ ([.panicIfHeld false "sched ptable.lock", .mycpu, .checkNcli] ++ (myprocCode ++
    [.checkRunning, .panicIfEnabled "sched interruptible", .mycpu, .keepIntena, .mycpu, .swtch,
      .mycpu, .putIntena]))

/-- `warns` when the process is `initproc`: the warning takes the console lock. -/
def exitCode (warns : Bool) : List Instr :=
  myprocCode ++ ((if warns then acquireCode .cons ++ releaseCode .cons else []) ++
    (acquireCode .ptable ++ (enterSchedulerCode ++ [.panic "zombie exit"])))

section Uninterrupted

/-- The code run to its end with nothing in between. -/
def exec : List Instr → View → Except Stop View
  | [], v => .ok v
  | i :: code, v =>
    if spins i v then .error .spin else
    match fails i v with
    | some message => .error (.panic message)
    | none => exec code (effect i v)

/-- The outcome of a function of kernel/spinlock.c, seen by an activation whose
locals become `loc`. -/
def seen {α : Type} (loc : α → Locals) : EStateM.Result Stop Processor α → Except Stop View
  | .ok a p => .ok ⟨p, loc a⟩
  | .error e _ => .error e

theorem exec_append (first second : List Instr) (v : View) :
    exec (first ++ second) v = exec first v >>= exec second := by
  induction first generalizing v with
  | nil => rfl
  | cons i code ih =>
    simp only [List.cons_append, exec]
    split
    · rfl
    · split
      · rfl
      · exact ih _

theorem exec_pushcli (v : View) :
    exec pushcliCode v =
      seen (fun _ => { v.loc with eflags := v.cpu.flIf, opened := v.loc.opened + 1 }) (pushcli.run v.cpu) := by
  rw [run_pushcli_int]
  by_cases outer : v.cpu.ncli = 0
  · simp [exec, pushcliCode, spins, fails, effect, seen, settle, outer]
  · simp [exec, pushcliCode, spins, fails, effect, seen, settle, outer]

theorem exec_popcli (v : View) :
    exec popcliCode v = seen (fun _ => { v.loc with opened := v.loc.opened - 1 }) (popcli.run v.cpu) := by
  cases enabled : v.cpu.flIf with
  | true => simp [exec, popcliCode, spins, fails, seen, popcli, readeflags, enabled]
  | false =>
    by_cases below : int32 (v.cpu.ncli - 1) < 0
    · simp [exec, popcliCode, spins, fails, effect, seen, popcli, readeflags, mycpu, enabled, below]
    · rw [run_popcli_int v.cpu enabled below]
      simp [exec, popcliCode, spins, fails, effect, seen, enabled, below]

/-- A sequence of the source is the sequence of the codes. -/
theorem exec_bind {α β : Type} {code tail : List Instr} {v : View} {first : Prog Processor α} {k : α → Prog Processor β}
    {loc : α → Locals} {last : β → Locals} (ran : exec code v = seen loc (first.run v.cpu))
    (rest : ∀ a p, first.run v.cpu = .ok a p → exec tail ⟨p, loc a⟩ = seen last ((k a).run p)) :
    exec (code ++ tail) v = seen last ((first >>= k).run v.cpu) := by
  rw [exec_append, ran]
  cases outcome : first.run v.cpu with
  | ok a p =>
    rw [run_bind_ok outcome]
    exact rest a p outcome
  | error e p =>
    rw [run_bind_error outcome]
    rfl

theorem exec_holding (lk : LockId) (v : View) :
    exec (holdingCode lk) v =
      seen (fun r => { v.loc with eflags := v.cpu.flIf, r := r }) ((holding lk).run v.cpu) := by
  refine exec_bind (exec_pushcli v) fun _ p pushed => ?_
  rw [run_pushcli_int] at pushed
  have masked : p.flIf = false := by cases pushed; rfl
  rw [exec_append, run_bind_ok (run_mycpu p masked), run_bind_ok (EStateM.run_get p)]
  have tested : exec [.mycpu, .testLock lk] ⟨p, { v.loc with eflags := v.cpu.flIf, opened := v.loc.opened + 1 }⟩ =
      .ok ⟨p, { v.loc with eflags := v.cpu.flIf, r := decide (Held (p.locks lk)), opened := v.loc.opened + 1 }⟩ := by
    simp [exec, spins, fails, masked]
    rfl
  rw [tested]
  change exec popcliCode _ = _
  rw [exec_popcli]
  simp only [EStateM.run_bind, Nat.add_sub_cancel]
  cases popcli.run p <;> rfl

theorem exec_acquire (lk : LockId) (v : View) :
    exec (acquireCode lk) v =
      seen (fun _ => { v.loc with
        eflags := false, r := false, held := insert lk v.loc.held, window := none }) ((acquire lk).run v.cpu) := by
  refine exec_bind (exec_pushcli v) fun _ p pushed => ?_
  rw [run_pushcli_int] at pushed
  have masked : p.flIf = false := by cases pushed; rfl
  refine exec_bind (exec_holding lk _) fun r q _ => ?_
  cases r with
  | true => simp [exec, spins, fails, seen]
  | false =>
    by_cases free : (q.locks lk).locked = 0#32
    · cases enabled : q.flIf with
      | true => simp [exec, spins, fails, effect, seen, xchg, mycpu, readeflags, setLock, free, enabled, mycpuMessage]
      | false => simp [exec, spins, fails, effect, seen, xchg, mycpu, readeflags, setLock, free, enabled, masked]
    · simp [exec, spins, fails, effect, seen, xchg, free]

theorem exec_release (lk : LockId) (v : View) :
    exec (releaseCode lk) v =
      seen (fun _ => { v.loc with
        eflags := v.cpu.flIf, r := true, held := v.loc.held.erase lk, window := none }) ((release lk).run v.cpu) := by
  refine exec_bind (exec_holding lk v) fun r q _ => ?_
  cases r with
  | false => simp [exec, spins, fails, seen]
  | true =>
    rw [exec_append]
    have cleared : exec [.panicIfHeld false "release", .clearCpu lk, .clearLocked lk]
        ⟨q, { v.loc with eflags := v.cpu.flIf, r := true }⟩ =
        .ok ⟨setLock lk unlocked q, { v.loc with
          eflags := v.cpu.flIf, r := true, opened := v.loc.opened + 1, held := v.loc.held.erase lk, window := none }⟩ := by
      simp [exec, spins, fails, effect, setLock, unlocked]
    rw [cleared]
    change exec popcliCode _ = _
    rw [exec_popcli]
    simp [setLock, unlocked]

end Uninterrupted

end OsDev.Kernel.LockSteps
