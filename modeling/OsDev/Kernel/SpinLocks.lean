import OsDev.Machine.Program
import OsDev.Machine.Memory

/-! Mutual exclusion spin locks (kernel/spinlock.c) and the per-CPU interrupt
nesting they rest on, run without interruption on the only CPU. -/

namespace OsDev.Kernel.SpinLocks
open OsDev.Machine.Memory OsDev.Machine.Program

/-- The spin locks of the kernel, named by the variable that holds them. -/
inductive LockId where
  | ptable
  | kmem
  | cons
  | ide
  deriving DecidableEq, Repr

/-- The call stack recorded in `pcs` and the name are written but never read. -/
structure Spinlock where
  locked : Word
  cpu : Option Nat
  deriving DecidableEq, Repr

/-- The value an `int` has after an operation whose result is `n`. -/
def int32 (n : Int) : Int := n.bmod (2 ^ 32)

theorem int32_eq {n : Int} (low : -2 ^ 31 ≤ n) (high : n < 2 ^ 31) : int32 n = n := by
  unfold int32
  apply Int.bmod_eq_of_le
  · omega
  · omega

/-- The interrupt flag of the processor, the fields of `cpus[0]` that count
nested `pushcli`, and the locks. -/
structure Processor where
  flIf : Bool
  ncli : Int
  intena : Bool
  locks : LockId → Spinlock

def setLock (lk : LockId) (lock : Spinlock) (p : Processor) : Processor :=
  { p with locks := Function.update p.locks lk lock }

def readeflags : Prog Processor Bool := do return (← get).flIf

def cli : Prog Processor Unit := modify fun p => { p with flIf := false }

def sti : Prog Processor Unit := modify fun p => { p with flIf := true }

def mycpu : Prog Processor Nat := do
  if ← readeflags then kpanic "mycpu called with interrupts enabled\n" else return 0

def pushcli : Prog Processor Unit := do
  let eflags ← readeflags
  cli
  let _ ← mycpu
  modify fun p => if p.ncli = 0 then { p with intena := eflags } else p
  let _ ← mycpu
  modify fun p => { p with ncli := int32 (p.ncli + 1) }

def popcli : Prog Processor Unit := do
  if ← readeflags then kpanic "popcli - interruptible" else
  let _ ← mycpu
  modify fun p => { p with ncli := int32 (p.ncli - 1) }
  if (← get).ncli < 0 then kpanic "popcli" else
  let _ ← mycpu
  let p ← get
  if p.ncli = 0 ∧ p.intena = true then sti else pure ()

def holding (lk : LockId) : Prog Processor Bool := do
  pushcli
  let c ← mycpu
  let lock := (← get).locks lk
  popcli
  return decide (lock.locked ≠ 0#32 ∧ lock.cpu = some c)

def initlock (lk : LockId) : Prog Processor Unit := modify (setLock lk ⟨0#32, none⟩)

/-- The exchange returns the old value and leaves `v` in the lock word. -/
def xchg (lk : LockId) (v : Word) : Prog Processor Word := do
  let lock := (← get).locks lk
  modify (setLock lk { lock with locked := v })
  return lock.locked

def acquire (lk : LockId) : Prog Processor Unit := do
  pushcli
  if ← holding lk then kpanic "acquire" else
  -- nothing else runs meanwhile, so a lock found taken is found taken for ever
  if (← xchg lk 1#32) ≠ 0#32 then throw .spin else
  let c ← mycpu
  modify fun p => setLock lk { p.locks lk with cpu := some c } p

def release (lk : LockId) : Prog Processor Unit := do
  if !(← holding lk) then kpanic "release" else
  modify fun p => setLock lk { p.locks lk with cpu := none } p
  modify fun p => setLock lk { p.locks lk with locked := 0#32 } p
  popcli

/-- Interrupts are off inside every open `pushcli`, and there is room to count the two levels of a critical section. -/
structure Calm (p : Processor) : Prop where
  depth : 0 ≤ p.ncli
  masked : 0 < p.ncli → p.flIf = false
  room : p.ncli + 2 < 2 ^ 31

/-- A `pushcli` and its `popcli` leave only the saved flag behind. -/
def settle (p : Processor) : Processor := { p with intena := if p.ncli = 0 then p.flIf else p.intena }

@[simp] theorem settle_locks (p : Processor) : (settle p).locks = p.locks := rfl
@[simp] theorem settle_ncli (p : Processor) : (settle p).ncli = p.ncli := rfl
@[simp] theorem settle_flIf (p : Processor) : (settle p).flIf = p.flIf := rfl

@[simp] theorem setLock_self (lk : LockId) (lock : Spinlock) (p : Processor) :
    (setLock lk lock p).locks lk = lock := by simp [setLock]

theorem setLock_other (lk other : LockId) (lock : Spinlock) (p : Processor) (ne : other ≠ lk) :
    (setLock lk lock p).locks other = p.locks other := by simp [setLock, ne]

theorem Calm.settle {p : Processor} (calm : Calm p) : Calm (settle p) := ⟨calm.depth, calm.masked, calm.room⟩

theorem run_pushcli_int (p : Processor) :
    pushcli.run p = .ok () { settle p with flIf := false, ncli := int32 (p.ncli + 1) } := by
  by_cases outer : p.ncli = 0
  · simp [pushcli, readeflags, cli, mycpu, settle, outer]
  · simp [pushcli, readeflags, cli, mycpu, settle, outer]

theorem run_pushcli (p : Processor) (depth : 0 ≤ p.ncli) (room : p.ncli + 1 < 2 ^ 31) :
    pushcli.run p = .ok () { settle p with flIf := false, ncli := p.ncli + 1 } := by
  rw [run_pushcli_int, int32_eq (by omega) room]

theorem run_popcli_int (p : Processor) (masked : p.flIf = false) (above : ¬ int32 (p.ncli - 1) < 0) :
    popcli.run p = .ok () { p with
      ncli := int32 (p.ncli - 1), flIf := decide (int32 (p.ncli - 1) = 0) && p.intena } := by
  by_cases outer : int32 (p.ncli - 1) = 0
  · cases saved : p.intena with
    | false => simp [popcli, readeflags, mycpu, masked, outer, saved]
    | true => simp [popcli, readeflags, mycpu, sti, masked, outer, saved]
  · simp [popcli, readeflags, mycpu, masked, above, outer]

theorem run_popcli (p : Processor) (masked : p.flIf = false) (depth : 1 ≤ p.ncli) (range : p.ncli < 2 ^ 31) :
    popcli.run p = .ok () { p with ncli := p.ncli - 1, flIf := decide (p.ncli = 1) && p.intena } := by
  have exact' : int32 (p.ncli - 1) = p.ncli - 1 := int32_eq (by omega) (by omega)
  have outer : p.ncli - 1 = 0 ↔ p.ncli = 1 := by omega
  rw [run_popcli_int p masked (by rw [exact']; omega), exact']
  simp only [outer]

/-- The lock is taken and its `cpu` field names this CPU. -/
def Held (lock : Spinlock) : Prop := lock.locked ≠ 0#32 ∧ lock.cpu = some 0

instance (lock : Spinlock) : Decidable (Held lock) :=
  inferInstanceAs (Decidable (lock.locked ≠ 0#32 ∧ lock.cpu = some 0))

def unlocked : Spinlock := ⟨0#32, none⟩

def taken : Spinlock := ⟨1#32, some 0⟩

theorem run_initlock (lk : LockId) (p : Processor) : (initlock lk).run p = .ok () (setLock lk unlocked p) := rfl

theorem run_mycpu (p : Processor) (masked : p.flIf = false) : mycpu.run p = .ok 0 p := by
  simp [mycpu, readeflags, masked]

/-- `holding` needs room for one level. -/
theorem run_holding_room (lk : LockId) (p : Processor) (depth : 0 ≤ p.ncli) (masked : 0 < p.ncli → p.flIf = false)
    (room : p.ncli + 1 < 2 ^ 31) : (holding lk).run p = .ok (decide (Held (p.locks lk))) (settle p) := by
  unfold holding
  rw [run_bind_ok (run_pushcli p depth room), run_bind_ok (run_mycpu _ rfl), run_bind_ok (EStateM.run_get _)]
  rw [run_bind_ok (run_popcli _ rfl (by change 1 ≤ p.ncli + 1; omega) room)]
  simp only [EStateM.run_pure, settle_locks, Held]
  congr 1
  by_cases outer : p.ncli = 0
  · simp [settle, outer]
  · simp [settle, outer, masked (by omega)]

theorem run_holding (lk : LockId) (p : Processor) (calm : Calm p) :
    (holding lk).run p = .ok (decide (Held (p.locks lk))) (settle p) :=
  run_holding_room lk p calm.depth calm.masked (by have room := calm.room; omega)

theorem run_acquire (lk : LockId) (p : Processor) (calm : Calm p) (free : (p.locks lk).locked = 0#32) :
    (acquire lk).run p = .ok () (setLock lk taken { settle p with flIf := false, ncli := p.ncli + 1 }) := by
  have depth := calm.depth
  have room := calm.room
  unfold acquire
  rw [run_bind_ok (run_pushcli p depth (by omega))]
  rw [run_bind_ok (run_holding_room lk _ (by change 0 ≤ p.ncli + 1; omega) (fun _ => rfl) (by change p.ncli + 1 + 1 < _; omega))]
  have notHeld : ¬ Held (p.locks lk) := fun held => held.1 free
  have inner : ¬ p.ncli + 1 = 0 := by omega
  simp [notHeld, xchg, free, mycpu, readeflags, settle, inner, setLock, taken]

theorem run_release (lk : LockId) (p : Processor) (masked : p.flIf = false) (depth : 1 ≤ p.ncli) (room : p.ncli + 1 < 2 ^ 31)
    (held : Held (p.locks lk)) :
    (release lk).run p = .ok () { setLock lk unlocked p with
      ncli := p.ncli - 1, flIf := decide (p.ncli = 1) && p.intena } := by
  unfold release
  rw [run_bind_ok (run_holding_room lk p (by omega) (fun _ => masked) room)]
  have inner : ¬ p.ncli = 0 := by omega
  simp only [held, decide_true, Bool.not_true, Bool.false_eq_true, ↓reduceIte]
  rw [run_bind_ok (EStateM.run_modify _ _), run_bind_ok (EStateM.run_modify _ _)]
  rw [run_popcli _ (by simpa [setLock] using masked) (by simpa [setLock] using depth)
    (by change p.ncli < 2 ^ 31; omega)]
  simp [setLock, settle, inner, unlocked]

/-- Between calls into the allocator or the console no lock is taken. -/
structure Quiet (p : Processor) : Prop extends Calm p where
  free : ∀ lk, p.locks lk = unlocked

theorem Quiet.settle {p : Processor} (quiet : Quiet p) : Quiet (settle p) :=
  ⟨quiet.toCalm.settle, quiet.free⟩

/-- A quiet processor after balanced calls: only the saved flag may differ. -/
structure Settled (p q : Processor) : Prop where
  quiet : Quiet q
  flIf : q.flIf = p.flIf
  ncli : q.ncli = p.ncli

theorem Quiet.settled {p : Processor} (quiet : Quiet p) : Settled p p := ⟨quiet, rfl, rfl⟩

theorem Quiet.settled_settle {p : Processor} (quiet : Quiet p) : Settled p (SpinLocks.settle p) :=
  ⟨quiet.settle, rfl, rfl⟩

theorem Quiet.settled_of {p q : Processor} (quiet : Quiet p) (same : q = p ∨ q = SpinLocks.settle p) : Settled p q := by
  rcases same with rfl | rfl
  · exact quiet.settled
  · exact quiet.settled_settle

theorem Settled.trans {p q r : Processor} (first : Settled p q) (second : Settled q r) : Settled p r :=
  ⟨second.quiet, second.flIf.trans first.flIf, second.ncli.trans first.ncli⟩

/-- A critical section whose body leaves the CPU alone. -/
theorem run_section (lk : LockId) (p : Processor) (calm : Calm p) (free : (p.locks lk).locked = 0#32) :
    ∃ inside, (acquire lk).run p = .ok () inside ∧ (release lk).run inside = .ok () (setLock lk unlocked (settle p)) := by
  have depth := calm.depth
  have room := calm.room
  refine ⟨_, run_acquire lk p calm free, ?_⟩
  rw [run_release lk _ rfl (by change 1 ≤ p.ncli + 1; omega) (by change p.ncli + 1 + 1 < 2 ^ 31; omega) (by simp [Held, taken])]
  congr 1
  by_cases outer : p.ncli = 0
  · simp [setLock, settle, outer]
  · have masked := calm.masked (by omega)
    simp [setLock, settle, outer, masked]

theorem setLock_settle {lk : LockId} {p : Processor} (free : p.locks lk = unlocked) :
    setLock lk unlocked (settle p) = settle p := by
  simp only [setLock, ← free, settle_locks, Function.update_eq_self]
  rfl

theorem run_release_acquire (lk : LockId) (p : Processor) (calm : Calm p) (free : p.locks lk = unlocked) :
    ∃ inside, (acquire lk).run p = .ok () inside ∧ (release lk).run inside = .ok () (settle p) := by
  rw [← setLock_settle free]
  exact run_section lk p calm (by simp [free, unlocked])

end OsDev.Kernel.SpinLocks
