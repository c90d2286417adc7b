import OsDev.Kernel.Syscall

/-! Process identifiers over whole runs. The counter is 16 bits wide and a number is
used up even when no process comes of it. -/

namespace OsDev.Kernel.Pids
open OsDev.Machine.Memory OsDev.Machine.Program OsDev.Kernel.SpinLocks OsDev.Kernel.Mmu OsDev.Kernel.State
  OsDev.Kernel.Console OsDev.Kernel.Kalloc OsDev.Kernel.Proc OsDev.Kernel.Syscall

/-- What decides about identifiers: the counter, and of each slot its number and
whether it is in use. -/
@[ext] structure Numbers where
  next : BitVec 16
  pid : Slot → BitVec 16
  used : Slot → Bool

def numbers (s : KernelState) : Numbers := ⟨s.nextpid, fun p => (s.ptable p).pid, fun p => (s.ptable p).state ≠ .unused⟩

theorem used_eq_true {s : KernelState} {p : Slot} : (numbers s).used p = true ↔ (s.ptable p).state ≠ .unused := by
  simp [numbers]

theorem used_eq_false {s : KernelState} {p : Slot} : (numbers s).used p = false ↔ (s.ptable p).state = .unused := by
  simp [numbers]

/-- No two slots in use share an identifier, and none has the identifier 0. -/
structure Unique (s : KernelState) : Prop where
  distinct : ∀ p q, (s.ptable p).state ≠ .unused → (s.ptable q).state ≠ .unused → (s.ptable p).pid = (s.ptable q).pid → p = q
  positive : ∀ p, (s.ptable p).state ≠ .unused → (s.ptable p).pid ≠ 0#16

/-- A slot takes the next number. -/
def Numbers.claim (n : Numbers) (p : Slot) : Numbers :=
  ⟨n.next + 1#16, Function.update n.pid p n.next, Function.update n.used p true⟩

@[simp] theorem Numbers.claim_pid (n : Numbers) (p : Slot) : (n.claim p).pid p = n.next := Function.update_self ..

@[simp] theorem Numbers.claim_used (n : Numbers) (p : Slot) : (n.claim p).used p = true := Function.update_self ..

/-- The number is not given back. -/
def Numbers.giveUp (n : Numbers) (p : Slot) : Numbers := { n with used := Function.update n.used p false }

theorem numbers_setSlot (s : KernelState) (p : Slot) (entry : Process) : numbers (setSlot s p entry) =
    ⟨s.nextpid, Function.update (numbers s).pid p entry.pid, Function.update (numbers s).used p (entry.state ≠ .unused)⟩ := by
  ext q <;> by_cases here : q = p <;> simp [numbers, here]

theorem unprinted_numbers : Unprinted numbers := ⟨fun _ _ => rfl, fun _ _ => rfl, fun _ _ => rfl⟩

section Kept

theorem keeps_updateSlot (p : Slot) {change : Process → Process}
    (same : ∀ entry, (change entry).pid = entry.pid ∧ ((change entry).state = .unused ↔ entry.state = .unused)) :
    Preserves numbers (updateSlot p change) := by
  apply preserves_modify
  intro s
  obtain ⟨pid, state⟩ := same (s.ptable p)
  rw [numbers_setSlot]
  simp [numbers, pid, state]

theorem keeps_kalloc : Preserves numbers kalloc := by
  have lock (part : Prog Processor Unit) :
      Preserves numbers (do if (← get).useLock then onCpu part else pure () : Prog KernelState Unit) :=
    preserves_get.bind fun _ => (preserves_onCpu unprinted_numbers part).ite (preserves_pure ())
  apply (lock _).bind
  intro _
  apply preserves_get.bind
  intro s
  have last : ∀ r : Addr, Preserves numbers (do kmemRelease; return r) := fun r => (lock _).bind fun _ => preserves_pure r
  apply Preserves.ite
  · exact (preserves_pure _).bind last
  · apply Preserves.bind
    · exact preserves_modify fun _ => rfl
    · exact fun _ => (preserves_pure _).bind last

theorem keeps_takeKstack (p : Slot) : Preserves numbers (takeKstack p) := by
  apply keeps_kalloc.bind
  intro kstack
  apply (keeps_updateSlot p _).bind
  · exact fun _ => preserves_pure _
  · exact fun entry => ⟨rfl, Iff.rfl⟩

theorem keeps_layoutKstack (image : Image) (p : Slot) : Preserves numbers (layoutKstack image p) := by
  intro s
  rw [run_layoutKstack]
  change numbers (setSlot s p _) = numbers s
  rw [numbers_setSlot]
  simp [numbers]

theorem keeps_warn (text : String) (args : List Word) : Preserves numbers (warn text args) :=
  preserves_cprintf unprinted_numbers _ _

end Kept

/-- Whatever the outcome, the call takes the next number for a free slot, unless there
is no free slot. -/
theorem processAlloc_numbers {image : Image} {s t : KernelState} {r : Option Slot}
    (ran : (processAlloc image).run s = .ok r t) :
    (∃ p, r = some p ∧ (numbers s).used p = false ∧ numbers t = (numbers s).claim p) ∨
    (r = none ∧ ∃ p, (numbers s).used p = false ∧ numbers t = ((numbers s).claim p).giveUp p) ∨
    (r = none ∧ numbers t = numbers s) := by
  unfold processAlloc at ran
  obtain ⟨_, s₁, acquired, ran⟩ := run_bind_eq_ok ran
  have same₁ := (preserves_onCpu unprinted_numbers _).ok acquired
  rw [run_bind_ok (EStateM.run_get s₁)] at ran
  cases found : findUnused s₁ with
  | none =>
    simp only [found] at ran
    obtain ⟨_, s₂, released, ran⟩ := run_bind_eq_ok ran
    have same₂ := (preserves_onCpu unprinted_numbers _).ok released
    obtain ⟨_, s₃, warned, ran⟩ := run_bind_eq_ok ran
    have same₃ := (keeps_warn _ _).ok warned
    cases ran
    exact .inr (.inr ⟨rfl, by rw [same₃, same₂, same₁]⟩)
  | some p =>
    have free : (numbers s).used p = false := by
      rw [← same₁]
      exact used_eq_false.mpr (findUnused_unused found)
    simp only [found] at ran
    rw [run_bind_ok (run_setState _ _ _), run_bind_ok (run_takePid _ _)] at ran
    generalize taken : ({ setSlot _ p _ with nextpid := _ } : KernelState) = s₂ at ran
    have same₂ : numbers s₂ = (numbers s).claim p := by
      rw [← taken, ← same₁]
      ext q <;> by_cases here : q = p <;> simp [numbers, Numbers.claim, here]
    obtain ⟨_, s₃, released, ran⟩ := run_bind_eq_ok ran
    have same₃ := (preserves_onCpu unprinted_numbers _).ok released
    obtain ⟨kstack, s₄, allocated, ran⟩ := run_bind_eq_ok ran
    have same₄ := (keeps_takeKstack p).ok allocated
    rw [run_ite] at ran
    split at ran
    · rw [run_bind_ok (run_setState _ _ _)] at ran
      obtain ⟨_, s₅, warned, ran⟩ := run_bind_eq_ok ran
      have same₅ := (keeps_warn _ _).ok warned
      cases ran
      refine .inr (.inl ⟨rfl, p, free, ?_⟩)
      rw [same₅, numbers_setSlot, Numbers.giveUp, ← same₂, ← same₃, ← same₄]
      simp [numbers]
    · obtain ⟨_, s₅, laid, ran⟩ := run_bind_eq_ok ran
      have same₅ := (keeps_layoutKstack image p).ok laid
      cases ran
      exact .inl ⟨p, rfl, free, by rw [same₅, same₄, same₃, same₂]⟩

theorem myproc_value {s t : KernelState} {current : Option Slot} (ran : myproc.run s = .ok current t) :
    current = s.proc := by
  unfold myproc at ran
  obtain ⟨_, s₁, pushed, ran⟩ := run_bind_eq_ok ran
  obtain ⟨_, rfl⟩ := onCpu_eq_ok pushed
  obtain ⟨_, s₂, asked, ran⟩ := run_bind_eq_ok ran
  obtain ⟨_, rfl⟩ := onCpu_eq_ok asked
  rw [run_bind_ok (EStateM.run_get _)] at ran
  obtain ⟨_, s₃, popped, ran⟩ := run_bind_eq_ok ran
  obtain ⟨_, rfl⟩ := onCpu_eq_ok popped
  cases ran
  rfl

theorem keeps_myproc : Preserves numbers myproc :=
  (preserves_onCpu unprinted_numbers _).bind fun _ => (preserves_onCpu unprinted_numbers _).bind fun _ =>
    preserves_get.bind fun _ => (preserves_onCpu unprinted_numbers _).bind fun _ => preserves_pure _

theorem keeps_deref (current : Option Slot) : Preserves numbers (deref current) := by
  cases current with
  | none => exact preserves_throw _
  | some p => exact preserves_pure p

theorem keeps_enterScheduler : Preserves numbers enterScheduler := by
  have cpu {α : Type} (part : Prog Processor α) := preserves_onCpu unprinted_numbers part
  unfold enterScheduler
  apply (cpu _).bind
  intro held
  apply Preserves.ite
  · exact preserves_throw _
  apply (cpu _).bind
  intro _
  apply preserves_get.bind
  intro s
  apply Preserves.ite
  · exact preserves_throw _
  apply keeps_myproc.bind
  intro current
  apply (keeps_deref current).bind
  intro p
  apply preserves_get.bind
  intro s
  apply Preserves.ite
  · exact preserves_throw _
  apply (cpu _).bind
  intro flag
  apply Preserves.ite
  · exact preserves_throw _
  exact (cpu _).bind fun _ => preserves_get.bind fun _ => (cpu _).bind fun _ => preserves_pure _

theorem keeps_exitBegin : Preserves numbers exitBegin := by
  apply keeps_myproc.bind
  intro current
  apply preserves_get.bind
  intro s
  apply Preserves.ite
  · exact (keeps_warn _ _).bind fun _ => preserves_pure _
  · exact preserves_pure _

theorem exitBegin_value {s t : KernelState} {current : Option Slot} (ran : exitBegin.run s = .ok current t) :
    current = s.proc := by
  unfold exitBegin at ran
  obtain ⟨found, s₁, asked, ran⟩ := run_bind_eq_ok ran
  rw [run_bind_ok (EStateM.run_get s₁), run_ite] at ran
  split at ran
  · obtain ⟨_, s₂, warned, ran⟩ := run_bind_eq_ok ran
    cases ran
    exact myproc_value asked
  · cases ran
    exact myproc_value asked

/-- A process that exits keeps its slot and its number. -/
theorem exit_numbers {s : KernelState} {p : Slot} (current : s.proc = some p) (used : (s.ptable p).state ≠ .unused)
    (status : Word) : numbers (finalState ((exit status).run s)) = numbers s := by
  apply finalState_bind (P := (numbers · = numbers s)) fun e t ran => keeps_exitBegin.error ran
  intro found s₁ ran₁
  rw [exitBegin_value ran₁, current]
  have same₁ := keeps_exitBegin.ok ran₁
  have acquired := preserves_onCpu unprinted_numbers (acquire .ptable)
  apply finalState_bind (P := (numbers · = numbers s)) fun e t ran => (acquired.error ran).trans same₁
  intro _ s₂ ran₂
  have same₂ := (acquired.ok ran₂).trans same₁
  rw [run_bind_ok (run_exitStatus p status s₂), run_bind_ok (run_setState _ _ _)]
  have rest : Preserves numbers (do let _ ← enterScheduler; throw .spin : Prog KernelState Unit) :=
    keeps_enterScheduler.bind fun _ => preserves_throw _
  rw [rest]
  have inUse := used_eq_true.mpr used
  rw [← same₂] at inUse ⊢
  rw [setSlot_setSlot, numbers_setSlot]
  simpa [numbers] using inUse

/-- The kernel between two calls. A call of `process_alloc` is made in a state that
meets the condition; a running process may exit; all the rest of the kernel, the page
allocator with it, may do as it likes as long as it leaves slots and numbers alone. -/
inductive Step (image : Image) (condition : KernelState → Prop) : KernelState → KernelState → Prop where
  | alloc {s t : KernelState} (r : Option Slot) (met : condition s) (ran : (processAlloc image).run s = .ok r t) :
      Step image condition s t
  | exit {s : KernelState} (p : Slot) (status : Word) (current : s.proc = some p) (running : (s.ptable p).state = .running) :
      Step image condition s (finalState ((Syscall.exit status).run s))
  | elsewhere {s t : KernelState} (same : numbers t = numbers s) : Step image condition s t

structure Initial (s : KernelState) : Prop where
  first : s.nextpid = 1#16
  empty : ∀ p, (s.ptable p).state = .unused

/-- The numbers below `count` have been given out, each to one slot at most. -/
structure Counted (n : Numbers) (count : Nat) : Prop where
  positive : 1 ≤ count
  bound : count ≤ 2 ^ 16
  next : n.next = BitVec.ofNat 16 count
  given : ∀ p, n.used p = true → 1 ≤ (n.pid p).toNat ∧ (n.pid p).toNat < count
  distinct : ∀ p q, n.used p = true → n.used q = true → n.pid p = n.pid q → p = q

def Numbered (s : KernelState) : Prop := ∃ count, Counted (numbers s) count

theorem Counted.unique {s : KernelState} {count : Nat} (counted : Counted (numbers s) count) : Unique s := by
  constructor
  · intro p q usedP usedQ same
    exact counted.distinct p q (used_eq_true.mpr usedP) (used_eq_true.mpr usedQ) same
  · intro p used zero
    have given := (counted.given p (used_eq_true.mpr used)).1
    simp [numbers, zero] at given

theorem Counted.claim {n : Numbers} {count : Nat} (counted : Counted n count) (below : n.next ≠ 0#16) (p : Slot) :
    Counted (n.claim p) (count + 1) := by
  have less : count < 2 ^ 16 := by
    apply lt_of_le_of_ne counted.bound
    intro full
    rw [counted.next, full] at below
    exact below rfl
  have value : n.next.toNat = count := by
    rw [counted.next, BitVec.toNat_ofNat, Nat.mod_eq_of_lt less]
  have positive := counted.positive
  have fresh (q : Slot) (used : n.used q = true) : n.pid q ≠ n.next := by
    intro same
    have given := (counted.given q used).2
    rw [same, value] at given
    omega
  refine ⟨by omega, by omega, ?_, ?_, ?_⟩
  · simp only [Numbers.claim, counted.next]
    bv_omega
  · intro q used
    by_cases here : q = p
    · subst here
      simp only [Numbers.claim, Function.update_self, value]
      omega
    · have old : n.used q = true := by simpa [Numbers.claim, here] using used
      have given := counted.given q old
      simp only [Numbers.claim, Function.update_of_ne here]
      omega
  · intro q r usedQ usedR same
    simp only [Numbers.claim] at usedQ usedR same
    by_cases hereQ : q = p <;> by_cases hereR : r = p
    · rw [hereQ, hereR]
    · rw [hereQ, Function.update_self, Function.update_of_ne hereR] at same
      rw [Function.update_of_ne hereR] at usedR
      exact absurd same.symm (fresh r usedR)
    · rw [hereR, Function.update_self, Function.update_of_ne hereQ] at same
      rw [Function.update_of_ne hereQ] at usedQ
      exact absurd same (fresh q usedQ)
    · rw [Function.update_of_ne hereQ, Function.update_of_ne hereR] at same
      rw [Function.update_of_ne hereQ] at usedQ
      rw [Function.update_of_ne hereR] at usedR
      exact counted.distinct q r usedQ usedR same

theorem Counted.giveUp {n : Numbers} {count : Nat} (counted : Counted n count) (p : Slot) : Counted (n.giveUp p) count := by
  have old (q : Slot) (used : (n.giveUp p).used q = true) : n.used q = true := by
    by_cases here : q = p
    · simp [Numbers.giveUp, here] at used
    · simpa [Numbers.giveUp, here] using used
  exact ⟨counted.positive, counted.bound, counted.next, fun q used => counted.given q (old q used),
    fun q r usedQ usedR => counted.distinct q r (old q usedQ) (old r usedR)⟩

theorem Initial.numbered {s : KernelState} (initial : Initial s) : Numbered s := by
  refine ⟨1, ?_⟩
  have unused (p : Slot) : (numbers s).used p = false := used_eq_false.mpr (initial.empty p)
  exact ⟨by omega, by omega, initial.first, fun p used => by simp [unused p] at used, fun p q used => by simp [unused p] at used⟩

theorem Step.numbered {image : Image} {s t : KernelState} (step : Step image (·.nextpid ≠ 0#16) s t)
    (before : Numbered s) : Numbered t := by
  obtain ⟨count, counted⟩ := before
  cases step with
  | alloc r met ran =>
    rcases processAlloc_numbers ran with ⟨p, -, -, after⟩ | ⟨-, p, -, after⟩ | ⟨-, after⟩
    · exact ⟨count + 1, after ▸ counted.claim met p⟩
    · exact ⟨count + 1, after ▸ (counted.claim met p).giveUp p⟩
    · exact ⟨count, after ▸ counted⟩
  | exit p status current running =>
    have used : (s.ptable p).state ≠ .unused := by simp [running]
    exact ⟨count, exit_numbers current used status ▸ counted⟩
  | elsewhere same => exact ⟨count, same ▸ counted⟩

section Calls
variable {image : Image} {condition : KernelState → Prop} {s : KernelState} {p : Slot}

/-- The same process table in a kernel with one free page, or with none. -/
def withFrames (freelist : Addr) (s : KernelState) : KernelState :=
  { boot (fun _ => 0#8) 0#32 with kheapStart := KERNBASE, freelist := freelist, ptable := s.ptable, nextpid := s.nextpid }

theorem heap_one (s : KernelState) : Heap (withFrames 0x80001000#32 s) [0x80001000#32] where
  quiet := boot_quiet (fun _ => 0#8) 0#32
  sentinel := (by decide : 0#32 < KERNBASE)
  chain := ⟨rfl, (by decide : 0x80001000#32 ≠ 0#32), (by decide : read32 (fun _ => 0#8) 0x80001000#32 = 0#32)⟩
  distinct := by decide
  frames q member := by
    obtain rfl : q = 0x80001000#32 := by simpa using member
    exact ⟨by decide, (by decide : KERNBASE ≤ 0x80001000#32), (by decide : V2P 0x80001000#32 < 0x07fe0000#32)⟩

theorem heap_none (s : KernelState) : Heap (withFrames 0#32 s) [] where
  quiet := boot_quiet (fun _ => 0#8) 0#32
  sentinel := (by decide : 0#32 < KERNBASE)
  chain := rfl
  distinct := by decide
  frames q member := by cases member

theorem reachable_withFrames (run : Reachable Initial (Step image condition) s) (freelist : Addr) :
    Reachable Initial (Step image condition) (withFrames freelist s) :=
  run.next (.elsewhere rfl)

theorem call_succeeds (run : Reachable Initial (Step image condition) s) (met : ∀ freelist, condition (withFrames freelist s))
    (found : findUnused s = some p) :
    ∃ t, Reachable Initial (Step image condition) t ∧ (numbers s).used p = false ∧ numbers t = (numbers s).claim p := by
  obtain ⟨cpu, freelist, ran⟩ := run_processAlloc_cons image (heap_one s) found
  have step := Step.alloc (some p) (met _) ran
  refine ⟨_, (reachable_withFrames run _).next step, ?_⟩
  rcases processAlloc_numbers ran with ⟨q, same, free, after⟩ | ⟨refused, -⟩ | ⟨refused, -⟩
  · obtain rfl : p = q := Option.some.inj same
    exact ⟨free, after⟩
  · cases refused
  · cases refused

/-- A call that finds a slot and no page uses up a number and nothing else. -/
theorem call_fails (run : Reachable Initial (Step image condition) s) (met : ∀ freelist, condition (withFrames freelist s))
    (found : findUnused s = some p) :
    ∃ t, Reachable Initial (Step image condition) t ∧ t.nextpid = s.nextpid + 1#16 ∧
      ∀ q, (t.ptable q).state = (s.ptable q).state ∧ ((s.ptable q).state ≠ .unused → (t.ptable q).pid = (s.ptable q).pid) := by
  obtain ⟨chars, cpu, ran⟩ := run_processAlloc_nil image (heap_none s) found
  have step := Step.alloc none (met _) ran
  refine ⟨_, (reachable_withFrames run _).next step, rfl, ?_⟩
  have unused := findUnused_unused found
  intro q
  by_cases here : q = p
  · subst here
    simp [unused]
  · simp [claimed, withFrames, here]

theorem failing_calls (k : Nat) (run : Reachable Initial (Step image fun _ => True) s) (unused : (s.ptable p).state = .unused) :
    ∃ t, Reachable Initial (Step image fun _ => True) t ∧ t.nextpid = s.nextpid + BitVec.ofNat 16 k ∧
      ∀ q, (t.ptable q).state = (s.ptable q).state ∧ ((s.ptable q).state ≠ .unused → (t.ptable q).pid = (s.ptable q).pid) := by
  induction k with
  | zero => exact ⟨s, run, by simp, fun q => ⟨rfl, fun _ => rfl⟩⟩
  | succ k ih =>
    obtain ⟨t, reached, next, same⟩ := ih
    obtain ⟨free, found⟩ := findUnused_isSome (s := t) ((same p).1.trans unused)
    obtain ⟨u, reached', next', same'⟩ := call_fails reached (fun _ => trivial) found
    refine ⟨u, reached', ?_, ?_⟩
    · rw [next', next]
      bv_omega
    · intro q
      refine ⟨(same' q).1.trans (same q).1, ?_⟩
      intro used
      have still : (t.ptable q).state ≠ .unused := by rwa [(same q).1]
      rw [(same' q).2 still, (same q).2 used]

end Calls

/-- As long as the counter has not wrapped identifiers are unique. The first call after
that spoils them if it succeeds. -/
theorem pids_unique_before_wrap (image : Image) :
    (∀ s, Reachable Initial (Step image (·.nextpid ≠ 0#16)) s → Unique s) ∧
    (∀ s t p, s.nextpid = 0#16 → (processAlloc image).run s = .ok (some p) t → ¬ Unique t) := by
  constructor
  · intro s run
    have inv : Numbered s := Reachable.invariant (fun s initial => initial.numbered) (fun s t inv step => step.numbered inv) run
    obtain ⟨count, counted⟩ := inv
    exact counted.unique
  · intro s t p wrapped ran unique
    rcases processAlloc_numbers ran with ⟨q, same, -, after⟩ | ⟨refused, -⟩ | ⟨refused, -⟩
    · obtain rfl : p = q := Option.some.inj same
      have pid : (numbers t).pid p = 0#16 := by
        rw [after, Numbers.claim_pid]
        exact wrapped
      have used : (numbers t).used p = true := by rw [after, Numbers.claim_used]
      exact unique.positive p (used_eq_true.mp used) pid
    · cases refused
    · cases refused

section FirstCall
variable {image : Image} {condition : KernelState → Prop}

def secondSlot : Slot := ⟨1, by decide⟩

/-- The first call of all, with a page for the stack. -/
theorem first_call (met : ∀ s : KernelState, s.nextpid ≠ 0#16 → condition s) :
    ∃ s, Reachable Initial (Step image condition) s ∧ (s.ptable firstSlot).state ≠ .unused ∧ (s.ptable firstSlot).pid = 1#16 ∧
      s.nextpid = 2#16 ∧ (s.ptable secondSlot).state = .unused := by
  have start : Reachable Initial (Step image condition) (boot (fun _ => 0#8) 0#32) := .start ⟨rfl, fun _ => rfl⟩
  have found : findUnused (boot (fun _ => 0#8) 0#32) = some firstSlot := by decide +kernel
  obtain ⟨s, run, -, first⟩ := call_succeeds start (fun _ => met _ (by decide : 1#16 ≠ 0#16)) found
  refine ⟨s, run, used_eq_true.mp (by rw [first, Numbers.claim_used]), ?_, congrArg Numbers.next first, used_eq_false.mp ?_⟩
  · change (numbers s).pid firstSlot = 1#16
    rw [first, Numbers.claim_pid]
    rfl
  · rw [first]
    decide +kernel

end FirstCall

/-- Two processes are alive; and a counter that has come round to 0 is given out. -/
theorem pids_unique_two_processes :
    (∃ s, Reachable Initial (Step ⟨0#32, 0#32, 0#32, 0#32⟩ (·.nextpid ≠ 0#16)) s ∧
      ∃ p q, p ≠ q ∧ (s.ptable p).state ≠ .unused ∧ (s.ptable q).state ≠ .unused ∧ Unique s) ∧
    ∃ s t p, s.nextpid = 0#16 ∧ (processAlloc ⟨0#32, 0#32, 0#32, 0#32⟩).run s = .ok (some p) t ∧ ¬ Unique t := by
  constructor
  · obtain ⟨s, run, used, -, next, unused⟩ := first_call fun _ nonzero => nonzero
    obtain ⟨p, found⟩ := findUnused_isSome unused
    have met (freelist : Addr) : (withFrames freelist s).nextpid ≠ 0#16 := by
      change s.nextpid ≠ 0#16
      rw [next]
      decide
    obtain ⟨t, run', free, second⟩ := call_succeeds run met found
    have other : firstSlot ≠ p := by
      rintro rfl
      exact used (used_eq_false.mp free)
    refine ⟨t, run', firstSlot, p, other, used_eq_true.mp ?_, used_eq_true.mp ?_, (pids_unique_before_wrap _).1 t run'⟩
    · simpa [second, Numbers.claim, other] using used_eq_true.mpr used
    · rw [second, Numbers.claim_used]
  · have wrapped : Heap (withFrames 0x80001000#32 { boot (fun _ => 0#8) 0#32 with nextpid := 0#16 }) _ := heap_one _
    have found : findUnused (withFrames 0x80001000#32 { boot (fun _ => 0#8) 0#32 with nextpid := 0#16 }) = some firstSlot := by
      decide +kernel
    obtain ⟨cpu, freelist, ran⟩ := run_processAlloc_cons ⟨0#32, 0#32, 0#32, 0#32⟩ wrapped found
    exact ⟨_, _, firstSlot, rfl, ran, (pids_unique_before_wrap _).2 _ _ _ rfl ran⟩

/-- A first process keeps its number while 65535 calls find no page for a stack; the
next process gets the same number. -/
theorem pids_repeat : ∃ s, Reachable Initial (Step ⟨0#32, 0#32, 0#32, 0#32⟩ fun _ => True) s ∧
    ∃ p q, p ≠ q ∧ (s.ptable p).state ≠ .unused ∧ (s.ptable q).state ≠ .unused ∧ (s.ptable p).pid = (s.ptable q).pid := by
  obtain ⟨s₁, run₁, used₁, pid₁, next₁, unused₁⟩ := first_call fun _ _ => trivial
  obtain ⟨s₂, run₂, next₂, same₂⟩ := failing_calls 65535 run₁ unused₁
  obtain ⟨p, found₂⟩ := findUnused_isSome ((same₂ secondSlot).1.trans unused₁)
  obtain ⟨s₃, run₃, free, second⟩ := call_succeeds run₂ (fun _ => trivial) found₂
  have used₂ : (numbers s₂).used firstSlot = true := by
    rw [used_eq_true, (same₂ _).1]
    exact used₁
  have other : firstSlot ≠ p := by
    rintro rfl
    rw [used₂] at free
    cases free
  have next : (numbers s₂).next = 1#16 := by
    change s₂.nextpid = 1#16
    rw [next₂, next₁]
    rfl
  have pid₂ : (numbers s₂).pid firstSlot = 1#16 := ((same₂ _).2 used₁).trans pid₁
  refine ⟨s₃, run₃, firstSlot, p, other, used_eq_true.mp ?_, used_eq_true.mp ?_, ?_⟩
  · simpa [second, Numbers.claim, other] using used₂
  · rw [second, Numbers.claim_used]
  · change (numbers s₃).pid _ = (numbers s₃).pid p
    rw [second, Numbers.claim_pid, next]
    simpa [Numbers.claim, other] using pid₂

end OsDev.Kernel.Pids
