import OsDev.Kernel.LockThreads

/-! The lock discipline of all the threads together: what every step keeps, and
what follows for every state they can reach while `ncli` stays within an `int`. -/

namespace OsDev.Kernel.LockRuns
open OsDev.Machine.Memory OsDev.Machine.Program OsDev.Machine.Interference
  OsDev.Kernel.SpinLocks OsDev.Kernel.LockSteps OsDev.Kernel.LockDiscipline OsDev.Kernel.LockThreads

/-- One more level, and the one that `holding` opens for a moment, can be counted in an `int`. -/
def InRange (depth : Int) : Prop := depth + 2 < 2 ^ 31

/-- How many lock words are set. -/
def heldLocks (p : Processor) : Nat := (Finset.univ.filter fun lk => (p.locks lk).locked ≠ 0#32).card

/-- The running activation still has to write to the lock before it leaves `acquire` or `release`. -/
def InBody (frames : List Frame) (lk : LockId) : Prop :=
  ∃ f ∈ frames.head?, .setCpu lk ∈ f.code ∨ .clearLocked lk ∈ f.code

/-- No lock is taken and no `pushcli` is open. -/
structure AllFree (p : Processor) : Prop where
  ncli : p.ncli = 0
  locks : ∀ lk, p.locks lk = unlocked

theorem AllFree.withIf {p : Processor} (free : AllFree p) (flag : Bool) : AllFree { p with flIf := flag } :=
  ⟨free.ncli, free.locks⟩

/-- Where a call ends, both fields of every lock agree and there is room for a `release`. -/
structure Ended (v : View) : Prop where
  window : v.loc.window = none
  room : v.cpu.ncli + 1 < 2 ^ 31

/-- The running activation can go on, whatever handlers run in between. -/
structure Live (cpu : Processor) (f : Frame) : Prop where
  sound : Sound ⟨cpu, f.loc⟩
  safe : ∀ w, Alike ⟨cpu, f.loc⟩ w → Safe rules Ended f.code w

/-- An interrupted activation holds nothing and can go on once the flag is set again. -/
structure Parked (f : Frame) : Prop where
  opened : f.loc.opened = 0
  held : f.loc.held = ∅
  window : f.loc.window = none
  safe : ∀ p, AllFree p → p.flIf = true → Safe rules Ended f.code ⟨p, f.loc⟩

/-- The activations below a handler's were interrupted with the flag set. -/
def Below : Frame → List Frame → Prop
  | _, [] => True
  | f, g :: rest => f.savedIf = true ∧ Parked g ∧ Below g rest

/-- A suspended thread waits to be handed `ptable.lock`. -/
inductive Waiting : List Frame → Prop where
  | intro {f : Frame} {rest : List Frame} (opened : f.loc.opened = 0) (held : f.loc.held = {.ptable})
      (window : f.loc.window = none) (safe : ∀ p, Handoff ⟨p, f.loc⟩ → Safe rules Ended f.code ⟨p, f.loc⟩)
      (below : Below f rest) : Waiting (f :: rest)

/-- Nothing that happens during boot can set the interrupt flag. -/
structure Dark (cpu : Processor) (loc : Locals) : Prop where
  flIf : cpu.flIf = false
  intena : cpu.intena = false
  eflags : loc.eflags = false
  saved : loc.intena = false

/-- The locals of every activation count what its calls have opened. -/
structure AllTied (σ : System) : Prop where
  frames : ∀ f ∈ σ.frames, Tied f
  suspended : ∀ t fs, σ.suspended t = some fs → ∀ f ∈ fs, Tied f

structure Inv (σ : System) : Prop where
  stopped : ∀ message, σ.stopped = some message → message ∉ disciplinePanics
  user : σ.frames = [] → AllFree σ.cpu
  live : ∀ f rest, σ.frames = f :: rest → Live σ.cpu f ∧ Below f rest
  suspended : ∀ t fs, σ.suspended t = some fs → Waiting fs
  boot : σ.booting = true → σ.running = .scheduler ∧ ∃ f, σ.frames = [f] ∧ Dark σ.cpu f.loc

/-- While the kernel boots there is one frame, and it runs with interrupts off. -/
theorem Inv.booting {σ : System} {f : Frame} {rest : List Frame} (inv : Inv σ) (still : σ.booting = true)
    (top : σ.frames = f :: rest) : σ.running = .scheduler ∧ rest = [] ∧ Dark σ.cpu f.loc := by
  obtain ⟨thread, g, only, dark⟩ := inv.boot still
  rw [top] at only
  cases only
  exact ⟨thread, rfl, dark⟩

theorem at_allFree {p : Processor} {loc : Locals} (free : AllFree p) (opened : loc.opened = 0) (held : loc.held = ∅)
    (window : loc.window = none) : At 0 ∅ ⟨p, loc⟩ where
  sound := by
    refine ⟨?_, ?_, fun _ => free.ncli, fun lk => ?_, fun lk _ => ?_, fun lk found => ?_⟩
    · simp [free.ncli, opened, held]
    · simp [free.ncli]
    · simp [free.locks lk, unlocked, held]
    · simp [free.locks lk, unlocked, held]
    · simp [window] at found
  opened := opened
  held := held
  window := window

theorem allFree_of_at {v : View} (here : At 0 ∅ v) : AllFree v.cpu where
  ncli := by simpa using here.ncli
  locks lk := by
    have locked := here.sound.locked lk
    have cpu := here.sound.cpu lk (by simp [here.window])
    rw [here.held] at locked cpu
    simp only [Finset.notMem_empty, if_false] at locked cpu
    exact (Spinlock.mk.injEq ..).mpr ⟨locked, cpu⟩

/-- With the flag set nothing is open. -/
theorem at_of_enabled {v : View} (sound : Sound v) (enabled : v.cpu.flIf = true) : At 0 ∅ v := by
  have depth := sound.depth
  rw [sound.masked enabled] at depth
  have unlocked : v.loc.held = ∅ := Finset.card_eq_zero.mp (by omega)
  refine ⟨sound, by omega, unlocked, ?_⟩
  cases inside : v.loc.window with
  | none => rfl
  | some lk => exact absurd (sound.window lk inside) (by simp [unlocked])

theorem At.ended {opened : Nat} {held : Finset LockId} {v : View} (here : At opened held v)
    (room : opened + held.card + 1 < 2 ^ 31) : Ended v := by
  have level := here.ncli
  exact ⟨here.window, by omega⟩

theorem call_safe (c : Call) {running : ThreadId} {frames : List Frame} {f : Frame} {cpu : Processor}
    (mem : f ∈ frames) (tied : Tied f) (level : depth frames = f.loc.opened + f.loc.held.card)
    (allowed : c.Allowed InRange running frames f) (here : At f.loc.opened f.loc.held ⟨cpu, f.loc⟩)
    (room : f.loc.opened + f.loc.held.card + 1 < 2 ^ 31) : Safe rules Ended c.code ⟨cpu, f.loc⟩ := by
  have opened := tied.opened
  have held := tied.held
  cases c with
  | pushcli =>
    have fits : depth frames + 2 < 2 ^ 31 := allowed
    exact (safe_pushcli here room).imp fun _ last => At.ended last (by omega)
  | popcli =>
    have positive : 1 ≤ f.opened := allowed
    obtain ⟨less, count⟩ := Nat.exists_eq_add_of_le' (show 1 ≤ f.loc.opened by omega)
    rw [count] at here
    exact (safe_popcli here).imp fun _ last => At.ended last.1 (by omega)
  | acquire lk =>
    have fits : depth frames + 2 < 2 ^ 31 := allowed.1
    have absent : lk ∉ f.loc.held := held ▸ allowed.2 f mem
    have card := Finset.card_insert_of_notMem absent
    exact (safe_acquire lk absent here (by omega)).imp fun _ last => At.ended last (by omega)
  | release lk =>
    have present : lk ∈ f.loc.held := held ▸ allowed
    have card := Finset.card_erase_le (s := f.loc.held) (a := lk)
    exact (safe_release lk present here room).imp fun _ last => At.ended last (by omega)
  | mycpu =>
    have inside : 1 ≤ f.loc.opened ∨ f.loc.held.Nonempty :=
      allowed.imp (fun positive => by omega) (fun nonempty => held ▸ nonempty)
    have masked := here.sound.disabled inside
    exact (safe_masked (by simp) (by simpa [effect])).mpr ⟨masked, At.ended here room⟩
  | enterScheduler =>
    rw [show f.loc.opened = 0 by have zero := allowed.2.1; omega, held.trans allowed.2.2] at here
    exact (safe_enterScheduler here).imp fun _ last => At.ended last (by simp)
  | exit warns =>
    rw [show f.loc.opened = 0 by have zero := allowed.2.1; omega, held.trans allowed.2.2] at here
    exact (safe_exit warns here).imp fun _ last => At.ended last (by simp)

theorem Live.ended {cpu : Processor} {f : Frame} (live : Live cpu f) (between : f.code = []) : Ended ⟨cpu, f.loc⟩ := by
  have ended := live.safe _ (.refl _)
  rwa [between] at ended

theorem Live.at_end {cpu : Processor} {f : Frame} (live : Live cpu f) (between : f.code = []) :
    At f.loc.opened f.loc.held ⟨cpu, f.loc⟩ :=
  ⟨live.sound, rfl, rfl, (live.ended between).window⟩

/-- Between two calls there is room for another level. -/
theorem Live.room {cpu : Processor} {f : Frame} (live : Live cpu f) (between : f.code = []) :
    f.loc.opened + f.loc.held.card + 1 < 2 ^ 31 := by
  have room : cpu.ncli + 1 < 2 ^ 31 := (live.ended between).room
  have level : cpu.ncli = f.loc.opened + f.loc.held.card := live.sound.depth
  omega

theorem live_of_at {opened : Nat} {held : Finset LockId} {cpu : Processor} {f : Frame} (here : At opened held ⟨cpu, f.loc⟩)
    (safe : ∀ p, At opened held ⟨p, f.loc⟩ → Alike ⟨cpu, f.loc⟩ ⟨p, f.loc⟩ → Safe rules Ended f.code ⟨p, f.loc⟩) :
    Live cpu f := by
  refine ⟨here.sound, fun w alike => ?_⟩
  have shape : w = ⟨w.cpu, f.loc⟩ := (View.mk.injEq ..).mpr ⟨rfl, alike.1⟩
  rw [shape] at alike ⊢
  exact safe w.cpu (here.alike alike) alike

theorem Live.advance {cpu : Processor} {f : Frame} {i : Instr} {code : List Instr} (live : Live cpu f)
    (next : f.code = i :: code) (stays : i ≠ .swtch) :
    Live (effect i ⟨cpu, f.loc⟩).cpu { f with code := code, loc := (effect i ⟨cpu, f.loc⟩).loc } := by
  have safe := live.safe _ (.refl _)
  rw [next] at safe
  refine ⟨effect_sound i _ live.sound safe.1, fun w alike => safe.2 w ?_⟩
  cases i <;> first | exact alike | exact absurd rfl stays

theorem Live.ready {cpu : Processor} {f : Frame} {i : Instr} {code : List Instr} (live : Live cpu f)
    (next : f.code = i :: code) : ready i ⟨cpu, f.loc⟩ := by
  have safe := live.safe _ (.refl _)
  rw [next] at safe
  exact safe.1

theorem Dark.effect {cpu : Processor} {loc : Locals} (dark : Dark cpu loc) (i : Instr) :
    Dark (effect i ⟨cpu, loc⟩).cpu (effect i ⟨cpu, loc⟩).loc := by
  obtain ⟨flIf, intena, eflags, saved⟩ := dark
  cases i <;> constructor <;> simp [LockSteps.effect, setLock, *]

/-- An activation in the middle of changing a lock still has the write before it that ends the change. -/
theorem window_in_code {code : List Instr} {v : View} {lk : LockId} (safe : Safe rules Ended code v)
    (inside : v.loc.window = some lk) : .setCpu lk ∈ code ∨ .clearLocked lk ∈ code := by
  induction code generalizing v with
  | nil =>
    have ended : Ended v := safe
    rw [ended.window] at inside
    contradiction
  | cons i code ih =>
    have later (next : after i v (effect i v)) (same : (effect i v).loc.window = v.loc.window) :
        .setCpu lk ∈ i :: code ∨ .clearLocked lk ∈ i :: code :=
      (ih (safe.2 _ next) (same.trans inside)).imp (List.mem_cons_of_mem _) (List.mem_cons_of_mem _)
    have allowed : ready i v := safe.1
    cases i with
    | setCpu other =>
      have same : other = lk := Option.some.inj (allowed.symm.trans inside)
      exact .inl (same ▸ List.mem_cons_self)
    | clearLocked other =>
      have same : other = lk := Option.some.inj (allowed.1.symm.trans inside)
      exact .inr (same ▸ List.mem_cons_self)
    | xchg _ => exact absurd (allowed.2.2.symm.trans inside) (by simp)
    | clearCpu _ => exact absurd (allowed.2.symm.trans inside) (by simp)
    | swtch => exact absurd (allowed.window.symm.trans inside) (by simp)
    | _ => exact later (.refl _) rfl

theorem boot_inv : Inv boot where
  stopped message failed := by simp [boot] at failed
  user ended := by simp [boot] at ended
  live f rest top := by
    have same : f = ⟨[], [], fresh, false⟩ ∧ rest = [] := by simpa [boot, eq_comm] using top
    obtain ⟨rfl, rfl⟩ := same
    have here : At 0 ∅ ⟨boot.cpu, fresh⟩ := at_allFree ⟨rfl, fun _ => rfl⟩ rfl rfl rfl
    exact ⟨live_of_at here fun _ here _ => At.ended here (by simp), trivial⟩
  suspended t fs found := by simp [boot] at found
  boot _ := ⟨rfl, _, rfl, rfl, rfl, rfl, rfl⟩

theorem Below.congr {f g : Frame} {rest : List Frame} (below : Below f rest) (same : g.savedIf = f.savedIf) :
    Below g rest := by
  cases rest with
  | nil => trivial
  | cons _ _ => exact ⟨same.trans below.1, below.2⟩

/-- Only the innermost activation and the processor change. -/
theorem Inv.retop {σ : System} {f g : Frame} {rest : List Frame} {cpu : Processor} {booting : Bool} (inv : Inv σ)
    (top : σ.frames = f :: rest) (live : Live cpu g) (same : g.savedIf = f.savedIf)
    (dark : booting = true → σ.booting = true ∧ Dark cpu g.loc) :
    Inv { σ with cpu := cpu, frames := g :: rest, booting := booting } where
  stopped := inv.stopped
  user ended := by cases ended
  live _ _ shape := by
    cases shape
    exact ⟨live, ((inv.live f rest top).2).congr same⟩
  suspended := inv.suspended
  boot still := by
    obtain ⟨thread, rfl, -⟩ := inv.booting (dark still).1 top
    exact ⟨thread, g, rfl, (dark still).2⟩

theorem waiting_update {suspended : ThreadId → Option (List Frame)} {u : ThreadId} {new : Option (List Frame)}
    (waits : ∀ t fs, suspended t = some fs → Waiting fs) (waitsNew : ∀ fs, new = some fs → Waiting fs) (t : ThreadId)
    (fs : List Frame) (found : Function.update suspended u new t = some fs) : Waiting fs := by
  by_cases same : t = u
  · subst same
    rw [Function.update_self] at found
    exact waitsNew fs found
  · rw [Function.update_of_ne same] at found
    exact waits t fs found

/-- The lock word and owner are what a thread left them when it handed over. -/
theorem handoff_of {v : View} {loc : Locals} (handed : Handoff v) (opened : loc.opened = 0)
    (held : loc.held = {.ptable}) (window : loc.window = none) : Handoff ⟨v.cpu, loc⟩ := by
  refine ⟨⟨?_, handed.sound.range, handed.sound.masked, fun lk => ?_, fun lk _ => ?_, fun lk found => ?_⟩, opened, held, window⟩
  · simpa [opened, held] using At.ncli handed
  · have locked := handed.sound.locked lk
    rw [handed.held] at locked
    simpa only [held] using locked
  · have cpu := handed.sound.cpu lk (by simp [handed.window])
    rw [handed.held] at cpu
    simpa only [held] using cpu
  · simp [window] at found

theorem Waiting.live {v : View} {f : Frame} {rest : List Frame} (waits : Waiting (f :: rest)) (handed : Handoff v) :
    Live v.cpu f ∧ Below f rest := by
  cases waits with
  | intro opened held window safe below =>
    have here := handoff_of handed opened held window
    exact ⟨live_of_at here fun p back _ => safe p back, below⟩

/-- Another thread takes over. -/
theorem Inv.transfer {σ : System} {t u : ThreadId} {fs gs : List Frame} (inv : Inv σ) (loops : σ.booting = false)
    (found : σ.suspended t = some fs) {loc : Locals} (handed : Handoff ⟨σ.cpu, loc⟩) (waits : Waiting gs) :
    Inv { σ with
      running := t, frames := fs,
      suspended := Function.update (Function.update σ.suspended t none) u (some gs) } where
  stopped := inv.stopped
  user ended := by
    subst ended
    cases inv.suspended t _ found
  live f rest top := by
    subst top
    exact (inv.suspended t _ found).live handed
  suspended := waiting_update (waiting_update inv.suspended (fun _ absent => by cases absent))
    (fun _ same => Option.some.inj same ▸ waits)
  boot still := by
    rw [loops] at still
    cases still

/-- A handler or a system call starts with nothing open. -/
theorem live_fresh {cpu : Processor} (free : AllFree cpu) (savedIf : Bool) : Live cpu ⟨[], [], fresh, savedIf⟩ :=
  live_of_at (at_allFree free rfl rfl rfl) fun _ here _ => At.ended here (by simp)

theorem alike_flIf {v w : View} (alike : Alike v w) : w.cpu.flIf = v.cpu.flIf := by
  obtain ⟨-, cpu | ⟨-, saved, cpu⟩⟩ := alike
  · rw [cpu]
  · rw [cpu]

theorem Live.parked {cpu : Processor} {f : Frame} (live : Live cpu f) (enabled : cpu.flIf = true) : Parked f := by
  have here : At 0 ∅ ⟨cpu, f.loc⟩ := at_of_enabled live.sound enabled
  have free := allFree_of_at here
  refine ⟨here.opened, here.held, here.window, fun p allFree set => live.safe _ ⟨rfl, .inr ⟨enabled, p.intena, ?_⟩⟩⟩
  refine (Processor.mk.injEq ..).mpr ⟨set.trans enabled.symm, allFree.ncli.trans free.ncli.symm, rfl, ?_⟩
  funext lk
  rw [allFree.locks lk, free.locks lk]

theorem Parked.live {cpu : Processor} {f : Frame} (parked : Parked f) (free : AllFree cpu) (enabled : cpu.flIf = true) :
    Live cpu f :=
  live_of_at (at_allFree free parked.opened parked.held parked.window) fun p here alike =>
    parked.safe p (allFree_of_at here) ((alike_flIf alike).trans enabled)

theorem interrupt_inv {σ : System} (inv : Inv σ) (enabled : σ.cpu.flIf = true) :
    Inv { σ with cpu.flIf := false, frames := ⟨[], [], fresh, true⟩ :: σ.frames } where
  stopped := inv.stopped
  user ended := by cases ended
  live f rest top := by
    cases top
    cases frames : σ.frames with
    | nil =>
      have free := inv.user frames
      exact ⟨live_fresh (free.withIf false) true, trivial⟩
    | cons g below =>
      have ⟨live, under⟩ := inv.live g below frames
      have free : AllFree σ.cpu := allFree_of_at (at_of_enabled live.sound enabled)
      exact ⟨live_fresh (free.withIf false) true, rfl, live.parked enabled, under⟩
  suspended := inv.suspended
  boot still := by
    obtain ⟨-, f, -, dark⟩ := inv.boot still
    rw [dark.flIf] at enabled
    cases enabled

theorem iret_inv {σ : System} {f : Frame} {rest : List Frame} (inv : Inv σ) (top : σ.frames = f :: rest)
    (between : f.code = []) (opened : f.loc.opened = 0) (held : f.loc.held = ∅)
    (returns : rest ≠ [] ∨ σ.running ≠ .scheduler) : Inv { σ with cpu.flIf := f.savedIf, frames := rest } := by
  have ⟨live, below⟩ := inv.live f rest top
  have here := live.at_end between
  rw [opened, held] at here
  have free : AllFree σ.cpu := allFree_of_at here
  refine ⟨inv.stopped, fun _ => free.withIf _, fun g under shape => ?_, inv.suspended, fun still => ?_⟩
  · have shape : rest = g :: under := shape
    subst shape
    exact ⟨below.2.1.live (free.withIf _) below.1, below.2.2⟩
  · obtain ⟨thread, rfl, -⟩ := inv.booting still top
    exact absurd thread (returns.resolve_left (· rfl))

/-- Everything but the innermost activation has nothing open. -/
theorem Below.nothing {f : Frame} {rest : List Frame} (below : Below f rest) (tied : ∀ g ∈ rest, Tied g) :
    ∀ g ∈ rest, g.opened = 0 ∧ g.locks = ∅ := by
  induction rest generalizing f with
  | nil => simp
  | cons g rest ih =>
    have here := tied g List.mem_cons_self
    have opened : g.opened = 0 := by rw [← here.opened, below.2.1.opened]; rfl
    have locks : g.locks = ∅ := here.held.symm.trans below.2.1.held
    exact List.forall_mem_cons.mpr ⟨⟨opened, locks⟩, ih below.2.2 fun h member => tied h (List.mem_cons_of_mem _ member)⟩

/-- The accounts of a thread are those of its innermost activation. -/
theorem accounts_top {f : Frame} {rest : List Frame} (below : Below f rest) (tied : ∀ g ∈ f :: rest, Tied g) :
    openPushcli (f :: rest) = f.loc.opened ∧ depth (f :: rest) = f.loc.opened + f.loc.held.card := by
  obtain ⟨here, under⟩ := List.forall_mem_cons.mp tied
  have nothing := below.nothing under
  have opened : (rest.map Frame.opened).sum = 0 := List.sum_eq_zero (by
    simp only [List.mem_map]
    rintro _ ⟨g, member, rfl⟩
    exact (nothing g member).1)
  have levels : (rest.map fun g => g.opened + (g.locks.card : Int)).sum = 0 := List.sum_eq_zero (by
    simp only [List.mem_map]
    rintro _ ⟨g, member, rfl⟩
    simp [nothing g member])
  simp only [openPushcli, depth, List.map_cons, List.sum_cons, opened, levels, here.opened, here.held, add_zero, and_self]

theorem step_inv {σ τ : System} (inv : Inv σ) (tied : AllTied σ) (step : Step InRange σ τ) : Inv τ := by
  cases step with
  | @access f rest i code live top next stays exits passes =>
    have going := (inv.live f rest top).1
    refine inv.retop top (going.advance next stays) rfl fun still => ⟨still, ?_⟩
    exact (inv.booting still top).2.2.effect i
  | @spin f rest lk code live top next taken =>
    have going := (inv.live f rest top).1
    rw [ready_spins _ _ going.sound (going.ready next)] at taken
    cases taken
  | @panic f rest i code message live top next failed =>
    have going := (inv.live f rest top).1
    refine ⟨fun told same => ?_, inv.user, inv.live, inv.suspended, inv.boot⟩
    cases same
    exact ready_fails i _ going.sound (going.ready next) message failed
  | @schedRunning f rest code live top next =>
    refine ⟨fun told same => ?_, inv.user, inv.live, inv.suspended, inv.boot⟩
    cases same
    simp [disciplinePanics, mycpuMessage]
  | @call f rest c live top between allowed =>
    obtain ⟨going, below⟩ := inv.live f rest top
    have here := going.at_end between
    have mem : f ∈ σ.frames := top ▸ List.mem_cons_self
    have level := (accounts_top below (top ▸ tied.frames)).2
    have starts : Live σ.cpu { f with code := c.code, calls := c :: f.calls } := live_of_at here fun p back _ =>
      call_safe (f := f) c mem (tied.frames f mem) (top ▸ level) allowed back (going.room between)
    exact inv.retop top starts rfl fun still => ⟨still, (inv.booting still top).2.2⟩
  | @scheduler f live booting top between =>
    obtain ⟨-, -, dark⟩ := inv.booting booting top
    have going := (inv.live f [] top).1
    have here := going.at_end between
    refine inv.retop top (live_of_at here fun p back alike => ?_) rfl fun still => by cases still
    have masked : p.flIf = false := congrArg (fun w : View => w.cpu.flIf) (alike_masked dark.flIf alike) ▸ dark.flIf
    exact (safe_masked (by simp) (by simpa [effect])).mpr ⟨masked, At.ended back (going.room between)⟩
  | @sti f live loops thread top between opened locks =>
    have here := (inv.live f [] top).1.at_end between
    obtain ⟨opened, held⟩ := (tied.frames f (top ▸ List.mem_cons_self)).nothing opened locks
    rw [opened, held] at here
    have free := allFree_of_at here
    have enabled : At 0 ∅ ⟨{ σ.cpu with flIf := true }, f.loc⟩ := at_allFree (free.withIf true) opened held here.window
    have shape : { σ with cpu.flIf := true } =
        { σ with cpu := { σ.cpu with flIf := true }, frames := [f], booting := σ.booting } := by rw [← top]
    rw [shape]
    refine inv.retop top (live_of_at enabled fun p back _ => ?_) rfl fun still => ?_
    · rw [between]
      exact At.ended back (by simp)
    · rw [loops] at still
      cases still
  | @dispatch f fs slot live loops thread top between opened locks found =>
    have here := (inv.live f [] top).1.at_end between
    have account := tied.frames f (top ▸ List.mem_cons_self)
    have opened : f.loc.opened = 0 := by have count := account.opened; omega
    have held : f.loc.held = {.ptable} := account.held.trans locks
    rw [opened, held] at here
    refine inv.transfer loops found here (.intro opened held here.window (fun p back => ?_) trivial)
    rw [between]
    exact At.ended back (by simp)
  | @swtch f rest fs code slot live thread top next found =>
    have going := (inv.live f rest top).1
    have handed : Handoff ⟨σ.cpu, f.loc⟩ := going.ready next
    have loops : σ.booting = false := by
      cases still : σ.booting with
      | false => rfl
      | true => exact absurd ((inv.boot still).1.symm.trans thread) (by simp)
    refine inv.transfer loops found handed
      (.intro handed.opened handed.held handed.window (fun p back => ?_) ((inv.live f rest top).2.congr rfl))
    have safe := going.safe _ (.refl _)
    rw [next] at safe
    exact safe.2 _ ⟨rfl, back⟩
  | interrupt live enabled => exact interrupt_inv inv enabled
  | syscall live user =>
    refine ⟨inv.stopped, fun absent => (by cases absent), fun f rest top => ?_, inv.suspended, fun still => ?_⟩
    · cases top
      exact ⟨live_fresh (inv.user user) _, trivial⟩
    · obtain ⟨-, f, only, -⟩ := inv.boot still
      rw [user] at only
      cases only
  | @iret f rest live top between opened locks returns =>
    obtain ⟨opened, held⟩ := (tied.frames f (top ▸ List.mem_cons_self)).nothing opened locks
    exact iret_inv inv top between opened held returns
  | create slot savedIf live unused other =>
    refine ⟨inv.stopped, inv.user, inv.live, waiting_update inv.suspended fun fs same => ?_, inv.boot⟩
    cases same
    refine .intro rfl rfl rfl (fun p back => ?_) trivial
    exact (safe_release .ptable (by simp) back (by simp)).imp fun _ last => At.ended last (by simp)

theorem tied_update {suspended : ThreadId → Option (List Frame)} {u : ThreadId} {new : Option (List Frame)}
    (tied : ∀ t fs, suspended t = some fs → ∀ f ∈ fs, Tied f) (tiedNew : ∀ fs, new = some fs → ∀ f ∈ fs, Tied f)
    (t : ThreadId) (fs : List Frame) (found : Function.update suspended u new t = some fs) : ∀ f ∈ fs, Tied f := by
  by_cases same : t = u
  · subst same
    rw [Function.update_self] at found
    exact tiedNew fs found
  · rw [Function.update_of_ne same] at found
    exact tied t fs found

/-- Only the innermost activation changes. -/
theorem AllTied.retop {σ : System} {f g : Frame} {rest : List Frame} {cpu : Processor} {booting : Bool} (tied : AllTied σ)
    (top : σ.frames = f :: rest) (new : Tied g) : AllTied { σ with cpu := cpu, frames := g :: rest, booting := booting } where
  frames := List.forall_mem_cons.mpr ⟨new, fun h member => tied.frames h (top ▸ List.mem_cons_of_mem _ member)⟩
  suspended := tied.suspended

theorem step_tied {σ τ : System} (inv : Inv σ) (tied : AllTied σ) (step : Step InRange σ τ) : AllTied τ := by
  cases step with
  | @access f rest i code live top next stays exits passes =>
    have account := tied.frames f (top ▸ List.mem_cons_self)
    exact tied.retop top (account.advance σ.cpu next ((inv.live f rest top).1.ready next) passes)
  | spin | panic | schedRunning | sti => exact ⟨tied.frames, tied.suspended⟩
  | @call f rest c live top between allowed =>
    exact tied.retop top ((tied.frames f (top ▸ List.mem_cons_self)).begin between c)
  | @scheduler f live booting top between =>
    exact tied.retop top ((tied.frames f (top ▸ List.mem_cons_self)).begin between .mycpu)
  | @dispatch f fs slot live loops thread top between opened locks found =>
    refine ⟨tied.suspended _ fs found, tied_update (tied_update tied.suspended fun _ gone => by cases gone) fun fs same => ?_⟩
    cases same
    exact top ▸ tied.frames
  | @swtch f rest fs code slot live thread top next found =>
    refine ⟨tied.suspended _ fs found, tied_update (tied_update tied.suspended fun _ gone => by cases gone) fun fs same => ?_⟩
    cases same
    obtain ⟨account, under⟩ := List.forall_mem_cons.mp (top ▸ tied.frames)
    have moved := account.advance σ.cpu next ((inv.live f rest top).1.ready next) rfl
    exact List.forall_mem_cons.mpr ⟨moved, under⟩
  | interrupt live enabled => exact ⟨List.forall_mem_cons.mpr ⟨tied_fresh true, tied.frames⟩, tied.suspended⟩
  | syscall live user => exact ⟨List.forall_mem_cons.mpr ⟨tied_fresh _, fun f member => by cases member⟩, tied.suspended⟩
  | @iret f rest live top between opened locks returns =>
    exact ⟨fun g member => tied.frames g (top ▸ List.mem_cons_of_mem _ member), tied.suspended⟩
  | create slot savedIf live unused other =>
    refine ⟨tied.frames, tied_update tied.suspended fun fs same => ?_⟩
    cases same
    exact List.forall_mem_cons.mpr ⟨tied_handed savedIf, fun f member => by cases member⟩

theorem boot_tied : AllTied boot where
  frames := List.forall_mem_cons.mpr ⟨tied_fresh false, fun f member => by cases member⟩
  suspended t fs found := by simp [boot] at found

theorem run_inv {σ : System} (run : Reachable Initial (Step InRange) σ) : Inv σ ∧ AllTied σ := by
  refine @Reachable.invariant _ _ _ (fun s => Inv s ∧ AllTied s) (fun s first => ?_) (fun s t holds step => ?_) _ run
  · have first : s = boot := first
    exact first ▸ ⟨boot_inv, boot_tied⟩
  · exact ⟨step_inv holds.1 holds.2 step, step_tied holds.1 holds.2 step⟩

theorem heldLocks_eq {v : View} (sound : Sound v) : heldLocks v.cpu = v.loc.held.card := by
  unfold heldLocks
  congr 1
  ext lk
  by_cases present : lk ∈ v.loc.held
  · simp [sound.locked lk, present]
  · simp [sound.locked lk, present]

theorem heldLocks_allFree {p : Processor} (free : AllFree p) : heldLocks p = 0 := by
  have unlocked : (Finset.univ.filter fun lk => (p.locks lk).locked ≠ 0#32) = ∅ := by
    ext lk
    simp [free.locks lk, unlocked]
  simp [heldLocks, unlocked]

/-- A lock word is set while an activation of the running thread has the lock in its account. -/
theorem mem_locks_iff {f : Frame} {rest : List Frame} (below : Below f rest) (tied : ∀ g ∈ f :: rest, Tied g) (lk : LockId) :
    (∃ g ∈ f :: rest, lk ∈ g.locks) ↔ lk ∈ f.loc.held := by
  obtain ⟨here, under⟩ := List.forall_mem_cons.mp tied
  rw [here.held]
  constructor
  · rintro ⟨g, member, present⟩
    rcases List.mem_cons.mp member with rfl | later
    · exact present
    · rw [(below.nothing under g later).2] at present
      cases present
  · exact fun present => ⟨f, List.mem_cons_self, present⟩

theorem lock_discipline (σ : System) (run : Reachable Initial (Step InRange) σ) :
    σ.cpu.ncli = heldLocks σ.cpu + openPushcli σ.frames ∧
    (∀ lk, (σ.cpu.locks lk).locked ≠ 0#32 ↔ ∃ f ∈ σ.frames, lk ∈ f.locks) ∧
    (σ.cpu.flIf = true → σ.cpu.ncli = 0 ∧ ∀ lk, (σ.cpu.locks lk).locked = 0#32) ∧
    (∀ lk, ¬ InBody σ.frames lk → ((σ.cpu.locks lk).locked = 1#32 ↔ (σ.cpu.locks lk).cpu ≠ none)) ∧
    (∀ f rest lk code, σ.frames = f :: rest → f.code = .xchg lk :: code → (σ.cpu.locks lk).locked = 0#32) ∧
    ∀ message, σ.stopped = some message → message ∉ disciplinePanics := by
  obtain ⟨inv, tied⟩ := run_inv run
  cases frames : σ.frames with
  | nil =>
    have free := inv.user frames
    refine ⟨?_, fun lk => ?_, fun _ => ⟨free.ncli, fun lk => by simp [free.locks lk, unlocked]⟩, fun lk _ => ?_,
      fun f rest lk code top => ?_, inv.stopped⟩
    · simp [free.ncli, heldLocks_allFree free, openPushcli]
    · simp [free.locks lk, unlocked]
    · simp [free.locks lk, unlocked]
    · cases top
  | cons f rest =>
    obtain ⟨live, below⟩ := inv.live f rest frames
    have accounts := frames ▸ tied.frames
    refine ⟨?_, fun lk => ?_, fun enabled => ?_, fun lk outside => ?_, fun g under lk code top next => ?_, inv.stopped⟩
    · have level : σ.cpu.ncli = f.loc.opened + f.loc.held.card := live.sound.depth
      have held : heldLocks σ.cpu = f.loc.held.card := heldLocks_eq live.sound
      have opened := (accounts_top below accounts).1
      omega
    · rw [mem_locks_iff below accounts lk, live.sound.locked lk]
      simp
    · have free : AllFree σ.cpu := allFree_of_at (at_of_enabled live.sound enabled)
      exact ⟨free.ncli, fun lk => by simp [free.locks lk, unlocked]⟩
    · have closed : f.loc.window ≠ some lk := fun inside =>
        outside ⟨f, rfl, window_in_code (live.safe _ (.refl _)) inside⟩
      rw [live.sound.locked lk, live.sound.cpu lk closed]
      by_cases present : lk ∈ f.loc.held
      · simp [present]
      · simp [present]
    · cases top
      have allowed := live.ready next
      rw [live.sound.locked lk]
      simp [allowed.1]

/-- The scheduler has been interrupted before its first `acquire`, and the handler has called `pushcli`. -/
def firstInterrupt : System :=
  { boot with
    cpu := { boot.cpu with ncli := 1 }
    frames := [⟨[], [.pushcli], { fresh with opened := 1 }, true⟩, ⟨[], [.mycpu], fresh, false⟩]
    booting := false }

theorem pushcli_stays : .swtch ∉ pushcliCode := by decide

theorem reachable_firstInterrupt : Reachable Initial (Step InRange) firstInterrupt := by
  have start : Reachable Initial (Step InRange) boot := .start rfl
  have entered := Reachable.next start (Step.scheduler (σ := boot) rfl rfl rfl rfl)
  have asked := Reachable.next entered (Step.access rfl rfl rfl (by simp) rfl rfl)
  have enabled := Reachable.next asked (Step.sti rfl rfl rfl rfl rfl rfl rfl)
  have interrupted := Reachable.next enabled (Step.interrupt rfl rfl)
  have shallow : InRange (depth [⟨[], [], fresh, true⟩, ⟨[], [.mycpu], fresh, false⟩]) := by
    unfold InRange
    decide
  have called := Reachable.next interrupted (Step.call .pushcli rfl rfl rfl shallow)
  have ran : exec pushcliCode ⟨boot.cpu, fresh⟩ = .ok ⟨{ boot.cpu with ncli := 1 }, { fresh with opened := 1 }⟩ := by
    rw [exec_pushcli, run_pushcli_int]
    rfl
  exact reachable_exec called rfl rfl pushcli_stays ran

theorem lock_discipline_first_interrupt :
    firstInterrupt.frames.length = 2 ∧ openPushcli firstInterrupt.frames = 1 ∧
    firstInterrupt.cpu.ncli = heldLocks firstInterrupt.cpu + openPushcli firstInterrupt.frames ∧
    ∀ message, firstInterrupt.stopped = some message → message ∉ disciplinePanics :=
  have holds := lock_discipline firstInterrupt reachable_firstInterrupt
  ⟨rfl, by decide, holds.1, holds.2.2.2.2.2⟩

section Overflow

/-- A boot thread that has called `pushcli` so many times. -/
def pushed (n : Nat) : System :=
  { boot with
    cpu := { boot.cpu with ncli := int32 n }
    frames := [⟨[], List.replicate n .pushcli, { fresh with opened := n }, false⟩] }

theorem cpu_pushed (n : Nat) : (pushed n).cpu = ⟨false, int32 n, false, fun _ => unlocked⟩ := by
  simp only [pushed, boot]

/-- With interrupts off from the start, `pushcli` moves nothing but the count. -/
theorem exec_dark (count : Int) (locks : LockId → Spinlock) (opened : Nat) :
    exec pushcliCode ⟨⟨false, count, false, locks⟩, { fresh with opened := opened }⟩ =
      .ok ⟨⟨false, int32 (count + 1), false, locks⟩, { fresh with opened := opened + 1 }⟩ := by
  rw [exec_pushcli, run_pushcli_int]
  by_cases outer : count = 0
  · simp [seen, settle, fresh, outer]
  · simp [seen, settle, fresh, outer]

theorem exec_pushed (n : Nat) :
    exec pushcliCode ⟨(pushed n).cpu, { fresh with opened := n }⟩ =
      .ok ⟨(pushed (n + 1)).cpu, { fresh with opened := n + 1 }⟩ := by
  have count : int32 (int32 n + 1) = int32 ((n + 1 : Nat) : Int) := by
    simp only [int32, Int.bmod_add_bmod, Nat.cast_add, Nat.cast_one]
  rw [cpu_pushed, cpu_pushed, exec_dark, count]

theorem reachable_pushed (n : Nat) : Reachable Initial (Step fun _ => True) (pushed n) := by
  induction n with
  | zero => exact .start rfl
  | succ n ih =>
    have called := Reachable.next ih (Step.call .pushcli rfl rfl rfl trivial)
    exact reachable_exec called rfl rfl pushcli_stays (exec_pushed n)

theorem opened_pushed (n : Nat) : openPushcli (pushed n).frames = n := by
  simp [openPushcli, pushed, Frame.opened, openAfter, List.count_replicate]

/-- The next `popcli` panics where the count before it is below 1. -/
theorem popcli_stops (n : Nat) (positive : 1 ≤ n) (wraps : int32 (int32 n - 1) < 0) :
    Reachable Initial (Step fun _ => True) { pushed n with
      frames := [⟨[.decNcli, .mycpu, .restoreIf], .popcli :: List.replicate n .pushcli, { fresh with opened := n }, false⟩]
      stopped := some "popcli" } := by
  have opened : 1 ≤ Frame.opened ⟨[], List.replicate n .pushcli, { fresh with opened := n }, false⟩ := by
    simpa [Frame.opened, openAfter, List.count_replicate] using Int.ofNat_le.mpr positive
  have called := Reachable.next (reachable_pushed n) (Step.call .popcli rfl rfl rfl opened)
  have first := Reachable.next called (Step.access rfl rfl rfl (by simp) rfl rfl)
  have second := Reachable.next first (Step.access rfl rfl rfl (by simp) rfl rfl)
  have failed : fails .decNcli ⟨(pushed n).cpu, { fresh with opened := n }⟩ = some "popcli" := by
    simp [fails, pushed, wraps]
  exact Reachable.next second (Step.panic rfl rfl rfl failed)

/-- Without a bound on the nesting `ncli` wraps around, and a bracketed `popcli` panics. -/
theorem lock_discipline_not_unbounded :
    (∃ σ, Reachable Initial (Step fun _ => True) σ ∧ σ.cpu.ncli ≠ heldLocks σ.cpu + openPushcli σ.frames) ∧
    ∃ σ, Reachable Initial (Step fun _ => True) σ ∧ σ.stopped = some "popcli" := by
  refine ⟨⟨pushed (2 ^ 31), reachable_pushed _, ?_⟩, _, popcli_stops (2 ^ 31 + 1) (by decide) (by decide), rfl⟩
  rw [opened_pushed]
  have count : (pushed (2 ^ 31)).cpu.ncli = -2 ^ 31 := by
    rw [cpu_pushed]
    decide
  omega

end Overflow

end OsDev.Kernel.LockRuns
