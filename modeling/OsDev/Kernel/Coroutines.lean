import Mathlib.Logic.Relation
import OsDev.Kernel.Swtch
import OsDev.Machine.Program

/-! Kernel threads that hand the processor to each other with `swtch`. What a
thread left behind is kept beside the machine, as it was at its call. -/

namespace OsDev.Kernel.Coroutines
open OsDev.Machine.Memory OsDev.Machine.Program OsDev.Machine.X86 OsDev.Kernel.Frames OsDev.Kernel.Swtch

/-- The stacks of the threads, no two of which overlap. -/
structure Stacks (T : Type) where
  stack : T → Set Addr
  apart : ∀ t u, t ≠ u → Disjoint (stack t) (stack u)

/-- A thread at its call of `swtch(&old, new)`: where it has its context pointer
stored, what it will need, and its stack pointer after the call. -/
structure Record where
  slot : Addr
  context : Context
  esp : Addr

structure System (T : Type) where
  core : Core
  running : T
  /-- For every thread but the running one, its last call of `swtch`. -/
  record : T → Record

variable {T : Type} {layout : Stacks T} {σ τ : System T} {t u : T}

/-- The context pointer is stored, and points to the saved words on the thread's own stack. -/
structure Parked (stack : Set Addr) (m : Mem) (record : Record) : Prop where
  pointer : read32 m record.slot = record.esp - BitVec.ofNat 32 contextSize
  inside : span (record.esp - BitVec.ofNat 32 contextSize) contextSize ⊆ stack
  words : Holds m (record.esp - BitVec.ofNat 32 contextSize) (ContextField.all.map record.context)

/-- Every thread is running or suspended inside `swtch`. The variables that hold
context pointers are on nobody's stack. -/
structure Threads (layout : Stacks T) (σ : System T) : Prop where
  parked : ∀ t, t ≠ σ.running → Parked (layout.stack t) σ.core.mem (σ.record t)
  slots : ∀ t, t ≠ σ.running → ∀ u, Disjoint (span (σ.record t).slot 4) (layout.stack u)
  distinct : ∀ t u, t ≠ σ.running → u ≠ σ.running → t ≠ u →
    Disjoint (span (σ.record t).slot 4) (span (σ.record u).slot 4)

/-- The running thread computes. It leaves the stacks and the context pointers of the others alone. -/
structure Works (layout : Stacks T) (σ τ : System T) : Prop where
  running : τ.running = σ.running
  record : τ.record = σ.record
  others : ∀ t, t ≠ σ.running → Set.EqOn τ.core.mem σ.core.mem (layout.stack t ∪ span (σ.record t).slot 4)

/-- The running thread calls `swtch(&old, new)`, where `new` is the stored context pointer of `next`. -/
structure Switches [DecidableEq T] (layout : Stacks T) (next : T) (old : Addr) (σ τ : System T) : Prop where
  other : next ≠ σ.running
  arguments : Holds σ.core.mem (σ.core.reg .esp) [σ.core.top, old, read32 σ.core.mem (σ.record next).slot]
  room : span (σ.core.reg .esp - 16#32) 20 ⊆ layout.stack σ.running
  slot : ∀ u, Disjoint (span old 4) (layout.stack u)
  fresh : ∀ t, t ≠ σ.running → t ≠ next → Disjoint (span old 4) (span (σ.record t).slot 4)
  after : τ = ⟨swtch σ.core, next,
    Function.update σ.record σ.running ⟨old, callerContext σ.core, σ.core.reg .esp + 4#32⟩⟩

def Step [DecidableEq T] (layout : Stacks T) (σ τ : System T) : Prop := Works layout σ τ ∨ ∃ next old, Switches layout next old σ τ

/-- The thread goes on where its record says. -/
structure Resumed (record : Record) (m : Core) : Prop where
  eip : m.eip = record.context .eip
  edi : m.reg .edi = record.context .edi
  esi : m.reg .esi = record.context .esi
  ebx : m.reg .ebx = record.context .ebx
  ebp : m.reg .ebp = record.context .ebp
  esp : m.reg .esp = record.esp

theorem Parked.congr {stack : Set Addr} {m m' : Mem} {record : Record} (parked : Parked stack m record)
    (same : Set.EqOn m' m (stack ∪ span record.slot 4)) : Parked stack m' record := by
  refine ⟨?_, parked.inside, ?_⟩
  · rw [← parked.pointer]
    exact read32_congr (same.mono Set.subset_union_right)
  · apply holds_congr _ (by simp [ContextField.all]) parked.words
    exact same.mono (parked.inside.trans Set.subset_union_left)

theorem Works.threads (threads : Threads layout σ) (works : Works layout σ τ) : Threads layout τ := by
  refine ⟨?_, ?_, ?_⟩
  · intro t other
    rw [works.running] at other
    rw [works.record]
    exact (threads.parked t other).congr (works.others t other)
  · rw [works.running, works.record]
    exact threads.slots
  · rw [works.running, works.record]
    exact threads.distinct

variable [DecidableEq T]

/-- `swtch` writes below the caller's stack pointer and into `*old`. -/
theorem Switches.memory {next : T} {old : Addr} (switches : Switches layout next old σ τ) {area : Set Addr}
    (stack : Disjoint (layout.stack σ.running) area) (slot : Disjoint (span old 4) area) :
    Set.EqOn (saved σ.core old) σ.core.mem area := by
  apply (saved_outside σ.core old).mono
  have pushed : span (σ.core.reg .esp - 16#32) 16 ⊆ layout.stack σ.running :=
    (span_mono _ 16 20 (by decide)).trans switches.room
  rw [Set.subset_compl_iff_disjoint_left, Set.disjoint_union_left]
  exact ⟨stack.mono_left pushed, slot⟩

theorem Switches.core {next : T} {old : Addr} (threads : Threads layout σ) (switches : Switches layout next old σ τ) :
    τ.core.mem = saved σ.core old ∧ Resumed (σ.record next) τ.core := by
  have parked := threads.parked next switches.other
  have arguments := switches.arguments
  rw [parked.pointer] at arguments
  have kept : Set.EqOn (saved σ.core old) σ.core.mem (layout.stack next) :=
    switches.memory (layout.apart _ _ switches.other.symm) (switches.slot next)
  have words : Holds (saved σ.core old) ((σ.record next).esp - BitVec.ofNat 32 contextSize)
      (ContextField.all.map (σ.record next).context) := by
    apply holds_congr _ (by simp [ContextField.all]) parked.words
    exact kept.mono parked.inside
  have ran := run_swtch σ.core arguments words
  have top : (σ.record next).esp - BitVec.ofNat 32 contextSize + 20#32 = (σ.record next).esp := by
    simp only [contextSize]
    bv_omega
  rw [switches.after, ran]
  exact ⟨rfl, ⟨rfl, rfl, rfl, rfl, rfl, by simpa [loaded] using top⟩⟩

/-- The caller is parked now. -/
theorem Switches.caller {next : T} {old : Addr} (switches : Switches layout next old σ τ) :
    Parked (layout.stack σ.running) (saved σ.core old) ⟨old, callerContext σ.core, σ.core.reg .esp + 4#32⟩ := by
  have place : σ.core.reg .esp + 4#32 - BitVec.ofNat 32 contextSize = σ.core.reg .esp - 16#32 := by
    simp only [contextSize]
    bv_omega
  refine ⟨?_, ?_, ?_⟩
  · rw [place]
    exact saved_slot σ.core old
  · rw [place]
    exact switches.room
  · rw [place]
    exact saved_context σ.core old ((switches.slot σ.running).symm.mono_left switches.room)

theorem Switches.threads {next : T} {old : Addr} (threads : Threads layout σ) (switches : Switches layout next old σ τ) :
    Threads layout τ := by
  obtain ⟨mem, -⟩ := switches.core threads
  have record : τ.record = Function.update σ.record σ.running ⟨old, callerContext σ.core, σ.core.reg .esp + 4#32⟩ := by
    rw [switches.after]
  have running : τ.running = next := by rw [switches.after]
  refine ⟨?_, ?_, ?_⟩
  · intro t waiting
    rw [running] at waiting
    rw [mem, record]
    by_cases caller : t = σ.running
    · rw [caller, Function.update_self]
      exact switches.caller
    · rw [Function.update_of_ne caller]
      apply (threads.parked t caller).congr
      apply switches.memory
      · rw [Set.disjoint_union_right]
        exact ⟨layout.apart _ _ (Ne.symm caller), (threads.slots t caller σ.running).symm⟩
      · rw [Set.disjoint_union_right]
        exact ⟨switches.slot t, switches.fresh t caller waiting⟩
  · intro t waiting u
    rw [record]
    by_cases caller : t = σ.running
    · rw [caller, Function.update_self]
      exact switches.slot u
    · rw [Function.update_of_ne caller]
      exact threads.slots t caller u
  · intro t u waitingT waitingU ne
    rw [running] at waitingT waitingU
    rw [record]
    by_cases callerT : t = σ.running
    · have callerU : u ≠ σ.running := fun same => ne (callerT.trans same.symm)
      rw [callerT, Function.update_self, Function.update_of_ne callerU]
      exact switches.fresh u callerU waitingU
    · by_cases callerU : u = σ.running
      · rw [callerU, Function.update_self, Function.update_of_ne callerT]
        exact (switches.fresh t callerT waitingT).symm
      · rw [Function.update_of_ne callerT, Function.update_of_ne callerU]
        exact threads.distinct t u callerT callerU ne

theorem step_threads (threads : Threads layout σ) (step : Step layout σ τ) : Threads layout τ := by
  rcases step with works | ⟨next, old, switches⟩
  · exact works.threads threads
  · exact switches.threads threads

theorem run_threads (run : Reachable (Threads layout) (Step layout) σ) : Threads layout σ := by
  refine Reachable.invariant (fun σ first => ?_) (fun σ τ threads step => ?_) run
  · exact first
  · exact step_threads threads step

/-- Steps after which the thread is still not running. -/
def Away (layout : Stacks T) (t : T) (σ τ : System T) : Prop :=
  Relation.ReflTransGen (fun before after => Step layout before after ∧ after.running ≠ t) σ τ

theorem away_record (waiting : σ.running ≠ t) (away : Away layout t σ τ) :
    τ.running ≠ t ∧ τ.record t = σ.record t := by
  induction away with
  | refl => exact ⟨waiting, rfl⟩
  | tail _ last ih =>
    obtain ⟨step, still⟩ := last
    refine ⟨still, ?_⟩
    rw [← ih.2]
    rcases step with works | ⟨next, old, switches⟩
    · rw [works.record]
    · rw [switches.after]
      exact Function.update_of_ne (Ne.symm ih.1) ..

theorem away_reachable (run : Reachable (Threads layout) (Step layout) σ) (away : Away layout t σ τ) :
    Reachable (Threads layout) (Step layout) τ := by
  induction away with
  | refl => exact run
  | tail _ last ih => exact .next ih last.1

/-- Two threads, the second one suspended. -/
def twoStacks : Stacks Bool where
  stack := fun t => if t then span 0x2000#32 4096 else span 0x1000#32 4096
  apart := by
    have disjoint := span_disjoint 0x1000#32 0x2000#32 4096 4096 (by decide) (by decide)
    intro t u ne
    cases t <;> cases u <;> first | exact absurd rfl ne | exact disjoint | exact disjoint.symm

def secondContext : Context := fun field => BitVec.ofNat 32 (100 + field.ctorIdx)

def twoThreads : System Bool where
  core := {
    reg := fun r => if r = .esp then 0x1800#32 else 7#32
    seg := fun _ => 0x10#16
    eip := 0#32
    eflags := 2#32
    mem := writeWords (writeWords (writeWords (fun _ => 0#8) 0x1800#32 [0x111#32, 0x3000#32, 0x2800#32])
      0x2800#32 (ContextField.all.map secondContext)) 0x3004#32 [0x2800#32]
    gdt := fun _ => none
    reads := [] }
  running := false
  record := fun _ => ⟨0x3004#32, secondContext, 0x2814#32⟩

def twoSwitched : System Bool :=
  ⟨swtch twoThreads.core, true, Function.update twoThreads.record false
    ⟨0x3000#32, callerContext twoThreads.core, 0x1804#32⟩⟩

/-- The second thread calls `swtch` in turn. -/
def twoWorked : System Bool :=
  { twoSwitched with
    core := { twoSwitched.core with
      reg := Function.update twoSwitched.core.reg .esp 0x2700#32
      mem := writeWords twoSwitched.core.mem 0x2700#32 [0x222#32, 0x3004#32, 0x17f0#32] } }

def twoBack : System Bool :=
  ⟨swtch twoWorked.core, false, Function.update twoWorked.record true
    ⟨0x3004#32, callerContext twoWorked.core, 0x2704#32⟩⟩

theorem twoThreads_start : Threads twoStacks twoThreads := by
  have slot : ∀ u, Disjoint (span 0x3004#32 4) (twoStacks.stack u) := by
    intro u
    cases u
    · exact (span_disjoint 0x1000#32 0x3004#32 4096 4 (by decide) (by decide)).symm
    · exact (span_disjoint 0x2000#32 0x3004#32 4096 4 (by decide) (by decide)).symm
  refine ⟨?_, ?_, ?_⟩
  · intro t other
    cases t
    · exact absurd rfl other
    · refine ⟨by decide +kernel, span_subset 0x2000#32 0x2800#32 4096 20 (by decide), ?_⟩
      apply (holds_context _ _ _).mpr
      intro field
      cases field <;> decide +kernel
  · intro t _
    exact slot
  · intro t u otherT otherU ne
    cases t <;> cases u <;> first | exact absurd rfl ne | exact absurd rfl otherT | exact absurd rfl otherU

theorem twoThreads_switch : Switches twoStacks true 0x3000#32 twoThreads twoSwitched := by
  refine ⟨by decide, ⟨rfl, by decide +kernel, by decide +kernel, trivial⟩,
    span_subset 0x1000#32 0x17f0#32 4096 20 (by decide), ?_, ?_, rfl⟩
  · intro u
    cases u
    · exact (span_disjoint 0x1000#32 0x3000#32 4096 4 (by decide) (by decide)).symm
    · exact (span_disjoint 0x2000#32 0x3000#32 4096 4 (by decide) (by decide)).symm
  · intro t caller waiting
    cases t
    · exact absurd rfl caller
    · exact absurd rfl waiting

theorem twoThreads_work : Works twoStacks twoSwitched twoWorked := by
  refine ⟨rfl, rfl, ?_⟩
  intro t waiting
  cases t
  · apply (writeWords_outside _ _ _ (by simp)).mono
    rw [Set.subset_compl_iff_disjoint_left, Set.disjoint_union_right]
    exact ⟨(span_disjoint 0x1000#32 0x2700#32 4096 12 (by decide) (by decide)).symm,
      span_disjoint 0x2700#32 0x3000#32 12 4 (by decide) (by decide)⟩
  · exact absurd rfl waiting

theorem twoThreads_back : Switches twoStacks false 0x3004#32 twoWorked twoBack := by
  refine ⟨by decide, ⟨rfl, by decide +kernel, by decide +kernel, trivial⟩,
    span_subset 0x2000#32 0x26f0#32 4096 20 (by decide), ?_, ?_, rfl⟩
  · intro u
    cases u
    · exact (span_disjoint 0x1000#32 0x3004#32 4096 4 (by decide) (by decide)).symm
    · exact (span_disjoint 0x2000#32 0x3004#32 4096 4 (by decide) (by decide)).symm
  · intro t caller waiting
    cases t
    · exact absurd rfl waiting
    · exact absurd rfl caller

theorem swtch_coroutines {T : Type} [DecidableEq T] (layout : Stacks T) {σ : System T}
    (run : Reachable (Threads layout) (Step layout) σ) :
    (∀ t, t ≠ σ.running → ∀ field : ContextField,
      field.read σ.core.mem (read32 σ.core.mem (σ.record t).slot) = (σ.record t).context field) ∧
    (∀ next old τ, Switches layout next old σ τ → Resumed (σ.record next) τ.core) ∧
    (∀ next old τ, Switches layout next old σ τ → ∀ υ, Away layout σ.running τ υ →
      ∀ old' ω, Switches layout σ.running old' υ ω →
        ω.core.eip = σ.core.top ∧ ω.core.reg .edi = σ.core.reg .edi ∧ ω.core.reg .esi = σ.core.reg .esi ∧
        ω.core.reg .ebx = σ.core.reg .ebx ∧ ω.core.reg .ebp = σ.core.reg .ebp ∧
        ω.core.reg .esp = σ.core.reg .esp + 4#32) := by
  have threads := run_threads run
  refine ⟨?_, ?_, ?_⟩
  · intro t waiting
    have parked := threads.parked t waiting
    rw [parked.pointer]
    exact (holds_context _ _ _).mp parked.words
  · intro next old τ switches
    exact (switches.core threads).2
  · intro next old τ switches υ away old' ω back
    have left : τ.running ≠ σ.running := by
      rw [switches.after]
      exact switches.other
    have later := run_threads (away_reachable (.next run (.inr ⟨next, old, switches⟩)) away)
    have resumed := (back.core later).2
    rw [(away_record left away).2, switches.after] at resumed
    simp only [Function.update_self] at resumed
    exact ⟨resumed.eip, resumed.edi, resumed.esi, resumed.ebx, resumed.ebp, resumed.esp⟩

theorem swtch_coroutines_two_threads :
    Threads twoStacks twoThreads ∧ Resumed (twoThreads.record true) twoSwitched.core ∧
      twoBack.core.eip = twoThreads.core.top ∧ twoBack.core.reg .esp = twoThreads.core.reg .esp + 4#32 := by
  have away : Away twoStacks false twoSwitched twoWorked := .tail .refl ⟨.inl twoThreads_work, by decide⟩
  obtain ⟨-, resumed, returned⟩ := swtch_coroutines twoStacks (.start twoThreads_start)
  obtain ⟨eip, -, -, -, -, esp⟩ := returned true _ _ twoThreads_switch _ away _ _ twoThreads_back
  exact ⟨twoThreads_start, resumed true _ _ twoThreads_switch, eip, esp⟩

end OsDev.Kernel.Coroutines
