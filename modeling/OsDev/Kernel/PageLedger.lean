import Mathlib.Data.Fintype.Option
import OsDev.Kernel.Isolation

/-! The pages of the kernel heap over whole runs: each is free or has one owner, and
none is lost, as long as `inituvm` finds the two pages it takes. -/

namespace OsDev.Kernel.PageLedger
open OsDev.Machine.Memory OsDev.Machine.Program OsDev.Machine.LinkedChain OsDev.Machine.Ownership
open OsDev.Kernel.State OsDev.Kernel.Kalloc OsDev.Kernel.Proc OsDev.Kernel.Scheduler OsDev.Kernel.Holdings OsDev.Kernel.Newborn
  OsDev.Kernel.Isolation
open OsDev.Kernel.Console (preserves_onCpu)
open OsDev.Kernel.SchedulerRuns (Creating step_kept takeKstack_yields)

/-- A slot to which nothing has been given. -/
def Bare (entry : Process) : Prop := entry.kstack = 0#32 ∧ entry.pgdir = 0#32

/-- What the slot under creation has not got yet. -/
def Unfilled (s : KernelState) : Creation → Prop
  | .claim p | .number p | .unlock p | .stack p | .giveUp p => Bare (s.ptable p)
  | .layout p | .directory p => (s.ptable p).pgdir = 0#32
  | .lock | .scan | .noSlot | .full | .noStack | .image _ | .frame _ | .publish _ | .runnable _ | .finish => True

structure Books (σ : System) : Prop where
  bare : ∀ q, ¬ Made (σ.kernel.ptable q) → (∀ c, creation σ = some c → slotOf c ≠ some q) → Bare (σ.kernel.ptable q)
  unfilled : ∀ c, creation σ = some c → Unfilled σ.kernel c

section Pieces
variable {image : Image} {s t : KernelState} {procs : Slot → ProcPoint} {c : Creation} {next : Option Creation}

theorem bare_congr (same : view t = view s) {p : Slot} (bare : Bare (s.ptable p)) : Bare (t.ptable p) := by
  obtain ⟨-, -, -, -, -, -, -, -, -, slots⟩ := view_eq same
  exact ⟨(slots p).1.trans bare.1, (slots p).2.trans bare.2⟩

/-- What a piece of process creation leaves in its slot. -/
structure Filled (c : Creation) (next : Option Creation) (t : KernelState) : Prop where
  unfilled : ∀ c', next = some c' → Unfilled t c'
  left : ∀ p, slotOf c = some p → (∀ c', next = some c' → slotOf c' ≠ some p) → Made (t.ptable p) ∨ Bare (t.ptable p)

/-- The next piece is about the same slot. -/
theorem filled_same {c' : Creation} (same : slotOf c' = slotOf c) (unfilled : Unfilled t c') : Filled c (some c') t := by
  refine ⟨fun d found => ?_, fun p here other => absurd (same.trans here) (other c' rfl)⟩
  cases found
  exact unfilled

theorem create_filled (creating : Creating s procs c) (ran : (createCode image c).run s = .ok next t) (unfilled : Unfilled s c)
    (vacant : c = .scan → ∀ p, findUnused s = some p → Bare (s.ptable p)) : Filled c next t := by
  have lock := creating.lock
  cases c with
  | lock | noSlot | publish p =>
    obtain ⟨-, -, rfl⟩ := unnoticed (preserves_onCpu unprinted_view _) ran
    exact filled_same rfl trivial
  | unlock p =>
    obtain ⟨same, -, rfl⟩ := unnoticed (preserves_onCpu unprinted_view _) ran
    exact filled_same rfl (bare_congr same unfilled)
  | finish =>
    obtain ⟨-, -, rfl⟩ := unnoticed (preserves_onCpu unprinted_view _) ran
    refine ⟨fun c' found => ?_, fun p here => ?_⟩
    · cases found
    · cases here
  | claim p =>
    obtain ⟨same, -, rfl⟩ := unnoticed (seen (preserves_setState _ _)) ran
    exact filled_same rfl (bare_congr same unfilled)
  | number p =>
    obtain ⟨same, -, rfl⟩ := unnoticed (seen (preserves_takePid _)) ran
    exact filled_same rfl (bare_congr same unfilled)
  | giveUp p =>
    obtain ⟨same, -, rfl⟩ := unnoticed (seen (preserves_setState _ _)) ran
    refine ⟨fun c' found => by cases found; trivial, fun q here _ => ?_⟩
    cases here
    exact .inr (bare_congr same unfilled)
  | runnable p =>
    rw [createCode, run_bind_ok (run_setState _ _ s)] at ran
    cases ran
    refine ⟨fun c' found => by cases found; trivial, fun q here _ => ?_⟩
    cases here
    exact .inl (by simp [Made])
  | scan =>
    rw [createCode, run_bind_ok (EStateM.run_get s)] at ran
    cases found : findUnused s with
    | none =>
      rw [found] at ran
      cases ran
      exact filled_same rfl trivial
    | some p =>
      rw [found] at ran
      cases ran
      refine ⟨fun c' next => ?_, fun q here => by cases here⟩
      cases next
      exact vacant rfl p found
  | full | noStack =>
    obtain ⟨-, u, -, rest⟩ := run_bind_eq_ok ran
    obtain ⟨_, v, failed, -⟩ := run_bind_eq_ok rest
    exact absurd failed Console.assertFail_ne_ok
  | stack p =>
    obtain ⟨k, u, taken, rest⟩ := run_bind_eq_ok ran
    obtain ⟨m, cpu, f, -, same⟩ := (takeKstack_yields lock.toQuiet p).returned taken
    have entry : u.ptable p = { s.ptable p with kstack := k } := by simp [same]
    rw [run_ite] at rest
    split at rest
    next zero =>
      cases rest
      refine filled_same rfl ?_
      rw [Unfilled, entry]
      exact ⟨zero, unfilled.2⟩
    next =>
      cases rest
      refine filled_same rfl ?_
      rw [Unfilled, entry]
      exact unfilled.2
  | layout p =>
    obtain ⟨_, u, laid, rest⟩ := run_bind_eq_ok ran
    rw [run_layoutKstack] at laid
    cases laid
    cases rest
    refine filled_same rfl ?_
    simpa [Unfilled] using unfilled
  | directory p | image p | frame p =>
    obtain ⟨_, u, -, rest⟩ := run_bind_eq_ok ran
    cases rest
    exact filled_same rfl trivial

end Pieces

def AmpleStep (image : Image) (σ τ : System) : Prop := TameStep image σ τ ∧ Ample σ

section Steps
variable {image : Image} {σ τ : System} {free : List Addr}

/-- Slots outside the creation in progress keep their stack and their directory. -/
theorem Moved.bare {s t : KernelState} {i : Owner} {free' : List Addr} (moved : Moved i s t free free') {q : Slot}
    (other : i ≠ some q) (bare : Bare (s.ptable q)) : Bare (t.ptable q) := by
  have stack := moved.kstacks (some q) other.symm
  have root := moved.roots (some q) other.symm
  refine ⟨?_, root.trans bare.2⟩
  by_contra real
  simp only [stackPages, if_pos bare.1, if_neg real] at stack
  cases stack

theorem Books.step (books : Books σ) (held : Held image σ) (taken : TameStep image σ τ) : Books τ := by
  obtain ⟨step, tame⟩ := taken
  obtain ⟨free, spaces⟩ := held.spaces
  obtain ⟨free', progressed⟩ := step_progressed held step tame spaces
  have before {q : Slot} (unmade : ¬ Made (τ.kernel.ptable q)) : ¬ Made (σ.kernel.ptable q) :=
    fun made => unmade (made_kept ((step_kept image held.inv step).moves q) made).1
  cases step_change step held.inv with
  | created c here ran =>
    have vacant (scan : c = .scan) (p : Slot) (found : findUnused σ.kernel = some p) : Bare (σ.kernel.ptable p) := by
      subst scan
      refine books.bare p (fun made => made.1 (findUnused_unused found)) fun c' there => ?_
      cases here.symm.trans there
      exact (Option.some_ne_none p).symm
    have filled := create_filled (held.creating here) ran (books.unfilled c here) vacant
    refine ⟨fun q unmade elsewhere => ?_, filled.unfilled⟩
    by_cases mine : slotOf c = some q
    · exact (filled.left q mine elsewhere).resolve_left unmade
    · have same : actor σ = slotOf c := by rw [actor, here]; rfl
      refine Moved.bare progressed.moved (by rw [same]; exact mine) (books.bare q (before unmade) fun c' there => ?_)
      cases here.symm.trans there
      exact mine
  | halted kernel next =>
    refine ⟨fun q unmade elsewhere => ?_, fun c there => ?_⟩
    · rw [kernel] at unmade ⊢
      exact books.bare q unmade (next ▸ elsewhere)
    · rw [kernel]
      exact books.unfilled c (next ▸ there)
  | unseen same _ idle next =>
    refine ⟨fun q unmade _ => ?_, fun c there => ?_⟩
    · refine bare_congr same (books.bare q (before unmade) fun c there => ?_)
      cases idle.symm.trans there
    · rcases next with next | next
      · cases next.symm.trans there
      · cases next.symm.trans there
        trivial
  | worked q m chars turn here kernel plain =>
    obtain ⟨-, idle⟩ := held.at_work turn here
    refine ⟨fun q unmade _ => ?_, fun c there => ?_⟩
    · rw [kernel] at unmade ⊢
      refine books.bare q unmade fun c there => ?_
      cases idle.symm.trans there
    · cases plain.symm.trans there

/-- No piece of process creation overwrites what the slot has. -/
theorem Books.thrifty (books : Books σ) (ample : Ample σ) (spaces : Spaces σ.kernel free) (c : Creation)
    (here : creation σ = some c) : Thrifty σ.kernel free c := by
  have unfilled := books.unfilled c here
  cases c with
  | stack p => exact unfilled.1
  | directory p => exact unfilled
  | image p =>
    obtain ⟨page, more, rest, chain⟩ := ample p here
    have same := chain_unique chain (spaces.heap idle idle_quiet).chain
    rw [Thrifty, ← same]
    exact Nat.le_add_left 2 rest.length
  | _ => trivial

theorem Ready.books (ready : Ready image σ) : Books σ where
  bare q _ _ := by
    rw [ready.unused]
    exact ⟨rfl, rfl⟩
  unfilled c there := by
    simp only [creation, ready.running, ready.main, mainCreation] at there
    cases there

/-- All pages are where they were, or in other hands. -/
structure Balanced (image : Image) (total : Multiset Addr) (σ : System) : Prop where
  held : Held image σ
  books : Books σ
  total : ∃ free, Spaces σ.kernel free ∧ stock (holdings σ.kernel) free = total

theorem Balanced.step {total : Multiset Addr} (balanced : Balanced image total σ) (taken : AmpleStep image σ τ) :
    Balanced image total τ := by
  obtain ⟨⟨step, tame⟩, ample⟩ := taken
  obtain ⟨held, books, free, spaces, all⟩ := balanced
  obtain ⟨free', progressed⟩ := step_progressed held step tame spaces
  have whole := progressed.whole (books.thrifty ample spaces)
  refine ⟨held.step step tame, books.step held ⟨step, tame⟩, free', progressed.moved.spaces spaces, ?_⟩
  rw [← all]
  exact stock_move (fun j => progressed.moved.holdings_eq spaces) whole

theorem run_balanced {total : Multiset Addr} {first : System} (start : Balanced image total first)
    (run : Reachable (· = first) (AmpleStep image) σ) : Balanced image total σ := by
  refine Reachable.invariant (fun υ same => ?_) (fun _ _ balanced taken => balanced.step taken) run
  rw [same]
  exact start

end Steps

theorem pages_conserved (image : Image) (first σ : System) (ready : Ready image first)
    (run : Reachable (· = first) (AmpleStep image) σ) : ∃ initially free,
      Chain (read32 first.kernel.mem) first.kernel.KMEM_SENTINEL first.kernel.freelist initially ∧
      Chain (read32 σ.kernel.mem) σ.kernel.KMEM_SENTINEL σ.kernel.freelist free ∧
      Divided (holdings σ.kernel) free ∧ stock (holdings σ.kernel) free = stock (holdings first.kernel) initially := by
  obtain ⟨initially, spaces⟩ := ready.spaces
  have start : Balanced image (stock (holdings first.kernel) initially) first :=
    ⟨ready.held, Ready.books ready, initially, spaces, rfl⟩
  obtain ⟨free, after, total⟩ := (run_balanced start run).total
  exact ⟨initially, free, (spaces.heap idle idle_quiet).chain, (after.heap idle idle_quiet).chain, after.divided, total⟩

/-- What a slot that nothing was given to holds. -/
theorem holdings_bare {s : KernelState} {q : Slot} (bare : Bare (s.ptable q)) : holdings s (some q) = [] := by
  simp only [holdings, stackPages, walkPages, framePages, root, bare.1, bare.2, if_true, List.append_nil]

theorem pages_conserved_process : ∃ (first σ : System) (q : Slot) (initially free : List Addr),
    holdings first.kernel (some q) = [] ∧ holdings σ.kernel (some q) ≠ [] ∧
      stock (holdings σ.kernel) free = stock (holdings first.kernel) initially := by
  obtain ⟨s, t, _, _, q, k, d, -, ready, -, -, pieces, born, -⟩ := small_born
  have begun : Reachable (· = ⟨s, none, .boot, fun _ => .absent, none⟩) (AmpleStep smallUser)
      ⟨s, none, .boot, fun _ => .absent, none⟩ := .start rfl
  obtain ⟨procs, run⟩ := create_reachable (fun _ _ step ample => ⟨step, ample⟩) begun rfl rfl rfl pieces
  obtain ⟨initially, free, -, -, -, total⟩ := pages_conserved smallUser _ _ ready run
  refine ⟨_, _, q, initially, free, ?_, ?_, total⟩
  · refine holdings_bare ?_
    rw [ready.unused]
    exact ⟨rfl, rfl⟩
  · have member : d ∈ holdings t (some q) := walkPages_subset _ (by simp [walkPages, root, born.entry, born.mapped])
    exact List.ne_nil_of_mem member

end OsDev.Kernel.PageLedger
