import OsDev.Machine.Program

/-! What no run of a transition system can avoid, and how often something happens on the way. -/

namespace OsDev.Machine.Liveness
open OsDev.Machine.Program

section Runs
variable {σ : Type} {step : σ → σ → Prop} {goal last : σ → Prop} {s t : σ}

/-- Whatever steps are taken, the goal comes: until then there is always a step. -/
inductive Inevitable (step : σ → σ → Prop) (goal : σ → Prop) : σ → Prop where
  | here {s : σ} (reached : goal s) : Inevitable step goal s
  | next {s : σ} (moves : ∃ t, step s t) (later : ∀ t, step s t → Inevitable step goal t) : Inevitable step goal s

theorem Inevitable.trans (first : Inevitable step goal s) (rest : ∀ t, goal t → Inevitable step last t) :
    Inevitable step last s := by
  induction first with
  | here reached => exact rest _ reached
  | next moves _ ih => exact .next moves ih

theorem Inevitable.mono (first : Inevitable step goal s) (weaker : ∀ t, goal t → last t) : Inevitable step last s :=
  first.trans fun t reached => .here (weaker t reached)

/-- There is one step, and the goal comes after it. -/
theorem inevitable_of_only (moves : step s t) (only : ∀ u, step s u → u = t) (rest : Inevitable step goal t) :
    Inevitable step goal s :=
  .next ⟨t, moves⟩ fun u other => only u other ▸ rest

/-- Some run gets to what none can avoid. -/
theorem Inevitable.reachable {initial : σ → Prop} (future : Inevitable step goal s) (run : Reachable initial step s) :
    ∃ t, Reachable initial step t ∧ goal t := by
  induction future with
  | here reached => exact ⟨_, run, reached⟩
  | next moves _ ih =>
    obtain ⟨t, moved⟩ := moves
    exact ih t moved (.next run moved)

/-- A run, with the number of its marked steps. -/
inductive Counted (step marked : σ → σ → Prop) : Nat → σ → σ → Prop where
  | empty (s : σ) : Counted step marked 0 s s
  | plain {n : Nat} {s t u : σ} (run : Counted step marked n s t) (moved : step t u) (other : ¬ marked t u) :
      Counted step marked n s u
  | mark {n : Nat} {s t u : σ} (run : Counted step marked n s t) (moved : step t u) (counts : marked t u) :
      Counted step marked (n + 1) s u

section Counting
variable {marked : σ → σ → Prop} {P waits : σ → Prop} {n : Nat}

theorem Counted.invariant (kept : ∀ s t, P s → step s t → P t) (run : Counted step marked n s t) (start : P s) : P t := by
  induction run with
  | empty => exact start
  | plain _ moved _ ih | mark _ moved _ ih => exact kept _ _ (ih start) moved

/-- While something waits, each marked step costs some of a potential that no step gives back. -/
theorem Counted.bounded {potential : σ → Nat} (kept : ∀ s t, P s → step s t → P t)
    (before : ∀ s t, P s → step s t → waits t → waits s)
    (falls : ∀ s t, P s → waits s → step s t → potential t ≤ potential s)
    (paid : ∀ s t, P s → waits s → step s t → marked s t → potential t < potential s)
    (run : Counted step marked n s t) (start : P s) (waiting : waits t) : n + potential t ≤ potential s := by
  induction run with
  | empty => omega
  | plain run moved _ ih =>
    have holds := run.invariant kept start
    have earlier := before _ _ holds moved waiting
    have spent := falls _ _ holds earlier moved
    have total := ih start earlier
    omega
  | mark run moved counts ih =>
    have holds := run.invariant kept start
    have earlier := before _ _ holds moved waiting
    have spent := paid _ _ holds earlier moved counts
    have total := ih start earlier
    omega

end Counting

end Runs

end OsDev.Machine.Liveness
