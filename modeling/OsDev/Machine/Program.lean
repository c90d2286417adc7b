import Mathlib.Tactic.Common

/-! Stateful code that may stop for good, and runs of a transition system. A
stopped run keeps the state it stopped in, so that what a failing call leaves
behind can be stated. -/

namespace OsDev.Machine.Program

/-- Why a run does not come back to its caller. -/
inductive Stop where
  | panic (message : String)
  | spin
  deriving DecidableEq, Repr

abbrev Prog (σ : Type) := EStateM Stop σ

variable {σ τ α β : Type}

def kpanic (message : String) : Prog σ α := throw (.panic message)

/-- Run a program that only knows a part of the state. -/
def zoom (view : σ → τ) (put : τ → σ → σ) (part : Prog τ α) : Prog σ α := fun s =>
  match part.run (view s) with
  | .ok a t => .ok a (put t s)
  | .error e t => .error e (put t s)

@[simp] theorem run_kpanic (message : String) (s : σ) :
    EStateM.run (kpanic message : Prog σ α) s = .error (.panic message) s := rfl

@[simp] theorem run_ite (c : Prop) [Decidable c] (first second : Prog σ α) (s : σ) :
    EStateM.run (if c then first else second) s = if c then first.run s else second.run s := by
  split <;> rfl

@[simp] theorem run_map (f : α → β) (first : Prog σ α) (s : σ) :
    (f <$> first).run s = match first.run s with
      | .ok a t => .ok (f a) t
      | .error e t => .error e t := by
  simp only [EStateM.run, Functor.map, EStateM.map]
  cases first s <;> rfl

theorem run_bind_ok {first : Prog σ α} {next : α → Prog σ β} {s t : σ} {a : α} (ran : first.run s = .ok a t) :
    (first >>= next).run s = (next a).run t := by
  simp only [EStateM.run_bind, ran]

theorem run_bind_error {first : Prog σ α} {next : α → Prog σ β} {s t : σ} {e : Stop}
    (ran : first.run s = .error e t) : (first >>= next).run s = .error e t := by
  simp only [EStateM.run_bind, ran]

/-- A sequence returns only when both halves do. -/
theorem run_bind_eq_ok {first : Prog σ α} {next : α → Prog σ β} {s u : σ} {b : β}
    (ran : (first >>= next).run s = .ok b u) : ∃ a t, first.run s = .ok a t ∧ (next a).run t = .ok b u := by
  cases outcome : first.run s with
  | ok a t => exact ⟨a, t, rfl, by rw [run_bind_ok outcome] at ran; exact ran⟩
  | error e t => rw [run_bind_error outcome] at ran; cases ran

theorem run_zoom_ok {view : σ → τ} {put : τ → σ → σ} {part : Prog τ α} {s : σ} {t : τ} {a : α}
    (ran : part.run (view s) = .ok a t) : (zoom view put part).run s = .ok a (put t s) := by
  simp only [zoom, EStateM.run] at ran ⊢
  simp only [ran]

theorem run_zoom_error {view : σ → τ} {put : τ → σ → σ} {part : Prog τ α} {s : σ} {t : τ} {e : Stop}
    (ran : part.run (view s) = .error e t) : (zoom view put part).run s = .error e (put t s) := by
  simp only [zoom, EStateM.run] at ran ⊢
  simp only [ran]

/-- The code returns with the postcondition, or stops for an allowed reason. -/
def Yields (allowed : Stop → Prop) (code : Prog σ α) (post : α → σ → Prop) (s : σ) : Prop :=
  match code.run s with
  | .ok a t => post a t
  | .error e _ => allowed e

section Yields
variable {allowed : Stop → Prop} {code : Prog σ α} {post : α → σ → Prop} {s t : σ} {a : α}

theorem yields_ok (ran : code.run s = .ok a t) (holds : post a t) : Yields allowed code post s := by
  simp only [Yields, ran]
  exact holds

theorem yields_error {e : Stop} (ran : code.run s = .error e t) (known : allowed e) : Yields allowed code post s := by
  simp only [Yields, ran]
  exact known

theorem yields_pure (holds : post a s) : Yields allowed (pure a) post s := holds

theorem yields_kpanic {message : String} (known : allowed (.panic message)) :
    Yields allowed (kpanic message : Prog σ α) post s := known

theorem Yields.bind {next : α → Prog σ β} {last : β → σ → Prop} (first : Yields allowed code post s)
    (rest : ∀ a t, post a t → Yields allowed (next a) last t) : Yields allowed (code >>= next) last s := by
  unfold Yields at first ⊢
  cases outcome : code.run s with
  | ok a t =>
    rw [outcome] at first
    rw [run_bind_ok outcome]
    exact rest a t first
  | error e t =>
    rw [outcome] at first
    rw [run_bind_error outcome]
    exact first

/-- Peel off a first part that is known to return. -/
theorem yields_bind_ok {next : α → Prog σ β} {last : β → σ → Prop} (ran : code.run s = .ok a t)
    (rest : Yields allowed (next a) last t) : Yields allowed (code >>= next) last s := by
  unfold Yields at rest ⊢
  rw [run_bind_ok ran]
  exact rest

theorem Yields.returned (yields : Yields allowed code post s) (ran : code.run s = .ok a t) : post a t := by
  simpa only [Yields, ran] using yields

theorem Yields.stopped {e : Stop} (yields : Yields allowed code post s) (ran : code.run s = .error e t) :
    allowed e := by
  simpa only [Yields, ran] using yields

end Yields

/-- From related states the code does the same: it returns the same value in related
states, or stops in both for the same reason. -/
def Agrees (stopped before : σ → σ → Prop) (code : Prog σ α) (after : α → σ → σ → Prop) : Prop :=
  ∀ s t, before s t →
    (∃ a s' t', code.run s = .ok a s' ∧ code.run t = .ok a t' ∧ after a s' t') ∨
    (∃ e s' t', code.run s = .error e s' ∧ code.run t = .error e t' ∧ stopped s' t')

section Agrees
variable {stopped before : σ → σ → Prop} {code : Prog σ α} {after : α → σ → σ → Prop}

/-- Code that returns what it finds in a part on which related states agree. -/
theorem agrees_ok {value : σ → α} {change : σ → σ}
    (ran : ∀ s t, before s t → code.run s = .ok (value s) (change s) ∧ code.run t = .ok (value t) (change t))
    (same : ∀ s t, before s t → value t = value s)
    (kept : ∀ s t, before s t → after (value s) (change s) (change t)) : Agrees stopped before code after := by
  intro s t related
  obtain ⟨ranS, ranT⟩ := ran s t related
  rw [same s t related] at ranT
  exact .inl ⟨value s, change s, change t, ranS, ranT, kept s t related⟩

theorem agrees_pure {a : α} (kept : ∀ s t, before s t → after a s t) : Agrees stopped before (pure a) after :=
  fun s t related => .inl ⟨a, s, t, rfl, rfl, kept s t related⟩

theorem Agrees.bind {next : α → Prog σ β} {last : β → σ → σ → Prop} (first : Agrees stopped before code after)
    (rest : ∀ a, Agrees stopped (after a) (next a) last) : Agrees stopped before (code >>= next) last := by
  intro s t related
  rcases first s t related with ⟨a, s', t', ranS, ranT, between⟩ | ⟨e, s', t', ranS, ranT, reason⟩
  · rw [run_bind_ok ranS, run_bind_ok ranT]
    exact rest a s' t' between
  · exact .inr ⟨e, s', t', run_bind_error ranS, run_bind_error ranT, reason⟩

/-- Code that goes on in the same way from related states. -/
theorem agrees_get {next : σ → Prog σ α} (same : ∀ s t, before s t → next t = next s)
    (rest : ∀ s t, before s t → Agrees stopped before (next s) after) : Agrees stopped before (get >>= next) after := by
  intro s t related
  rw [run_bind_ok (EStateM.run_get s), run_bind_ok (EStateM.run_get t), same s t related]
  exact rest s t related s t related

/-- What is known of a value apart from the states. -/
theorem agrees_of_and {fact : Prop} (holds : fact → Agrees stopped before code after) :
    Agrees stopped (fun s t => fact ∧ before s t) code after :=
  fun s t both => holds both.1 s t both.2

end Agrees

/-- The state a run ends in, whether it returns or stops. -/
def finalState : EStateM.Result Stop σ α → σ
  | .ok _ t => t
  | .error _ t => t

theorem finalState_bind {P : σ → Prop} {first : Prog σ α} {next : α → Prog σ β} {s : σ}
    (stops : ∀ e t, first.run s = .error e t → P t)
    (returns : ∀ a t, first.run s = .ok a t → P (finalState ((next a).run t))) :
    P (finalState ((first >>= next).run s)) := by
  cases outcome : first.run s with
  | ok a t =>
    rw [run_bind_ok outcome]
    exact returns a t outcome
  | error e t =>
    rw [run_bind_error outcome]
    exact stops e t outcome

/-- Code that never changes what `view` shows. -/
def Preserves (view : σ → τ) (code : Prog σ α) : Prop := ∀ s, view (finalState (code.run s)) = view s

section Preserves
variable {view : σ → τ} {first second : Prog σ α}

theorem Preserves.ok {s t : σ} {a : α} (kept : Preserves view first) (ran : first.run s = .ok a t) : view t = view s := by
  simpa only [ran, finalState] using kept s

theorem Preserves.error {s t : σ} {e : Stop} (kept : Preserves view first) (ran : first.run s = .error e t) :
    view t = view s := by
  simpa only [ran, finalState] using kept s

theorem preserves_pure (a : α) : Preserves view (pure a) := fun _ => rfl

theorem preserves_throw (e : Stop) : Preserves view (throw e : Prog σ α) := fun _ => rfl

theorem preserves_get : Preserves view (get : Prog σ σ) := fun _ => rfl

theorem preserves_modify {change : σ → σ} (same : ∀ s, view (change s) = view s) :
    Preserves view (modify change : Prog σ PUnit) := same

theorem Preserves.bind {next : α → Prog σ β} (left : Preserves view first) (right : ∀ a, Preserves view (next a)) :
    Preserves view (first >>= next) := by
  intro s
  apply finalState_bind (P := (view · = view s)) fun e t ran => left.error ran
  intro a t ran
  rw [right a t, left.ok ran]

theorem Preserves.ite {c : Prop} [Decidable c] (left : Preserves view first) (right : Preserves view second) :
    Preserves view (if c then first else second) := by
  split
  · exact left
  · exact right

theorem preserves_zoom {ρ : Type} {part : σ → ρ} {put : ρ → σ → σ} (code : Prog ρ α) (same : ∀ r s, view (put r s) = view s) :
    Preserves view (zoom part put code) := by
  intro s
  cases outcome : code.run (part s) with
  | ok a r => rw [run_zoom_ok outcome, finalState, same]
  | error e r => rw [run_zoom_error outcome, finalState, same]

end Preserves

inductive Reachable (initial : σ → Prop) (step : σ → σ → Prop) : σ → Prop where
  | start {s : σ} (first : initial s) : Reachable initial step s
  | next {s t : σ} (before : Reachable initial step s) (taken : step s t) : Reachable initial step t

theorem Reachable.invariant {initial : σ → Prop} {step : σ → σ → Prop} {inv : σ → Prop}
    (base : ∀ s, initial s → inv s) (preserved : ∀ s t, inv s → step s t → inv t)
    {s : σ} (run : Reachable initial step s) : inv s := by
  induction run with
  | start first => exact base _ first
  | next _ taken ih => exact preserved _ _ ih taken

theorem Reachable.mono {initial initial' : σ → Prop} {step step' : σ → σ → Prop} (starts : ∀ s, initial s → initial' s)
    (steps : ∀ s t, step s t → step' s t) {s : σ} (run : Reachable initial step s) : Reachable initial' step' s := by
  induction run with
  | start first => exact .start (starts _ first)
  | next _ taken ih => exact .next ih (steps _ _ taken)

end OsDev.Machine.Program
