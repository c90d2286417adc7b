import Mathlib.Tactic.Common

/-! Straight-line code whose state others may change between two instructions.
The rules say when an instruction may be executed and in which states the next
one may find the machine; code is safe for a postcondition when every
instruction it comes to may be executed and the postcondition holds at its end. -/

namespace OsDev.Machine.Interference

structure Rules (Instr σ : Type) where
  ready : Instr → σ → Prop
  after : Instr → σ → σ → Prop

variable {Instr σ : Type} {rules : Rules Instr σ} {post other inv : σ → Prop} {s : σ}

def Safe (rules : Rules Instr σ) (post : σ → Prop) : List Instr → σ → Prop
  | [], s => post s
  | i :: code, s => rules.ready i s ∧ ∀ t, rules.after i s t → Safe rules post code t

@[simp] theorem safe_nil : Safe rules post [] s ↔ post s := Iff.rfl

theorem Safe.imp {code : List Instr} (safe : Safe rules post code s) (weaker : ∀ t, post t → other t) :
    Safe rules other code s := by
  induction code generalizing s with
  | nil => exact weaker s safe
  | cons i code ih => exact ⟨safe.1, fun t step => ih (safe.2 t step)⟩

theorem Safe.seq {first second : List Instr} (safe : Safe rules post first s)
    (next : ∀ t, post t → Safe rules other second t) : Safe rules other (first ++ second) s := by
  induction first generalizing s with
  | nil => exact next s safe
  | cons i code ih => exact ⟨safe.1, fun t step => ih (safe.2 t step)⟩

/-- What every admitted instruction preserves holds at the end as well. -/
theorem Safe.with_invariant {code : List Instr} (safe : Safe rules post code s) (holds : inv s)
    (preserved : ∀ i s t, inv s → rules.ready i s → rules.after i s t → inv t) :
    Safe rules (fun t => inv t ∧ post t) code s := by
  induction code generalizing s with
  | nil => exact ⟨holds, safe⟩
  | cons i code ih => exact ⟨safe.1, fun t step => ih (safe.2 t step) (preserved i s t holds safe.1 step)⟩

end OsDev.Machine.Interference
