import Mathlib.Data.List.Nodup
import Mathlib.Logic.Function.Iterate
import Mathlib.Tactic.Common

/-! Singly linked chains: a start, a successor function that may be read out of
memory, and a stopping point that is not a node. -/

namespace OsDev.Machine.LinkedChain

variable {α : Type}

/-- Following `next` from the start visits exactly these nodes and then reaches `stop`. -/
def Chain (next : α → α) (stop : α) : α → List α → Prop
  | start, [] => start = stop
  | start, node :: rest => start = node ∧ node ≠ stop ∧ Chain next stop (next node) rest

theorem chain_congr {next next' : α → α} {stop start : α} {nodes : List α}
    (same : ∀ node ∈ nodes, next' node = next node) (chain : Chain next stop start nodes) :
    Chain next' stop start nodes := by
  induction nodes generalizing start with
  | nil => exact chain
  | cons node rest ih =>
    obtain ⟨rfl, inner, tail⟩ := chain
    refine ⟨rfl, inner, ?_⟩
    rw [same _ (by simp)]
    exact ih (fun other member => same other (List.mem_cons_of_mem _ member)) tail

theorem chain_stop_not_mem {next : α → α} {stop start : α} {nodes : List α}
    (chain : Chain next stop start nodes) : stop ∉ nodes := by
  induction nodes generalizing start with
  | nil => simp
  | cons node rest ih =>
    obtain ⟨rfl, inner, tail⟩ := chain
    simp only [List.mem_cons, not_or]
    exact ⟨fun same => inner same.symm, ih tail⟩

theorem chain_unique {next : α → α} {stop start : α} {first second : List α}
    (chainFirst : Chain next stop start first) (chainSecond : Chain next stop start second) : first = second := by
  induction first generalizing start second with
  | nil =>
    cases second with
    | nil => rfl
    | cons node rest => exact absurd (chainSecond.1.symm.trans chainFirst) chainSecond.2.1
  | cons node rest ih =>
    cases second with
    | nil => exact absurd (chainFirst.1.symm.trans chainSecond) chainFirst.2.1
    | cons other tail =>
      obtain ⟨rfl, -, restChain⟩ := chainFirst
      obtain ⟨rfl, -, tailChain⟩ := chainSecond
      rw [ih restChain tailChain]

/-- The chain read as iterates: node `i` is the `i`-th iterate, and the stopping
point is reached after exactly as many steps as there are nodes. -/
theorem chain_iterate {next : α → α} {stop start : α} {nodes : List α} (chain : Chain next stop start nodes) :
    (∀ i (bound : i < nodes.length), next^[i] start = nodes[i]) ∧ next^[nodes.length] start = stop := by
  induction nodes generalizing start with
  | nil => exact ⟨by simp, chain⟩
  | cons node rest ih =>
    obtain ⟨rfl, -, tail⟩ := chain
    obtain ⟨visited, ended⟩ := ih tail
    refine ⟨?_, by simpa using ended⟩
    intro i bound
    cases i with
    | zero => rfl
    | succ i => simpa using visited i (by simpa using bound)

end OsDev.Machine.LinkedChain
