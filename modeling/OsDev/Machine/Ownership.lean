import Mathlib.Algebra.BigOperators.Group.Finset.Basic
import Mathlib.Data.Fintype.Basic
import Mathlib.Data.List.Nodup
import Mathlib.Data.List.Perm.Subperm
import Mathlib.Logic.Function.Basic
import Mathlib.Tactic.Common

/-! Things that are handed out from a pool: each has one owner or is free. -/

namespace OsDev.Machine.Ownership

variable {ι α : Type}

/-- Nothing belongs to two owners, and nothing that belongs to somebody is free. -/
structure Divided (own : ι → List α) (free : List α) : Prop where
  pooled : free.Nodup
  each : ∀ i, (own i).Nodup
  apart : ∀ i j, i ≠ j → (own i).Disjoint (own j)
  taken : ∀ i, (own i).Disjoint free

theorem Divided.pool {own : ι → List α} {free : List α} (divided : Divided own free) (i : ι) : (own i ++ free).Nodup :=
  List.nodup_append'.mpr ⟨divided.each i, divided.pooled, divided.taken i⟩

/-- One owner takes from the pool, gives back or loses what it had; the others keep theirs. -/
theorem Divided.move {own own' : ι → List α} {free free' : List α} (divided : Divided own free) {i : ι}
    (others : ∀ j, j ≠ i → own' j = own j) (part : (own' i ++ free').Subperm (own i ++ free)) : Divided own' free' := by
  obtain ⟨middle, same, below⟩ := part
  have distinct : (own' i ++ free').Nodup := same.nodup_iff.mp ((divided.pool i).sublist below)
  obtain ⟨mine, left, apart⟩ := List.nodup_append'.mp distinct
  have inside {a : α} (member : a ∈ own' i ++ free') : a ∈ own i ++ free := below.subset (same.mem_iff.mpr member)
  have away {j : ι} (other : j ≠ i) {a : α} (member : a ∈ own' i ++ free') : a ∉ own j := by
    intro theirs
    rcases List.mem_append.mp (inside member) with owned | unowned
    · exact divided.apart j i other theirs owned
    · exact divided.taken j theirs unowned
  refine ⟨left, fun j => ?_, fun j k differ => ?_, fun j => ?_⟩
  · by_cases other : j = i
    · rw [other]
      exact mine
    · rw [others j other]
      exact divided.each j
  · intro a first second
    by_cases firstOther : j = i
    · subst firstOther
      rw [others k (Ne.symm differ)] at second
      exact away (Ne.symm differ) (List.mem_append_left _ first) second
    · rw [others j firstOther] at first
      by_cases secondOther : k = i
      · subst secondOther
        exact away firstOther (List.mem_append_left _ second) first
      · rw [others k secondOther] at second
        exact divided.apart j k differ first second
  · intro a theirs unowned
    by_cases other : j = i
    · subst other
      exact apart theirs unowned
    · rw [others j other] at theirs
      exact away other (List.mem_append_right _ unowned) theirs

/-- All there is: what is free and what the owners have. -/
def stock [Fintype ι] (own : ι → List α) (free : List α) : Multiset α := free + ∑ i, (own i : Multiset α)

/-- One owner exchanges with the pool, and nothing is lost. -/
theorem stock_move [Fintype ι] {own own' : ι → List α} {free free' : List α} {i : ι} (others : ∀ j, j ≠ i → own' j = own j)
    (whole : (own' i ++ free').Perm (own i ++ free)) : stock own' free' = stock own free := by
  classical
  have mine (held : ι → List α) (pool : List α) : stock held pool =
      ((held i ++ pool : List α) : Multiset α) + ∑ j ∈ Finset.univ.erase i, (held j : Multiset α) := by
    rw [stock, ← Finset.add_sum_erase _ _ (Finset.mem_univ i), ← Multiset.coe_add, add_left_comm, add_assoc]
  have rest : ∑ j ∈ Finset.univ.erase i, (own' j : Multiset α) = ∑ j ∈ Finset.univ.erase i, (own j : Multiset α) :=
    Finset.sum_congr rfl fun j member => by rw [others j (Finset.ne_of_mem_erase member)]
  rw [mine, mine, rest, Multiset.coe_eq_coe.mpr whole]

end OsDev.Machine.Ownership
