import Mathlib.Data.Finset.Card
import Mathlib.Order.Interval.Finset.Nat
import OsDev.Kernel.KallocRuns
import OsDev.Kernel.PageTables

/-! `mappages` against the flat view: page after page, an entry is installed for
a range of pages that may take new page tables on the way. -/

namespace OsDev.Kernel.MapPages
open OsDev.Machine.Memory OsDev.Machine.Program
open OsDev.Kernel.SpinLocks OsDev.Kernel.Mmu OsDev.Kernel.State OsDev.Kernel.Kalloc OsDev.Kernel.Paging
open OsDev.Kernel.KallocRuns OsDev.Kernel.PageTables

/-- The number of the `k`-th page after page `first`; the address space is a ring. -/
def pageNo (first k : Nat) : Nat := (first + k) % 2 ^ 20

/-- `k` pages further. -/
def pageAfter (a : Addr) (k : Nat) : Addr := a + PGSIZE * BitVec.ofNat 32 k

/-- The entry `mappages` writes for the `k`-th page of its range. -/
def entryFor (pa perm : Addr) (k : Nat) : Word := pageAfter pa k ||| perm ||| PTE_P

theorem pageNo_lt (first k : Nat) : pageNo first k < 2 ^ 20 := Nat.mod_lt _ (by decide)

theorem pageNo_injective {first j k : Nat} (boundJ : j < 2 ^ 20) (boundK : k < 2 ^ 20)
    (same : pageNo first j = pageNo first k) : j = k := by
  unfold pageNo at same
  omega

theorem pageNo_pageAfter {a : Addr} (aligned : Aligned a) (k : Nat) :
    (pageAfter a k).toNat / 4096 = pageNo (a.toNat / 4096) k := by
  unfold Aligned at aligned
  unfold pageNo pageAfter PGSIZE
  have bound := a.isLt
  simp only [BitVec.toNat_add, BitVec.toNat_mul, BitVec.toNat_ofNat]
  omega

theorem pageAfter_succ (a : Addr) (k : Nat) : pageAfter a k + PGSIZE = pageAfter a (k + 1) := by
  unfold pageAfter PGSIZE
  bv_omega

theorem pageAfter_injective {a : Addr} {j k : Nat} (boundJ : j < 2 ^ 20) (boundK : k < 2 ^ 20)
    (same : pageAfter a j = pageAfter a k) : j = k := by
  unfold pageAfter PGSIZE at same
  bv_omega

theorem aligned_pageAfter {a : Addr} (aligned : Aligned a) (k : Nat) : Aligned (pageAfter a k) := by
  unfold Aligned pageAfter PGSIZE at *
  bv_omega

/-- An entry is present, whatever the physical address and the permissions are. -/
theorem has_entryFor (pa perm : Addr) (k : Nat) : has (entryFor pa perm k) PTE_P = true := by
  have bit : (PTE_P &&& PTE_P).getLsbD 0 = true := by decide
  unfold has entryFor
  rw [decide_eq_true_iff, BitVec.and_or_distrib_right]
  intro zero
  have low := congrArg (fun w : Word => w.getLsbD 0) zero
  simp only [BitVec.getLsbD_or, bit, Bool.or_true] at low
  revert low
  decide

/-- The first `done` pages of a range have got their entries, and nothing else happened. -/
structure Mapped (pgdir : Addr) (s t : KernelState) (free free' : List Addr) (first : Nat) (pa perm : Addr)
    (done : Nat) : Prop where
  grows : Grows pgdir s t free free'
  clear : ∀ k < done, has (pteAt s.mem pgdir (pageNo first k)) PTE_P = false
  installed : ∀ k < done, pteAt t.mem pgdir (pageNo first k) = entryFor pa perm k
  others : ∀ n < 2 ^ 20, (∀ k < done, n ≠ pageNo first k) → pteAt t.mem pgdir n = pteAt s.mem pgdir n
  touched : ∀ d < 1024, tableAt t.mem pgdir d ≠ none →
    tableAt s.mem pgdir d ≠ none ∨ ∃ k < done, d = pageNo first k / 1024

section Ranges
variable {pgdir pa perm : Addr} {s t : KernelState} {free free' : List Addr} {first done : Nat}

theorem Mapped.start (dir : Directory s pgdir free) : Mapped pgdir s s free free first pa perm 0 :=
  ⟨Grows.refl dir, by simp, by simp, fun _ _ _ => rfl, fun _ _ => Or.inl⟩

theorem Mapped.same_entry (mapped : Mapped pgdir s t free free' first pa perm done) (bound : done < 2 ^ 20) :
    pteAt t.mem pgdir (pageNo first done) = pteAt s.mem pgdir (pageNo first done) := by
  apply mapped.others _ (pageNo_lt first done)
  intro k less same
  have := pageNo_injective bound (by omega) same
  omega

/-- The table for the next page may be added, and its entry is then stored. -/
theorem Mapped.next (mapped : Mapped pgdir s t free free' first pa perm done) (bound : done < 2 ^ 20)
    {u : KernelState} {free'' : List Addr} {table : Addr} (grows : Grows pgdir t u free' free'')
    (found : tableAt u.mem pgdir (pageNo first done / 1024) = some table)
    (view : ∀ n < 2 ^ 20, pteAt u.mem pgdir n = pteAt t.mem pgdir n)
    (touched : ∀ d < 1024, tableAt u.mem pgdir d ≠ none →
      tableAt t.mem pgdir d ≠ none ∨ d = pageNo first done / 1024)
    (clear : has (pteAt s.mem pgdir (pageNo first done)) PTE_P = false) :
    Mapped pgdir s
      (u.setMem (write32 u.mem (slot table (pageNo first done % 1024)) (entryFor pa perm done)))
      free free'' first pa perm (done + 1) := by
  have number := pageNo_lt first done
  have stored := grows.directory.grows_write number found (entryFor pa perm done)
  obtain ⟨entries, updated⟩ := grows.directory.write_entry number found (entryFor pa perm done)
  refine ⟨(mapped.grows.trans grows).trans stored, ?_, ?_, ?_, ?_⟩
  · intro k less
    rcases Nat.lt_succ_iff_lt_or_eq.mp less with less | rfl
    · exact mapped.clear k less
    · exact clear
  · intro k less
    rw [KernelState.put_mem, updated _ (pageNo_lt first k)]
    rcases Nat.lt_succ_iff_lt_or_eq.mp less with less | rfl
    · rw [if_neg fun same => by have := pageNo_injective (by omega) bound same; omega, view _ (pageNo_lt first k),
        mapped.installed k less]
    · rw [if_pos rfl]
  · intro n small away
    rw [KernelState.put_mem, updated n small, if_neg (away done (by omega)), view n small]
    exact mapped.others n small fun k less => away k (by omega)
  · intro d small there
    rw [KernelState.put_mem, tableAt_congr (entries d small)] at there
    rcases touched d small there with old | same
    · rcases mapped.touched d small old with older | ⟨k, less, same⟩
      · exact Or.inl older
      · exact Or.inr ⟨k, by omega, same⟩
    · exact Or.inr ⟨done, by omega, same⟩

/-- How a run of the loop ends: all pages mapped, no page left for a table, or a
page found present. -/
inductive Ending (pgdir : Addr) (s t : KernelState) (free' : List Addr) (first count done : Nat) :
    EStateM.Result Stop KernelState Int → Prop where
  | mapped (all : done = count + 1) : Ending pgdir s t free' first count done (.ok 0 t)
  | exhausted (more : done ≤ count) (empty : free' = [])
      (missing : tableAt t.mem pgdir (pageNo first done / 1024) = none) :
      Ending pgdir s t free' first count done (.ok (-1) t)
  | remap (more : done ≤ count) (present : has (pteAt s.mem pgdir (pageNo first done)) PTE_P = true) :
      Ending pgdir s t free' first count done (.error (.panic "remap") t)

theorem run_mappagesLoop (pa perm : Addr) {a : Addr} {count : Nat} (aligned : Aligned a) (short : count < 2 ^ 20) (fuel : Nat)
    (turns : count < fuel + done) (upto : done ≤ count)
    (mapped : Mapped pgdir s t free free' (a.toNat / 4096) pa perm done) :
    ∃ done' u free'', Mapped pgdir s u free free'' (a.toNat / 4096) pa perm done' ∧
      Ending pgdir s u free'' (a.toNat / 4096) count done'
        ((mappagesLoop pgdir (pageAfter a count) perm fuel (pageAfter a done) (pageAfter pa done)).run t) := by
  induction fuel generalizing done t free' with
  | zero => omega
  | succ fuel ih =>
    have number := pageNo_pageAfter aligned done
    have lookup := run_walkpgdir mapped.grows.directory (pageAfter a done)
    rw [number] at lookup
    unfold mappagesLoop
    rcases lookup with ⟨u, free'', table, ran, grows, found, view, touched⟩ | ⟨empty, missing, c, ran, quiet⟩
    · have nonzero := grows.directory.slot_ne_zero (pageNo_lt _ _) found
      have entry : read32 u.mem (slot table (pageNo (a.toNat / 4096) done % 1024)) =
          pteAt s.mem pgdir (pageNo (a.toNat / 4096) done) := by
        rw [← mapped.same_entry (by omega), ← view _ (pageNo_lt _ _), read32_slot found]
      rw [run_bind_ok ran, run_ite, if_neg nonzero, run_bind_ok (run_load32 _ _), run_ite, entry]
      cases clear : has (pteAt s.mem pgdir (pageNo (a.toNat / 4096) done)) PTE_P with
      | true =>
        refine ⟨done, u, free'', ⟨mapped.grows.trans grows, mapped.clear, ?_, ?_, ?_⟩, .remap upto clear⟩
        · intro k less
          rw [view _ (pageNo_lt _ _), mapped.installed k less]
        · intro n small away
          rw [view n small, mapped.others n small away]
        · intro d small there
          rcases touched d small there with old | rfl
          · exact mapped.touched d small old
          · exact Or.inl (table_of_present clear)
      | false =>
        have further := mapped.next (by omega) grows found view touched clear
        rw [if_neg (by decide), run_bind_ok (run_store32 _ _ _), run_ite]
        by_cases last : done = count
        · subst last
          rw [if_pos rfl]
          exact ⟨done + 1, _, free'', further, .mapped rfl⟩
        · rw [if_neg fun same => last (pageAfter_injective (by omega) short same), pageAfter_succ, pageAfter_succ]
          exact ih (by omega) (by omega) further
    · rw [run_bind_ok ran, run_ite, if_pos rfl]
      have dir := mapped.grows.directory.setCpu quiet
      refine ⟨done, t.setCpu c, free', ⟨mapped.grows.trans ?_, mapped.clear, mapped.installed, mapped.others, mapped.touched⟩,
        .exhausted upto empty missing⟩
      exact ⟨dir, ⟨_, _, _, rfl⟩, fun _ _ _ table => table, List.Perm.refl _, fun _ _ => rfl⟩

/-- The pages the range of `size` bytes from `va` touches are `first` to `first + count`. -/
theorem run_mappages (dir : Directory s pgdir free) (va size pa perm : Addr) :
    ∃ done t free',
      Mapped pgdir s t free free' (va.toNat / 4096) pa perm done ∧
      Ending pgdir s t free' (va.toNat / 4096)
        ((PGROUNDDOWN (va + size - 1#32) - PGROUNDDOWN va).toNat / 4096) done
        ((mappages pgdir va size pa perm).run s) := by
  have alignedA := aligned_PGROUNDDOWN va
  have number : (PGROUNDDOWN va).toNat / 4096 = va.toNat / 4096 := by
    rw [PGROUNDDOWN_toNat]
    omega
  have last : PGROUNDDOWN (va + size - 1#32) =
      pageAfter (PGROUNDDOWN va) ((PGROUNDDOWN (va + size - 1#32) - PGROUNDDOWN va).toNat / 4096) := by
    have alignedLast := aligned_PGROUNDDOWN (va + size - 1#32)
    generalize PGROUNDDOWN (va + size - 1#32) = b at *
    generalize PGROUNDDOWN va = a at *
    unfold Aligned at alignedA alignedLast
    unfold pageAfter PGSIZE
    bv_omega
  have short : (PGROUNDDOWN (va + size - 1#32) - PGROUNDDOWN va).toNat / 4096 < 2 ^ 20 := by
    have := (PGROUNDDOWN (va + size - 1#32) - PGROUNDDOWN va).isLt
    omega
  have start := run_mappagesLoop pa perm alignedA short (2 ^ 20) (by omega) (Nat.zero_le _)
    (Mapped.start dir)
  rw [number, ← last] at start
  have origin (a : Addr) : pageAfter a 0 = a := by simp [pageAfter]
  rw [origin, origin] at start
  unfold mappages
  exact start

/-- Directory entries that have a table. -/
def present (m : Mem) (pgdir : Addr) : Finset Nat :=
  ((List.range 1024).filter fun d => (tableAt m pgdir d).isSome).toFinset

theorem mem_present {m : Mem} {d : Nat} : d ∈ present m pgdir ↔ d < 1024 ∧ tableAt m pgdir d ≠ none := by
  simp [present, Option.isSome_iff_ne_none]

theorem card_present (m : Mem) : (present m pgdir).card = (tables m pgdir).length := by
  rw [present, List.toFinset_card_of_nodup (List.nodup_range.filter _), tables, List.length_filterMap_eq_countP,
    List.countP_eq_length_filter]

theorem tables_lt_card {m : Mem} {d : Nat} (needed : Finset Nat) (inside : present m pgdir ⊆ needed) (wanted : d ∈ needed)
    (missing : tableAt m pgdir d = none) : (tables m pgdir).length < needed.card := by
  have others : present m pgdir ⊆ needed.erase d := by
    intro e member
    refine Finset.mem_erase.mpr ⟨?_, inside member⟩
    rintro rfl
    exact (mem_present.mp member).2 missing
  have fewer := Finset.card_le_card others
  rw [card_present, Finset.card_erase_of_mem wanted] at fewer
  have positive := Finset.card_pos.mpr ⟨_, wanted⟩
  omega

/-- With a free page for each table that may be needed, no page is missing for a table:
the tables made so far lie in `needed`, the missing one does too, and every page taken
became a table. -/
theorem not_exhausted (grows : Grows pgdir s t free []) {d : Nat} (needed : Finset Nat)
    (inside : present t.mem pgdir ⊆ needed) (wanted : d ∈ needed) (missing : tableAt t.mem pgdir d = none)
    (enough : needed.card ≤ (tables s.mem pgdir).length + free.length) : False := by
  have fewer := tables_lt_card needed inside wanted missing
  have made := grows.conserved.length_eq
  simp only [List.append_nil, List.length_append] at made
  omega

/-- The pages of the range of `size` bytes from `va`, which does not wrap. -/
def pagesOf (va size : Addr) : Finset Nat := Finset.Icc (va.toNat / 4096) ((va.toNat + size.toNat - 1) / 4096)

/-- Directory entries of the range that have no table yet. -/
def missingTables (m : Mem) (pgdir va size : Addr) : Finset Nat :=
  ((pagesOf va size).image (· / 1024)).filter fun d => tableAt m pgdir d = none

section Straight
variable {va size : Addr} (positive : 1 ≤ size.toNat) (fits : va.toNat + size.toNat - 1 < 2 ^ 32)
include positive fits

theorem range_count : (PGROUNDDOWN (va + size - 1#32) - PGROUNDDOWN va).toNat / 4096 =
    (va.toNat + size.toNat - 1) / 4096 - va.toNat / 4096 := by
  have value : (va + size - 1#32).toNat = va.toNat + size.toNat - 1 := by bv_omega
  have low := PGROUNDDOWN_toNat va
  have high := PGROUNDDOWN_toNat (va + size - 1#32)
  rw [value] at high
  generalize PGROUNDDOWN va = a at low ⊢
  generalize PGROUNDDOWN (va + size - 1#32) = b at high ⊢
  have distance : (b - a).toNat = b.toNat - a.toNat := by bv_omega
  omega

omit fits in
theorem mem_pagesOf {n : Nat} : n ∈ pagesOf va size ↔ ∃ k ≤ (va.toNat + size.toNat - 1) / 4096 - va.toNat / 4096,
    n = va.toNat / 4096 + k := by
  rw [pagesOf, Finset.mem_Icc]
  constructor
  · intro range
    exact ⟨n - va.toNat / 4096, by omega, by omega⟩
  · rintro ⟨k, upto, rfl⟩
    omega

omit positive in
theorem pageNo_straight {k : Nat} (upto : k ≤ (va.toNat + size.toNat - 1) / 4096 - va.toNat / 4096) :
    pageNo (va.toNat / 4096) k = va.toNat / 4096 + k := Nat.mod_eq_of_lt (by omega)

omit positive in
/-- The view after the first pages of a range were mapped. -/
theorem Mapped.view (mapped : Mapped pgdir s t free free' (va.toNat / 4096) pa perm done)
    (upto : done ≤ (va.toNat + size.toNat - 1) / 4096 - va.toNat / 4096 + 1) {n : Nat} (bound : n < 2 ^ 20) :
    pteAt t.mem pgdir n = if va.toNat / 4096 ≤ n ∧ n < va.toNat / 4096 + done then
      entryFor pa perm (n - va.toNat / 4096) else pteAt s.mem pgdir n := by
  split
  case isTrue range =>
    have entry := mapped.installed (n - va.toNat / 4096) (by omega)
    rwa [pageNo_straight fits (by omega), Nat.add_sub_cancel' range.1] at entry
  case isFalse away =>
    apply mapped.others n bound
    intro k less same
    rw [pageNo_straight fits (by omega)] at same
    omega

theorem Mapped.present_subset (mapped : Mapped pgdir s t free free' (va.toNat / 4096) pa perm done)
    (upto : done ≤ (va.toNat + size.toNat - 1) / 4096 - va.toNat / 4096 + 1) :
    present t.mem pgdir ⊆ present s.mem pgdir ∪ (pagesOf va size).image (· / 1024) := by
  intro d member
  obtain ⟨bound, there⟩ := mem_present.mp member
  rw [Finset.mem_union]
  rcases mapped.touched d bound there with old | ⟨k, less, rfl⟩
  · exact Or.inl (mem_present.mpr ⟨bound, old⟩)
  · right
    rw [pageNo_straight fits (by omega)]
    exact Finset.mem_image_of_mem _ ((mem_pagesOf positive).mpr ⟨k, by omega, rfl⟩)

/-- How `mappages` ends on a range that does not wrap, page numbers being plain numbers. -/
theorem run_mappages_straight (pa perm : Addr) (dir : Directory s pgdir free) :
    ∃ done t free', Mapped pgdir s t free free' (va.toNat / 4096) pa perm done ∧
      done ≤ (va.toNat + size.toNat - 1) / 4096 - va.toNat / 4096 + 1 ∧
      (done = (va.toNat + size.toNat - 1) / 4096 - va.toNat / 4096 + 1 ∧
          (mappages pgdir va size pa perm).run s = .ok 0 t ∨
        (∃ n ∈ pagesOf va size, free' = [] ∧ tableAt t.mem pgdir (n / 1024) = none ∧
          (mappages pgdir va size pa perm).run s = .ok (-1) t) ∨
        ∃ n ∈ pagesOf va size, n = va.toNat / 4096 + done ∧ has (pteAt s.mem pgdir n) PTE_P = true ∧
          (mappages pgdir va size pa perm).run s = .error (.panic "remap") t) := by
  obtain ⟨done, t, free', mapped, ending⟩ := run_mappages dir va size pa perm
  rw [range_count positive fits] at ending
  generalize (mappages pgdir va size pa perm).run s = result at ending ⊢
  refine ⟨done, t, free', mapped, ?_⟩
  cases ending with
  | mapped all => exact ⟨by omega, Or.inl ⟨all, rfl⟩⟩
  | exhausted more empty missing =>
    rw [pageNo_straight fits more] at missing
    exact ⟨by omega, Or.inr (Or.inl ⟨_, (mem_pagesOf positive).mpr ⟨done, more, rfl⟩, empty, missing, rfl⟩)⟩
  | remap more there =>
    rw [pageNo_straight fits more] at there
    exact ⟨by omega, Or.inr (Or.inr ⟨_, (mem_pagesOf positive).mpr ⟨done, more, rfl⟩, rfl, there, rfl⟩)⟩

end Straight

/-- How many pages `mappages` goes on after the first one. -/
def steps (va size : Addr) : Nat := (PGROUNDDOWN (va + size - 1#32) - PGROUNDDOWN va).toNat / 4096

/-- The pages `mappages` visits. -/
def visited (va size : Addr) : Finset Nat := (Finset.range (steps va size + 1)).image (pageNo (va.toNat / 4096))

theorem mem_visited {va size : Addr} {n : Nat} :
    n ∈ visited va size ↔ ∃ k ≤ steps va size, pageNo (va.toNat / 4096) k = n := by
  simp only [visited, Finset.mem_image, Finset.mem_range, Nat.lt_succ_iff]

theorem pageNo_first (va : Addr) : pageNo (va.toNat / 4096) 0 = va.toNat / 4096 := by
  have bound := va.isLt
  unfold pageNo
  omega

theorem first_visited (va size : Addr) : va.toNat / 4096 ∈ visited va size :=
  mem_visited.mpr ⟨0, Nat.zero_le _, pageNo_first va⟩

theorem visited_lt {va size : Addr} {n : Nat} (member : n ∈ visited va size) : n < 2 ^ 20 := by
  obtain ⟨k, -, rfl⟩ := mem_visited.mp member
  exact pageNo_lt _ _

theorem steps_of_aligned {va : Addr} (aligned : Aligned va) (size : Addr) : steps va size = (size - 1#32).toNat / 4096 := by
  have low : PGROUNDDOWN va = va := by
    apply BitVec.eq_of_toNat_eq
    rw [PGROUNDDOWN_toNat]
    unfold Aligned at aligned
    omega
  have high := PGROUNDDOWN_toNat (va + size - 1#32)
  unfold steps
  rw [low]
  generalize PGROUNDDOWN (va + size - 1#32) = last at high ⊢
  unfold Aligned at aligned
  bv_omega

/-- Without a wrap the pages visited are those of the range. An empty range that does
not start on a page is treated like a range of one byte. -/
theorem visited_eq_pagesOf {va size : Addr} (nonempty : 1 ≤ size.toNat ∨ ¬ Aligned va) (fits : va.toNat + size.toNat ≤ 2 ^ 32) :
    visited va size = pagesOf va size := by
  by_cases positive : 1 ≤ size.toNat
  · have count : steps va size = _ := range_count positive (by omega)
    ext n
    rw [mem_visited, mem_pagesOf positive, count]
    constructor
    · rintro ⟨k, upto, rfl⟩
      exact ⟨k, upto, pageNo_straight (by omega) upto⟩
    · rintro ⟨k, upto, rfl⟩
      exact ⟨k, upto, pageNo_straight (by omega) upto⟩
  · have unaligned : ¬ va.toNat % 4096 = 0 := nonempty.resolve_left positive
    have empty : size = 0#32 := by bv_omega
    subst empty
    have same : PGROUNDDOWN (va + 0#32 - 1#32) = PGROUNDDOWN va := by
      apply BitVec.eq_of_toNat_eq
      rw [PGROUNDDOWN_toNat, PGROUNDDOWN_toNat]
      have value : (va + 0#32 - 1#32).toNat = va.toNat - 1 := by bv_omega
      omega
    have stay : steps va 0#32 = 0 := by
      rw [steps, same, BitVec.sub_self]
      rfl
    ext n
    rw [mem_visited, stay, pagesOf, Finset.mem_Icc]
    have bound := va.isLt
    constructor
    · rintro ⟨k, beyond, rfl⟩
      unfold pageNo
      simp only [BitVec.toNat_ofNat]
      omega
    · intro range
      simp only [BitVec.toNat_ofNat] at range
      exact ⟨0, by omega, by unfold pageNo; omega⟩

/-- The tables of a range, as many as there are present ones and missing ones. -/
theorem needed_eq (m : Mem) (va size : Addr) (bound : va.toNat + size.toNat - 1 < 2 ^ 32) :
    present m pgdir ∪ (pagesOf va size).image (· / 1024) = present m pgdir ∪ missingTables m pgdir va size := by
  ext d
  simp only [Finset.mem_union, missingTables, Finset.mem_filter]
  by_cases there : tableAt m pgdir d = none
  · simp [there]
  · simp only [there, and_false, or_false, or_iff_left_iff_imp, Finset.mem_image, pagesOf, Finset.mem_Icc]
    rintro ⟨n, range, rfl⟩
    exact mem_present.mpr ⟨by omega, there⟩

section Entries
variable (k : Nat) (aligned : Aligned pa) (perms : perm ∈ [0#32, PTE_W, PTE_U, PTE_W ||| PTE_U])
include aligned perms

theorem PTE_ADDR_entryFor : PTE_ADDR (entryFor pa perm k) = pageAfter pa k := by
  have low : (perm ||| PTE_P) &&& ~~~0xFFF#32 = 0#32 := by
    simp only [List.mem_cons, List.not_mem_nil, or_false] at perms
    rcases perms with rfl | rfl | rfl | rfl <;> decide
  rw [entryFor, BitVec.or_assoc, PTE_ADDR_or (aligned_pageAfter aligned k) low]

theorem decode_entryFor {x : Addr} : decode (entryFor pa perm k) x =
    some ⟨pageAfter pa k + ADDR_PAGE_OFFSET x, has perm PTE_U, has perm PTE_W⟩ := by
  have base := aligned_pageAfter aligned k
  have flags : has (perm ||| PTE_P) PTE_U = has perm PTE_U ∧ has (perm ||| PTE_P) PTE_W = has perm PTE_W := by
    simp only [List.mem_cons, List.not_mem_nil, or_false] at perms
    rcases perms with rfl | rfl | rfl | rfl <;> decide
  rw [decode, if_pos (has_entryFor pa perm k), PTE_ADDR_entryFor k aligned perms, entryFor, BitVec.or_assoc,
    has_or base (by decide), has_or base (by decide), flags.1, flags.2]

end Entries

end Ranges

/-- The addresses on the pages of a range. -/
def InRange (va size x : Addr) : Prop := x.toNat / 4096 ∈ pagesOf va size

instance (va size x : Addr) : Decidable (InRange va size x) := inferInstanceAs (Decidable (_ ∈ pagesOf va size))

/-- What `mappages` promises for an address of its range. -/
def target (va pa perm x : Addr) : Mapping :=
  ⟨pageAfter pa (x.toNat / 4096 - va.toNat / 4096) + ADDR_PAGE_OFFSET x, has perm PTE_U, has perm PTE_W⟩

/-- `mappages` installs exactly its range in the view of the processor: enough free
pages given, it either maps every page of the range and changes no other translation,
or finds a page of the range present and stops, after mapping the pages before it. -/
theorem mappages_refines_flat_view (s : KernelState) (pgdir va size pa perm : Addr) (free : List Addr)
    (dir : Directory s pgdir free) (positive : 1 ≤ size.toNat) (fits : va.toNat + size.toNat - 1 < 2 ^ 32)
    (aligned : Aligned pa) (perms : perm ∈ [0#32, PTE_W, PTE_U, PTE_W ||| PTE_U])
    (enough : (missingTables s.mem pgdir va size).card ≤ free.length) :
    ((∀ x, InRange va size x → translation s.mem pgdir x = none) →
      ∃ t free', (mappages pgdir va size pa perm).run s = .ok 0 t ∧ Directory t pgdir free' ∧
        (∀ x, InRange va size x → translation t.mem pgdir x = some (target va pa perm x)) ∧
        ∀ x, ¬ InRange va size x → translation t.mem pgdir x = translation s.mem pgdir x) ∧
    ((∃ x, InRange va size x ∧ translation s.mem pgdir x ≠ none) →
      ∃ t free', (mappages pgdir va size pa perm).run s = .error (.panic "remap") t ∧ Directory t pgdir free' ∧
        ∃ n ∈ pagesOf va size, has (pteAt s.mem pgdir n) PTE_P = true ∧
          (∀ x, InRange va size x → x.toNat / 4096 < n → translation t.mem pgdir x = some (target va pa perm x)) ∧
          ∀ x, ¬ (InRange va size x ∧ x.toNat / 4096 < n) → translation t.mem pgdir x = translation s.mem pgdir x) := by
  obtain ⟨done, t, free', mapped, upto, ending⟩ :=
    run_mappages_straight positive fits pa perm dir
  have dir' := mapped.grows.directory
  have maps (x : Addr) : translation t.mem pgdir x =
      if va.toNat / 4096 ≤ x.toNat / 4096 ∧ x.toNat / 4096 < va.toNat / 4096 + done then some (target va pa perm x)
      else translation s.mem pgdir x := by
    have bound := x.isLt
    rw [dir'.translation_eq x, mapped.view fits upto (by omega), dir.translation_eq x]
    split
    · exact decode_entryFor _ aligned perms
    · rfl
  rcases ending with ⟨all, ran⟩ | ⟨n, range, rfl, missing, ran⟩ | ⟨n, range, number, there, ran⟩
  · refine ⟨fun _ => ⟨t, free', ran, dir', ?_, ?_⟩, ?_⟩
    · intro x range
      rw [InRange, pagesOf, Finset.mem_Icc] at range
      rw [maps x, if_pos (by omega)]
    · intro x away
      rw [InRange, pagesOf, Finset.mem_Icc] at away
      rw [maps x, if_neg (by omega)]
    · rintro ⟨x, range, there⟩
      obtain ⟨k, less, number⟩ := (mem_pagesOf positive).mp range
      have clear := mapped.clear k (by omega)
      rw [pageNo_straight fits less, ← number, ← dir.translation_none x] at clear
      exact absurd clear there
  · have inside := mapped.present_subset positive fits upto
    rw [needed_eq s.mem va size fits] at inside
    have wanted : n / 1024 ∈ present s.mem pgdir ∪ missingTables s.mem pgdir va size := by
      rw [← needed_eq s.mem va size fits]
      exact Finset.mem_union_right _ (Finset.mem_image_of_mem _ range)
    have sum := Finset.card_union_le (present s.mem pgdir) (missingTables s.mem pgdir va size)
    rw [card_present] at sum
    exact (not_exhausted mapped.grows _ inside wanted missing (by omega)).elim
  · refine ⟨fun nothing => ?_, fun _ => ⟨t, free', ran, dir', n, range, there, ?_, ?_⟩⟩
    · -- an address of the page that is present
      have small := Finset.mem_Icc.mp range
      have value : (BitVec.ofNat 32 (4096 * n)).toNat / 4096 = n := by
        rw [BitVec.toNat_ofNat]
        omega
      have empty := nothing (BitVec.ofNat 32 (4096 * n)) (by rwa [InRange, value])
      rw [dir.translation_none, value, there] at empty
      cases empty
    · intro x inside less
      rw [maps x, if_pos ⟨(Finset.mem_Icc.mp inside).1, by omega⟩]
    · intro x away
      rw [InRange, pagesOf, Finset.mem_Icc] at away
      rw [maps x, if_neg (by omega)]

/-- Two pages of user memory on either side of 4 MiB, mapped into an empty directory. -/
theorem mappages_refines_two_tables :
    ∃ (s t : KernelState) (pgdir : Addr), translation s.mem pgdir 0x3ff234#32 = none ∧
      translation s.mem pgdir 0x400234#32 = none ∧
      (mappages pgdir 0x3ff000#32 0x2000#32 0x5000#32 (PTE_W ||| PTE_U)).run s = .ok 0 t ∧
      translation t.mem pgdir 0x3ff234#32 = some ⟨0x5234#32, true, true⟩ ∧
      translation t.mem pgdir 0x400234#32 = some ⟨0x6234#32, true, true⟩ ∧
      translation t.mem pgdir 0x401000#32 = none := by
  obtain ⟨s, heap, -⟩ := exists_booted 2 (by decide) 0x80105000#32 (by unfold rangePages; decide) 0#32 0#32 0#32
  have aligned : Aligned 0x80200000#32 := by decide
  have dir : Directory (s.setMem (fill s.mem 0x80200000#32 0#8 4096)) 0x80200000#32 [0x80104000#32, 0x80103000#32] :=
    Directory.fresh heap aligned (by decide)
  have nothing (x : Addr) : translation (fill s.mem 0x80200000#32 0#8 4096) 0x80200000#32 x = none := by
    have empty := dir.translation_eq x
    rw [KernelState.put_mem, cleared_view s.mem aligned (by have := x.isLt; omega), decode, has_zero] at empty
    exact empty
  have fewer : (missingTables (fill s.mem 0x80200000#32 0#8 4096) 0x80200000#32 0x3ff000#32 0x2000#32).card ≤ 2 :=
    (Finset.card_filter_le _ _).trans (by decide)
  obtain ⟨t, -, ran, -, maps, others⟩ := (mappages_refines_flat_view _ 0x80200000#32 0x3ff000#32 0x2000#32 0x5000#32
    (PTE_W ||| PTE_U) _ dir (by decide) (by decide) (by decide) (by decide) fewer).1 (fun x _ => nothing x)
  refine ⟨s.setMem (fill s.mem 0x80200000#32 0#8 4096), t, 0x80200000#32, nothing _, nothing _, ran, ?_, ?_, ?_⟩
  · rw [maps 0x3ff234#32 (by decide)]
    decide
  · rw [maps 0x400234#32 (by decide)]
    decide
  · exact (others 0x401000#32 (by decide)).trans (nothing _)

end OsDev.Kernel.MapPages
