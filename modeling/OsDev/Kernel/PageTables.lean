import OsDev.Kernel.Paging

/-! A page directory as a flat array of 2^20 entries, one for each page of the
address space. Pages are numbered: page `n` holds the addresses `4096 * n` and up.
The entry of a page without a page table reads as zero. -/

namespace OsDev.Kernel.PageTables
open OsDev.Machine.Memory OsDev.Machine.Program OsDev.Machine.LinkedChain
open OsDev.Kernel.SpinLocks OsDev.Kernel.Mmu OsDev.Kernel.State OsDev.Kernel.StringLib OsDev.Kernel.Kalloc
open OsDev.Kernel.Paging

def pdeAt (m : Mem) (pgdir : Addr) (d : Nat) : Word := read32 m (slot pgdir d)

def tableAt (m : Mem) (pgdir : Addr) (d : Nat) : Option Addr :=
  if has (pdeAt m pgdir d) PTE_P then some (P2V (PTE_ADDR (pdeAt m pgdir d))) else none

def pteAt (m : Mem) (pgdir : Addr) (n : Nat) : Word :=
  match tableAt m pgdir (n / 1024) with
  | some table => read32 m (slot table (n % 1024))
  | none => 0#32

def tables (m : Mem) (pgdir : Addr) : List Addr := (List.range 1024).filterMap (tableAt m pgdir)

/-- Present directory entries are writable for everybody and point to distinct
heap pages, which are neither the directory nor free. -/
structure Directory (s : KernelState) (pgdir : Addr) (free : List Addr) : Prop where
  heap : Heap s free
  aligned : Aligned pgdir
  flags : ∀ d < 1024, has (pdeAt s.mem pgdir d) PTE_P = true →
    has (pdeAt s.mem pgdir d) PTE_W = true ∧ has (pdeAt s.mem pgdir d) PTE_U = true ∧
      has (pdeAt s.mem pgdir d) PTE_PS = false
  frames : ∀ p ∈ tables s.mem pgdir, Frame s p
  distinct : (pgdir :: (tables s.mem pgdir ++ free)).Nodup

/-- What one table entry says about an address of its page. -/
def decode (pte : Word) (va : Addr) : Option Mapping :=
  if has pte PTE_P then some ⟨PTE_ADDR pte + ADDR_PAGE_OFFSET va, has pte PTE_U, has pte PTE_W⟩ else none

theorem mem_tables {m : Mem} {pgdir p : Addr} : p ∈ tables m pgdir ↔ ∃ d < 1024, tableAt m pgdir d = some p := by
  simp [tables]

theorem has_zero (flag : Word) : has 0#32 flag = false := by simp [has]

/-- Only a page with a table can be present. -/
theorem table_of_present {m : Mem} {pgdir : Addr} {n : Nat} (present : has (pteAt m pgdir n) PTE_P = true) :
    tableAt m pgdir (n / 1024) ≠ none := by
  intro missing
  simp only [pteAt, missing, has_zero, Bool.false_eq_true] at present

section Directories
variable {s : KernelState} {pgdir : Addr} {free : List Addr}

theorem Directory.frame (dir : Directory s pgdir free) {d : Nat} {p : Addr} (bound : d < 1024)
    (table : tableAt s.mem pgdir d = some p) : Frame s p :=
  dir.frames p (mem_tables.mpr ⟨d, bound, table⟩)

/-- `walkpgdir` returns 0 only for a missing table. -/
theorem Directory.slot_ne_zero (dir : Directory s pgdir free) {n : Nat} {table : Addr} (bound : n < 2 ^ 20)
    (found : tableAt s.mem pgdir (n / 1024) = some table) : slot table (n % 1024) ≠ 0#32 := by
  have frame := dir.frame (by omega) found
  have value := slot_toNat frame.aligned (Nat.mod_lt n (by decide : 0 < 1024))
  have positive := frame.ne_zero dir.heap.sentinel
  bv_omega

theorem read32_slot {m : Mem} {n : Nat} {table : Addr} (found : tableAt m pgdir (n / 1024) = some table) :
    read32 m (slot table (n % 1024)) = pteAt m pgdir n := by
  rw [pteAt, found]

theorem Directory.table_ne (dir : Directory s pgdir free) {d : Nat} {p : Addr} (bound : d < 1024)
    (table : tableAt s.mem pgdir d = some p) : p ≠ pgdir := by
  rintro rfl
  exact (List.nodup_cons.mp dir.distinct).1 (List.mem_append_left _ (mem_tables.mpr ⟨d, bound, table⟩))

theorem Directory.table_not_free (dir : Directory s pgdir free) {d : Nat} {p : Addr} (bound : d < 1024)
    (table : tableAt s.mem pgdir d = some p) : p ∉ free := fun isFree =>
  (List.nodup_append.mp (List.nodup_cons.mp dir.distinct).2).2.2 p (mem_tables.mpr ⟨d, bound, table⟩) p isFree rfl

theorem Directory.not_free (dir : Directory s pgdir free) : pgdir ∉ free := fun isFree =>
  (List.nodup_cons.mp dir.distinct).1 (List.mem_append_right _ isFree)

theorem tables_injective {m : Mem} {d e : Nat} {p : Addr} (distinct : (tables m pgdir).Nodup)
    (boundD : d < 1024) (boundE : e < 1024) (tableD : tableAt m pgdir d = some p)
    (tableE : tableAt m pgdir e = some p) : d = e := by
  have pairs := List.pairwise_filterMap.mp distinct
  have ordered {i j : Nat} (less : i < j) (bound : j < 1024) (first : tableAt m pgdir i = some p)
      (second : tableAt m pgdir j = some p) : False := by
    have pair := List.pairwise_iff_getElem.mp pairs i j (by simp; omega) (by simpa using bound) less
    simp only [List.getElem_range] at pair
    exact pair p first p second rfl
  rcases Nat.lt_trichotomy d e with less | same | less
  · exact (ordered less boundE tableD tableE).elim
  · exact same
  · exact (ordered less boundD tableE tableD).elim

theorem Directory.table_injective (dir : Directory s pgdir free) {d e : Nat} {p : Addr} (boundD : d < 1024)
    (boundE : e < 1024) (tableD : tableAt s.mem pgdir d = some p) (tableE : tableAt s.mem pgdir e = some p) :
    d = e :=
  tables_injective (List.nodup_append.mp (List.nodup_cons.mp dir.distinct).2).1 boundD boundE tableD tableE

theorem tableAt_congr {m m' : Mem} {d : Nat} (same : pdeAt m' pgdir d = pdeAt m pgdir d) :
    tableAt m' pgdir d = tableAt m pgdir d := by
  simp only [tableAt, same]

theorem tables_congr {m m' : Mem} (same : ∀ d < 1024, pdeAt m' pgdir d = pdeAt m pgdir d) :
    tables m' pgdir = tables m pgdir :=
  List.filterMap_congr fun d member => tableAt_congr (same d (List.mem_range.mp member))

theorem pdeAt_congr {m m' : Mem} (aligned : Aligned pgdir) (same : Set.EqOn m' m (span pgdir 4096)) (d : Nat)
    (bound : d < 1024) : pdeAt m' pgdir d = pdeAt m pgdir d :=
  read32_congr (same.mono (slot_subset aligned bound))

/-- The view depends on the directory and its tables alone. -/
theorem Directory.pteAt_congr (dir : Directory s pgdir free) {m : Mem}
    (directory : Set.EqOn m s.mem (span pgdir 4096))
    (rest : ∀ p ∈ tables s.mem pgdir, Set.EqOn m s.mem (span p 4096)) (n : Nat) (bound : n < 2 ^ 20) :
    pteAt m pgdir n = pteAt s.mem pgdir n := by
  have range : n / 1024 < 1024 := by omega
  unfold pteAt
  rw [tableAt_congr (pdeAt_congr dir.aligned directory _ range)]
  cases table : tableAt s.mem pgdir (n / 1024) with
  | none => rfl
  | some p =>
    have same := rest p (mem_tables.mpr ⟨_, range, table⟩)
    exact read32_congr (same.mono (slot_subset (dir.frame range table).aligned (Nat.mod_lt n (by decide))))

/-- The walk of the processor is one look at the flat view. -/
theorem Directory.translation_eq (dir : Directory s pgdir free) (va : Addr) :
    translation s.mem pgdir va = decode (pteAt s.mem pgdir (va.toNat / 4096)) va := by
  have number : va.toNat / 4096 / 1024 = va.toNat / 2 ^ 22 := by omega
  have bound : va.toNat / 2 ^ 22 < 1024 := by have := va.isLt; omega
  simp only [translation, slot_PDX, slot_PTX, pteAt, tableAt, number, decode]
  change (if has (pdeAt s.mem pgdir (va.toNat / 2 ^ 22)) PTE_P = true then _ else _) = _
  by_cases present : has (pdeAt s.mem pgdir (va.toNat / 2 ^ 22)) PTE_P = true
  · obtain ⟨writable, user, -⟩ := dir.flags _ bound present
    simp only [if_pos present]
    unfold pdeAt at writable user ⊢
    simp only [writable, user, Bool.true_and]
  · simp only [if_neg present]
    rfl

theorem Directory.translation_none (dir : Directory s pgdir free) (x : Addr) :
    translation s.mem pgdir x = none ↔ has (pteAt s.mem pgdir (x.toNat / 4096)) PTE_P = false := by
  rw [dir.translation_eq x, decode]
  split <;> simp_all

theorem Directory.table_disjoint (dir : Directory s pgdir free) {d : Nat} {p : Addr} (bound : d < 1024)
    (table : tableAt s.mem pgdir d = some p) : Disjoint (span p 4096) (span pgdir 4096) :=
  page_disjoint (dir.frame bound table).aligned dir.aligned (dir.table_ne bound table)

/-- Storing an entry into a table changes the view at its own page only. -/
theorem Directory.write_entry (dir : Directory s pgdir free) {n : Nat} {table : Addr} (bound : n < 2 ^ 20)
    (found : tableAt s.mem pgdir (n / 1024) = some table) (entry : Word) :
    (∀ d < 1024, pdeAt (write32 s.mem (slot table (n % 1024)) entry) pgdir d = pdeAt s.mem pgdir d) ∧
      ∀ j < 2 ^ 20, pteAt (write32 s.mem (slot table (n % 1024)) entry) pgdir j =
        if j = n then entry else pteAt s.mem pgdir j := by
  have range : n / 1024 < 1024 := by omega
  have aligned := (dir.frame range found).aligned
  have inside := slot_subset aligned (Nat.mod_lt n (by decide : 0 < 1024))
  have away (p : Addr) (alignedP : Aligned p) (ne : p ≠ table) :
      Set.EqOn (write32 s.mem (slot table (n % 1024)) entry) s.mem (span p 4096) := by
    apply (write32_outside s.mem _ entry).mono
    rw [Set.subset_compl_iff_disjoint_right]
    exact (page_disjoint alignedP aligned ne).mono_right inside
  have entries := pdeAt_congr dir.aligned (away pgdir dir.aligned (dir.table_ne range found).symm)
  refine ⟨entries, ?_⟩
  intro j small
  have rangeJ : j / 1024 < 1024 := by omega
  unfold pteAt
  rw [tableAt_congr (entries _ rangeJ)]
  by_cases same : j = n
  · subst same
    simp only [found, read32_write32_self, ↓reduceIte]
  · rw [if_neg same]
    cases tableJ : tableAt s.mem pgdir (j / 1024) with
    | none => rfl
    | some p =>
      by_cases shared : p = table
      · -- two entries of one table
        subst shared
        have level := dir.table_injective rangeJ range tableJ found
        exact read32_write32_disjoint _ _ _ _ (slot_disjoint aligned (Nat.mod_lt n (by decide))
          (Nat.mod_lt j (by decide)) (by omega))
      · have alignedJ := (dir.frame rangeJ tableJ).aligned
        exact read32_congr ((away p alignedJ shared).mono (slot_subset alignedJ (Nat.mod_lt j (by decide))))

/-- The memory after `walkpgdir` has put a cleared page `p` at directory entry `d`. -/
def addTable (m : Mem) (pgdir : Addr) (d : Nat) (p : Addr) : Mem :=
  write32 (fill m p 0#8 4096) (slot pgdir d) (V2P p ||| PTE_P ||| PTE_W ||| PTE_U)

theorem addTable_outside (m : Mem) {p : Addr} {d : Nat} (aligned : Aligned pgdir) (bound : d < 1024) :
    Set.EqOn (addTable m pgdir d p) m (span pgdir 4096 ∪ span p 4096)ᶜ := by
  rw [Set.compl_union]
  have first := (write32_outside (fill m p 0#8 4096) (slot pgdir d) (V2P p ||| PTE_P ||| PTE_W ||| PTE_U)).mono
    (Set.compl_subset_compl.mpr (slot_subset aligned bound))
  exact (first.mono Set.inter_subset_left).trans ((fill_outside m p 0#8 4096).mono Set.inter_subset_right)

theorem pdeAt_addTable (m : Mem) {p : Addr} {d e : Nat} (alignedP : Aligned p) (aligned : Aligned pgdir)
    (ne : p ≠ pgdir) (boundD : d < 1024) (boundE : e < 1024) :
    pdeAt (addTable m pgdir d p) pgdir e =
      if e = d then V2P p ||| PTE_P ||| PTE_W ||| PTE_U else pdeAt m pgdir e := by
  unfold pdeAt addTable
  by_cases same : e = d
  · subst same
    rw [read32_write32_self, if_pos rfl]
  · rw [if_neg same, read32_write32_disjoint _ _ _ _ (slot_disjoint aligned boundD boundE (Ne.symm same))]
    apply read32_congr
    apply (fill_outside m p 0#8 4096).mono
    rw [Set.subset_compl_iff_disjoint_right]
    exact (page_disjoint aligned alignedP ne.symm).mono_left (slot_subset aligned boundE)

/-- The entry `walkpgdir` writes. -/
theorem new_entry {p : Addr} (aligned : Aligned p) :
    has (V2P p ||| PTE_P ||| PTE_W ||| PTE_U) PTE_P = true ∧ has (V2P p ||| PTE_P ||| PTE_W ||| PTE_U) PTE_W = true ∧
      has (V2P p ||| PTE_P ||| PTE_W ||| PTE_U) PTE_U = true ∧
      has (V2P p ||| PTE_P ||| PTE_W ||| PTE_U) PTE_PS = false ∧
      P2V (PTE_ADDR (V2P p ||| PTE_P ||| PTE_W ||| PTE_U)) = p := by
  have base := aligned_V2P aligned
  have grouped : V2P p ||| PTE_P ||| PTE_W ||| PTE_U = V2P p ||| (PTE_P ||| PTE_W ||| PTE_U) := by
    simp only [BitVec.or_assoc]
  rw [grouped]
  refine ⟨?_, ?_, ?_, ?_, ?_⟩
  · rw [has_or base (by decide)]; decide
  · rw [has_or base (by decide)]; decide
  · rw [has_or base (by decide)]; decide
  · rw [has_or base (by decide)]; decide
  · rw [PTE_ADDR_or base (by decide), P2V_V2P]

theorem tableAt_addTable (m : Mem) {p : Addr} {d e : Nat} (alignedP : Aligned p) (aligned : Aligned pgdir)
    (ne : p ≠ pgdir) (boundD : d < 1024) (boundE : e < 1024) :
    tableAt (addTable m pgdir d p) pgdir e = if e = d then some p else tableAt m pgdir e := by
  unfold tableAt
  rw [pdeAt_addTable m alignedP aligned ne boundD boundE]
  obtain ⟨present, -, -, -, frame⟩ := new_entry alignedP
  by_cases same : e = d
  · simp only [if_pos same, present, frame, ↓reduceIte]
  · simp only [if_neg same]

/-- A cleared table says nothing about any page, as did the missing one. -/
theorem Directory.pteAt_addTable (dir : Directory s pgdir free) {p : Addr} {d : Nat} (isFree : p ∈ free)
    (bound : d < 1024) (missing : tableAt s.mem pgdir d = none) (n : Nat) (small : n < 2 ^ 20) :
    pteAt (addTable s.mem pgdir d p) pgdir n = pteAt s.mem pgdir n := by
  have alignedP := (dir.heap.frames p isFree).aligned
  have ne : p ≠ pgdir := fun same => dir.not_free (same ▸ isFree)
  have range : n / 1024 < 1024 := by omega
  have column : n % 1024 < 1024 := Nat.mod_lt n (by decide)
  unfold pteAt
  rw [tableAt_addTable s.mem alignedP dir.aligned ne bound range]
  by_cases same : n / 1024 = d
  · have apart := page_disjoint alignedP dir.aligned ne
    simp only [same, missing]
    calc read32 (addTable s.mem pgdir d p) (slot p (n % 1024))
        = read32 (fill s.mem p 0#8 4096) (slot p (n % 1024)) :=
          read32_write32_disjoint _ _ _ _
            ((apart.mono (slot_subset alignedP column) (slot_subset dir.aligned bound)).symm)
      _ = 0#32 := read32_fill_zero _ _ _ _ (slot_subset alignedP column)
  · rw [if_neg same]
    cases table : tableAt s.mem pgdir (n / 1024) with
    | none => rfl
    | some q =>
      have alignedQ := (dir.frame range table).aligned
      have other : q ≠ p := fun same => dir.table_not_free range table (same ▸ isFree)
      apply read32_congr
      apply (addTable_outside s.mem dir.aligned bound).mono
      apply (slot_subset alignedQ column).trans
      rw [Set.subset_compl_iff_disjoint_right, Set.disjoint_union_right]
      exact ⟨dir.table_disjoint range table, page_disjoint alignedQ alignedP other⟩

/-- Everything but the pages of the list. -/
def outside (pages : List Addr) : Set Addr := {x | ∀ p ∈ pages, x ∉ span p 4096}

theorem outside_anti {pages more : List Addr} (subset : pages ⊆ more) : outside more ⊆ outside pages :=
  fun _ away p member => away p (subset member)

/-- Tables may have been added and entries changed, with pages off the free list and
nothing else: no page is lost, and no other memory is touched. -/
structure Grows (pgdir : Addr) (s t : KernelState) (free free' : List Addr) : Prop where
  directory : Directory t pgdir free'
  rest : ∃ m c f, t = s.put m c f
  kept : ∀ d < 1024, ∀ p, tableAt s.mem pgdir d = some p → tableAt t.mem pgdir d = some p
  conserved : (tables t.mem pgdir ++ free').Perm (tables s.mem pgdir ++ free)
  unchanged : Set.EqOn t.mem s.mem (outside (pgdir :: (tables s.mem pgdir ++ free)))

theorem Grows.refl (dir : Directory s pgdir free) : Grows pgdir s s free free :=
  ⟨dir, ⟨_, _, _, rfl⟩, fun _ _ _ table => table, List.Perm.refl _, fun _ _ => rfl⟩

theorem Grows.trans {t u : KernelState} {free' free'' : List Addr} (first : Grows pgdir s t free free')
    (second : Grows pgdir t u free' free'') : Grows pgdir s u free free'' := by
  obtain ⟨m, c, f, rfl⟩ := first.rest
  obtain ⟨m', c', f', rfl⟩ := second.rest
  refine ⟨second.directory, ⟨m', c', f', rfl⟩, ?_, second.conserved.trans first.conserved, ?_⟩
  · intro d bound p table
    exact second.kept d bound p (first.kept d bound p table)
  · intro x away
    rw [second.unchanged (x := x) ?_, first.unchanged away]
    intro p member
    exact away p (((first.conserved.cons pgdir).mem_iff).mp member)

theorem filterMap_insert {f : Nat → Option Addr} {d : Nat} {p : Addr} {l : List Nat} (distinct : l.Nodup)
    (member : d ∈ l) (missing : f d = none) :
    (l.filterMap fun e => if e = d then some p else f e).Perm (p :: l.filterMap f) := by
  induction l with
  | nil => simp at member
  | cons e rest ih =>
    obtain ⟨fresh, distinct⟩ := List.nodup_cons.mp distinct
    by_cases same : e = d
    · subst same
      have tail : (rest.filterMap fun j => if j = e then some p else f j) = rest.filterMap f :=
        List.filterMap_congr fun j inside => if_neg (ne_of_mem_of_not_mem inside fresh)
      simp [missing, tail]
    · have inner : d ∈ rest := (List.mem_cons.mp member).resolve_left (Ne.symm same)
      have tail := ih distinct inner
      cases value : f e with
      | none => simpa [same, value] using tail
      | some q => simpa [same, value] using (tail.cons q).trans (List.Perm.swap p q _)

theorem tables_addTable (m : Mem) {p : Addr} {d : Nat} (alignedP : Aligned p) (aligned : Aligned pgdir)
    (ne : p ≠ pgdir) (bound : d < 1024) (missing : tableAt m pgdir d = none) :
    (tables (addTable m pgdir d p) pgdir).Perm (p :: tables m pgdir) := by
  have same : tables (addTable m pgdir d p) pgdir =
      (List.range 1024).filterMap fun e => if e = d then some p else tableAt m pgdir e :=
    List.filterMap_congr fun e member =>
      tableAt_addTable m alignedP aligned ne bound (List.mem_range.mp member)
  rw [same]
  exact filterMap_insert List.nodup_range (List.mem_range.mpr bound) missing

/-- One page moves from the free list to the tables. -/
theorem Directory.grows_addTable {p : Addr} (dir : Directory s pgdir (p :: free)) {d : Nat} {c : Processor}
    (bound : d < 1024) (missing : tableAt s.mem pgdir d = none)
    (heap : Heap (s.put s.mem c (read32 s.mem p)) free) :
    Grows pgdir s (s.put (addTable s.mem pgdir d p) c (read32 s.mem p)) (p :: free) free := by
  have isFree : p ∈ p :: free := by simp
  have frame : Frame s p := dir.heap.frames p isFree
  have ne : p ≠ pgdir := fun same => dir.not_free (same ▸ isFree)
  have moved := tables_addTable s.mem frame.aligned dir.aligned ne bound missing
  have conserved : (tables (addTable s.mem pgdir d p) pgdir ++ free).Perm (tables s.mem pgdir ++ p :: free) :=
    (moved.append_right free).trans List.perm_middle.symm
  refine ⟨⟨heap.setMem ?_, dir.aligned, ?_, ?_, ?_⟩, ⟨_, _, _, rfl⟩, ?_, conserved, ?_⟩
  · intro q member
    have alignedQ := (dir.heap.frames q (List.mem_cons_of_mem _ member)).aligned
    have apartDir : q ≠ pgdir := fun same => dir.not_free (same ▸ List.mem_cons_of_mem _ member)
    have apartP : q ≠ p := ne_of_mem_of_not_mem member (List.nodup_cons.mp dir.heap.distinct).1
    apply (addTable_outside s.mem dir.aligned bound).mono
    rw [Set.subset_compl_iff_disjoint_right, Set.disjoint_union_right]
    exact ⟨page_disjoint alignedQ dir.aligned apartDir, page_disjoint alignedQ frame.aligned apartP⟩
  · intro e boundE
    simp only [KernelState.put_mem]
    rw [pdeAt_addTable s.mem frame.aligned dir.aligned ne bound boundE]
    obtain ⟨-, writable, user, small, -⟩ := new_entry frame.aligned
    split
    · exact fun _ => ⟨writable, user, small⟩
    · exact dir.flags e boundE
  · intro q member
    rcases List.mem_cons.mp (moved.subset member) with rfl | old
    · exact frame
    · exact dir.frames q old
  · exact (conserved.cons pgdir).nodup_iff.mpr dir.distinct
  · intro e boundE q table
    simp only [KernelState.put_mem]
    rw [tableAt_addTable s.mem frame.aligned dir.aligned ne bound boundE, if_neg]
    · exact table
    · rintro rfl
      rw [missing] at table
      cases table
  · intro x away
    apply addTable_outside s.mem dir.aligned bound
    rintro (inDirectory | inPage)
    · exact away pgdir (by simp) inDirectory
    · exact away p (by simp) inPage

/-- Storing an entry keeps the directory, its tables and the free list as they are. -/
theorem Directory.grows_write (dir : Directory s pgdir free) {n : Nat} {table : Addr} (bound : n < 2 ^ 20)
    (found : tableAt s.mem pgdir (n / 1024) = some table) (entry : Word) :
    Grows pgdir s (s.setMem (write32 s.mem (slot table (n % 1024)) entry)) free free := by
  have range : n / 1024 < 1024 := by omega
  have aligned := (dir.frame range found).aligned
  have inside := slot_subset aligned (Nat.mod_lt n (by decide : 0 < 1024))
  obtain ⟨entries, -⟩ := dir.write_entry bound found entry
  have same := tables_congr entries
  refine ⟨⟨dir.heap.setMem ?_, dir.aligned, ?_, ?_, ?_⟩, ⟨_, _, _, rfl⟩, ?_, ?_, ?_⟩
  · intro q member
    have apart : q ≠ table := ne_of_mem_of_not_mem member (dir.table_not_free range found)
    apply (write32_outside s.mem _ entry).mono
    rw [Set.subset_compl_iff_disjoint_right]
    exact (page_disjoint (dir.heap.frames q member).aligned aligned apart).mono_right inside
  · intro d small
    simp only [KernelState.put_mem, entries d small]
    exact dir.flags d small
  · intro p member
    exact dir.frames p (same ▸ member)
  · simp only [KernelState.put_mem, same]
    exact dir.distinct
  · intro d small p old
    simp only [KernelState.put_mem, tableAt_congr (entries d small), old]
  · simp only [KernelState.put_mem, same, List.Perm.refl]
  · intro x away
    apply write32_outside s.mem _ entry
    intro near
    exact away table (by simp [mem_tables.mpr ⟨_, range, found⟩]) (inside near)

theorem slot_page (p va : Addr) :
    p + 4#32 * PDX va = slot p (va.toNat / 4096 / 1024) ∧ p + 4#32 * PTX va = slot p (va.toNat / 4096 % 1024) := by
  have level : va.toNat / 4096 / 1024 = va.toNat / 2 ^ 22 := by omega
  rw [level]
  exact ⟨slot_PDX p va, slot_PTX p va⟩

theorem run_walkpgdir_found (va table : Addr) (alloc : Bool)
    (found : tableAt s.mem pgdir (va.toNat / 4096 / 1024) = some table) :
    (walkpgdir pgdir va alloc).run s = .ok (slot table (va.toNat / 4096 % 1024)) s := by
  unfold tableAt at found
  split at found
  case isTrue present =>
    injection found with value
    unfold walkpgdir
    rw [(slot_page pgdir va).1, run_bind_ok (run_load32 _ _), run_ite]
    unfold pdeAt at present value
    rw [if_pos present, value, (slot_page table va).2]
    rfl
  case isFalse => cases found

theorem tableAt_eq_none {m : Mem} {d : Nat} : tableAt m pgdir d = none ↔ ¬ has (read32 m (slot pgdir d)) PTE_P = true := by
  unfold tableAt pdeAt
  split
  case isTrue present => simp [present]
  case isFalse absent => simp [absent]

theorem run_walkpgdir_missing (va : Addr) (missing : tableAt s.mem pgdir (va.toNat / 4096 / 1024) = none) :
    (walkpgdir pgdir va false).run s = .ok 0#32 s := by
  unfold walkpgdir
  rw [(slot_page pgdir va).1, run_bind_ok (run_load32 _ _), run_ite, if_neg (tableAt_eq_none.mp missing)]
  rfl

/-- A missing table is made from the first free page, if there is one. -/
theorem run_walkpgdir_alloc (dir : Directory s pgdir free) (va : Addr)
    (missing : tableAt s.mem pgdir (va.toNat / 4096 / 1024) = none) :
    (free = [] ∧ ∃ c, (walkpgdir pgdir va true).run s = .ok 0#32 (s.setCpu c) ∧ Quiet c) ∨
      ∃ p rest c, free = p :: rest ∧
        (walkpgdir pgdir va true).run s = .ok (slot p (va.toNat / 4096 % 1024))
          (s.put (addTable s.mem pgdir (va.toNat / 4096 / 1024) p) c (read32 s.mem p)) ∧
        Heap (s.put s.mem c (read32 s.mem p)) rest := by
  unfold walkpgdir
  rw [(slot_page pgdir va).1, run_bind_ok (run_load32 _ _), run_ite, if_neg (tableAt_eq_none.mp missing)]
  cases free with
  | nil =>
    obtain ⟨c, ran, heap⟩ := run_kalloc_nil s dir.heap
    refine Or.inl ⟨rfl, c, ?_, heap.quiet⟩
    simp [ran]
  | cons p rest =>
    obtain ⟨c, ran, heap⟩ := run_kalloc_cons s p rest dir.heap
    have nonzero : p ≠ 0#32 := (dir.heap.frames p (by simp)).ne_zero dir.heap.sentinel
    refine Or.inr ⟨p, rest, c, rfl, ?_, heap⟩
    rw [run_ite, if_neg (by simp), run_bind_ok ran, run_ite, if_neg nonzero]
    unfold clearPage
    rw [run_bind_ok (EStateM.run_modify _ _), memset_eq_fill _ _ _ _ (by decide), run_bind_ok (run_store32 _ _ _),
      (slot_page p va).2]
    rfl

theorem Directory.setCpu (dir : Directory s pgdir free) {c : Processor} (quiet : Quiet c) :
    Directory (s.setCpu c) pgdir free :=
  ⟨dir.heap.setCpu c quiet, dir.aligned, dir.flags, dir.frames, dir.distinct⟩

/-- Looking up an entry with permission to add a table: the view of the directory
does not change, and the table is there afterwards unless no page was free. -/
theorem run_walkpgdir (dir : Directory s pgdir free) (va : Addr) :
    (∃ t free' table, (walkpgdir pgdir va true).run s = .ok (slot table (va.toNat / 4096 % 1024)) t ∧
      Grows pgdir s t free free' ∧ tableAt t.mem pgdir (va.toNat / 4096 / 1024) = some table ∧
      (∀ n < 2 ^ 20, pteAt t.mem pgdir n = pteAt s.mem pgdir n) ∧
      ∀ d < 1024, tableAt t.mem pgdir d ≠ none → tableAt s.mem pgdir d ≠ none ∨ d = va.toNat / 4096 / 1024) ∨
    free = [] ∧ tableAt s.mem pgdir (va.toNat / 4096 / 1024) = none ∧
      ∃ c, (walkpgdir pgdir va true).run s = .ok 0#32 (s.setCpu c) ∧ Quiet c := by
  have bound : va.toNat / 4096 / 1024 < 1024 := by have := va.isLt; omega
  cases found : tableAt s.mem pgdir (va.toNat / 4096 / 1024) with
  | some table =>
    left
    exact ⟨s, free, table, run_walkpgdir_found va table true found, Grows.refl dir, found, fun _ _ => rfl,
      fun _ _ => Or.inl⟩
  | none =>
    rcases run_walkpgdir_alloc dir va found with ⟨empty, stopped⟩ | ⟨p, rest, c, rfl, ran, heap⟩
    · exact Or.inr ⟨empty, rfl, stopped⟩
    · left
      have isFree : p ∈ p :: rest := by simp
      have aligned := (dir.heap.frames p isFree).aligned
      have ne : p ≠ pgdir := fun same => dir.not_free (same ▸ isFree)
      have lookup (d : Nat) (small : d < 1024) := tableAt_addTable s.mem aligned dir.aligned ne bound small
      refine ⟨_, rest, p, ran, dir.grows_addTable bound found heap, ?_, dir.pteAt_addTable isFree bound found, ?_⟩
      · simp only [KernelState.put_mem, lookup _ bound, ↓reduceIte]
      · intro d small
        simp only [KernelState.put_mem, lookup d small]
        split
        case isTrue same => exact fun _ => Or.inr same
        case isFalse => exact Or.inl

theorem cleared_table (m : Mem) {p : Addr} (aligned : Aligned p) {d : Nat} (bound : d < 1024) :
    pdeAt (fill m p 0#8 4096) p d = 0#32 :=
  read32_fill_zero m p _ 4096 (slot_subset aligned bound)

theorem cleared_none (m : Mem) {p : Addr} (aligned : Aligned p) {d : Nat} (bound : d < 1024) :
    tableAt (fill m p 0#8 4096) p d = none := by
  rw [tableAt, cleared_table m aligned bound, has_zero]
  rfl

theorem cleared_tables (m : Mem) {p : Addr} (aligned : Aligned p) : tables (fill m p 0#8 4096) p = [] := by
  rw [tables, List.filterMap_eq_nil_iff]
  intro d member
  exact cleared_none m aligned (List.mem_range.mp member)

theorem cleared_view (m : Mem) {p : Addr} (aligned : Aligned p) {n : Nat} (bound : n < 2 ^ 20) :
    pteAt (fill m p 0#8 4096) p n = 0#32 := by
  rw [pteAt, cleared_none m aligned (by omega)]

/-- A cleared page that is not free is a directory without tables. -/
theorem Directory.fresh {p : Addr} (heap : Heap s free) (aligned : Aligned p) (apart : p ∉ free) :
    Directory (s.setMem (fill s.mem p 0#8 4096)) p free := by
  refine ⟨heap.setMem ?_, aligned, ?_, ?_, ?_⟩
  · intro q member
    apply (fill_outside s.mem p 0#8 4096).mono
    rw [Set.subset_compl_iff_disjoint_right]
    exact page_disjoint (heap.frames q member).aligned aligned (ne_of_mem_of_not_mem member apart)
  · intro d bound present
    rw [KernelState.put_mem, cleared_table s.mem aligned bound, has_zero] at present
    cases present
  · simp [cleared_tables s.mem aligned]
  · simpa [cleared_tables s.mem aligned] using ⟨apart, heap.distinct⟩

/-- The first free page is handed out; the directory keeps its tables. -/
theorem Directory.take {q : Addr} (dir : Directory s pgdir (q :: free)) {c : Processor} {f : Addr}
    (heap : Heap (s.put s.mem c f) free) :
    Directory (s.put s.mem c f) pgdir free ∧ q ∉ pgdir :: (tables s.mem pgdir ++ free) := by
  have moved : (q :: pgdir :: (tables s.mem pgdir ++ free)).Nodup := by
    have order : (pgdir :: (tables s.mem pgdir ++ q :: free)).Perm (q :: pgdir :: (tables s.mem pgdir ++ free)) :=
      (List.perm_middle.cons pgdir).trans (List.Perm.swap q pgdir _)
    exact order.nodup_iff.mp dir.distinct
  obtain ⟨apart, distinct⟩ := List.nodup_cons.mp moved
  exact ⟨⟨heap, dir.aligned, dir.flags, dir.frames, distinct⟩, apart⟩

theorem Directory.page_aligned (dir : Directory s pgdir free) {p : Addr}
    (member : p ∈ pgdir :: (tables s.mem pgdir ++ free)) : Aligned p := by
  rcases List.mem_cons.mp member with rfl | member
  · exact dir.aligned
  · rcases List.mem_append.mp member with isTable | isFree
    · exact (dir.frames p isTable).aligned
    · exact (dir.heap.frames p isFree).aligned

/-- A page that is no part of the directory and not free keeps its content. -/
theorem Grows.keeps_page {t : KernelState} {free' : List Addr} (grows : Grows pgdir s t free free')
    (dir : Directory s pgdir free) {q : Addr} (aligned : Aligned q)
    (apart : q ∉ pgdir :: (tables s.mem pgdir ++ free)) : Set.EqOn t.mem s.mem (span q 4096) := by
  intro x inside
  apply grows.unchanged
  intro p member near
  exact Set.disjoint_left.mp (page_disjoint (dir.page_aligned member) aligned (ne_of_mem_of_not_mem member apart)) near inside

/-- Writes into a page that is neither part of the directory nor free. -/
theorem Directory.setMem (dir : Directory s pgdir free) {q : Addr} {m : Mem} (aligned : Aligned q)
    (apart : q ∉ pgdir :: (tables s.mem pgdir ++ free)) (same : Set.EqOn m s.mem (span q 4096)ᶜ) :
    Directory (s.setMem m) pgdir free ∧ tables m pgdir = tables s.mem pgdir ∧
      ∀ n < 2 ^ 20, pteAt m pgdir n = pteAt s.mem pgdir n := by
  have kept (p : Addr) (member : p ∈ pgdir :: (tables s.mem pgdir ++ free)) : Set.EqOn m s.mem (span p 4096) := by
    apply same.mono
    rw [Set.subset_compl_iff_disjoint_right]
    exact page_disjoint (dir.page_aligned member) aligned (ne_of_mem_of_not_mem member apart)
  have directory := kept pgdir (by simp)
  have entries := pdeAt_congr dir.aligned directory
  have lists := tables_congr entries
  refine ⟨⟨dir.heap.setMem fun p isFree => kept p (by simp [isFree]), dir.aligned, ?_, ?_, ?_⟩, lists,
    dir.pteAt_congr directory fun p isTable => kept p (by simp [isTable])⟩
  · intro d bound
    simp only [KernelState.put_mem, entries d bound]
    exact dir.flags d bound
  · intro p isTable
    exact dir.frames p (lists ▸ isTable)
  · simp only [KernelState.put_mem, lists]
    exact dir.distinct

/-- A page that was not part of the directory goes back on the free list. -/
theorem Directory.give (dir : Directory s pgdir free) {q : Addr} {m : Mem} {c : Processor} (aligned : Aligned q)
    (apart : q ∉ pgdir :: (tables s.mem pgdir ++ free)) (same : Set.EqOn m s.mem (span q 4096)ᶜ)
    (heap : Heap (s.put m c q) (q :: free)) :
    Directory (s.put m c q) pgdir (q :: free) ∧ tables m pgdir = tables s.mem pgdir ∧
      ∀ n < 2 ^ 20, pteAt m pgdir n = pteAt s.mem pgdir n := by
  obtain ⟨dir', lists, view⟩ := dir.setMem aligned apart same
  refine ⟨⟨heap, dir.aligned, dir'.flags, dir'.frames, ?_⟩, lists, view⟩
  have order : (pgdir :: (tables m pgdir ++ q :: free)).Perm
      (q :: pgdir :: (tables s.mem pgdir ++ free)) := by
    rw [lists]
    exact (List.perm_middle.cons pgdir).trans (List.Perm.swap q pgdir _)
  exact order.nodup_iff.mpr (List.nodup_cons.mpr ⟨apart, dir.distinct⟩)

end Directories

end OsDev.Kernel.PageTables
