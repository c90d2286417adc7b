import OsDev.Kernel.MapPages

/-! The address space of a process: the kernel half that `setupkvm` maps into
every directory, and the first user page that `inituvm` fills. -/

namespace OsDev.Kernel.AddressSpace
open OsDev.Machine.Memory OsDev.Machine.Program
open OsDev.Kernel.SpinLocks OsDev.Kernel.Mmu OsDev.Kernel.State OsDev.Kernel.StringLib OsDev.Kernel.Kalloc
open OsDev.Kernel.Paging OsDev.Kernel.KallocRuns OsDev.Kernel.PageTables OsDev.Kernel.MapPages

/-- What the memory map of the machine has to satisfy: the three ranges of the
kernel half do not wrap and share no page. -/
structure Firmware (s : KernelState) : Prop where
  physical : KERNBASE.toNat + s.physEnd.toNat ≤ 2 ^ 32
  acpiHigh : KERNBASE ≤ P2V s.acpi
  acpiFits : (P2V s.acpi).toNat + s.acpiLen.toNat ≤ 2 ^ 32
  acpiSome : 1 ≤ s.acpiLen.toNat
  memoryAcpi : Disjoint (pagesOf KERNBASE s.physEnd) (pagesOf (P2V s.acpi) s.acpiLen)
  memoryDevices : Disjoint (pagesOf KERNBASE s.physEnd) (pagesOf DEVSPACE 0xf00000#32)
  acpiDevices : Disjoint (pagesOf (P2V s.acpi) s.acpiLen) (pagesOf DEVSPACE 0xf00000#32)

def kernelPages (s : KernelState) : Finset Nat :=
  pagesOf KERNBASE s.physEnd ∪ pagesOf (P2V s.acpi) s.acpiLen ∪ pagesOf DEVSPACE 0xf00000#32

theorem pagesOf_disjoint {va size va' size' : Addr}
    (before : (va.toNat + size.toNat - 1) / 4096 < va'.toNat / 4096) :
    Disjoint (pagesOf va size) (pagesOf va' size') := by
  rw [Finset.disjoint_left]
  intro n first second
  have := (Finset.mem_Icc.mp first).2
  have := (Finset.mem_Icc.mp second).1
  omega

/-- A directory under construction: pages were only taken for its tables, and
nothing but `pages` has been mapped. -/
structure Partial (pgdir : Addr) (s t : KernelState) (free free' : List Addr) (pages : Finset Nat) : Prop where
  grows : Grows pgdir s t free free'
  inside : present t.mem pgdir ⊆ pages.image (· / 1024)
  blank : ∀ n < 2 ^ 20, n ∉ pages → pteAt t.mem pgdir n = 0#32

section Construction
variable {pgdir : Addr} {s t : KernelState} {free free' : List Addr} {pages : Finset Nat}

/-- Everything in `pages` is mapped. -/
structure Full (pgdir : Addr) (t : KernelState) (pages : Finset Nat) : Prop where
  bound : ∀ n ∈ pages, n < 2 ^ 20
  present : ∀ n ∈ pages, has (pteAt t.mem pgdir n) PTE_P = true

/-- The entries of a range. -/
def Installed (pgdir : Addr) (t : KernelState) (va size pa perm : Addr) : Prop :=
  ∀ k ≤ steps va size, pteAt t.mem pgdir (pageNo (va.toNat / 4096) k) = entryFor pa perm k

theorem Installed.entry {va size pa perm : Addr} (installed : Installed pgdir t va size pa perm) (positive : 1 ≤ size.toNat)
    (fits : va.toNat + size.toNat ≤ 2 ^ 32) {n : Nat} (range : n ∈ pagesOf va size) :
    pteAt t.mem pgdir n = entryFor pa perm (n - va.toNat / 4096) := by
  obtain ⟨k, upto, rfl⟩ := (mem_pagesOf positive).mp range
  have count : steps va size = _ := range_count positive (by omega)
  have entry := installed k (by omega)
  rw [pageNo_straight (by omega) upto] at entry
  rw [entry, Nat.add_sub_cancel_left]

/-- What is mapped stays mapped. -/
theorem Installed.kept {u : KernelState} {va size pa perm : Addr} (installed : Installed pgdir t va size pa perm)
    (subset : visited va size ⊆ pages) (kept : ∀ n ∈ pages, pteAt u.mem pgdir n = pteAt t.mem pgdir n) :
    Installed pgdir u va size pa perm := by
  intro k upto
  rw [kept _ (subset (mem_visited.mpr ⟨k, upto, rfl⟩)), installed k upto]

/-- One more range: it is mapped, and then it was free; or there is no page left for a
table; or one of its pages was mapped before. -/
theorem Partial.visit (built : Partial pgdir s t free free' pages) (full : Full pgdir t pages) (va size pa perm : Addr) :
    ∃ u free'', Partial pgdir s u free free'' (pages ∪ visited va size) ∧
      ((mappages pgdir va size pa perm).run t = .ok 0 u ∧ Disjoint pages (visited va size) ∧
          Full pgdir u (pages ∪ visited va size) ∧
          Installed pgdir u va size pa perm ∧ (∀ n ∈ pages, pteAt u.mem pgdir n = pteAt t.mem pgdir n) ∨
        (mappages pgdir va size pa perm).run t = .ok (-1) u ∧ free'' = [] ∧
          (∃ n ∈ pages ∪ visited va size, tableAt u.mem pgdir (n / 1024) = none) ∨
        (mappages pgdir va size pa perm).run t = .error (.panic "remap") u ∧ ¬ Disjoint pages (visited va size)) := by
  obtain ⟨done, u, free'', mapped, ending⟩ := run_mappages built.grows.directory va size pa perm
  change Ending pgdir t u free'' (va.toNat / 4096) (steps va size) done _ at ending
  generalize (mappages pgdir va size pa perm).run t = result at ending ⊢
  have short : done ≤ steps va size + 1 := by
    cases ending <;> omega
  have grown : Partial pgdir s u free free'' (pages ∪ visited va size) := by
    refine ⟨built.grows.trans mapped.grows, ?_, ?_⟩
    · intro d member
      obtain ⟨bound, there⟩ := mem_present.mp member
      rw [Finset.image_union, Finset.mem_union]
      rcases mapped.touched d bound there with old | ⟨k, less, rfl⟩
      · exact .inl (built.inside (mem_present.mpr ⟨bound, old⟩))
      · exact .inr (Finset.mem_image_of_mem _ (mem_visited.mpr ⟨k, by omega, rfl⟩))
    · intro n bound away
      rw [Finset.mem_union, not_or] at away
      rw [mapped.others n bound fun k less same => away.2 (mem_visited.mpr ⟨k, by omega, same.symm⟩),
        built.blank n bound away.1]
  refine ⟨u, free'', grown, ?_⟩
  cases ending with
  | mapped all =>
    have clear (n : Nat) (member : n ∈ visited va size) : has (pteAt t.mem pgdir n) PTE_P = false := by
      obtain ⟨k, upto, rfl⟩ := mem_visited.mp member
      exact mapped.clear k (by omega)
    have apart : Disjoint pages (visited va size) := by
      rw [Finset.disjoint_left]
      intro n old new
      have there := full.present n old
      rw [clear n new] at there
      cases there
    have kept (n : Nat) (old : n ∈ pages) : pteAt u.mem pgdir n = pteAt t.mem pgdir n := by
      apply mapped.others n (full.bound n old)
      rintro k less rfl
      exact Finset.disjoint_left.mp apart old (mem_visited.mpr ⟨k, by omega, rfl⟩)
    refine .inl ⟨rfl, apart, ⟨?_, ?_⟩, fun k upto => mapped.installed k (by omega), kept⟩
    · intro n member
      exact (Finset.mem_union.mp member).elim (full.bound n) visited_lt
    · intro n member
      rcases Finset.mem_union.mp member with old | new
      · rw [kept n old, full.present n old]
      · obtain ⟨k, upto, rfl⟩ := mem_visited.mp new
        rw [mapped.installed k (by omega), has_entryFor]
  | exhausted more empty missing =>
    exact .inr (.inl ⟨rfl, empty, _, Finset.mem_union_right _ (mem_visited.mpr ⟨done, more, rfl⟩), missing⟩)
  | remap more there =>
    refine .inr (.inr ⟨rfl, ?_⟩)
    intro apart
    have new : pageNo (va.toNat / 4096) done ∈ visited va size := mem_visited.mpr ⟨done, more, rfl⟩
    rw [built.blank _ (pageNo_lt _ _) (Finset.disjoint_right.mp apart new), has_zero] at there
    cases there

theorem Partial.mono (built : Partial pgdir s t free free' pages) {more : Finset Nat} (subset : pages ⊆ more) :
    Partial pgdir s t free free' more :=
  ⟨built.grows, built.inside.trans (Finset.image_subset_image subset),
    fun n bound away => built.blank n bound fun member => away (subset member)⟩

theorem Partial.start (heap : Heap s free) {p : Addr} (aligned : Aligned p) (apart : p ∉ free) :
    Partial p (s.setMem (fill s.mem p 0#8 4096)) (s.setMem (fill s.mem p 0#8 4096)) free free ∅ := by
  refine ⟨Grows.refl (Directory.fresh heap aligned apart), ?_, fun n bound _ => cleared_view s.mem aligned bound⟩
  intro d member
  obtain ⟨bound, there⟩ := mem_present.mp member
  exact absurd (cleared_none s.mem aligned bound) there

/-- A call whose negative result leads to the failure path. -/
theorem run_checked_passed {α : Type} {call : Prog KernelState Int} {fail next : Prog KernelState α}
    (ran : call.run s = .ok 0 t) : EStateM.run (do if (← call) < 0 then fail else next) s = next.run t := by
  rw [run_bind_ok ran, run_ite, if_neg (by decide)]

theorem run_checked_failed {α : Type} {call : Prog KernelState Int} {fail next : Prog KernelState α}
    (ran : call.run s = .ok (-1) t) : EStateM.run (do if (← call) < 0 then fail else next) s = fail.run t := by
  rw [run_bind_ok ran, run_ite, if_pos (by decide)]

/-- The directory page itself, taken from the list and cleared. -/
def emptied (s : KernelState) (p : Addr) (c : Processor) : KernelState :=
  s.put (fill s.mem p 0#8 4096) c (read32 s.mem p)

/-- The entries of the kernel half: physical memory, the ACPI tables and the devices,
writable, and closed to user mode. -/
def kernelEntry (s : KernelState) (n : Nat) : Word :=
  if n ∈ pagesOf KERNBASE s.physEnd then entryFor 0#32 PTE_W (n - KERNBASE.toNat / 4096)
  else if n ∈ pagesOf (P2V s.acpi) s.acpiLen then entryFor s.acpi PTE_W (n - (P2V s.acpi).toNat / 4096)
  else entryFor DEVSPACE PTE_W (n - DEVSPACE.toNat / 4096)

theorem has_kernelEntry (s : KernelState) (n : Nat) : has (kernelEntry s n) PTE_P = true := by
  unfold kernelEntry
  split
  · exact has_entryFor _ _ _
  · split
    · exact has_entryFor _ _ _
    · exact has_entryFor _ _ _

/-- The directory page comes first; the three ranges follow. -/
theorem run_setupkvm_start {p : Addr} {rest : List Addr} (heap : Heap s (p :: rest)) :
    ∃ c, Partial p (emptied s p c) (emptied s p c) rest rest ∅ ∧
      setupkvm.run s = EStateM.run (do
        if (← mappages p KERNBASE s.physEnd 0#32 PTE_W) < 0 then mapfail p
        else if (← mappages p (P2V s.acpi) s.acpiLen s.acpi PTE_W) < 0 then mapfail p
        else if (← mappages p DEVSPACE 0xf00000#32 DEVSPACE PTE_W) < 0 then mapfail p
        else return p) (emptied s p c) := by
  obtain ⟨c, ran, heap'⟩ := run_kalloc_cons s p rest heap
  have frame := heap.frames p (by simp)
  have nonzero : p ≠ 0#32 := frame.ne_zero heap.sentinel
  refine ⟨c, Partial.start heap' frame.aligned (List.nodup_cons.mp heap.distinct).1, ?_⟩
  unfold setupkvm clearPage
  rw [run_bind_ok ran, run_ite, if_neg nonzero, run_bind_ok (EStateM.run_modify _ _),
    memset_eq_fill _ _ _ _ (by decide), run_bind_ok (EStateM.run_get _)]
  simp only [KernelState.put_physEnd, KernelState.put_acpi, KernelState.put_acpiLen, BitVec.sub_zero]
  rfl

/-- The pages `setupkvm` visits for physical memory, the ACPI tables and the devices. -/
def memoryPages (s : KernelState) : Finset Nat := visited KERNBASE s.physEnd
def tablePages (s : KernelState) : Finset Nat := visited (P2V s.acpi) s.acpiLen
def devicePages : Finset Nat := visited DEVSPACE 0xf00000#32

/-- No page is visited twice. -/
def Apart (s : KernelState) : Prop := Disjoint (memoryPages s) (tablePages s) ∧ Disjoint (memoryPages s ∪ tablePages s) devicePages

/-- `setupkvm` returns if no page is visited twice, unless the free list runs empty. -/
theorem run_setupkvm_ring {p : Addr} {rest : List Addr} (heap : Heap s (p :: rest)) :
    ∃ c t free', Directory (emptied s p c) p rest ∧
      Partial p (emptied s p c) t rest free' (memoryPages s ∪ tablePages s ∪ devicePages) ∧
      (setupkvm.run s = .ok p t ∧ Apart s ∧ Full p t (memoryPages s ∪ tablePages s ∪ devicePages) ∧
          Installed p t KERNBASE s.physEnd 0#32 PTE_W ∧ Installed p t (P2V s.acpi) s.acpiLen s.acpi PTE_W ∧
          Installed p t DEVSPACE 0xf00000#32 DEVSPACE PTE_W ∨
        setupkvm.run s = (mapfail p).run t ∧ free' = [] ∧
          (∃ n ∈ memoryPages s ∪ tablePages s ∪ devicePages, tableAt t.mem p (n / 1024) = none) ∨
        (∃ e, setupkvm.run s = .error e t) ∧ ¬ Apart s) := by
  obtain ⟨c, start, enter⟩ := run_setupkvm_start heap
  refine ⟨c, ?_⟩
  rw [enter]
  have dir := start.grows.directory
  have first : memoryPages s ⊆ memoryPages s ∪ tablePages s := Finset.subset_union_left
  have second : tablePages s ⊆ memoryPages s ∪ tablePages s := Finset.subset_union_right
  have firstTwo : memoryPages s ∪ tablePages s ⊆ memoryPages s ∪ tablePages s ∪ devicePages := Finset.subset_union_left
  have empty : Full p (emptied s p c) ∅ := ⟨by simp, by simp⟩
  obtain ⟨t₁, free₁, built₁, ⟨ran₁, -, full₁, memory, -⟩ | ⟨ran₁, exhausted, n, wanted, missing⟩ | ⟨-, overlap⟩⟩ :=
    start.visit empty KERNBASE s.physEnd 0#32 PTE_W
  · rw [Finset.empty_union] at built₁ full₁
    rw [run_checked_passed ran₁]
    obtain ⟨t₂, free₂, built₂, ⟨ran₂, apart₂, full₂, tables, kept₂⟩ | ⟨ran₂, exhausted, n, wanted, missing⟩ | ⟨ran₂, overlap⟩⟩ :=
      built₁.visit full₁ (P2V s.acpi) s.acpiLen s.acpi PTE_W
    · rw [run_checked_passed ran₂]
      obtain ⟨t₃, free₃, built₃, ⟨ran₃, apart₃, full₃, devices, kept₃⟩ | ⟨ran₃, exhausted, n, wanted, missing⟩ |
        ⟨ran₃, overlap⟩⟩ := built₂.visit full₂ DEVSPACE 0xf00000#32 DEVSPACE PTE_W
      · rw [run_checked_passed ran₃]
        exact ⟨t₃, free₃, dir, built₃, .inl ⟨rfl, ⟨apart₂, apart₃⟩, full₃,
          (memory.kept (Finset.Subset.refl _) kept₂).kept first kept₃, tables.kept second kept₃, devices⟩⟩
      · rw [run_checked_failed ran₃]
        exact ⟨t₃, free₃, dir, built₃, .inr (.inl ⟨rfl, exhausted, n, wanted, missing⟩)⟩
      · rw [run_bind_error ran₃]
        exact ⟨t₃, free₃, dir, built₃, .inr (.inr ⟨⟨_, rfl⟩, fun apart => overlap apart.2⟩)⟩
    · rw [run_checked_failed ran₂]
      exact ⟨t₂, free₂, dir, built₂.mono firstTwo, .inr (.inl ⟨rfl, exhausted, n, firstTwo wanted, missing⟩)⟩
    · rw [run_bind_error ran₂]
      exact ⟨t₂, free₂, dir, built₂.mono firstTwo, .inr (.inr ⟨⟨_, rfl⟩, fun apart => overlap apart.1⟩)⟩
  · rw [Finset.empty_union] at built₁ wanted
    rw [run_checked_failed ran₁]
    exact ⟨t₁, free₁, dir, built₁.mono (first.trans firstTwo), .inr (.inl ⟨rfl, exhausted, n, firstTwo (first wanted), missing⟩)⟩
  · exact absurd (Finset.disjoint_empty_left _) overlap

theorem devicePages_eq : devicePages = pagesOf DEVSPACE 0xf00000#32 := visited_eq_pagesOf (.inl (by decide)) (by decide)

/-- If no page of memory is a device page, memory ends below the devices, and there is some. -/
theorem memory_bounds (apart : Disjoint (memoryPages s) devicePages) :
    1 ≤ s.physEnd.toNat ∧ s.physEnd.toNat ≤ 0x7E000000 := by
  have device : 0xFE000 ∈ devicePages := first_visited DEVSPACE 0xf00000#32
  have few : ¬ 0x7E000 ≤ steps KERNBASE s.physEnd := by
    intro many
    apply Finset.disjoint_right.mp apart device
    exact mem_visited.mpr ⟨0x7E000, many, by decide⟩
  rw [steps_of_aligned (by decide)] at few
  bv_omega

/-- `setupkvm` maps the whole kernel half, or takes its failure path when the free
list has run empty. -/
theorem run_setupkvm {p : Addr} {rest : List Addr} (heap : Heap s (p :: rest)) (firmware : Firmware s)
    (memory : 1 ≤ s.physEnd.toNat) :
    ∃ c t free', Directory (emptied s p c) p rest ∧
      Partial p (emptied s p c) t rest free' (kernelPages s) ∧ tables (emptied s p c).mem p = [] ∧
      (setupkvm.run s = .ok p t ∧ (∀ n ∈ kernelPages s, pteAt t.mem p n = kernelEntry s n) ∨
        setupkvm.run s = (mapfail p).run t ∧ free' = [] ∧
          ∃ n ∈ kernelPages s, tableAt t.mem p (n / 1024) = none) := by
  have sameMemory : memoryPages s = pagesOf KERNBASE s.physEnd := visited_eq_pagesOf (.inl memory) firmware.physical
  have sameTables : tablePages s = pagesOf (P2V s.acpi) s.acpiLen :=
    visited_eq_pagesOf (.inl firmware.acpiSome) firmware.acpiFits
  have same : memoryPages s ∪ tablePages s ∪ devicePages = kernelPages s := by
    rw [sameMemory, sameTables, devicePages_eq, kernelPages]
  have apart : Apart s := by
    rw [Apart, sameMemory, sameTables, devicePages_eq, Finset.disjoint_union_left]
    exact ⟨firmware.memoryAcpi, firmware.memoryDevices, firmware.acpiDevices⟩
  have blank := cleared_tables s.mem (heap.frames p (by simp)).aligned
  obtain ⟨c, t, free', dir, built, ending⟩ := run_setupkvm_ring heap
  rw [same] at built ending
  refine ⟨c, t, free', dir, built, blank, ?_⟩
  rcases ending with ⟨ran, -, -, memoryEntries, tableEntries, deviceEntries⟩ | exhausted | ⟨-, overlap⟩
  · refine .inl ⟨ran, ?_⟩
    intro n member
    unfold kernelEntry
    by_cases isMemory : n ∈ pagesOf KERNBASE s.physEnd
    · rw [if_pos isMemory, memoryEntries.entry memory firmware.physical isMemory]
    · rw [if_neg isMemory]
      by_cases isAcpi : n ∈ pagesOf (P2V s.acpi) s.acpiLen
      · rw [if_pos isAcpi, tableEntries.entry firmware.acpiSome firmware.acpiFits isAcpi]
      · rw [if_neg isAcpi]
        apply deviceEntries.entry (by decide) (by decide)
        simpa [kernelPages, isMemory, isAcpi] using member
  · exact .inr exhausted
  · exact absurd apart overlap

/-- Memory below the heap is out of reach of everything that writes into heap pages. -/
theorem InHeap.not_below {start stop p x : Addr} (frame : InHeap start stop p) (below : x < start) :
    x ∉ span p 4096 := by
  have above := frame.above
  have aligned := frame.aligned
  unfold Aligned at aligned
  simp only [mem_span]
  bv_omega

theorem Directory.below_outside (dir : Directory s pgdir free) (frame : Frame s pgdir) {x : Addr}
    (below : x < s.kheapStart) : x ∈ outside (pgdir :: (tables s.mem pgdir ++ free)) := by
  intro p member
  rcases List.mem_cons.mp member with rfl | member
  · exact InHeap.not_below frame below
  · rcases List.mem_append.mp member with isTable | isFree
    · exact InHeap.not_below (dir.frames p isTable) below
    · exact InHeap.not_below (dir.heap.frames p isFree) below

theorem Grows.below (grows : Grows pgdir s t free free') (dir : Directory s pgdir free) (frame : Frame s pgdir)
    {x : Addr} (below : x < s.kheapStart) : t.mem x = s.mem x :=
  grows.unchanged (Directory.below_outside dir frame below)

/-- An image below the heap is apart from every page that may be written. -/
theorem Directory.image_outside (dir : Directory s pgdir free) (frame : Frame s pgdir) {init sz : Addr} (count : Nat)
    (image : init.toNat + sz.toNat ≤ s.kheapStart.toNat) (a : Addr) (part : a < sz) :
    init + a ∈ outside (pgdir :: (tables s.mem pgdir ++ free.take count)) := by
  have below : init + a < s.kheapStart := by bv_omega
  refine outside_anti (List.cons_subset_cons pgdir ?_) (Directory.below_outside dir frame below)
  exact ((List.take_sublist _ _).append_left _).subset

/-- For a single page the loop makes one turn. -/
theorem mappages_page {va : Addr} (pa perm : Addr) (aligned : Aligned va) :
    mappages pgdir va PGSIZE pa perm = mappagesLoop pgdir va perm (2 ^ 20 - 1 + 1) va pa := by
  have first : PGROUNDDOWN va = va := by
    unfold Aligned at aligned
    have := PGROUNDDOWN_toNat va
    bv_omega
  have last : PGROUNDDOWN (va + PGSIZE - 1#32) = va := by
    unfold Aligned at aligned
    have := PGROUNDDOWN_toNat (va + PGSIZE - 1#32)
    unfold PGSIZE at *
    bv_omega
  unfold mappages
  rw [first, last, Nat.sub_add_cancel Nat.one_le_two_pow]

/-- The page has a table, which was there or was just made, and is not present. -/
theorem run_mappages_entry {va table : Addr} (pa perm : Addr) (aligned : Aligned va)
    (walked : (walkpgdir pgdir va true).run s = .ok (slot table (va.toNat / 4096 % 1024)) t) (dir : Directory t pgdir free)
    (found : tableAt t.mem pgdir (va.toNat / 4096 / 1024) = some table)
    (clear : has (pteAt t.mem pgdir (va.toNat / 4096)) PTE_P = false) :
    (mappages pgdir va PGSIZE pa perm).run s =
      .ok 0 (t.setMem (write32 t.mem (slot table (va.toNat / 4096 % 1024)) (pa ||| perm ||| PTE_P))) := by
  have bound : va.toNat / 4096 < 2 ^ 20 := by have := va.isLt; omega
  rw [mappages_page pa perm aligned, mappagesLoop, run_bind_ok walked, run_ite, if_neg (dir.slot_ne_zero bound found),
    run_bind_ok (run_load32 _ _), run_ite, read32_slot found, clear, if_neg (by decide), run_bind_ok (run_store32 _ _ _), run_ite,
    if_pos rfl]
  rfl

/-- A single page that is not present: one entry is written, into a table that is made first if it is missing. -/
theorem run_mappages_page (va pa perm : Addr) (dir : Directory s pgdir free) (aligned : Aligned va)
    (clear : has (pteAt s.mem pgdir (va.toNat / 4096)) PTE_P = false) :
    ∃ t free', Grows pgdir s t free free' ∧
      (∀ n < 2 ^ 20, n ≠ va.toNat / 4096 → pteAt t.mem pgdir n = pteAt s.mem pgdir n) ∧
      Set.EqOn t.mem s.mem (outside (pgdir :: (tables s.mem pgdir ++ free.take 1))) ∧
      ((mappages pgdir va PGSIZE pa perm).run s = .ok 0 t ∧
          pteAt t.mem pgdir (va.toNat / 4096) = pa ||| perm ||| PTE_P ∧
          (tableAt s.mem pgdir (va.toNat / 4096 / 1024) = none → free ≠ []) ∨
        (mappages pgdir va PGSIZE pa perm).run s = .ok (-1) t ∧ free = [] ∧
          tableAt s.mem pgdir (va.toNat / 4096 / 1024) = none ∧ pteAt t.mem pgdir (va.toNat / 4096) = 0#32) := by
  have bound : va.toNat / 4096 < 2 ^ 20 := by have := va.isLt; omega
  have range : va.toNat / 4096 / 1024 < 1024 := by omega
  have column : va.toNat / 4096 % 1024 < 1024 := Nat.mod_lt _ (by decide)
  cases found : tableAt s.mem pgdir (va.toNat / 4096 / 1024) with
  | some table =>
    obtain ⟨-, view⟩ := dir.write_entry bound found (pa ||| perm ||| PTE_P)
    refine ⟨_, free, dir.grows_write bound found (pa ||| perm ||| PTE_P), ?_, ?_, .inl ⟨?_, ?_, by simp⟩⟩
    · intro n small other
      rw [KernelState.put_mem, view n small, if_neg other]
    · intro x away
      apply write32_outside
      intro near
      exact away table (by simp [mem_tables.mpr ⟨_, range, found⟩])
        (slot_subset (dir.frame range found).aligned column near)
    · exact run_mappages_entry pa perm aligned (run_walkpgdir_found va table true found) dir found clear
    · rw [KernelState.put_mem, view _ bound, if_pos rfl]
  | none =>
    rcases run_walkpgdir_alloc dir va found with ⟨rfl, c, ran, quiet⟩ | ⟨p, rest, c, rfl, ran, heap⟩
    · refine ⟨s.setCpu c, [], ⟨dir.setCpu quiet, ⟨_, _, _, rfl⟩, fun _ _ _ table => table, List.Perm.refl _, fun _ _ => rfl⟩,
        fun _ _ _ => rfl, fun _ _ => rfl, .inr ⟨?_, rfl, rfl, ?_⟩⟩
      · rw [mappages_page pa perm aligned, mappagesLoop, run_bind_ok ran, run_ite, if_pos rfl]
        rfl
      · show pteAt s.mem pgdir (va.toNat / 4096) = 0#32
        rw [pteAt, found]
    · have isFree : p ∈ p :: rest := by simp
      have frame := dir.heap.frames p isFree
      have ne : p ≠ pgdir := fun same => dir.not_free (same ▸ isFree)
      have grown := dir.grows_addTable range found heap
      have same := dir.pteAt_addTable isFree range found
      have there : tableAt (addTable s.mem pgdir (va.toNat / 4096 / 1024) p) pgdir (va.toNat / 4096 / 1024) = some p := by
        rw [tableAt_addTable s.mem frame.aligned dir.aligned ne range range, if_pos rfl]
      obtain ⟨-, view⟩ := grown.directory.write_entry bound there (pa ||| perm ||| PTE_P)
      refine ⟨_, rest, grown.trans (grown.directory.grows_write bound there (pa ||| perm ||| PTE_P)), ?_, ?_,
        .inl ⟨?_, ?_, by simp⟩⟩
      · intro n small other
        rw [KernelState.put_mem, view n small, if_neg other]
        exact same n small
      · intro x away
        have offTable := away p (by simp)
        rw [KernelState.put_mem, write32_outside _ _ _ (fun near => offTable (slot_subset frame.aligned column near))]
        apply addTable_outside s.mem dir.aligned range
        rintro (inDirectory | inTable)
        · exact away pgdir (by simp) inDirectory
        · exact offTable inTable
      · apply run_mappages_entry pa perm aligned ran grown.directory there
        rw [KernelState.put_mem, same _ bound]
        exact clear
      · rw [KernelState.put_mem, view _ bound, if_pos rfl]

/-- What `inituvm` leaves when it found a page for the image. -/
structure Loaded (pgdir init sz q : Addr) (s : KernelState) (free : List Addr) (u : KernelState) (free' : List Addr) :
    Prop where
  dir : Directory u pgdir free'
  rest : ∃ m c f, u = s.put m c f
  owned : q ∉ pgdir :: (tables u.mem pgdir ++ free')
  others : ∀ n < 2 ^ 20, n ≠ 0 → pteAt u.mem pgdir n = pteAt s.mem pgdir n
  bytes : ∀ a : Addr, a < PGSIZE → u.mem (q + a) = if a < sz then s.mem (init + a) else 0#8
  within : Set.EqOn u.mem s.mem (outside (pgdir :: (tables s.mem pgdir ++ (q :: free).take 2)))

/-- An image that is no part of a page is copied there forward. -/
theorem forward_of_apart {q init sz : Addr} (apart : ∀ a : Addr, a < sz → init + a ∉ span q 4096) :
    sz.toNat ≤ (q - init).toNat := by
  by_contra overlap
  have back : init + (q - init) = q := by bv_omega
  apply apart (q - init) (by bv_omega)
  rw [back, mem_span]
  simp

theorem memcpy_page (m : Mem) {q init sz a : Addr} (forward : sz.toNat ≤ (q - init).toNat) :
    memcpy m q init sz.toNat (q + a) = if a < sz then m (init + a) else m (q + a) := by
  have offset : q + a - q = a := by bv_omega
  rw [memcpy_apply m q init (q + a) sz.toNat forward, offset]
  simp only [← BitVec.lt_def]

/-- Clearing another page leaves the tables where they are. -/
theorem tableAt_fill {q : Addr} (dir : Directory s pgdir free) (aligned : Aligned q) (ne : pgdir ≠ q) {d : Nat} (bound : d < 1024) :
    tableAt (fill s.mem q 0#8 4096) pgdir d = tableAt s.mem pgdir d := by
  apply tableAt_congr
  apply pdeAt_congr dir.aligned _ d bound
  apply (fill_outside s.mem q 0#8 4096).mono
  exact Set.subset_compl_iff_disjoint_right.mpr (page_disjoint dir.aligned aligned ne)

/-- `inituvm` with a page for the image at hand and the image apart from the pages written: it
returns, also when there was no page left for the table. -/
theorem run_inituvm_loaded {q : Addr} (init sz : Addr) {rest : List Addr} (dir : Directory s pgdir (q :: rest))
    (small : sz < PGSIZE) (clear : has (pteAt s.mem pgdir 0) PTE_P = false)
    (image : ∀ a : Addr, a < sz → init + a ∈ outside (pgdir :: (tables s.mem pgdir ++ (q :: rest).take 2))) :
    ∃ u free', (inituvm pgdir init sz).run s = .ok () u ∧ Loaded pgdir init sz q s rest u free' ∧
      (pteAt u.mem pgdir 0 = entryFor (V2P q) (PTE_W ||| PTE_U) 0 ∧ (tableAt s.mem pgdir 0 = none → rest ≠ []) ∨
        rest = [] ∧ tableAt s.mem pgdir 0 = none ∧ pteAt u.mem pgdir 0 = 0#32) := by
  have frameQ : Frame s q := dir.heap.frames q (by simp)
  obtain ⟨c, allocated, heap⟩ := run_kalloc_cons s q rest dir.heap
  obtain ⟨taken, apart⟩ := dir.take heap
  obtain ⟨cleared, sameTables, view⟩ := taken.setMem frameQ.aligned apart (fill_outside s.mem q 0#8 4096)
  have sameTable := tableAt_fill dir frameQ.aligned (ne_of_mem_of_not_mem List.mem_cons_self apart) (show 0 < 1024 by decide)
  obtain ⟨t, free', grows, others, near, ending⟩ := run_mappages_page 0#32 (V2P q) (PTE_W ||| PTE_U) cleared
    (by decide) (by rw [KernelState.put_mem, view _ (by decide)]; exact clear)
  rw [KernelState.put_mem, sameTables] at near
  have forward : sz.toNat ≤ (q - init).toNat := forward_of_apart fun a part => image a part q (by simp)
  have move : memmove t.mem q init sz.toNat = memcpy t.mem q init sz.toNat := if_pos forward
  have apart' : q ∉ pgdir :: (tables t.mem pgdir ++ free') := by
    intro member
    apply apart
    rw [(grows.conserved.cons pgdir).mem_iff] at member
    simpa [sameTables] using member
  have nearby : Set.EqOn (memcpy t.mem q init sz.toNat) t.mem (span q 4096)ᶜ :=
    (memcpy_outside t.mem q init sz.toNat forward).mono (Set.compl_subset_compl.mpr (span_mono q _ _ (Nat.le_of_lt small)))
  obtain ⟨final, finalTables, finalView⟩ := grows.directory.setMem frameQ.aligned apart' nearby
  have sameBefore {x : Addr} (away : x ∈ outside (pgdir :: (tables s.mem pgdir ++ (q :: rest).take 2))) :
      t.mem x = s.mem x := by
    have offTables : x ∈ outside (pgdir :: (tables s.mem pgdir ++ rest.take 1)) := by
      refine outside_anti (List.cons_subset_cons pgdir ?_) away
      exact ((List.sublist_cons_self q _).append_left _).subset
    exact (near offTables).trans (fill_outside s.mem q 0#8 4096 (away q (by simp)))
  refine ⟨t.setMem (memcpy t.mem q init sz.toNat), free', ?_, ⟨final, ?_, ?_, ?_, ?_, ?_⟩, ?_⟩
  · have mapped : ∃ r, (mappages pgdir 0#32 PGSIZE (V2P q) (PTE_W ||| PTE_U)).run
        ((s.put s.mem c (read32 s.mem q)).setMem (fill s.mem q 0#8 4096)) = .ok r t := by
      rcases ending with ⟨ran, -⟩ | ⟨ran, -⟩
      · exact ⟨_, ran⟩
      · exact ⟨_, ran⟩
    obtain ⟨r, ran⟩ := mapped
    unfold inituvm clearPage
    rw [run_ite, if_neg (by bv_omega), run_bind_ok allocated, run_bind_ok (EStateM.run_modify _ _),
      memset_eq_fill _ _ _ _ (by decide), KernelState.put_mem, run_bind_ok ran]
    simp only [EStateM.run_modify, move]
  · obtain ⟨m, cpu, f, same⟩ := grows.rest
    exact ⟨_, cpu, f, by rw [same]; rfl⟩
  · rw [KernelState.put_mem, finalTables]
    exact apart'
  · intro n bound other
    rw [KernelState.put_mem, finalView n bound, others n bound (by simpa using other)]
    exact view n bound
  · intro a inPage
    rw [KernelState.put_mem, memcpy_page t.mem forward]
    by_cases copiedPart : a < sz
    · rw [if_pos copiedPart, if_pos copiedPart]
      exact sameBefore (image a copiedPart)
    · rw [if_neg copiedPart, if_neg copiedPart]
      have inside : q + a ∈ span q 4096 := by
        have offset : q + a - q = a := by bv_omega
        rw [mem_span, offset]
        exact inPage
      have unchanged := grows.keeps_page cleared frameQ.aligned (by rw [KernelState.put_mem, sameTables]; exact apart) inside
      rw [unchanged, KernelState.put_mem, fill_inside _ _ _ _ _ inside]
  · intro x away
    rw [KernelState.put_mem, nearby (away q (by simp))]
    exact sameBefore away
  · rw [KernelState.put_mem, finalView 0 (by decide)]
    rcases ending with ⟨-, entry, spare⟩ | ⟨-, exhausted, missing, blank⟩
    · refine .inl ⟨?_, fun missing => spare (sameTable.trans missing)⟩
      rw [show (0#32).toNat / 4096 = 0 from rfl] at entry
      simp [entry, entryFor, pageAfter]
    · exact .inr ⟨exhausted, by rw [← sameTable]; exact missing, blank⟩

/-- `inituvm` with a page for the image and one for its table at hand. -/
theorem run_inituvm {q : Addr} (init sz : Addr) {rest : List Addr} (dir : Directory s pgdir (q :: rest))
    (frame : Frame s pgdir) (small : sz < PGSIZE) (image : init.toNat + sz.toNat ≤ s.kheapStart.toNat)
    (clear : pteAt s.mem pgdir 0 = 0#32) (needed : Finset Nat) (inside : present s.mem pgdir ⊆ needed)
    (wanted : 0 ∈ needed) (enough : needed.card ≤ (tables s.mem pgdir).length + rest.length) :
    ∃ u free', (inituvm pgdir init sz).run s = .ok () u ∧ Directory u pgdir free' ∧
      pteAt u.mem pgdir 0 = entryFor (V2P q) (PTE_W ||| PTE_U) 0 ∧
      (∀ n < 2 ^ 20, n ≠ 0 → pteAt u.mem pgdir n = pteAt s.mem pgdir n) ∧
      ∀ a : Addr, a < PGSIZE → u.mem (q + a) = if a < sz then s.mem (init + a) else 0#8 := by
  obtain ⟨u, free', ran, loaded, ending⟩ := run_inituvm_loaded init sz dir small (by rw [clear]; decide)
    (Directory.image_outside dir frame 2 image)
  rcases ending with ⟨entry, -⟩ | ⟨rfl, missing, -⟩
  · exact ⟨u, free', ran, loaded.dir, entry, loaded.others, loaded.bytes⟩
  · have fewer := tables_lt_card needed inside wanted missing
    exact absurd enough (by simpa using fewer)

/-- Inside a range that starts on a page, addresses keep their distance. -/
theorem offset_target (va pa x : Addr) (aligned : Aligned va) (above : va.toNat ≤ x.toNat) :
    pageAfter pa (x.toNat / 4096 - va.toNat / 4096) + ADDR_PAGE_OFFSET x = pa + (x - va) := by
  have offset := ADDR_PAGE_OFFSET_toNat x
  generalize ADDR_PAGE_OFFSET x = o at offset ⊢
  unfold Aligned at aligned
  unfold pageAfter PGSIZE
  bv_omega

/-- The byte user code sees at an address of its own address space. -/
def byteSeen (m : Mem) (pgdir a : Addr) : Option Byte := (translation m pgdir a).map fun t => m (P2V t.pa)

/-- The tables of the kernel half and of page 0. -/
def neededTables (s : KernelState) : Finset Nat := (kernelPages s ∪ {0}).image (· / 1024)

theorem kernelPages_high {s : KernelState} (firmware : Firmware s) {n : Nat} (member : n ∈ kernelPages s) :
    2 ^ 19 ≤ n ∧ n < 2 ^ 20 := by
  have physical := firmware.physical
  have high : 2 ^ 31 ≤ (P2V s.acpi).toNat := firmware.acpiHigh
  have fits := firmware.acpiFits
  have base : KERNBASE.toNat = 2 ^ 31 := rfl
  have devices : DEVSPACE.toNat = 0xFE000000 ∧ (0xf00000#32).toNat = 0xf00000 := ⟨rfl, rfl⟩
  simp only [kernelPages, pagesOf, Finset.mem_union, Finset.mem_Icc] at member
  omega

/-- `setupkvm` and then `inituvm` return when there is a page for the directory, one for
the image and one for each table. -/
theorem run_setupkvm_inituvm (init sz : Addr) (heap : Heap s free) (firmware : Firmware s)
    (memory : 1 ≤ s.physEnd.toNat) (enough : (neededTables s).card + 2 ≤ free.length) (small : sz < PGSIZE)
    (image : init.toNat + sz.toNat ≤ s.kheapStart.toNat) :
    ∃ pgdir t u free' q, setupkvm.run s = .ok pgdir t ∧ (inituvm pgdir init sz).run t = .ok () u ∧
      Directory u pgdir free' ∧ pteAt u.mem pgdir 0 = entryFor (V2P q) (PTE_W ||| PTE_U) 0 ∧ Aligned q ∧
      (∀ n ∈ kernelPages s, pteAt u.mem pgdir n = kernelEntry s n) ∧
      (∀ n < 2 ^ 20, n ∉ kernelPages s → n ≠ 0 → pteAt u.mem pgdir n = 0#32) ∧
      ∀ a : Addr, a < PGSIZE → u.mem (q + a) = if a < sz then s.mem (init + a) else 0#8 := by
  cases free with
  | nil => simp at enough
  | cons p rest =>
    have frame : Frame s p := heap.frames p (by simp)
    obtain ⟨c, t, free₁, fresh, built, blank, ending⟩ := run_setupkvm heap firmware memory
    have grown := built.grows.conserved.length_eq
    simp only [blank, List.nil_append, List.length_append, List.length_cons] at grown enough
    have inside : present t.mem p ⊆ neededTables s :=
      built.inside.trans (Finset.image_subset_image Finset.subset_union_left)
    rcases ending with ⟨ran, entries⟩ | ⟨-, rfl, n, range, missing⟩
    case inr =>
      refine (not_exhausted built.grows (neededTables s) inside ?_ missing ?_).elim
      · exact Finset.mem_image_of_mem _ (Finset.mem_union_left _ range)
      · rw [blank, List.length_nil]
        omega
    have used := Finset.card_le_card inside
    rw [card_present] at used
    obtain ⟨m, c', f, same⟩ := built.grows.rest
    cases free₁ with
    | nil => simp only [List.length_nil] at grown; omega
    | cons q rest₁ =>
      have low : 0 ∉ kernelPages s := fun member => by have := kernelPages_high firmware member; omega
      have start : t.kheapStart = s.kheapStart ∧ t.kheapEnd = s.kheapEnd := by subst same; exact ⟨rfl, rfl⟩
      have frame' : Frame t p := by rw [Frame, start.1, start.2]; exact frame
      obtain ⟨u, free₂, ran', dir, first, others, bytes⟩ := run_inituvm init sz
        built.grows.directory frame' small (by rw [start.1]; exact image) (built.blank 0 (by decide) low)
        (neededTables s) inside (Finset.mem_image.mpr ⟨0, by simp, rfl⟩)
        (by simp only [List.length_cons] at grown; omega)
      refine ⟨p, t, u, free₂, q, ran, ran', dir, first,
        (built.grows.directory.heap.frames q (by simp)).aligned, ?_, ?_, ?_⟩
      · intro n member
        have range := kernelPages_high firmware member
        rw [others n range.2 (by omega), entries n member]
      · intro n bound away nonzero
        rw [others n bound nonzero, built.blank n bound away]
      · intro a inPage
        rw [bytes a inPage]
        split
        case isFalse => rfl
        case isTrue copied =>
          have lowByte : init + a < (emptied s p c).kheapStart := by
            have : init + a < s.kheapStart := by bv_omega
            exact this
          rw [Grows.below built.grows fresh frame lowByte]
          exact fill_outside s.mem p 0#8 4096 (InHeap.not_below frame lowByte)

theorem mapfail_not_ok {α : Type} (a : α) : (mapfail pgdir).run s ≠ .ok a t := by
  intro ran
  obtain ⟨_, u, -, stopped⟩ := run_bind_eq_ok ran
  cases stopped

/-- `setupkvm` comes back only if no page is visited twice. -/
theorem setupkvm_eq_ok {a : Addr} (heap : Heap s free) (ran : setupkvm.run s = .ok a t) :
    ∃ c rest free', free = a :: rest ∧ Partial a (emptied s a c) t rest free' (memoryPages s ∪ tablePages s ∪ devicePages) ∧
      Apart s ∧ Full a t (memoryPages s ∪ tablePages s ∪ devicePages) ∧
      Installed a t (P2V s.acpi) s.acpiLen s.acpi PTE_W := by
  cases free with
  | nil =>
    obtain ⟨c, refused, -⟩ := run_kalloc_nil s heap
    rw [setupkvm, run_bind_ok refused, run_ite, if_pos rfl] at ran
    cases ran
  | cons p rest =>
    obtain ⟨c, u, free', -, built, ⟨ran', apart, full, -, tables, -⟩ | ⟨ran', -⟩ | ⟨⟨e, ran'⟩, -⟩⟩ := run_setupkvm_ring heap
    · rw [ran'] at ran
      cases ran
      exact ⟨c, rest, free', rfl, built, apart, full, tables⟩
    · rw [ran'] at ran
      exact absurd ran (mapfail_not_ok a)
    · rw [ran'] at ran
      cases ran

/-- With no physical memory at all, the first range wraps around the whole address
space; the others then find their pages present. -/
theorem setupkvm_no_memory (heap : Heap s free) (noMemory : s.physEnd = 0#32) (a : Addr) : setupkvm.run s ≠ .ok a t := by
  intro ran
  obtain ⟨c, rest, free', -, -, apart, -⟩ := setupkvm_eq_ok heap ran
  have memory := (memory_bounds (Finset.disjoint_union_left.mp apart.2).1).1
  rw [noMemory] at memory
  cases memory

/-- An address of a kernel range that starts on a page. -/
theorem translation_supervisor {u : KernelState} (dir : Directory u pgdir free) {va pa x : Addr}
    (alignedVa : Aligned va) (alignedPa : Aligned pa) (above : va.toNat ≤ x.toNat)
    (entry : pteAt u.mem pgdir (x.toNat / 4096) = entryFor pa PTE_W (x.toNat / 4096 - va.toNat / 4096)) :
    translation u.mem pgdir x = some ⟨pa + (x - va), false, true⟩ := by
  rw [dir.translation_eq x, entry, decode_entryFor _ alignedPa (by simp), offset_target va pa x alignedVa above]
  rfl

end Construction

/-- The address space of the first process, seen through the hardware: user mode has
page 0 and nothing else, page 0 holds the image followed by zeros, and the kernel half
shows physical memory, the ACPI tables and the devices to the supervisor. -/
structure Isolated (s u : KernelState) (pgdir init sz : Addr) : Prop where
  user : ∀ a, (∃ t, translation u.mem pgdir a = some t ∧ t.user = true) ↔ a < PGSIZE
  image : ∀ a < sz, byteSeen u.mem pgdir a = some (s.mem (init + a))
  zero : ∀ a, sz ≤ a → a < PGSIZE → byteSeen u.mem pgdir a = some 0#8
  memory : ∀ p < s.physEnd, translation u.mem pgdir (P2V p) = some ⟨p, false, true⟩
  acpi : ∀ q, q - s.acpi < s.acpiLen → translation u.mem pgdir (P2V q) = some ⟨q, false, true⟩
  devices : ∀ x, x - DEVSPACE < 0xf00000#32 → translation u.mem pgdir x = some ⟨x, false, true⟩
  absent : ∀ x, x.toNat / 4096 ∉ kernelPages s → x.toNat / 4096 ≠ 0 → translation u.mem pgdir x = none

section Facts
variable {s u : KernelState} {pgdir q init sz : Addr} {free : List Addr} (dir : Directory u pgdir free)
  (firmware : Firmware s) (acpiAligned : Aligned s.acpi)
  (kernel : ∀ n ∈ kernelPages s, pteAt u.mem pgdir n = kernelEntry s n)
include dir firmware kernel

theorem translation_memory {p : Addr} (below : p < s.physEnd) :
    translation u.mem pgdir (P2V p) = some ⟨p, false, true⟩ := by
  have physical := firmware.physical
  have base : KERNBASE.toNat = 2 ^ 31 := rfl
  have value : (P2V p).toNat = 2 ^ 31 + p.toNat := by unfold P2V KERNBASE; bv_omega
  have inside : (P2V p).toNat / 4096 ∈ pagesOf KERNBASE s.physEnd := by
    rw [pagesOf, Finset.mem_Icc]
    bv_omega
  have entry := kernel _ (Finset.mem_union_left _ (Finset.mem_union_left _ inside))
  rw [kernelEntry, if_pos inside] at entry
  rw [translation_supervisor dir (by decide) (by decide) (by omega) entry]
  simp only [P2V, BitVec.zero_add, BitVec.add_sub_cancel]

include acpiAligned in
theorem translation_acpi {p : Addr} (inRange : p - s.acpi < s.acpiLen) :
    translation u.mem pgdir (P2V p) = some ⟨p, false, true⟩ := by
  have fits := firmware.acpiFits
  have value : (P2V p).toNat = (P2V s.acpi).toNat + (p - s.acpi).toNat := by unfold P2V KERNBASE at *; bv_omega
  have inside : (P2V p).toNat / 4096 ∈ pagesOf (P2V s.acpi) s.acpiLen := by
    rw [pagesOf, Finset.mem_Icc]
    bv_omega
  have entry := kernel _ (Finset.mem_union_left _ (Finset.mem_union_right _ inside))
  rw [kernelEntry, if_neg (Finset.disjoint_right.mp firmware.memoryAcpi inside), if_pos inside] at entry
  have back : s.acpi + (P2V p - P2V s.acpi) = p := by unfold P2V; bv_omega
  rw [translation_supervisor dir (aligned_P2V acpiAligned) acpiAligned (by omega) entry, back]

theorem translation_devices {x : Addr} (inRange : x - DEVSPACE < 0xf00000#32) :
    translation u.mem pgdir x = some ⟨x, false, true⟩ := by
  have value : DEVSPACE.toNat ≤ x.toNat ∧ x.toNat < DEVSPACE.toNat + 0xf00000 := by unfold DEVSPACE at *; bv_omega
  have base : DEVSPACE.toNat = 0xFE000000 := rfl
  have inside : x.toNat / 4096 ∈ pagesOf DEVSPACE 0xf00000#32 := by
    rw [pagesOf, Finset.mem_Icc]
    bv_omega
  have entry := kernel _ (Finset.mem_union_right _ inside)
  rw [kernelEntry, if_neg (Finset.disjoint_right.mp firmware.memoryDevices inside),
    if_neg (Finset.disjoint_right.mp firmware.acpiDevices inside)] at entry
  have back : DEVSPACE + (x - DEVSPACE) = x := by bv_omega
  rw [translation_supervisor dir (by decide) (by decide) value.1 entry, back]

omit firmware in
include acpiAligned in
/-- No page of the kernel half is open to user mode. -/
theorem translation_kernel_user {x : Addr} (member : x.toNat / 4096 ∈ kernelPages s) {t : Mapping}
    (found : translation u.mem pgdir x = some t) : t.user = false := by
  have shape : ∃ pa k, Aligned pa ∧ kernelEntry s (x.toNat / 4096) = entryFor pa PTE_W k := by
    unfold kernelEntry
    split
    · exact ⟨_, _, by decide, rfl⟩
    · split
      · exact ⟨_, _, acpiAligned, rfl⟩
      · exact ⟨_, _, by decide, rfl⟩
  obtain ⟨pa, k, aligned, entry⟩ := shape
  rw [dir.translation_eq x, kernel _ member, entry, decode_entryFor k aligned (by simp)] at found
  have closed : has PTE_W PTE_U = false := by decide
  rw [← Option.some.inj found, closed]

include acpiAligned in
theorem isolated (alignedQ : Aligned q) (first : pteAt u.mem pgdir 0 = entryFor (V2P q) (PTE_W ||| PTE_U) 0)
    (rest : ∀ n < 2 ^ 20, n ∉ kernelPages s → n ≠ 0 → pteAt u.mem pgdir n = 0#32) (small : sz < PGSIZE)
    (bytes : ∀ a : Addr, a < PGSIZE → u.mem (q + a) = if a < sz then s.mem (init + a) else 0#8) :
    Isolated s u pgdir init sz := by
  have absent (x : Addr) (away : x.toNat / 4096 ∉ kernelPages s) (nonzero : x.toNat / 4096 ≠ 0) :
      translation u.mem pgdir x = none := by
    have bound := x.isLt
    rw [dir.translation_none x, rest _ (by omega) away nonzero, has_zero]
  have pageZero (a : Addr) (inPage : a < PGSIZE) : translation u.mem pgdir a = some ⟨V2P q + a, true, true⟩ := by
    have limit : a.toNat < 4096 := inPage
    have number : a.toNat / 4096 = 0 := by omega
    have shift := offset_target 0#32 (V2P q) a (by decide) (Nat.zero_le _)
    rw [number, BitVec.sub_zero] at shift
    rw [dir.translation_eq a, number, first, decode_entryFor 0 (aligned_V2P alignedQ) (by simp)]
    have flags : has (PTE_W ||| PTE_U) PTE_U = true ∧ has (PTE_W ||| PTE_U) PTE_W = true := by decide
    rw [flags.1, flags.2]
    exact congrArg (fun pa => some (⟨pa, true, true⟩ : Mapping)) shift
  have seen (a : Addr) (inPage : a < PGSIZE) : byteSeen u.mem pgdir a = some (if a < sz then s.mem (init + a) else 0#8) := by
    have back : P2V (V2P q + a) = q + a := by unfold P2V V2P; bv_omega
    rw [byteSeen, pageZero a inPage, Option.map_some, back, bytes a inPage]
  refine ⟨?_, ?_, ?_, fun p => translation_memory dir firmware kernel,
    fun p => translation_acpi dir firmware acpiAligned kernel, fun x => translation_devices dir firmware kernel, absent⟩
  · intro a
    constructor
    · rintro ⟨t, found, user⟩
      by_contra beyond
      have nonzero : a.toNat / 4096 ≠ 0 := by
        have limit : ¬ a.toNat < 4096 := beyond
        omega
      by_cases member : a.toNat / 4096 ∈ kernelPages s
      · rw [translation_kernel_user dir acpiAligned kernel member found] at user
        cases user
      · rw [absent a member nonzero] at found
        cases found
    · intro inPage
      exact ⟨_, pageZero a inPage, rfl⟩
  · intro a copied
    rw [seen a (by bv_omega), if_pos copied]
  · intro a beyond inPage
    rw [seen a inPage, if_neg (by bv_omega)]

end Facts

/-- A machine with 4 MiB of memory and 128 KiB of ACPI tables. -/
structure SmallMachine (s : KernelState) : Prop where
  physEnd : s.physEnd = 0x00400000#32
  acpi : s.acpi = 0x07fe0000#32
  acpiLen : s.acpiLen = 0x00020000#32
  kheapStart : s.kheapStart = 0x80103000#32

theorem SmallMachine.firmware (machine : SmallMachine s) : Firmware s := by
  refine ⟨?_, ?_, ?_, ?_, ?_, ?_, ?_⟩ <;> simp only [machine.physEnd, machine.acpi, machine.acpiLen]
  · decide
  · decide
  · decide
  · decide
  · exact pagesOf_disjoint (by decide)
  · exact pagesOf_disjoint (by decide)
  · exact pagesOf_disjoint (by decide)

theorem SmallMachine.mem_kernelPages (machine : SmallMachine s) {n : Nat} : n ∈ kernelPages s ↔
    0x80000 ≤ n ∧ n ≤ 0x803ff ∨ 0x87fe0 ≤ n ∧ n ≤ 0x87fff ∨ 0xfe000 ≤ n ∧ n ≤ 0xfeeff := by
  simp [kernelPages, pagesOf, machine.physEnd, machine.acpi, machine.acpiLen, KERNBASE, DEVSPACE, P2V]

theorem exists_smallMachine (count : Nat) (small : count ≤ 1024) (vend : Addr)
    (pages : rangePages 0x80103000#32 vend = bootPages count) :
    ∃ s : KernelState, Heap s (bootPages count).reverse ∧ SmallMachine s := by
  obtain ⟨s, heap, physEnd, acpi, acpiLen, start⟩ :=
    exists_booted count small vend pages 0x00400000#32 0x07fe0000#32 0x00020000#32
  exact ⟨s, heap, physEnd, acpi, acpiLen, start⟩

theorem exists_small_firmware (count : Nat) (small : count ≤ 1024) (vend : Addr)
    (pages : rangePages 0x80103000#32 vend = bootPages count) :
    ∃ s : KernelState, Heap s (bootPages count).reverse ∧ Firmware s ∧ Aligned s.acpi ∧ (neededTables s).card ≤ 7 ∧
      1 ≤ s.physEnd.toNat ∧ s.kheapStart = 0x80103000#32 := by
  obtain ⟨s, heap, machine⟩ := exists_smallMachine count small vend pages
  have few : neededTables s ⊆ {0, 512, 543, 1016, 1017, 1018, 1019} := by
    intro d member
    obtain ⟨n, range, rfl⟩ := Finset.mem_image.mp member
    rw [Finset.mem_union, machine.mem_kernelPages, Finset.mem_singleton] at range
    simp only [Finset.mem_insert, Finset.mem_singleton]
    omega
  exact ⟨s, heap, machine.firmware, by rw [machine.acpi]; decide, Finset.card_le_card few, by rw [machine.physEnd]; decide,
    machine.kheapStart⟩

/-- `setupkvm` takes seven pages on the small machine: its directory and six tables. -/
theorem exists_kernel_half (count : Nat) (enough : 7 ≤ count) (small : count ≤ 1024) (vend : Addr)
    (pages : rangePages 0x80103000#32 vend = bootPages count) :
    ∃ (s t : KernelState) (pgdir : Addr) (free : List Addr), setupkvm.run s = .ok pgdir t ∧ Directory t pgdir free ∧
      Frame t pgdir ∧ free.length + 7 = count ∧ (∀ d < 512, tableAt t.mem pgdir d = none) ∧
      t.kheapStart = 0x80103000#32 ∧ SmallMachine s ∧ Heap s (bootPages count).reverse ∧
      ∀ n ∈ kernelPages s, pteAt t.mem pgdir n = kernelEntry s n := by
  obtain ⟨s, heap, machine⟩ := exists_smallMachine count small vend pages
  have length : (bootPages count).reverse.length = count := by simp [bootPages]
  generalize (bootPages count).reverse = all at heap length ⊢
  cases all with
  | nil => simp at length; omega
  | cons p rest =>
    have memory : 1 ≤ s.physEnd.toNat := by rw [machine.physEnd]; decide
    obtain ⟨c, t, free, -, built, blank, ending⟩ := run_setupkvm heap machine.firmware memory
    have inside : present t.mem p ⊆ {512, 543, 1016, 1017, 1018, 1019} := by
      intro d member
      obtain ⟨n, range, rfl⟩ := Finset.mem_image.mp (built.inside member)
      rw [machine.mem_kernelPages] at range
      simp only [Finset.mem_insert, Finset.mem_singleton]
      omega
    have made := built.grows.conserved.length_eq
    simp only [blank, List.nil_append, List.length_append] at made
    simp only [List.length_cons] at length
    rcases ending with ⟨ran, entries⟩ | ⟨-, rfl, n, range, missing⟩
    case inr =>
      refine (not_exhausted built.grows _ inside ?_ missing ?_).elim
      · rw [machine.mem_kernelPages] at range
        simp only [Finset.mem_insert, Finset.mem_singleton]
        omega
      · simp only [blank, List.length_nil, Nat.zero_add]
        exact le_trans (by decide : _ ≤ 6) (by omega)
    have there (n : Nat) (range : n ∈ kernelPages s) : n / 1024 ∈ present t.mem p := by
      have bound := (kernelPages_high machine.firmware range).2
      refine mem_present.mpr ⟨by omega, fun missing => ?_⟩
      have entry := has_kernelEntry s n
      rw [← entries n range, pteAt, missing, has_zero] at entry
      cases entry
    have all : present t.mem p = {512, 543, 1016, 1017, 1018, 1019} := by
      apply inside.antisymm
      intro d member
      simp only [Finset.mem_insert, Finset.mem_singleton] at member
      rcases member with rfl | rfl | rfl | rfl | rfl | rfl
      · exact there 0x80000 (machine.mem_kernelPages.mpr (by decide))
      · exact there 0x87fe0 (machine.mem_kernelPages.mpr (by decide))
      · exact there 0xfe000 (machine.mem_kernelPages.mpr (by decide))
      · exact there 0xfe400 (machine.mem_kernelPages.mpr (by decide))
      · exact there 0xfe800 (machine.mem_kernelPages.mpr (by decide))
      · exact there 0xfec00 (machine.mem_kernelPages.mpr (by decide))
    have six : (tables t.mem p).length = 6 := by rw [← card_present, all]; decide
    obtain ⟨m, c', f, same⟩ := built.grows.rest
    have frame : Frame t p := by rw [same]; exact heap.frames p (by simp)
    have low (d : Nat) (user : d < 512) : tableAt t.mem p d = none := by
      by_contra present
      have member : d ∈ MapPages.present t.mem p := mem_present.mpr ⟨by omega, present⟩
      rw [all] at member
      simp only [Finset.mem_insert, Finset.mem_singleton] at member
      omega
    exact ⟨s, t, p, free, ran, built.grows.directory, frame, by omega, low, by rw [same]; exact machine.kheapStart, machine,
      heap, entries⟩

/-- Every address space built for a process keeps user code inside page 0. -/
theorem kernel_user_isolation (s : KernelState) (free : List Addr) (init sz : Addr) (heap : Heap s free)
    (firmware : Firmware s) (acpiAligned : Aligned s.acpi) (enough : (neededTables s).card + 2 ≤ free.length)
    (small : sz < PGSIZE) (image : init.toNat + sz.toNat ≤ s.kheapStart.toNat) :
    (s.physEnd ≠ 0#32 → ∃ pgdir t u, setupkvm.run s = .ok pgdir t ∧ (inituvm pgdir init sz).run t = .ok () u) ∧
    ∀ pgdir t u, setupkvm.run s = .ok pgdir t → (inituvm pgdir init sz).run t = .ok () u →
      Isolated s u pgdir init sz := by
  by_cases noMemory : s.physEnd = 0#32
  · refine ⟨fun memory => absurd noMemory memory, ?_⟩
    intro pgdir t u ran
    exact absurd ran (setupkvm_no_memory heap noMemory pgdir)
  · have memory : 1 ≤ s.physEnd.toNat := by bv_omega
    obtain ⟨pgdir, t, u, free', q, ran, ran', dir, first, alignedQ, kernel, rest, bytes⟩ :=
      run_setupkvm_inituvm init sz heap firmware memory enough small image
    refine ⟨fun _ => ⟨pgdir, t, u, ran, ran'⟩, ?_⟩
    intro pgdir' t' u' setup init'
    rw [ran] at setup
    injection setup with samePgdir sameT
    subst samePgdir sameT
    rw [ran'] at init'
    injection init' with _ sameU
    subst sameU
    exact isolated dir firmware acpiAligned kernel alignedQ first rest small bytes

/-- A page of code on a small machine. -/
theorem kernel_user_isolation_small_machine :
    ∃ (s t u : KernelState) (pgdir : Addr), setupkvm.run s = .ok pgdir t ∧
      (inituvm pgdir 0x80101000#32 100#32).run t = .ok () u ∧ Isolated s u pgdir 0x80101000#32 100#32 := by
  obtain ⟨s, heap, firmware, aligned, few, memory, start⟩ :=
    exists_small_firmware 9 (by decide) 0x8010c000#32 (by unfold rangePages; decide)
  have pages : (bootPages 9).reverse.length = 9 := by decide
  obtain ⟨runs, facts⟩ := kernel_user_isolation s (bootPages 9).reverse 0x80101000#32 100#32 heap firmware aligned
    (by omega) (by decide) (by rw [start]; decide)
  obtain ⟨pgdir, t, u, setup, init⟩ := runs (by bv_omega)
  exact ⟨s, t, u, pgdir, setup, init, facts pgdir t u setup init⟩

end OsDev.Kernel.AddressSpace
