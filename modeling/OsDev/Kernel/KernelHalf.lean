import OsDev.Kernel.AddressSpace
import OsDev.Kernel.Pmem

/-! For which memory maps of the firmware `setupkvm` builds the kernel half. The ranges
it maps come from the map by 32-bit arithmetic, so they are taken here as they are, on
the ring of all pages. -/

namespace OsDev.Kernel.KernelHalf
open OsDev.Machine.Memory OsDev.Machine.Program
open OsDev.Kernel.SpinLocks OsDev.Kernel.Mmu OsDev.Kernel.State OsDev.Kernel.Kalloc OsDev.Kernel.Paging
open OsDev.Kernel.PageTables OsDev.Kernel.MapPages OsDev.Kernel.AddressSpace OsDev.Kernel.Pmem

/-- What `setupkvm` is for, of a kernel with a given memory map. -/
structure Mappable (s : KernelState) : Prop where
  memory : KERNBASE.toNat + s.physEnd.toNat ≤ 2 ^ 32
  tables : (P2V s.acpi).toNat + s.acpiLen.toNat ≤ 2 ^ 32
  memoryTables : Disjoint (pagesOf KERNBASE s.physEnd) (pagesOf (P2V s.acpi) s.acpiLen)
  memoryDevices : Disjoint (pagesOf KERNBASE s.physEnd) (pagesOf DEVSPACE 0xf00000#32)
  tablesDevices : Disjoint (pagesOf (P2V s.acpi) s.acpiLen) (pagesOf DEVSPACE 0xf00000#32)
  returns : ∃ p t, setupkvm.run s = .ok p t ∧
    (∀ n ∈ pagesOf (P2V s.acpi) s.acpiLen, pteAt t.mem p n &&& 0xFFF#32 = PTE_P ||| PTE_W) ∧
    (∀ n < 2 ^ 19, has (pteAt t.mem p n) PTE_P = false)

/-- Physical memory up to `stop`, and tables of `len` bytes from `base` on. -/
structure Fits (stop base len : Nat) : Prop where
  memory : 1 ≤ stop
  devices : stop ≤ 0x7E000000
  half : base < 2 ^ 31
  flags : base % 4096 < 4
  some : 1 ≤ len ∨ base % 4096 ≠ 0
  room : base + len ≤ 2 ^ 31
  above : stop ≤ base / 4096 * 4096
  apart : base + len ≤ 0x7E000000 ∨ 0x7EF00000 ≤ base

/-- The numbers of the pages of the kernel half. -/
def HalfPage (stop base len n : Nat) : Prop :=
  2 ^ 19 ≤ n ∧ n * 4096 < 2 ^ 31 + stop ∨ 2 ^ 19 + base / 4096 ≤ n ∧ n * 4096 < 2 ^ 31 + base + len ∨
    0xFE000 ≤ n ∧ n ≤ 0xFEEFF

theorem P2V_toNat {a : Addr} (half : a.toNat < 2 ^ 31) : (P2V a).toNat = 2 ^ 31 + a.toNat := by
  unfold P2V KERNBASE
  bv_omega

theorem entryFor_flags (pa : Addr) (k : Nat) :
    entryFor pa PTE_W k &&& 0xFFF#32 = PTE_P ||| PTE_W ↔ pa.toNat % 4096 < 4 := by
  have low : pageAfter pa k &&& 0xFFF#32 = pa &&& 0xFFF#32 := by
    apply BitVec.eq_of_toNat_eq
    rw [mask_low, mask_low]
    unfold pageAfter PGSIZE
    bv_omega
  have flags : entryFor pa PTE_W k &&& 0xFFF#32 = pa &&& 0xFFF#32 ||| 3#32 := by
    have three : (PTE_W ||| PTE_P) &&& 0xFFF#32 = 3#32 := by decide
    rw [entryFor, BitVec.or_assoc, BitVec.and_or_distrib_right, low, three]
  have value := mask_low pa
  rw [flags]
  generalize pa &&& 0xFFF#32 = r at value ⊢
  rw [← value]
  constructor
  · intro same
    have := congrArg BitVec.toNat same
    have le := @Nat.left_le_or r.toNat 3
    simp only [BitVec.toNat_or, PTE_P, PTE_W] at this
    simp at this
    omega
  · intro small
    have cases : r = 0#32 ∨ r = 1#32 ∨ r = 2#32 ∨ r = 3#32 := by bv_omega
    rcases cases with rfl | rfl | rfl | rfl <;> decide

section Numbers
variable {s : KernelState}

/-- An empty range that starts on a page goes round the whole ring. -/
theorem tables_some (apart : Disjoint (tablePages s) devicePages) : 1 ≤ s.acpiLen.toNat ∨ ¬ Aligned (P2V s.acpi) := by
  by_contra neither
  rw [not_or, not_not] at neither
  have empty : s.acpiLen = 0#32 := by bv_omega
  have around : steps (P2V s.acpi) s.acpiLen = 2 ^ 20 - 1 := by
    rw [steps_of_aligned neither.2, empty]
    decide
  have device : 0xFE000 ∈ devicePages := first_visited DEVSPACE 0xf00000#32
  apply Finset.disjoint_right.mp apart device
  have bound := (P2V s.acpi).isLt
  refine mem_visited.mpr ⟨(0xFE000 + 2 ^ 20 - (P2V s.acpi).toNat / 4096) % 2 ^ 20, ?_, ?_⟩
  · rw [around]
    omega
  · unfold pageNo
    omega

theorem aligned_P2V_iff (a : Addr) : Aligned (P2V a) ↔ a.toNat % 4096 = 0 := by
  unfold Aligned P2V KERNBASE
  bv_omega

theorem Fits.visited (fits : Fits s.physEnd.toNat s.acpi.toNat s.acpiLen.toNat) :
    memoryPages s = pagesOf KERNBASE s.physEnd ∧ tablePages s = pagesOf (P2V s.acpi) s.acpiLen := by
  have memory := fits.memory
  have devices := fits.devices
  have room := fits.room
  have base := P2V_toNat fits.half
  constructor
  · apply visited_eq_pagesOf (.inl memory)
    have kernbase : KERNBASE.toNat = 2 ^ 31 := rfl
    omega
  · apply visited_eq_pagesOf
    · rw [aligned_P2V_iff]
      exact fits.some
    · omega

/-- The three ranges, as intervals of pages. -/
theorem Fits.disjoint (fits : Fits s.physEnd.toNat s.acpi.toNat s.acpiLen.toNat) :
    Disjoint (pagesOf KERNBASE s.physEnd) (pagesOf (P2V s.acpi) s.acpiLen) ∧
      Disjoint (pagesOf KERNBASE s.physEnd) (pagesOf DEVSPACE 0xf00000#32) ∧
      Disjoint (pagesOf (P2V s.acpi) s.acpiLen) (pagesOf DEVSPACE 0xf00000#32) := by
  obtain ⟨memory, devices, half, flags, nonempty, room, above, apart⟩ := fits
  have base := P2V_toNat half
  have kernbase : KERNBASE.toNat = 2 ^ 31 := rfl
  have devspace : DEVSPACE.toNat = 0xFE000000 ∧ (0xf00000#32).toNat = 0xf00000 := ⟨rfl, rfl⟩
  refine ⟨pagesOf_disjoint ?_, pagesOf_disjoint ?_, ?_⟩
  · omega
  · omega
  · rcases apart with low | high
    · apply pagesOf_disjoint
      omega
    · apply Disjoint.symm
      apply pagesOf_disjoint
      omega

theorem Fits.bounds (fits : Fits s.physEnd.toNat s.acpi.toNat s.acpiLen.toNat) {n : Nat}
    (member : n ∈ memoryPages s ∪ tablePages s ∪ devicePages) : HalfPage s.physEnd.toNat s.acpi.toNat s.acpiLen.toNat n := by
  rw [fits.visited.1, fits.visited.2, devicePages_eq] at member
  have base := P2V_toNat fits.half
  have positive := fits.memory
  have nonempty := fits.some
  have kernbase : KERNBASE.toNat = 2 ^ 31 := rfl
  have devspace : DEVSPACE.toNat = 0xFE000000 ∧ (0xf00000#32).toNat = 0xf00000 := ⟨rfl, rfl⟩
  simp only [Finset.mem_union, pagesOf, Finset.mem_Icc] at member
  unfold HalfPage
  omega

/-- Free pages for a directory and for every table it may need. -/
def Enough (s : KernelState) (free : List Addr) : Prop :=
  ((memoryPages s ∪ tablePages s ∪ devicePages).image (· / 1024)).card + 1 ≤ free.length

theorem Fits.enough {free : List Addr} (fits : Fits s.physEnd.toNat s.acpi.toNat s.acpiLen.toNat) (blocks : Finset Nat)
    (cover : ∀ n, HalfPage s.physEnd.toNat s.acpi.toNat s.acpiLen.toNat n → n / 1024 ∈ blocks)
    (room : blocks.card + 1 ≤ free.length) : Enough s free := by
  have few : (memoryPages s ∪ tablePages s ∪ devicePages).image (· / 1024) ⊆ blocks := by
    intro d member
    obtain ⟨n, range, rfl⟩ := Finset.mem_image.mp member
    exact cover n (fits.bounds range)
  have card := Finset.card_le_card few
  unfold Enough
  omega

theorem Fits.mappable {free : List Addr} (fits : Fits s.physEnd.toNat s.acpi.toNat s.acpiLen.toNat) (heap : Heap s free)
    (enough : Enough s free) : Mappable s := by
  obtain ⟨memoryTables, memoryDevices, tablesDevices⟩ := fits.disjoint
  have memory := fits.devices
  have room := fits.room
  have base := P2V_toNat fits.half
  have kernbase : KERNBASE.toNat = 2 ^ 31 := rfl
  refine ⟨by omega, by omega, memoryTables, memoryDevices, tablesDevices, ?_⟩
  obtain ⟨sameMemory, sameTables⟩ := fits.visited
  have apart : Apart s := by
    rw [Apart, sameMemory, sameTables, devicePages_eq]
    exact ⟨memoryTables, Finset.disjoint_union_left.mpr ⟨memoryDevices, tablesDevices⟩⟩
  cases free with
  | nil => simp [Enough] at enough
  | cons p rest =>
    obtain ⟨c, t, free', -, built, ⟨ran, -, -, -, entries, -⟩ | ⟨-, rfl, n, wanted, missing⟩ | ⟨-, overlap⟩⟩ :=
      run_setupkvm_ring heap
    · refine ⟨p, t, ran, ?_, ?_⟩
      · intro n member
        rw [← sameTables] at member
        obtain ⟨k, upto, rfl⟩ := mem_visited.mp member
        rw [entries k upto, entryFor_flags]
        exact fits.flags
      · intro n low
        have away : n ∉ memoryPages s ∪ tablePages s ∪ devicePages := by
          intro member
          have bounds := fits.bounds member
          unfold HalfPage at bounds
          omega
        rw [built.blank n (by omega) away, has_zero]
    · have frame := heap.frames p (by simp)
      refine (not_exhausted built.grows _ built.inside (Finset.mem_image_of_mem _ wanted) missing ?_).elim
      have blank : tables (emptied s p c).mem p = [] := cleared_tables s.mem frame.aligned
      rw [blank]
      simpa [Enough] using enough
    · exact absurd apart overlap

theorem Mappable.fits {free : List Addr} (mappable : Mappable s) (heap : Heap s free) :
    Fits s.physEnd.toNat s.acpi.toNat s.acpiLen.toNat := by
  obtain ⟨p, t, ran, flags, low⟩ := mappable.returns
  obtain ⟨c, rest, free', -, -, apart, full, entries⟩ := setupkvm_eq_ok heap ran
  obtain ⟨memoryDevices, tablesDevices⟩ := Finset.disjoint_union_left.mp apart.2
  obtain ⟨nonzero, below⟩ := memory_bounds memoryDevices
  have nonempty := tables_some tablesDevices
  have first : (P2V s.acpi).toNat / 4096 ∈ tablePages s := first_visited _ _
  have half : s.acpi.toNat < 2 ^ 31 := by
    by_contra high
    have page : (P2V s.acpi).toNat / 4096 < 2 ^ 19 := by
      unfold P2V KERNBASE
      bv_omega
    have there := full.present _ (Finset.mem_union_left _ (Finset.mem_union_right _ first))
    rw [low _ page] at there
    cases there
  have base := P2V_toNat half
  have fits := mappable.tables
  have same : tablePages s = pagesOf (P2V s.acpi) s.acpiLen := visited_eq_pagesOf nonempty fits
  rw [aligned_P2V_iff] at nonempty
  have kernbase : KERNBASE.toNat = 2 ^ 31 := rfl
  refine ⟨nonzero, below, half, ?_, nonempty, by omega, ?_, ?_⟩
  · have entry := entries 0 (Nat.zero_le _)
    rw [same] at first
    have flag := flags _ first
    rw [pageNo_first] at entry
    rw [entry, entryFor_flags] at flag
    exact flag
  · rw [same] at first
    have away := Finset.disjoint_right.mp mappable.memoryTables first
    rw [pagesOf, Finset.mem_Icc] at away
    omega
  · by_contra overlap
    have device : max ((P2V s.acpi).toNat / 4096) 0xFE000 ∈ pagesOf DEVSPACE 0xf00000#32 := by
      have devspace : DEVSPACE.toNat = 0xFE000000 ∧ (0xf00000#32).toNat = 0xf00000 := ⟨rfl, rfl⟩
      rw [pagesOf, Finset.mem_Icc]
      omega
    apply Finset.disjoint_right.mp mappable.tablesDevices device
    rw [pagesOf, Finset.mem_Icc]
    omega

end Numbers

/-- The condition on the firmware's map. Where memory ends and where the tables lie
counts modulo 4 GiB. -/
def MapFits (map : List E820Entry) : Prop :=
  ∃ extmem entry, extendedEntry map = some extmem ∧ acpiEntry map = some entry ∧
    Fits ((extmem.base.toNat + extmem.len.toNat) % 2 ^ 32) (entry.base.toNat % 2 ^ 32) (entry.len.toNat % 2 ^ 32)

/-- What `setupkvm` reads of the memory map. -/
structure SameMap (s t : KernelState) : Prop where
  physEnd : t.physEnd = s.physEnd
  acpi : t.acpi = s.acpi
  acpiLen : t.acpiLen = s.acpiLen

theorem SameMap.numbers {s u : KernelState} {extmem entry : E820Entry} (same : SameMap (mapped s extmem entry) u) :
    u.physEnd.toNat = (extmem.base.toNat + extmem.len.toNat) % 2 ^ 32 ∧ u.acpi.toNat = entry.base.toNat % 2 ^ 32 ∧
      u.acpiLen.toNat = entry.len.toNat % 2 ^ 32 := by
  refine ⟨?_, ?_, ?_⟩
  · rw [same.physEnd]
    simp only [mapped, BitVec.toNat_setWidth, BitVec.toNat_add]
    omega
  · rw [same.acpi]
    exact BitVec.toNat_setWidth 32 entry.base
  · rw [same.acpiLen]
    exact BitVec.toNat_setWidth 32 entry.len

/-- An accepted map makes a kernel half exactly when it meets the condition. -/
theorem accepted_map_mappable_iff {a20 : Bool} {map : List E820Entry} {s t u : KernelState} {free : List Addr}
    (quiet : Quiet s.cpu) (accepted : (pmemInit a20 (some map)).run s = .ok () t) (same : SameMap t u)
    (heap : Heap u free) (enough : Enough u free) : Mappable u ↔ MapFits map := by
  obtain ⟨map', extmem, entry, rfl, isMap, above, tables⟩ := pmemInit_eq_ok quiet accepted
  obtain rfl : map = map' := Option.some.inj isMap
  obtain ⟨m, chars, cpu, -, ran⟩ := run_pmemInit quiet above tables
  rw [accepted] at ran
  cases ran
  have same' : SameMap (mapped s extmem entry) u := ⟨same.physEnd, same.acpi, same.acpiLen⟩
  obtain ⟨stop, base, len⟩ := same'.numbers
  constructor
  · intro mappable
    refine ⟨extmem, entry, above, tables, ?_⟩
    rw [← stop, ← base, ← len]
    exact mappable.fits heap
  · rintro ⟨extmem', entry', above', tables', fits⟩
    obtain rfl : extmem = extmem' := Option.some.inj (above.symm.trans above')
    obtain rfl : entry = entry' := Option.some.inj (tables.symm.trans tables')
    rw [← stop, ← base, ← len] at fits
    exact fits.mappable heap enough

/-- A machine with 4 MiB of memory. -/
def smallMap : List E820Entry :=
  [⟨0x0#64, 0x9f000#64, E820_TYPE_RAM⟩, ⟨0x100000#64, 0x300000#64, E820_TYPE_RAM⟩, ⟨0x7fe0000#64, 0x20000#64, E820_TYPE_ACPI⟩]

theorem accepted_map_mappable_small :
    ∃ s t u free, (pmemInit true (some smallMap)).run s = .ok () t ∧ SameMap t u ∧ Heap u free ∧ MapFits smallMap ∧
      Mappable u := by
  have quiet := boot_quiet (fun _ => 0#8) 0x80102000#32
  have above : extendedEntry smallMap = some ⟨0x100000#64, 0x300000#64, E820_TYPE_RAM⟩ := by decide
  have tables : acpiEntry smallMap = some ⟨0x7fe0000#64, 0x20000#64, E820_TYPE_ACPI⟩ := by decide
  obtain ⟨m, chars, cpu, -, ran⟩ := run_pmemInit quiet above tables
  obtain ⟨u, heap, physEnd, acpi, acpiLen, -⟩ := KallocRuns.exists_booted 9 (by decide) 0x8010c000#32
    (by unfold KallocRuns.rangePages; decide) 0x00400000#32 0x07fe0000#32 0x00020000#32
  have small : Fits 0x400000 0x7fe0000 0x20000 :=
    ⟨by decide, by decide, by decide, by decide, .inl (by decide), by decide, by decide, .inl (by decide)⟩
  have fits : MapFits smallMap := ⟨_, _, above, tables, small⟩
  have here : Fits u.physEnd.toNat u.acpi.toNat u.acpiLen.toNat := by
    rw [physEnd, acpi, acpiLen]
    exact small
  have enough : Enough u (KallocRuns.bootPages 9).reverse := by
    apply here.enough {512, 543, 1016, 1017, 1018, 1019}
    · intro n range
      simp only [physEnd, acpi, acpiLen, HalfPage, BitVec.toNat_ofNat] at range
      simp only [Finset.mem_insert, Finset.mem_singleton]
      omega
    · decide
  exact ⟨_, _, u, _, ran, ⟨physEnd, acpi, acpiLen⟩, heap, fits,
    (accepted_map_mappable_iff quiet ran ⟨physEnd, acpi, acpiLen⟩ heap enough).mpr fits⟩

/-- A machine with 3 GiB of memory. -/
def largeMap : List E820Entry :=
  [⟨0x0#64, 0x9f000#64, E820_TYPE_RAM⟩, ⟨0x100000#64, 0xbff00000#64, E820_TYPE_RAM⟩, ⟨0xc0000000#64, 0x20000#64, E820_TYPE_ACPI⟩]

theorem large_map_not_mappable :
    ∃ t, (pmemInit true (some largeMap)).run (boot (fun _ => 0#8) 0x80102000#32) = .ok () t ∧
      ¬ KERNBASE.toNat + t.physEnd.toNat ≤ 2 ^ 32 := by
  have above : extendedEntry largeMap = some ⟨0x100000#64, 0xbff00000#64, E820_TYPE_RAM⟩ := by decide
  have tables : acpiEntry largeMap = some ⟨0xc0000000#64, 0x20000#64, E820_TYPE_ACPI⟩ := by decide
  obtain ⟨m, chars, cpu, -, ran⟩ := run_pmemInit (boot_quiet (fun _ => 0#8) 0x80102000#32) above tables
  refine ⟨_, ran, ?_⟩
  change ¬ KERNBASE.toNat + (0xc0000000#32).toNat ≤ 2 ^ 32
  decide

end OsDev.Kernel.KernelHalf
