import OsDev.Kernel.UserMemory

/-! `paging_get_paddr` (kernel/paging.c) against the walk of the processor. -/

namespace OsDev.Kernel.PageLookup
open OsDev.Machine.Memory OsDev.Machine.Program OsDev.Kernel.Mmu OsDev.Kernel.State OsDev.Kernel.Kalloc OsDev.Kernel.KallocRuns
open OsDev.Kernel.Paging OsDev.Kernel.PageTables OsDev.Kernel.MapPages OsDev.Kernel.AddressSpace OsDev.Kernel.UserMemory

/-- Wherever the processor finds a physical address, the function returns it. -/
def AgreesWithMmu (s : KernelState) (vaddr : Addr) : Prop :=
  ∀ t, translation s.mem s.kpgdir vaddr = some t → (pagingGetPaddr vaddr).run s = .ok t.pa s

/-- The flag bits of the table entry. -/
def entryFlags (s : KernelState) (vaddr : Addr) : Word := pteAt s.mem s.kpgdir (vaddr.toNat / 4096) &&& 0xFFF#32

theorem PTE_ADDR_add_flags (pte : Word) : PTE_ADDR pte + (pte &&& 0xFFF#32) = pte := by
  apply BitVec.eq_of_toNat_eq
  have size := pte.isLt
  rw [BitVec.toNat_add, PTE_ADDR_toNat, mask_low]
  omega

theorem flags_ne_zero {pte : Word} (present : has pte PTE_P = true) : pte &&& 0xFFF#32 ≠ 0#32 := by
  intro clear
  have narrow : pte &&& PTE_P = (pte &&& 0xFFF#32) &&& PTE_P := by
    rw [BitVec.and_assoc]
    rfl
  rw [has, decide_eq_true_iff, narrow, clear] at present
  exact present rfl

section Lookup
variable {s : KernelState} {free : List Addr} {vaddr : Addr}

/-- The entry is returned as it stands, flags included. -/
theorem run_pagingGetPaddr (dir : Directory s s.kpgdir free) {t : Mapping}
    (mapped : translation s.mem s.kpgdir vaddr = some t) :
    entryFlags s vaddr ≠ 0#32 ∧ (pagingGetPaddr vaddr).run s = .ok (t.pa + entryFlags s vaddr) s := by
  have bound : vaddr.toNat / 4096 < 2 ^ 20 := by
    have size := vaddr.isLt
    omega
  rw [dir.translation_eq vaddr, decode] at mapped
  split at mapped
  next present =>
    obtain ⟨table, found⟩ := Option.ne_none_iff_exists'.mp (table_of_present present)
    have entry := read32_slot found
    refine ⟨flags_ne_zero present, ?_⟩
    have value : t.pa + entryFlags s vaddr = pteAt s.mem s.kpgdir (vaddr.toNat / 4096) + ADDR_PAGE_OFFSET vaddr := by
      rw [← Option.some.inj mapped, entryFlags]
      generalize pteAt s.mem s.kpgdir (vaddr.toNat / 4096) = pte
      calc PTE_ADDR pte + ADDR_PAGE_OFFSET vaddr + (pte &&& 0xFFF#32)
          = PTE_ADDR pte + (pte &&& 0xFFF#32) + ADDR_PAGE_OFFSET vaddr := by
            rw [BitVec.add_assoc, BitVec.add_comm (ADDR_PAGE_OFFSET vaddr), ← BitVec.add_assoc]
        _ = pte + ADDR_PAGE_OFFSET vaddr := by rw [PTE_ADDR_add_flags]
    unfold pagingGetPaddr
    rw [run_bind_ok (EStateM.run_get s), run_bind_ok (run_walkpgdir_found vaddr table false found), run_ite,
      if_neg (dir.slot_ne_zero bound found), run_bind_ok (run_load32 _ s), entry, value]
    rfl
  next => cases mapped

end Lookup

/-- On no mapped address does the result agree with the processor: it is off by the flag bits of the entry, whatever they are. -/
theorem paging_get_paddr_iff (s : KernelState) (free : List Addr) (dir : Directory s s.kpgdir free) (vaddr : Addr) :
    (AgreesWithMmu s vaddr ↔ translation s.mem s.kpgdir vaddr = none) ∧
      ∀ t, translation s.mem s.kpgdir vaddr = some t →
        entryFlags s vaddr ≠ 0#32 ∧ (pagingGetPaddr vaddr).run s = .ok (t.pa + entryFlags s vaddr) s := by
  refine ⟨⟨fun agrees => ?_, fun unmapped t mapped => ?_⟩, fun t mapped => run_pagingGetPaddr dir mapped⟩
  · by_contra present
    obtain ⟨t, mapped⟩ := Option.ne_none_iff_exists'.mp present
    obtain ⟨flags, ran⟩ := run_pagingGetPaddr dir mapped
    have claimed := agrees t mapped
    rw [ran] at claimed
    injection claimed with same
    exact flags (BitVec.add_right_eq_self.mp same)
  · rw [unmapped] at mapped
    cases mapped

/-- A kernel that has called `paging_init` on the small machine: page 0 is not mapped, the ACPI tables are. -/
theorem exists_paged :
    ∃ (s t : KernelState) (free : List Addr), pagingInit.run s = .ok () t ∧ Directory t t.kpgdir free ∧
      translation t.mem t.kpgdir 0#32 = none ∧
      translation t.mem t.kpgdir 0x87fe0010#32 = some ⟨0x07fe0010#32, false, true⟩ ∧ entryFlags t 0x87fe0010#32 = 3#32 := by
  obtain ⟨s, t, pgdir, free, ran, dir, frame, -, low, start, machine, -, entries⟩ :=
    exists_kernel_half 9 (by decide) (by decide) 0x8010c000#32 (by unfold rangePages; decide)
  have nonzero : V2P pgdir ≠ 0#32 := by
    have above := frame.above
    rw [start] at above
    unfold V2P KERNBASE
    bv_omega
  have memory : 0x87fe0 ∉ pagesOf KERNBASE 0x00400000#32 := by
    rw [pagesOf, Finset.mem_Icc]
    decide
  have acpi : 0x87fe0 ∈ pagesOf (P2V 0x07fe0000#32) 0x00020000#32 := by
    rw [pagesOf, Finset.mem_Icc]
    decide
  have entry : pteAt t.mem pgdir 0x87fe0 = 0x07fe0003#32 := by
    rw [entries 0x87fe0 (machine.mem_kernelPages.mpr (by decide)), kernelEntry, machine.physEnd, machine.acpi, machine.acpiLen,
      if_neg memory, if_pos acpi]
    decide
  refine ⟨s, { t with kpgdir := pgdir, cr3 := V2P pgdir }, free, ?_, ?_, ?_, ?_, ?_⟩
  · unfold pagingInit
    rw [run_bind_ok ran, run_bind_ok (EStateM.run_modify _ _), run_pagingSwitchPgdir nonzero]
  · exact ⟨⟨dir.heap.quiet, dir.heap.sentinel, dir.heap.chain, dir.heap.distinct, dir.heap.frames⟩, dir.aligned, dir.flags,
      dir.frames, dir.distinct⟩
  · have missing : tableAt t.mem pgdir (0 / 1024) = none := low 0 (by decide)
    refine (dir.translation_none 0#32).mpr ?_
    change has (pteAt t.mem pgdir 0) PTE_P = false
    rw [pteAt, missing]
    exact has_zero PTE_P
  · refine (dir.translation_eq 0x87fe0010#32).trans ?_
    change decode (pteAt t.mem pgdir 0x87fe0) 0x87fe0010#32 = _
    rw [entry]
    decide
  · change pteAt t.mem pgdir 0x87fe0 &&& 0xFFF#32 = 3#32
    rw [entry]
    decide

theorem paging_get_paddr_small_machine :
    ∃ (s t : KernelState) (free : List Addr), pagingInit.run s = .ok () t ∧ Directory t t.kpgdir free ∧ AgreesWithMmu t 0#32 ∧
      ¬ AgreesWithMmu t 0x87fe0010#32 := by
  obtain ⟨s, t, free, ran, dir, unmapped, mapped, -⟩ := exists_paged
  refine ⟨s, t, free, ran, dir, (paging_get_paddr_iff t free dir 0#32).1.mpr unmapped, fun agrees => ?_⟩
  rw [(paging_get_paddr_iff t free dir 0x87fe0010#32).1, mapped] at agrees
  cases agrees

/-- The entry of a page of ACPI tables has the flags for present and writable. -/
theorem paging_get_paddr_adds_flags :
    ∃ s t : KernelState, pagingInit.run s = .ok () t ∧
      translation t.mem t.kpgdir 0x87fe0010#32 = some ⟨0x07fe0010#32, false, true⟩ ∧
      (pagingGetPaddr 0x87fe0010#32).run t = .ok 0x07fe0013#32 t := by
  obtain ⟨s, t, free, ran, dir, -, mapped, flags⟩ := exists_paged
  have result := (run_pagingGetPaddr dir mapped).2
  rw [flags] at result
  exact ⟨s, t, ran, mapped, result⟩

end OsDev.Kernel.PageLookup
