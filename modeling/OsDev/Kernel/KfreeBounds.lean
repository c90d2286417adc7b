import OsDev.Kernel.UpperHalf

/-! Which addresses `kfree` turns away once both phases of the allocator are set up.
`kinit2` stores a virtual address in `kheap_end`, and `kfree` compares it with a
physical one; what is left to stop a wrong page is a page fault. -/

namespace OsDev.Kernel.KfreeBounds
open OsDev.Machine.Memory OsDev.Machine.Program OsDev.Kernel.SpinLocks OsDev.Kernel.Mmu OsDev.Kernel.State OsDev.Kernel.Console
open OsDev.Kernel.Kalloc OsDev.Kernel.KallocRuns OsDev.Kernel.MemoryFrame OsDev.Kernel.Paging OsDev.Kernel.AddressSpace
  OsDev.Kernel.Pmem OsDev.Kernel.HeapRam OsDev.Kernel.Proc OsDev.Kernel.Holdings OsDev.Kernel.Startup OsDev.Kernel.UpperHalf
open OsDev.Kernel.KernelHalf (smallMap)

/-- The directory in CR3 lets the kernel write at `a`. -/
def writable (s : KernelState) (a : Addr) : Bool := (walk s.mem s.cr3 a).any (·.writable)

/-- `kfree` under paging. A page that passes the check is written from its first byte on;
where the directory in CR3 forbids that, `page_fault_handler` panics. -/
def kfreePaged (v : Addr) : Prog KernelState Unit := do
  let s ← get
  if v % PGSIZE ≠ 0#32 ∨ v < s.kheapStart ∨ s.kheapEnd ≤ V2P v then kpanic "kfree" else
  if writable s v then kfree v else kpanic "page fault not handled!"

/-- What happens to the allocator while the kernel runs, also by mistake: any page may be
freed that `kfree` accepts, anything may be written anywhere, any directory may be
loaded, and whatever else is done leaves the locks free. -/
inductive Use : KernelState → KernelState → Prop where
  | kalloc {s t : KernelState} (p : Addr) (ran : kalloc.run s = .ok p t) : Use s t
  | kfree {s t : KernelState} (v : Addr) (ran : (kfreePaged v).run s = .ok () t) : Use s t
  | write {s : KernelState} (a : Addr) (b : Byte) : Use s (s.setMem (store8 s.mem a b))
  | load {s : KernelState} (pgdir : Addr) : Use s { s with cr3 := pgdir }
  | other {s : KernelState} (cpu : Processor) (quiet : Quiet cpu) : Use s (s.setCpu cpu)

/-- `main` calls `kinit1` on the pages from the end of the image up to 4 MiB and `paging_init`,
uses some pages, and then calls `kinit2` on the pages up to the end of memory. On a machine
with less than 4 MiB that would read free pages which the new directory does not map. -/
def SetUp (kEnd : Addr) (t : KernelState) : Prop :=
  ∃ a20 info s paged used, Quiet s.cpu ∧ (startPaging a20 info kEnd).run s = .ok () paged ∧
    0x400000 ≤ paged.physEnd.toNat ∧ Reachable (· = paged) Use used ∧ addMemory.run used = .ok () t

/-- A page between the start of the heap and the end of memory. -/
def Freeable (s : KernelState) (v : Addr) : Prop := Aligned v ∧ s.kheapStart ≤ v ∧ V2P v < s.physEnd

/-- The call comes back only for a page of the heap, and panics at once for all else. -/
structure Rejects (s : KernelState) (v : Addr) : Prop where
  accepted : ∀ t, (kfreePaged v).run s = .ok () t → Freeable s v
  refused : ¬ Freeable s v → ∃ message, (kfreePaged v).run s = .error (.panic message) s

section Paged
variable {s : KernelState} {v : Addr}

theorem run_kfreePaged_refused (outside : ¬ Frame s v) : (kfreePaged v).run s = .error (.panic "kfree") s := by
  rw [frame_iff, not_not] at outside
  rw [kfreePaged, run_bind_ok (EStateM.run_get s), run_ite, if_pos outside]
  rfl

theorem run_kfreePaged_faults (frame : Frame s v) (unmapped : writable s v = false) :
    (kfreePaged v).run s = .error (.panic "page fault not handled!") s := by
  rw [kfreePaged, run_bind_ok (EStateM.run_get s), run_ite, if_neg ((frame_iff s v).mp frame), run_ite, if_neg (by simp [unmapped])]
  rfl

theorem run_kfreePaged_written (frame : Frame s v) (mapped : writable s v = true) :
    (kfreePaged v).run s = (kfree v).run s := by
  rw [kfreePaged, run_bind_ok (EStateM.run_get s), run_ite, if_neg ((frame_iff s v).mp frame), run_ite, if_pos mapped]

theorem rejects_of_panic {message : String} (panics : (kfreePaged v).run s = .error (.panic message) s) : Rejects s v where
  accepted t ran := by
    rw [panics] at ran
    cases ran
  refused _ := ⟨message, panics⟩

end Paged

/-- What `kfree` compares with stays, and the locks are free. -/
structure Keeps (s t : KernelState) : Prop where
  quiet : Quiet t.cpu
  start : t.kheapStart = s.kheapStart
  stop : t.kheapEnd = s.kheapEnd
  memory : t.physEnd = s.physEnd

section Bounds
variable {s t u : KernelState}

theorem Keeps.trans (first : Keeps s t) (second : Keeps t u) : Keeps s u :=
  ⟨second.quiet, second.start.trans first.start, second.stop.trans first.stop, second.memory.trans first.memory⟩

theorem Confined.keeps {α : Type} {code : Prog KernelState α} {a : α} (confined : Confined code) (quiet : Quiet s.cpu)
    (ran : code.run s = .ok a t) : Keeps s t := by
  obtain ⟨m, c, f, rfl, settled⟩ := confined.returns s a t quiet ran
  exact ⟨settled.quiet, rfl, rfl, rfl⟩

theorem cprintf_keeps {fmt : String} (simple : plain (cstring fmt) = true) (args : List Word) (quiet : Quiet s.cpu)
    (ran : (cprintf fmt args).run s = .ok () t) : Keeps s t := by
  obtain ⟨chars, cpu, settled, printed⟩ := run_cprintf_plain fmt args s quiet simple
  rw [printed] at ran
  cases ran
  exact ⟨settled.quiet, rfl, rfl, rfl⟩

theorem Use.keeps (used : Use s t) (quiet : Quiet s.cpu) : Keeps s t := by
  cases used with
  | kalloc p ran => exact Confined.keeps confined_kalloc quiet ran
  | kfree v ran =>
    by_cases frame : Frame s v
    · cases mapped : writable s v with
      | true =>
        rw [run_kfreePaged_written frame mapped] at ran
        exact Confined.keeps (confined_kfree v) quiet ran
      | false =>
        rw [run_kfreePaged_faults frame mapped] at ran
        cases ran
    · rw [run_kfreePaged_refused frame] at ran
      cases ran
  | write a b => exact ⟨quiet, rfl, rfl, rfl⟩
  | load pgdir => exact ⟨quiet, rfl, rfl, rfl⟩
  | other cpu quiet' => exact ⟨quiet', rfl, rfl, rfl⟩

theorem keeps_reachable (quiet : Quiet s.cpu) (run : Reachable (· = s) Use t) : Keeps s t := by
  refine run.invariant (fun u same => ?_) (fun u v kept used => kept.trans (used.keeps kept.quiet))
  obtain rfl : u = s := same
  exact ⟨quiet, rfl, rfl, rfl⟩

theorem kinit1_start {vstart vend : Addr} (quiet : Quiet s.cpu) (ran : (kinit1 vstart vend).run s = .ok () t) :
    Quiet t.cpu ∧ t.kheapStart = vstart := by
  have relocked : setLock .kmem unlocked s.cpu = s.cpu := by
    simp only [setLock, ← quiet.free .kmem, Function.update_eq_self]
  rw [kinit1, run_bind_ok (EStateM.run_modify _ _), run_bind_ok (run_onCpu_ok (run_initlock .kmem _)),
    run_bind_ok (EStateM.run_modify _ _)] at ran
  have kept := Confined.keeps (confined_freerange vstart vend) (by simpa [relocked] using quiet) ran
  exact ⟨kept.quiet, kept.start⟩

theorem pagingInit_keeps (quiet : Quiet s.cpu) (ran : pagingInit.run s = .ok () t) : Keeps s t := by
  unfold pagingInit at ran
  obtain ⟨pgdir, u, built, ran⟩ := run_bind_eq_ok ran
  have kept := Confined.keeps confined_setupkvm quiet built
  rw [run_bind_ok (EStateM.run_modify _ _)] at ran
  obtain rfl := pagingSwitchPgdir_eq_ok ran
  exact ⟨kept.quiet, kept.start, kept.stop, kept.memory⟩

/-- Up to `paging_init` the start of the heap is set. -/
theorem startPaging_start {a20 : Bool} {info : Option (List E820Entry)} {kEnd : Addr} (quiet : Quiet s.cpu)
    (ran : (startPaging a20 info kEnd).run s = .ok () t) : Quiet t.cpu ∧ t.kheapStart = PGROUNDUP kEnd := by
  unfold startPaging at ran
  obtain ⟨_, u, found, ran⟩ := run_bind_eq_ok ran
  obtain ⟨map, extmem, entry, rfl, rfl, above, tables⟩ := pmemInit_eq_ok quiet found
  obtain ⟨m, chars, cpu, settled, found'⟩ := run_pmemInit quiet above tables
  cases found.symm.trans found'
  rw [run_bind_ok (EStateM.run_get _)] at ran
  obtain ⟨_, v, printed, ran⟩ := run_bind_eq_ok ran
  have first := cprintf_keeps (by decide) _ settled.quiet printed
  obtain ⟨_, w, freed, ran⟩ := run_bind_eq_ok ran
  have second := kinit1_start first.quiet freed
  obtain ⟨_, x, switched, last⟩ := run_bind_eq_ok ran
  have kept := (pagingInit_keeps second.1 switched).trans
    (cprintf_keeps (by decide) [] (pagingInit_keeps second.1 switched).quiet last)
  exact ⟨kept.quiet, kept.start.trans second.2⟩

theorem addMemory_stop (quiet : Quiet s.cpu) (ran : addMemory.run s = .ok () t) :
    Quiet t.cpu ∧ t.kheapStart = s.kheapStart ∧ t.physEnd = s.physEnd ∧ t.kheapEnd = P2V t.physEnd := by
  rw [addMemory, run_bind_ok (EStateM.run_get s)] at ran
  obtain ⟨_, u, freed, printed⟩ := run_bind_eq_ok ran
  have extended := kinit2_extended phaseEnd (P2V s.physEnd) quiet freed
  have kept := cprintf_keeps (by decide) [] extended.settled.quiet printed
  refine ⟨kept.quiet, kept.start.trans extended.kheapStart, kept.memory.trans extended.map.physEnd, ?_⟩
  rw [kept.stop, kept.memory, extended.kheapEnd, extended.map.physEnd]

theorem bounds_reachable {kEnd : Addr} (run : Reachable (SetUp kEnd) Use s) :
    Quiet s.cpu ∧ s.kheapStart = PGROUNDUP kEnd ∧ s.kheapEnd = P2V s.physEnd := by
  induction run with
  | start setUp =>
    obtain ⟨a20, info, s₀, paged, used, quiet, started, -, run, added⟩ := setUp
    obtain ⟨quiet', start⟩ := startPaging_start quiet started
    have kept := keeps_reachable quiet' run
    obtain ⟨quiet'', start', -, stop⟩ := addMemory_stop kept.quiet added
    exact ⟨quiet'', start'.trans (kept.start.trans start), stop⟩
  | next _ used ih =>
    obtain ⟨quiet, start, stop⟩ := ih
    have kept := used.keeps quiet
    exact ⟨kept.quiet, kept.start.trans start, by rw [kept.stop, kept.memory, stop]⟩

end Bounds

/-- In every run the check and the fault do their work except for the mapped pages behind the end of memory. -/
theorem kfree_rejects_iff {kEnd : Addr} (image : KERNBASE ≤ PGROUNDUP kEnd) {s : KernelState}
    (run : Reachable (SetUp kEnd) Use s) (memory : s.physEnd.toNat < 2 ^ 31) (v : Addr) :
    Rejects s v ↔ ¬ (Aligned v ∧ s.kheapStart ≤ v ∧ s.physEnd ≤ V2P v ∧ writable s v = true) := by
  obtain ⟨quiet, start, stop⟩ := bounds_reachable run
  -- above KERNBASE every physical address is below `kheap_end`
  have high : s.kheapStart ≤ v → V2P v < s.kheapEnd := by
    intro above
    rw [start] at above
    rw [stop]
    unfold P2V V2P
    unfold KERNBASE at *
    bv_omega
  constructor
  · rintro ⟨accepted, -⟩ ⟨aligned, above, beyond, mapped⟩
    have frame : Frame s v := ⟨aligned, above, high above⟩
    obtain ⟨cpu, -, ran⟩ := run_kfree_accepted quiet frame
    rw [← run_kfreePaged_written frame mapped] at ran
    exact BitVec.not_lt.mpr beyond (accepted _ ran).2.2
  · intro within
    have freeable (frame : Frame s v) (mapped : writable s v = true) : Freeable s v := by
      refine ⟨frame.aligned, frame.above, ?_⟩
      by_contra beyond
      exact within ⟨frame.aligned, frame.above, BitVec.not_lt.mp beyond, mapped⟩
    by_cases frame : Frame s v
    · cases mapped : writable s v with
      | true => exact ⟨fun _ _ => freeable frame mapped, fun outside => absurd (freeable frame mapped) outside⟩
      | false => exact rejects_of_panic (run_kfreePaged_faults frame mapped)
    · exact rejects_of_panic (run_kfreePaged_refused frame)

section Small
variable {s : KernelState}

/-- A machine with 4 MiB of memory and tables at 0x7fe0000, in the directory of the kernel. -/
structure SmallKernel (s : KernelState) : Prop where
  run : Reachable (SetUp 0x80103000#32) Use s
  shows : ∀ a, walk s.mem s.cr3 a = translation s.mem s.kpgdir a
  kernel : ShowsKernel s s.kpgdir
  machine : SmallMachine s

theorem exists_smallKernel : ∃ s, SmallKernel s := by
  obtain ⟨t, free, ran, prepared, -⟩ := small_prepared
  rw [startKernel] at ran
  obtain ⟨_, paged, started, ran⟩ := run_bind_eq_ok ran
  obtain ⟨_, u, added, locked⟩ := run_bind_eq_ok ran
  have quiet := boot_quiet (fun _ => 0#8) 0x80000000#32
  have same : t = u.setCpu t.cpu := by
    rw [processInit, run_onCpu_ok (run_initlock .ptable u.cpu)] at locked
    cases locked
    rfl
  have large : 0x400000 ≤ paged.physEnd.toNat := by
    have memory : t.physEnd = paged.physEnd := by
      rw [same]
      exact (addMemory_stop (startPaging_start quiet started).1 added).2.2.1
    rw [← memory, prepared.map.physEnd]
    decide
  have setUp : SetUp 0x80103000#32 u := ⟨true, some smallMap, _, paged, paged, quiet, started, large, .start rfl, added⟩
  have run : Reachable (SetUp 0x80103000#32) Use t := by
    rw [same]
    exact .next (.start setUp) (.other t.cpu prepared.settled.quiet)
  have real : root t none ≠ 0#32 := prepared.real
  have map := prepared.map
  refine ⟨t, run, fun a => ?_, shows_kernel prepared.spaces real, map.physEnd, map.acpi, map.acpiLen, ?_⟩
  · rw [prepared.cr3]
    exact walk_root prepared.spaces real a
  · rw [prepared.start]
    decide

theorem SmallKernel.start (small : SmallKernel s) : s.kheapStart = 0x80103000#32 :=
  (bounds_reachable small.run).2.1.trans (by decide)

end Small

/-- An address below the heap is turned away by the check, and one where nothing is mapped by the page fault. -/
theorem kfree_rejects_low : ∃ s, Reachable (SetUp 0x80103000#32) Use s ∧ s.physEnd = 0x400000#32 ∧
    Rejects s 0x80102000#32 ∧ Rejects s 0x80800000#32 ∧
      (kfreePaged 0x80800000#32).run s = .error (.panic "page fault not handled!") s := by
  obtain ⟨s, small⟩ := exists_smallKernel
  have memory := small.machine.physEnd
  have unmapped : writable s 0x80800000#32 = false := by
    have absent : (0x80800000#32).toNat / 4096 ∉ kernelPages s := by
      rw [small.machine.mem_kernelPages]
      decide
    rw [writable, small.shows, small.kernel.absent _ (by decide) absent]
    rfl
  have rejects := kfree_rejects_iff (by decide) small.run (by rw [memory]; decide)
  refine ⟨s, small.run, memory, (rejects _).mpr ?_, (rejects _).mpr ?_, run_kfreePaged_faults ?_ unmapped⟩
  · rw [small.start]
    rintro ⟨-, above, -⟩
    revert above
    decide
  · rintro ⟨-, -, -, mapped⟩
    rw [unmapped] at mapped
    cases mapped
  · rw [Frame, small.start, (bounds_reachable small.run).2.2, memory]
    exact ⟨by decide, by decide, by decide⟩

/-- The pages of the ACPI tables are mapped and lie behind the end of memory: `kfree` fills one with junk and puts it onto
the free list. -/
theorem kfree_beyond_memory : ∃ s t, Reachable (SetUp 0x80103000#32) Use s ∧ s.physEnd = 0x400000#32 ∧
    (kfreePaged 0x87fe0000#32).run s = .ok () t ∧ t.freelist = 0x87fe0000#32 ∧ t.mem 0x87fe0fff#32 = 1#8 ∧
    ¬ V2P 0x87fe0000#32 < s.physEnd ∧ ¬ Rejects s 0x87fe0000#32 := by
  obtain ⟨s, small⟩ := exists_smallKernel
  have memory := small.machine.physEnd
  obtain ⟨quiet, -, stop⟩ := bounds_reachable small.run
  have mapped : writable s 0x87fe0000#32 = true := by
    have tables := small.kernel.acpi 0x7fe0000#32 (by rw [small.machine.acpi, small.machine.acpiLen]; decide)
    rw [writable, small.shows]
    exact congrArg (Option.any (·.writable)) tables
  have frame : Frame s 0x87fe0000#32 := by
    rw [Frame, small.start, stop, memory]
    exact ⟨by decide, by decide, by decide⟩
  have beyond : ¬ V2P 0x87fe0000#32 < s.physEnd := by
    rw [memory]
    decide
  obtain ⟨cpu, -, ran⟩ := run_kfree_accepted quiet frame
  rw [← run_kfreePaged_written frame mapped] at ran
  refine ⟨s, _, small.run, memory, ran, rfl, ?_, beyond, fun rejects => beyond (rejects.accepted _ ran).2.2⟩
  change freed s 0x87fe0000#32 0x87fe0fff#32 = 1#8
  rw [freed, write32_outside _ _ _ (by rw [Set.mem_compl_iff, mem_span]; decide)]
  exact fill_inside _ _ _ _ _ (by rw [mem_span]; decide)

end OsDev.Kernel.KfreeBounds
