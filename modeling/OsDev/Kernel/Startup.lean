import OsDev.Kernel.HeapRam
import OsDev.Kernel.Newborn

/-! From the memory map of the firmware to a kernel that can create processes: the part
of `main` up to `initproc_init`. -/

namespace OsDev.Kernel.Startup
open OsDev.Machine.Memory OsDev.Machine.Program OsDev.Machine.LinkedChain
open OsDev.Kernel.SpinLocks OsDev.Kernel.Mmu OsDev.Kernel.State OsDev.Kernel.Console OsDev.Kernel.Kalloc
  OsDev.Kernel.KallocRuns OsDev.Kernel.MemoryFrame OsDev.Kernel.Paging OsDev.Kernel.PageTables OsDev.Kernel.MapPages
  OsDev.Kernel.AddressSpace OsDev.Kernel.FreeVm OsDev.Kernel.Pmem OsDev.Kernel.KernelHalf OsDev.Kernel.HeapRam
  OsDev.Kernel.Proc OsDev.Kernel.Holdings OsDev.Kernel.Newborn
open OsDev.Kernel.SchedulerRuns (Free)
open OsDev.Kernel.SpaceRuns (userFrames_blank)

/-- What `main` does for the memory and the process table before it creates the first process. -/
def startKernel (a20 : Bool) (info : Option (List E820Entry)) (kEnd : Addr) : Prog KernelState Unit := do
  startPaging a20 info kEnd
  addMemory
  processInit

section Freeing
variable {s t : KernelState}

/-- `freerange` writes into the pages it frees. -/
theorem freerangeLoop_outside (vend : Addr) (fuel : Nat) (p : Addr) (quiet : Quiet s.cpu)
    (ran : (freerangeLoop vend fuel p).run s = .ok () t) : Set.EqOn t.mem s.mem (outside (loopPages vend fuel p)) := by
  induction fuel generalizing p s with
  | zero => cases ran
  | succ fuel ih =>
    rw [freerangeLoop, run_ite] at ran
    split at ran
    case isTrue more =>
      obtain ⟨_, u, freeing, ran⟩ := run_bind_eq_ok ran
      by_cases frame : Frame s p
      · obtain ⟨cpu, settled, accepted⟩ := run_kfree_accepted quiet frame
        rw [accepted] at freeing
        cases freeing
        intro x away
        rw [loopPages, if_pos more] at away
        have rest : x ∈ outside (loopPages vend fuel (p + PGSIZE)) := fun q member => away q (List.mem_cons_of_mem _ member)
        exact (ih (p + PGSIZE) settled.quiet ran rest).trans (freed_outside s p (away p List.mem_cons_self))
      · rw [run_kfree_refused frame] at freeing
        cases freeing
    case isFalse =>
      cases ran
      exact fun _ _ => rfl

theorem freerange_outside (vstart vend : Addr) (quiet : Quiet s.cpu) (ran : (freerange vstart vend).run s = .ok () t) :
    Set.EqOn t.mem s.mem (outside (rangePages vstart vend)) := by
  unfold freerange at ran
  unfold rangePages
  exact freerangeLoop_outside vend _ _ quiet ran

theorem dumpFreelistLoop_state {fuel count : Nat} {p : Addr} {found : Addr × Nat}
    (ran : (dumpFreelistLoop fuel p count).run s = .ok found t) : t = s := by
  induction fuel generalizing p count with
  | zero => cases ran
  | succ fuel ih =>
    rw [dumpFreelistLoop, run_bind_ok (EStateM.run_get s), run_ite] at ran
    split at ran
    · cases ran
      rfl
    · exact ih ran

theorem dumpFreelist_settled (quiet : Quiet s.cpu) (ran : dumpFreelist.run s = .ok () t) :
    ∃ chars c, t = (s.print chars).setCpu c ∧ Settled s.cpu c := by
  obtain ⟨first, c, settled, printed⟩ := run_cprintf_plain "kernel heap: start=0x%p" [s.freelist] s quiet (by decide)
  rw [dumpFreelist, run_bind_ok (EStateM.run_get s), run_bind_ok printed] at ran
  obtain ⟨⟨last, frames⟩, u, walked, ran⟩ := run_bind_eq_ok ran
  obtain rfl := dumpFreelistLoop_state walked
  obtain ⟨second, c', settled', printed'⟩ := run_cprintf_plain " end=0x%p, number of free frames: %d\n"
    [last, BitVec.ofNat 32 frames] ((s.print first).setCpu c) settled.quiet (by decide)
  rw [printed'] at ran
  cases ran
  refine ⟨first ++ second, c', ?_, settled.trans settled'⟩
  simp only [print_put, print_print]
  rfl

/-- What else `kinit2` leaves as it was. -/
structure Extended (vend : Addr) (pages : List Addr) (s t : KernelState) : Prop where
  settled : Settled s.cpu t.cpu
  map : SameMap s t
  kheapStart : t.kheapStart = s.kheapStart
  kheapEnd : t.kheapEnd = vend
  tables : t.ptable = s.ptable ∧ t.nextpid = s.nextpid ∧ t.proc = s.proc ∧ t.cr3 = s.cr3 ∧ t.kpgdir = s.kpgdir
  outside : Set.EqOn t.mem s.mem (outside pages)

theorem kinit2_extended (vstart vend : Addr) (quiet : Quiet s.cpu) (ran : (kinit2 vstart vend).run s = .ok () t) :
    Extended vend (rangePages vstart vend) s t := by
  rw [kinit2, run_bind_ok (EStateM.run_modify _ _)] at ran
  obtain ⟨_, u, freed, ran⟩ := run_bind_eq_ok ran
  have quiet' : Quiet { s with kheapEnd := vend }.cpu := quiet
  have outside := freerange_outside vstart vend quiet' freed
  obtain ⟨m, c, f, rfl, settled⟩ := (confined_freerange vstart vend).returns _ _ _ quiet' freed
  rw [run_bind_ok (EStateM.run_modify _ _)] at ran
  obtain ⟨chars, c', rfl, settled'⟩ := dumpFreelist_settled (by exact settled.quiet) ran
  exact ⟨settled.trans settled', ⟨rfl, rfl, rfl⟩, rfl, rfl, ⟨rfl, rfl, rfl, rfl, rfl⟩, outside⟩

end Freeing

section Spaces
variable {s t : KernelState} {free pages : List Addr} {vend : Addr}

/-- The pool gets more pages, and the bounds of the heap move. -/
theorem Extended.spaces (extended : Extended vend pages s t) (spaces : Spaces s free) (heap : Heap t (pages.reverse ++ free))
    (apart : ∀ i, (holdings s i).Disjoint pages) (frames : ∀ i, ∀ p ∈ holdings s i, Frame t p) :
    Spaces t (pages.reverse ++ free) ∧ holdings t = holdings s := by
  have aligned (p : Addr) (member : p ∈ pages) : Aligned p :=
    (heap.frames p (List.mem_append_left _ (List.mem_reverse.mpr member))).aligned
  have untouched (i : Owner) (p : Addr) (member : p ∈ holdings s i) : Set.EqOn t.mem s.mem (span p 4096) := by
    intro x inside
    refine extended.outside fun q isNew near => ?_
    have ne : q ≠ p := fun same => apart i member (same ▸ isNew)
    exact Set.disjoint_left.mp (page_disjoint (aligned q isNew) (frames i p member).aligned ne) near inside
  have roots (i : Owner) : root t i = root s i := by
    cases i with
    | none => exact extended.tables.2.2.2.2
    | some q => rw [root, root, extended.tables.1]
  have kstacks (i : Owner) : stackPages t i = stackPages s i := by
    cases i with
    | none => rfl
    | some q => rw [stackPages, stackPages, extended.tables.1]
  have same : holdings t = holdings s := funext fun i => spaces.holdings_eq (roots i) (kstacks i) (untouched i)
  have walk (i : Owner) (p : Addr) (member : p ∈ walkPages s.mem (root s i)) : Set.EqOn t.mem s.mem (span p 4096) :=
    untouched i p (walkPages_subset i member)
  refine ⟨⟨fun c quiet => heap.setCpu c quiet, ?_, ?_, ?_, ?_, ?_, ?_, ?_⟩, same⟩
  · rw [same]
    refine ⟨heap.distinct, spaces.divided.each, spaces.divided.apart, fun i p mine pooled => ?_⟩
    rcases List.mem_append.mp pooled with isNew | isFree
    · exact apart i mine (List.mem_reverse.mp isNew)
    · exact spaces.divided.taken i mine isFree
  · rw [same]
    exact frames
  · intro i mapped d bound
    rw [roots i] at mapped ⊢
    rw [(spaces.walk_congr (walk i) mapped).1 d bound]
    exact spaces.flags i mapped d bound
  · intro i mapped n high low
    rw [roots i] at mapped ⊢
    rw [(spaces.walk_congr (walk i) mapped).2 n low]
    rw [upperEntry_congr ⟨extended.map.physEnd, extended.map.acpi, extended.map.acpiLen⟩]
    exact spaces.upper i mapped n high low
  · exact firmware_congr ⟨extended.map.physEnd, extended.map.acpi, extended.map.acpiLen⟩ spaces.firmware
  · rw [extended.map.physEnd]
    exact spaces.memory
  · rw [extended.map.acpi]
    exact spaces.acpi

/-- Before the first process there is only the directory of the kernel. -/
theorem kernel_spaces {u : KernelState} {pgdir : Addr} {free' : List Addr} (fresh : Fresh s u free free' pgdir)
    (heap : Heap s free) (real : pgdir ≠ 0#32) (firmware : Firmware s) (memory : 1 ≤ s.physEnd.toNat) (acpi : Aligned s.acpi)
    (unused : ∀ q, s.ptable q = Process.zero) :
    Spaces { u with kpgdir := pgdir, cr3 := V2P pgdir } free' ∧
      ∀ i, ∀ p ∈ holdings { u with kpgdir := pgdir, cr3 := V2P pgdir } i, p ∈ pgdir :: tables u.mem pgdir := by
  have distinct : (pgdir :: (tables u.mem pgdir ++ free')).Nodup := fresh.order.nodup_iff.mpr heap.distinct
  have frames (p : Addr) (member : p ∈ pgdir :: (tables u.mem pgdir ++ free')) : Frame s p :=
    heap.frames p (fresh.order.subset member)
  obtain ⟨m, c, f, rfl⟩ := fresh.rest
  generalize state : { s.put m c f with kpgdir := pgdir, cr3 := V2P pgdir } = t
  have mem : t.mem = m := by rw [← state]; rfl
  have map : t.physEnd = s.physEnd ∧ t.acpi = s.acpi ∧ t.acpiLen = s.acpiLen := by rw [← state]; exact ⟨rfl, rfl, rfl⟩
  have rootOf (i : Owner) : root t i = if i = none then pgdir else 0#32 := by
    rw [← state]
    cases i with
    | none => rfl
    | some q => exact congrArg Process.pgdir (unused q)
  have kernel : holdings t none = pgdir :: tables m pgdir := by
    have blank : userFrames m pgdir = [] := userFrames_blank (fresh.lower firmware)
    rw [holdings, rootOf, if_pos rfl, mem, walkPages, framePages, if_neg real, if_neg real, blank, List.append_nil]
    rfl
  have nobody (q : Slot) : holdings t (some q) = [] := by
    have stack : stackPages t (some q) = [] := by
      rw [stackPages, ← state]
      exact if_pos (congrArg Process.kstack (unused q))
    rw [holdings, rootOf, stack]
    rfl
  have owned (i : Owner) (p : Addr) (member : p ∈ holdings t i) : i = none ∧ p ∈ pgdir :: tables m pgdir := by
    cases i with
    | none => exact ⟨rfl, kernel ▸ member⟩
    | some q =>
      rw [nobody] at member
      cases member
  have mine : (pgdir :: tables m pgdir).Nodup ∧ (pgdir :: tables m pgdir).Disjoint free' := by
    obtain ⟨first, -, apart⟩ := List.nodup_append'.mp (by simpa using distinct : ((pgdir :: tables m pgdir) ++ free').Nodup)
    exact ⟨first, apart⟩
  have mapped (i : Owner) (rooted : root t i ≠ 0#32) : root t i = pgdir := by
    rw [rootOf] at rooted ⊢
    split at rooted
    next isKernel => rw [if_pos isKernel]
    next => exact absurd rfl rooted
  refine ⟨?_, fun i p member => (owned i p member).2⟩
  refine ⟨fun c' quiet => ?_,
    ⟨fresh.dir.heap.distinct, fun i => ?_, fun i j differ p first second => ?_, fun i p first second => ?_⟩,
    fun i p member => ?_, fun i rooted => ?_, fun i rooted => ?_, ?_, ?_, ?_⟩
  · have after := fresh.dir.heap
    subst state
    exact ⟨quiet, after.sentinel, after.chain, after.distinct, after.frames⟩
  · cases i with
    | none =>
      rw [kernel]
      exact mine.1
    | some q =>
      rw [nobody]
      exact List.nodup_nil
  · exact differ ((owned i p first).1.trans (owned j p second).1.symm)
  · exact mine.2 (owned i p first).2 second
  · subst state
    exact frames p (List.mem_append_left free' (owned i p member).2)
  · rw [mapped i rooted, mem]
    exact fresh.dir.flags
  · rw [mapped i rooted, mem]
    intro n _ bound
    rw [upperEntry_congr map]
    exact fresh.upper n bound
  · exact firmware_congr map firmware
  · rw [map.1]
    exact memory
  · rw [map.2.1]
    exact acpi

end Spaces

/-- A memory map with which the kernel comes up. -/
structure Suitable (map : List E820Entry) (kEnd : Addr) (extmem entry : E820Entry) : Prop where
  loaded : Loaded map kEnd
  above : extendedEntry map = some extmem
  tables : acpiEntry map = some entry
  fits : Fits ((extmem.base.toNat + extmem.len.toNat) % 2 ^ 32) (entry.base.toNat % 2 ^ 32) (entry.len.toNat % 2 ^ 32)
  aligned : entry.base.toNat % 4096 = 0
  some : 1 ≤ entry.len.toNat % 2 ^ 32
  -- the first phase frees all pages below 4 MiB, and `dump_freelist` reads them under the new directory
  enough : 0x400000#32 ≤ (extmem.base + extmem.len).setWidth 32

/-- The words that the test of the A20 line writes; the second is where a large kernel image would be. -/
def tested : Set Addr := span (P2V 0x012345#32) 4 ∪ span (P2V 0x112345#32) 4

/-- The kernel after `kinit1`, still with the directory of the entry code. -/
structure Allocating (kEnd : Addr) (extmem entry : E820Entry) (s u : KernelState) : Prop where
  heap : Heap u (rangePages (PGROUNDUP kEnd) phaseEnd).reverse
  settled : Settled s.cpu u.cpu
  start : u.kheapStart = PGROUNDUP kEnd
  map : SameMap (mapped s extmem entry) u
  kept : u.ptable = s.ptable ∧ u.nextpid = s.nextpid ∧ u.proc = s.proc
  image : ∀ x < PGROUNDUP kEnd, x ∉ tested → u.mem x = s.mem x

/-- The kernel with its own directory, between the two phases of the allocator. -/
structure Switched (kEnd : Addr) (extmem entry : E820Entry) (s t : KernelState) (free : List Addr) : Prop where
  paged : Paged kEnd extmem t free
  settled : Settled s.cpu t.cpu
  spaces : Spaces t free
  owned : ∀ i, ∀ p ∈ holdings t i, p ∈ t.kpgdir :: tables t.mem t.kpgdir
  map : SameMap (mapped s extmem entry) t
  kept : t.ptable = s.ptable ∧ t.nextpid = s.nextpid ∧ t.proc = s.proc
  cr3 : t.cr3 = V2P t.kpgdir
  real : t.kpgdir ≠ 0#32
  count : (rangePages (PGROUNDUP kEnd) phaseEnd).length ≤ free.length + (neededTables t).card
  image : ∀ x < PGROUNDUP kEnd, x ∉ tested → t.mem x = s.mem x

/-- The kernel before it creates the first process. -/
structure Prepared (kEnd : Addr) (extmem entry : E820Entry) (s t : KernelState) (free : List Addr) : Prop where
  settled : Settled s.cpu t.cpu
  spaces : Spaces t free
  start : t.kheapStart = PGROUNDUP kEnd
  map : SameMap (mapped s extmem entry) t
  kept : t.ptable = s.ptable ∧ t.nextpid = s.nextpid ∧ t.proc = s.proc
  cr3 : t.cr3 = V2P t.kpgdir
  real : t.kpgdir ≠ 0#32
  count : (allPages kEnd t.physEnd).length ≤ free.length + (neededTables t).card
  pages : ∀ i, ∀ p ∈ holdings t i ++ free, PGROUNDUP kEnd ≤ p ∧ p.toNat + 4096 ≤ 2 ^ 31 + max 0x400000 t.physEnd.toNat
  image : ∀ x < PGROUNDUP kEnd, x ∉ tested → t.mem x = s.mem x

section Start
variable {map : List E820Entry} {kEnd : Addr} {extmem entry : E820Entry} {s u : KernelState}

theorem Suitable.firmware (suitable : Suitable map kEnd extmem entry) (same : SameMap (mapped s extmem entry) u) :
    Firmware u ∧ 1 ≤ u.physEnd.toNat ∧ Aligned u.acpi := by
  obtain ⟨stop, base, len⟩ := same.numbers
  have fits := suitable.fits
  rw [← stop, ← base, ← len] at fits
  have high := P2V_toNat fits.half
  have kernbase : KERNBASE.toNat = 2 ^ 31 := rfl
  obtain ⟨memoryTables, memoryDevices, tablesDevices⟩ := fits.disjoint
  have devices := fits.devices
  have room := fits.room
  refine ⟨⟨by omega, ?_, by omega, by rw [len]; exact suitable.some, memoryTables, memoryDevices, tablesDevices⟩, fits.memory, ?_⟩
  · rw [BitVec.le_def]
    omega
  · have aligned := suitable.aligned
    unfold Aligned
    omega

theorem firstPages_fresh (loaded : Loaded map kEnd) {stop : Addr} (limit : stop = 0x07fe0000#32) :
    FreshRange (PGROUNDUP kEnd) stop [] (rangePages (PGROUNDUP kEnd) phaseEnd) := by
  refine ⟨loaded.nodup_firstPages, fun p member => ?_, by simp⟩
  obtain ⟨aligned, after, before⟩ := loaded.mem_firstPages.mp member
  have bounds := loaded.bounds
  refine ⟨aligned, after, ?_⟩
  rw [limit]
  unfold V2P KERNBASE
  bv_omega

theorem kinit1_settled {vstart vend : Addr} {t : KernelState} (quiet : Quiet s.cpu)
    (ran : (kinit1 vstart vend).run s = .ok () t) : Settled s.cpu t.cpu := by
  have relocked : setLock .kmem unlocked s.cpu = s.cpu := by
    simp only [setLock, ← quiet.free .kmem, Function.update_eq_self]
  rw [kinit1, run_bind_ok (EStateM.run_modify _ _), run_bind_ok (run_onCpu_ok (run_initlock .kmem _)),
    run_bind_ok (EStateM.run_modify _ _)] at ran
  obtain ⟨m, c, f, rfl, settled⟩ := (confined_freerange vstart vend).returns _ _ _ (by simpa [relocked] using quiet) ran
  simpa [relocked] using settled

theorem kinit1_outside {vstart vend : Addr} {t : KernelState} (quiet : Quiet s.cpu)
    (ran : (kinit1 vstart vend).run s = .ok () t) : Set.EqOn t.mem s.mem (outside (rangePages vstart vend)) := by
  have relocked : setLock .kmem unlocked s.cpu = s.cpu := by
    simp only [setLock, ← quiet.free .kmem, Function.update_eq_self]
  rw [kinit1, run_bind_ok (EStateM.run_modify _ _), run_bind_ok (run_onCpu_ok (run_initlock .kmem _)),
    run_bind_ok (EStateM.run_modify _ _)] at ran
  have freed := freerange_outside vstart vend (by simpa [relocked] using quiet) ran
  exact freed

/-- The kernel image has no byte in a page of the heap. -/
theorem image_outside {x : Addr} {pages : List Addr} (above : ∀ p ∈ pages, PGROUNDUP kEnd ≤ p ∧ p.toNat + 4096 ≤ 2 ^ 32)
    (below : x < PGROUNDUP kEnd) : x ∈ outside pages := by
  intro p member inside
  obtain ⟨after, bound⟩ := above p member
  rw [mem_span] at inside
  bv_omega

theorem firstPages_above (loaded : Loaded map kEnd) (p : Addr) (member : p ∈ rangePages (PGROUNDUP kEnd) phaseEnd) :
    PGROUNDUP kEnd ≤ p ∧ p.toNat + 4096 ≤ 2 ^ 32 := by
  obtain ⟨-, after, bound⟩ := loaded.mem_firstPages.mp member
  exact ⟨after, by omega⟩

theorem unprinted_mem : Unprinted KernelState.mem := ⟨fun _ _ => rfl, fun _ _ => rfl, fun _ _ => rfl⟩

theorem preserves_scanEntries (entries : List E820Entry) (extmem acpi : Option E820Entry) :
    Preserves KernelState.mem (scanEntries entries extmem acpi) := by
  induction entries generalizing extmem acpi with
  | nil => exact preserves_pure _
  | cons entry rest ih =>
    apply (preserves_cprintf unprinted_mem _ _).bind
    intro _
    apply Preserves.ite
    · refine Preserves.bind ?_ fun _ => ih _ _
      exact preserves_modify fun _ => rfl
    · exact ih _ _

theorem preserves_setMemory (chosen : Option E820Entry × Option E820Entry) : Preserves KernelState.mem (setMemory chosen) := by
  unfold setMemory
  split
  · exact preserves_throw _
  · exact preserves_throw _
  · refine Preserves.bind ?_ fun _ => preserves_get.bind fun s => (preserves_cprintf unprinted_mem _ _).bind fun _ => ?_
    · exact preserves_modify fun _ => rfl
    · exact preserves_modify fun _ => rfl

/-- `pmem_init` writes to memory only to test the A20 line. -/
theorem pmemInit_mem {t : KernelState} (ran : (pmemInit true (some map)).run s = .ok () t) {x : Addr} (off : x ∉ tested) :
    t.mem x = s.mem x := by
  have low : x ∉ span (P2V 0x012345#32) 4 := fun inside => off (Set.mem_union_left _ inside)
  have high : x ∉ span (P2V 0x112345#32) 4 := fun inside => off (Set.mem_union_right _ inside)
  unfold pmemInit at ran
  obtain ⟨enabled, u, line, rest⟩ := run_bind_eq_ok ran
  have written : u.mem x = s.mem x := by
    rw [a20Enabled, run_bind_ok (run_store32 _ _ s), run_bind_ok (run_store32 _ _ _), run_bind_ok (run_load32 _ _),
      run_bind_ok (run_load32 _ _)] at line
    have state := congrArg (fun result => (finalState result).mem x) line
    rw [EStateM.run_pure] at state
    have kept (pa : Addr) : masked true pa = pa := if_pos rfl
    simp only [finalState, KernelState.put_mem, kept] at state
    rw [← state, write32_outside _ _ _ high, write32_outside _ _ _ low]
  have kept : Preserves KernelState.mem (do
      print "BIOS-provided physical RAM map:\n"
      let chosen ← scanEntries map none none
      setMemory chosen) :=
    (preserves_cprintf unprinted_mem _ _).bind fun _ => (preserves_scanEntries _ _ _).bind fun _ => preserves_setMemory _
  rw [run_ite] at rest
  split at rest
  · cases rest
  · cases map with
    | nil => cases rest
    | cons entry more => exact (congrFun (kept.ok rest) x).trans written

/-- The state `pmem_init` and `kinit1` leave to `paging_init`, with what they do not touch. -/
theorem run_beforePaging (suitable : Suitable map kEnd extmem entry) (quiet : Quiet s.cpu) (stop : s.kheapEnd = 0x07fe0000#32)
    (low : s.KMEM_SENTINEL < PGROUNDUP kEnd) :
    ∃ u, Allocating kEnd extmem entry s u ∧
      (startPaging true (some map) kEnd).run s = EStateM.run (do pagingInit; print "Pagination enabled\n") u := by
  obtain ⟨m, first, c, settled, found⟩ := run_pmemInit quiet suitable.above suitable.tables
  obtain ⟨second, c', settled', printed⟩ := run_cprintf_plain "Max usable kernel memory address: 0x%p\n"
    [(extmem.base + extmem.len).setWidth 32 - 1#32] (((mapped s extmem entry).print first).put m c s.freelist)
    settled.quiet (by decide)
  obtain ⟨m', c'', f, freed, heap⟩ := run_kinit1
    (((((mapped s extmem entry).print first).put m c s.freelist).print second).setCpu c') (PGROUNDUP kEnd) phaseEnd
    settled'.quiet low (firstPages_fresh suitable.loaded stop)
  have settled'' := kinit1_settled (by exact settled'.quiet) freed
  have outside := kinit1_outside (by exact settled'.quiet) freed
  refine ⟨_, ⟨heap, (settled.trans settled').trans settled'', rfl, ⟨rfl, rfl, rfl⟩, ⟨rfl, rfl, rfl⟩, fun x below off => ?_⟩, ?_⟩
  · exact (outside (image_outside (firstPages_above suitable.loaded) below)).trans (pmemInit_mem found off)
  · rw [startPaging, run_bind_ok found, run_bind_ok (EStateM.run_get _)]
    exact (run_bind_ok printed).trans (run_bind_ok freed)

/-- The kernel between the two phases of the allocator. -/
theorem run_paging (suitable : Suitable map kEnd extmem entry) (quiet : Quiet s.cpu) (stop : s.kheapEnd = 0x07fe0000#32)
    (low : s.KMEM_SENTINEL < PGROUNDUP kEnd) (unused : ∀ q, s.ptable q = Process.zero)
    (room : (neededTables (mapped s extmem entry)).card + 1 ≤ (rangePages (PGROUNDUP kEnd) phaseEnd).length) :
    ∃ t free, (startPaging true (some map) kEnd).run s = .ok () t ∧ Switched kEnd extmem entry s t free := by
  obtain ⟨u, allocating, code⟩ := run_beforePaging suitable quiet stop low
  obtain ⟨heap, settled₁, start, same, kept, image⟩ := allocating
  obtain ⟨firmware, memory, acpi⟩ := suitable.firmware same
  have tablesSame : neededTables u = neededTables (mapped s extmem entry) := by
    simp only [neededTables, kernelPages, same.physEnd, same.acpi, same.acpiLen]
  obtain ⟨pgdir, v, built, member⟩ := setupkvm_returns heap firmware memory (by rw [tablesSame]; simpa using room)
  obtain ⟨free, fresh⟩ := setupkvm_fresh heap firmware memory built
  obtain ⟨m, c, f, rfl, settled⟩ := confined_setupkvm.returns _ _ _ settled₁.quiet built
  have real : pgdir ≠ 0#32 := (heap.frames pgdir member).ne_zero heap.sentinel
  obtain ⟨t, free', ran, paged⟩ := run_pagingInit suitable.loaded heap start same built
  obtain ⟨_, w, switched, printed⟩ := run_bind_eq_ok ran
  rw [pagingInit, run_bind_ok built, run_bind_ok (EStateM.run_modify _ _)] at switched
  obtain rfl := pagingSwitchPgdir_eq_ok switched
  obtain ⟨spaces, owned⟩ := kernel_spaces fresh heap real firmware memory acpi (by rw [kept.1]; exact unused)
  obtain ⟨chars, c', settled', printed'⟩ := run_print "Pagination enabled\n"
    { u.put m c f with kpgdir := pgdir, cr3 := V2P pgdir } settled.quiet (by decide)
  have state : t = (KernelState.print { u.put m c f with kpgdir := pgdir, cr3 := V2P pgdir } chars).setCpu c' := by
    rw [printed'] at printed
    cases printed
    rfl
  have pool : free' = free := by
    subst state
    exact chain_unique paged.heap.chain fresh.dir.heap.chain
  subst pool
  refine ⟨t, free', code.trans ran, paged, ?_, ?_, ?_, ?_, ?_, ?_, ?_, ?_, ?_⟩
  · subst state
    exact settled₁.trans (settled.trans settled')
  · subst state
    exact spaces.congr rfl
  · subst state
    exact owned
  · subst state
    exact ⟨same.physEnd, same.acpi, same.acpiLen⟩
  · subst state
    exact kept
  · subst state
    rfl
  · subst state
    exact real
  · have order := fresh.order.length_eq
    have used := Finset.card_le_card fresh.inside
    have needed := neededTables_card firmware
    have tables : (neededTables t).card = (neededTables u).card := by subst state; rfl
    rw [card_present] at used
    simp only [List.length_cons, List.length_append, List.length_reverse] at order
    omega
  · subst state
    intro x below off
    have away := image_outside (fun p member => firstPages_above suitable.loaded p (List.mem_reverse.mp member)) below
    exact (fresh.within away).trans (image x below off)

theorem run_startKernel (suitable : Suitable map kEnd extmem entry) (quiet : Quiet s.cpu) (stop : s.kheapEnd = 0x07fe0000#32)
    (low : s.KMEM_SENTINEL < PGROUNDUP kEnd) (unused : ∀ q, s.ptable q = Process.zero)
    (room : (neededTables (mapped s extmem entry)).card + 1 ≤ (rangePages (PGROUNDUP kEnd) phaseEnd).length) :
    ∃ t free, (startKernel true (some map) kEnd).run s = .ok () t ∧ Prepared kEnd extmem entry s t free := by
  obtain ⟨t, free, started, switched⟩ := run_paging suitable quiet stop low unused room
  obtain ⟨t', added, conserved⟩ := switched.paged.run_addMemory suitable.loaded
  have adding := added
  rw [addMemory, run_bind_ok (EStateM.run_get t)] at adding
  obtain ⟨_, w, freed, printed⟩ := run_bind_eq_ok adding
  have extended := kinit2_extended phaseEnd (P2V t.physEnd) switched.settled.quiet freed
  obtain ⟨chars, c, settled, printed'⟩ := run_print "Kernel heap allocator initialized\n" w extended.settled.quiet (by decide)
  rw [printed'] at printed
  cases printed
  have spaces' : Spaces w ((rangePages phaseEnd (P2V t.physEnd)).reverse ++ free) ∧ holdings w = holdings t := by
    have heap : Heap w ((rangePages phaseEnd (P2V t.physEnd)).reverse ++ free) :=
      ⟨extended.settled.quiet, conserved.heap.sentinel, conserved.heap.chain, conserved.heap.distinct, conserved.heap.frames⟩
    have taken (i : Owner) (p : Addr) (member : p ∈ holdings t i) : p ∉ (rangePages phaseEnd (P2V t.physEnd)).reverse ++ free :=
      fun pooled => conserved.disjoint p pooled (switched.owned i p member)
    refine extended.spaces switched.spaces heap (fun i p mine isNew => ?_)
      fun i p mine => conserved.out_frame (switched.owned i p mine)
    exact taken i p mine (List.mem_append_left _ (List.mem_reverse.mpr isNew))
  have relocked : setLock .ptable unlocked c = c := by
    simp only [setLock, ← settled.quiet.free .ptable, Function.update_eq_self]
  have ready : processInit.run ((w.print chars).setCpu c) = .ok () ((w.print chars).setCpu c) := by
    have ran := run_onCpu_ok (s := (w.print chars).setCpu c) (run_initlock .ptable c)
    rw [relocked] at ran
    exact ran
  have physEnd : ((w.print chars).setCpu c).physEnd = t.physEnd := extended.map.physEnd
  refine ⟨(w.print chars).setCpu c, _, ?_, ⟨?_, spaces'.1.congr rfl, ?_, ?_, ?_, ?_, ?_, ?_, ?_, ?_⟩⟩
  · rw [startKernel, run_bind_ok started, run_bind_ok added, ready]
  · exact (switched.settled.trans extended.settled).trans settled
  · exact extended.kheapStart.trans switched.paged.start
  · have same := switched.map
    exact ⟨extended.map.physEnd.trans same.physEnd, extended.map.acpi.trans same.acpi, extended.map.acpiLen.trans same.acpiLen⟩
  · have kept := switched.kept
    exact ⟨extended.tables.1.trans kept.1, extended.tables.2.1.trans kept.2.1, extended.tables.2.2.1.trans kept.2.2⟩
  · exact extended.tables.2.2.2.1.trans (switched.cr3.trans (congrArg V2P extended.tables.2.2.2.2.symm))
  · exact extended.tables.2.2.2.2.trans_ne switched.real
  · have count := switched.count
    have tables : neededTables ((w.print chars).setCpu c) = neededTables t := by
      simp only [neededTables, kernelPages, KernelState.put_physEnd, KernelState.put_acpi, KernelState.put_acpiLen,
        KernelState.print_physEnd, KernelState.print_acpi, KernelState.print_acpiLen, extended.map.physEnd, extended.map.acpi,
        extended.map.acpiLen]
    rw [physEnd, tables, allPages, List.length_append, List.length_append, List.length_reverse]
    omega
  · intro i p member
    have same : holdings ((w.print chars).setCpu c) = holdings w := holdings_congr rfl
    rw [same, spaces'.2, List.mem_append] at member
    have given : p ∈ allPages kEnd t.physEnd :=
      conserved.pages.subset (List.mem_append.mpr (member.symm.imp id (switched.owned i p)))
    have early := suitable.loaded.below
    rw [physEnd]
    rcases List.mem_append.mp given with second | first
    · obtain ⟨-, after, bound⟩ := switched.paged.mem_secondPages.mp second
      exact ⟨by bv_omega, by omega⟩
    · obtain ⟨-, after, bound⟩ := suitable.loaded.mem_firstPages.mp first
      exact ⟨after, by omega⟩
  · intro x below off
    refine (extended.outside (image_outside (fun p member => ?_) below)).trans (switched.image x below off)
    obtain ⟨-, after, bound⟩ := switched.paged.mem_secondPages.mp member
    have top := switched.paged.bounds
    have early := suitable.loaded.below
    exact ⟨by bv_omega, by omega⟩

end Start

/-- A machine with 4 MiB of memory. -/
theorem small_suitable : Suitable smallMap 0x80103000#32 ⟨0x100000#64, 0x300000#64, E820_TYPE_RAM⟩
    ⟨0x7fe0000#64, 0x20000#64, E820_TYPE_ACPI⟩ where
  loaded := ⟨by decide, by decide, ⟨0x100000#64, 0x300000#64, E820_TYPE_RAM⟩, by decide, by decide, by decide⟩
  above := by decide
  tables := by decide
  fits := ⟨by decide, by decide, by decide, by decide, .inl (by decide), by decide, by decide, .inl (by decide)⟩
  aligned := by decide
  some := by decide
  enough := by decide

theorem small_tables {s : KernelState} (stop : s.physEnd = 0x00400000#32) (acpi : s.acpi = 0x07fe0000#32)
    (len : s.acpiLen = 0x00020000#32) : (neededTables s).card ≤ 7 := by
  have machine : SmallMachine { s with kheapStart := 0x80103000#32 } := ⟨stop, acpi, len, rfl⟩
  have few : neededTables s ⊆ {0, 512, 543, 1016, 1017, 1018, 1019} := by
    intro d member
    obtain ⟨n, range, rfl⟩ := Finset.mem_image.mp member
    have pages : n ∈ kernelPages { s with kheapStart := 0x80103000#32 } ∪ {0} := range
    rw [Finset.mem_union, machine.mem_kernelPages, Finset.mem_singleton] at pages
    simp only [Finset.mem_insert, Finset.mem_singleton]
    omega
  exact Finset.card_le_card few

theorem small_pages : 40 ≤ (rangePages (PGROUNDUP 0x80103000#32) phaseEnd).length := by
  have start : PGROUNDUP 0x80103000#32 = 0x80103000#32 := by decide
  have distinct : (bootPages 40).Nodup := by decide
  refine distinct.length_le_of_subset fun p member => ?_
  obtain ⟨i, bound, rfl⟩ := List.mem_map.mp member
  rw [List.mem_range] at bound
  rw [small_suitable.loaded.mem_firstPages, start]
  unfold Aligned PGSIZE
  bv_omega

theorem small_prepared : ∃ t free, (startKernel true (some smallMap) 0x80103000#32).run (boot (fun _ => 0#8) 0x80000000#32) =
    .ok () t ∧ Prepared 0x80103000#32 ⟨0x100000#64, 0x300000#64, E820_TYPE_RAM⟩ ⟨0x7fe0000#64, 0x20000#64, E820_TYPE_ACPI⟩
      (boot (fun _ => 0#8) 0x80000000#32) t free ∧ (neededTables t).card ≤ 7 ∧ 33 ≤ free.length := by
  have few : (neededTables (mapped (boot (fun _ => 0#8) 0x80000000#32) ⟨0x100000#64, 0x300000#64, E820_TYPE_RAM⟩
      ⟨0x7fe0000#64, 0x20000#64, E820_TYPE_ACPI⟩)).card ≤ 7 := small_tables rfl rfl rfl
  have many := small_pages
  obtain ⟨t, free, ran, prepared⟩ := run_startKernel (s := boot (fun _ => 0#8) 0x80000000#32) small_suitable (boot_quiet _ _) rfl
    (by decide) (fun _ => rfl) (by omega)
  have tables : (neededTables t).card ≤ 7 := small_tables prepared.map.physEnd prepared.map.acpi prepared.map.acpiLen
  have count := prepared.count
  rw [allPages, List.length_append] at count
  exact ⟨t, free, ran, prepared, tables, by omega⟩

end OsDev.Kernel.Startup
