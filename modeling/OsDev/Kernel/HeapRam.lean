import OsDev.Kernel.KernelHalf

/-! The heap against the memory map of the firmware. `main` gives the pages from the end
of the kernel image up to 4 MiB to the allocator before paging is set up, and the pages
from there up to the end of memory afterwards. -/

namespace OsDev.Kernel.HeapRam
open OsDev.Machine.Memory OsDev.Machine.Program OsDev.Machine.LinkedChain
open OsDev.Kernel.SpinLocks OsDev.Kernel.Mmu OsDev.Kernel.State OsDev.Kernel.Console OsDev.Kernel.Kalloc
open OsDev.Kernel.Paging OsDev.Kernel.KallocRuns OsDev.Kernel.PageTables OsDev.Kernel.AddressSpace OsDev.Kernel.Pmem
open OsDev.Kernel.KernelHalf

/-- Where the first phase stops: `P2V(4*1024*1024)`. -/
def phaseEnd : Addr := P2V 0x400000#32

/-- What `main` does for the memory, up to `paging_init`; `kEnd` is the address of `__k_end`. -/
def startPaging (a20 : Bool) (info : Option (List E820Entry)) (kEnd : Addr) : Prog KernelState Unit := do
  pmemInit a20 info
  cprintf "Max usable kernel memory address: 0x%p\n" [(← get).physEnd - 1#32]
  kinit1 (PGROUNDUP kEnd) phaseEnd
  pagingInit
  print "Pagination enabled\n"

/-- What `main` does for the memory after `paging_init`. -/
def addMemory : Prog KernelState Unit := do
  kinit2 phaseEnd (P2V (← get).physEnd)
  print "Kernel heap allocator initialized\n"

/-- The kernel image, rounded up to a page, lies in the memory above 1 MiB and ends below 4 MiB. -/
structure Loaded (map : List E820Entry) (kEnd : Addr) : Prop where
  above : P2V 0x100000#32 ≤ PGROUNDUP kEnd
  below : PGROUNDUP kEnd < phaseEnd
  inside : ∃ extmem, extendedEntry map = some extmem ∧ extmem.base.toNat ≤ 0x100000 ∧
    (V2P (PGROUNDUP kEnd)).toNat ≤ extmem.base.toNat + extmem.len.toNat

/-- The page lies inside an entry for usable memory. -/
def InRam (map : List E820Entry) (p : Addr) : Prop :=
  ∃ entry ∈ map, entry.type = E820_TYPE_RAM ∧ entry.base.toNat ≤ (V2P p).toNat ∧
    (V2P p).toNat + 4096 ≤ entry.base.toNat + entry.len.toNat

/-- No byte of the page belongs to the kernel image. -/
def OutsideImage (kEnd p : Addr) : Prop := ∀ a ∈ span p 4096, ¬ (P2V 0x100000#32 ≤ a ∧ a < PGROUNDUP kEnd)

/-- The allocator when `main` has set up the memory; the pages handed out so far are the
kernel's page directory and its tables. -/
structure Booted (map : List E820Entry) (kEnd : Addr) (r : Run) : Prop where
  ran : ∃ a20 s t, Quiet s.cpu ∧ s.kheapEnd = 0x07fe0000#32 ∧ s.KMEM_SENTINEL < PGROUNDUP kEnd ∧
    (startPaging a20 (some map) kEnd).run s = .ok () t ∧ addMemory.run t = .ok () r.kernel ∧
    r.out = t.kpgdir :: tables t.mem t.kpgdir ∧
    r.given = rangePages phaseEnd (P2V t.physEnd) ++ rangePages (PGROUNDUP kEnd) phaseEnd

/-- Once `main` is done with it, the allocator is given no more pages. -/
def Later (r r' : Run) : Prop := Step r r' ∧ r'.given = r.given

/-- Free pages and pages handed out are usable memory outside the kernel image. -/
def OnlyRam (map : List E820Entry) (kEnd : Addr) (r : Run) : Prop :=
  ∃ free, Heap r.kernel free ∧ ∀ p ∈ free ++ r.out, InRam map p ∧ OutsideImage kEnd p

section Boot
variable {map : List E820Entry} {kEnd : Addr} {extmem entry : E820Entry} {s t u v : KernelState}

theorem Loaded.bounds (loaded : Loaded map kEnd) : 0x80100000 ≤ (PGROUNDUP kEnd).toNat ∧ (PGROUNDUP kEnd).toNat < 0x80400000 :=
  ⟨loaded.above, loaded.below⟩

theorem Loaded.mem_firstPages (loaded : Loaded map kEnd) {p : Addr} :
    p ∈ rangePages (PGROUNDUP kEnd) phaseEnd ↔ Aligned p ∧ PGROUNDUP kEnd ≤ p ∧ p.toNat + 4096 ≤ 0x80400000 :=
  mem_rangePages (by decide) (by have := loaded.bounds; omega)

theorem Loaded.nodup_firstPages (loaded : Loaded map kEnd) : (rangePages (PGROUNDUP kEnd) phaseEnd).Nodup :=
  nodup_rangePages (by decide) (by have := loaded.bounds; omega)

/-- The state `pmem_init` and `kinit1` leave to `paging_init`. -/
theorem run_startPaging (loaded : Loaded map kEnd) (quiet : Quiet s.cpu) (stop : s.kheapEnd = 0x07fe0000#32)
    (low : s.KMEM_SENTINEL < PGROUNDUP kEnd) (above : extendedEntry map = some extmem) (tables : acpiEntry map = some entry) :
    ∃ u, Heap u (rangePages (PGROUNDUP kEnd) phaseEnd).reverse ∧ u.kheapStart = PGROUNDUP kEnd ∧
      SameMap (mapped s extmem entry) u ∧
      (startPaging true (some map) kEnd).run s = EStateM.run (do pagingInit; print "Pagination enabled\n") u := by
  obtain ⟨m, first, cpu, settled, ran⟩ := run_pmemInit quiet above tables
  obtain ⟨second, cpu', settled', printed⟩ := run_cprintf_plain "Max usable kernel memory address: 0x%p\n"
    [(extmem.base + extmem.len).setWidth 32 - 1#32] (((mapped s extmem entry).print first).put m cpu s.freelist)
    settled.quiet (by decide)
  have range : FreshRange (PGROUNDUP kEnd) s.kheapEnd [] (rangePages (PGROUNDUP kEnd) phaseEnd) := by
    refine ⟨loaded.nodup_firstPages, ?_, by simp⟩
    intro p member
    obtain ⟨aligned, after, before⟩ := loaded.mem_firstPages.mp member
    refine ⟨aligned, after, ?_⟩
    have bounds := loaded.bounds
    rw [stop]
    unfold V2P KERNBASE
    bv_omega
  obtain ⟨m', c, f, freed, heap⟩ := run_kinit1
    (((((mapped s extmem entry).print first).put m cpu s.freelist).print second).setCpu cpu') (PGROUNDUP kEnd) phaseEnd
    settled'.quiet low range
  refine ⟨_, heap, rfl, ⟨rfl, rfl, rfl⟩, ?_⟩
  unfold startPaging
  rw [run_bind_ok ran, run_bind_ok (EStateM.run_get _)]
  exact (run_bind_ok printed).trans (run_bind_ok freed)

/-- The kernel between the two phases: the directory and its tables were taken from the
pages of the first one. -/
structure Paged (kEnd : Addr) (extmem : E820Entry) (t : KernelState) (free : List Addr) : Prop where
  heap : Heap t free
  start : t.kheapStart = PGROUNDUP kEnd
  physEnd : t.physEnd = (extmem.base + extmem.len).setWidth 32
  bounds : 1 ≤ t.physEnd.toNat ∧ t.physEnd.toNat ≤ 0x7E000000
  pages : (free ++ t.kpgdir :: tables t.mem t.kpgdir).Perm (rangePages (PGROUNDUP kEnd) phaseEnd)

theorem run_pagingInit {p : Addr} (loaded : Loaded map kEnd) (heap : Heap u (rangePages (PGROUNDUP kEnd) phaseEnd).reverse)
    (start : u.kheapStart = PGROUNDUP kEnd) (same : SameMap (mapped s extmem entry) u)
    (ran : setupkvm.run u = .ok p v) :
    ∃ t free, EStateM.run (do pagingInit; print "Pagination enabled\n") u = .ok () t ∧ Paged kEnd extmem t free := by
  obtain ⟨c, rest, free, taken, built, apart, -⟩ := setupkvm_eq_ok heap ran
  have frame : Frame u p := heap.frames p (by rw [taken]; simp)
  have heap' := built.grows.directory.heap
  obtain ⟨chars, cpu, settled, printed⟩ := run_print "Pagination enabled\n" { v with kpgdir := p, cr3 := V2P p } heap'.quiet
    (by decide)
  have nonzero : V2P p ≠ 0#32 := by
    have above := frame.above
    have high := loaded.above
    rw [start] at above
    unfold V2P KERNBASE
    unfold P2V KERNBASE at high
    bv_omega
  have switched : pagingInit.run u = .ok () { v with kpgdir := p, cr3 := V2P p } := by
    unfold pagingInit
    rw [run_bind_ok ran, run_bind_ok (EStateM.run_modify _ _), run_pagingSwitchPgdir nonzero]
  refine ⟨_, free, by rw [run_bind_ok switched, printed], ?_⟩
  obtain ⟨m, c', f, rfl⟩ := built.grows.rest
  refine ⟨⟨settled.quiet, heap'.sentinel, heap'.chain, heap'.distinct, heap'.frames⟩, start, same.physEnd, ?_, ?_⟩
  · exact memory_bounds (Finset.disjoint_union_left.mp apart.2).1
  · have made := built.grows.conserved
    have noTables : tables (emptied u p c).mem p = [] := cleared_tables u.mem frame.aligned
    rw [noTables, List.nil_append] at made
    calc free ++ p :: tables m p
      _ |>.Perm (p :: (tables m p ++ free)) := List.perm_middle.trans (List.perm_append_comm.cons p)
      _ |>.Perm (p :: rest) := made.cons p
      _ |>.Perm _ := by rw [← taken]; exact List.reverse_perm _

/-- `main` gets behind `paging_init` only with these pages. -/
theorem startPaging_eq_ok {a20 : Bool} (loaded : Loaded map kEnd) (quiet : Quiet s.cpu) (stop : s.kheapEnd = 0x07fe0000#32)
    (low : s.KMEM_SENTINEL < PGROUNDUP kEnd) (ran : (startPaging a20 (some map) kEnd).run s = .ok () t) :
    ∃ extmem free, extendedEntry map = some extmem ∧ Paged kEnd extmem t free := by
  have accepted : ∃ u, (pmemInit a20 (some map)).run s = .ok () u := by
    unfold startPaging at ran
    obtain ⟨_, u, accepted, -⟩ := run_bind_eq_ok ran
    exact ⟨u, accepted⟩
  obtain ⟨u, accepted⟩ := accepted
  obtain ⟨map', extmem, entry, rfl, isMap, above, tables⟩ := pmemInit_eq_ok quiet accepted
  obtain rfl : map = map' := Option.some.inj isMap
  obtain ⟨u, heap, start, same, code⟩ := run_startPaging loaded quiet stop low above tables
  rw [code] at ran
  have returned : ∃ p v, setupkvm.run u = .ok p v := by
    obtain ⟨_, w, switched, -⟩ := run_bind_eq_ok ran
    unfold pagingInit at switched
    obtain ⟨p, v, setup, -⟩ := run_bind_eq_ok switched
    exact ⟨p, v, setup⟩
  obtain ⟨p, v, setup⟩ := returned
  obtain ⟨t', free, ran', paged⟩ := run_pagingInit loaded heap start same setup
  rw [ran] at ran'
  cases ran'
  exact ⟨extmem, free, above, paged⟩

variable {free : List Addr}

theorem Paged.stop (paged : Paged kEnd extmem t free) : (P2V t.physEnd).toNat = 2 ^ 31 + t.physEnd.toNat :=
  P2V_toNat (by have := paged.bounds; omega)

theorem Paged.mem_secondPages (paged : Paged kEnd extmem t free) {p : Addr} :
    p ∈ rangePages phaseEnd (P2V t.physEnd) ↔ Aligned p ∧ phaseEnd ≤ p ∧ p.toNat + 4096 ≤ 2 ^ 31 + t.physEnd.toNat := by
  have stop := paged.stop
  have bounds := paged.bounds
  rw [mem_rangePages (by omega) (by decide), stop]

/-- The pages of both phases. -/
def allPages (kEnd physEnd : Addr) : List Addr := rangePages phaseEnd (P2V physEnd) ++ rangePages (PGROUNDUP kEnd) phaseEnd

theorem Paged.inHeap (paged : Paged kEnd extmem t free) (loaded : Loaded map kEnd) {p : Addr}
    (member : p ∈ allPages kEnd t.physEnd) : InHeap (PGROUNDUP kEnd) (P2V t.physEnd) p := by
  have stop := paged.stop
  have bounds := loaded.bounds
  have high : phaseEnd.toNat = 0x80400000 := rfl
  rcases List.mem_append.mp member with second | first
  · obtain ⟨aligned, above, below⟩ := paged.mem_secondPages.mp second
    refine ⟨aligned, by bv_omega, ?_⟩
    unfold V2P KERNBASE
    bv_omega
  · obtain ⟨aligned, above, below⟩ := loaded.mem_firstPages.mp first
    refine ⟨aligned, above, ?_⟩
    unfold V2P KERNBASE
    bv_omega

/-- The second phase goes through, and all pages of both phases are then accounted for. -/
theorem Paged.run_addMemory (paged : Paged kEnd extmem t free) (loaded : Loaded map kEnd) :
    ∃ t', addMemory.run t = .ok () t' ∧
      Conserved ⟨t', allPages kEnd t.physEnd, t.kpgdir :: tables t.mem t.kpgdir⟩
        ((rangePages phaseEnd (P2V t.physEnd)).reverse ++ free) := by
  have stop := paged.stop
  have bounds := paged.bounds
  have distinct : (rangePages phaseEnd (P2V t.physEnd)).Nodup := nodup_rangePages (by omega) (by decide)
  have apart (p : Addr) (second : p ∈ rangePages phaseEnd (P2V t.physEnd))
      (first : p ∈ rangePages (PGROUNDUP kEnd) phaseEnd) : False := by
    have above := (paged.mem_secondPages.mp second).2.1
    have below := (loaded.mem_firstPages.mp first).2.2
    have high : phaseEnd.toNat = 0x80400000 := rfl
    bv_omega
  have isFirst (p : Addr) (isFree : p ∈ free) : p ∈ rangePages (PGROUNDUP kEnd) phaseEnd :=
    paged.pages.subset (List.mem_append_left _ isFree)
  have range : FreshRange t.kheapStart (P2V t.physEnd) free (rangePages phaseEnd (P2V t.physEnd)) := by
    rw [paged.start]
    exact ⟨distinct, fun p member => paged.inHeap loaded (List.mem_append_left _ member),
      fun p member isFree => apart p member (isFirst p isFree)⟩
  obtain ⟨u, ran, heap, start, stop'⟩ := run_kinit2 t phaseEnd (P2V t.physEnd) free paged.heap range
    fun p isFree => (paged.inHeap loaded (List.mem_append_right _ (isFirst p isFree))).below
  obtain ⟨chars, cpu, settled, printed⟩ := run_print "Kernel heap allocator initialized\n" u heap.quiet (by decide)
  refine ⟨(u.print chars).setCpu cpu, ?_, (Heap.print heap chars).setCpu cpu settled.quiet, ?_, ?_, ?_⟩
  · unfold addMemory
    rw [run_bind_ok (EStateM.run_get t), run_bind_ok ran, printed]
  · rw [List.append_assoc]
    exact (List.reverse_perm _).append paged.pages
  · exact List.nodup_append.mpr ⟨distinct, loaded.nodup_firstPages, fun p second q first same => apart p second (same ▸ first)⟩
  · intro p member
    change InHeap u.kheapStart u.kheapEnd p
    rw [start, stop', paged.start]
    exact paged.inHeap loaded member

theorem Booted.conserved {r : Run} (booted : Booted map kEnd r) (loaded : Loaded map kEnd) :
    ∃ extmem t free free', extendedEntry map = some extmem ∧ Paged kEnd extmem t free ∧
      r.given = allPages kEnd t.physEnd ∧ Conserved r free' := by
  obtain ⟨a20, s, t, quiet, stop, low, started, added, out, given⟩ := booted.ran
  obtain ⟨extmem, free, above, paged⟩ := startPaging_eq_ok loaded quiet stop low started
  obtain ⟨t', added', conserved⟩ := paged.run_addMemory loaded
  obtain ⟨kernel, given', out'⟩ := r
  simp only at added out given
  rw [added] at added'
  cases added'
  subst out given
  exact ⟨extmem, t, free, _, above, paged, rfl, conserved⟩

/-- The pages of the second phase lie in the entry that was selected. -/
theorem Paged.second_inRam (paged : Paged kEnd extmem t free) (above : extendedEntry map = some extmem)
    (low : extmem.base.toNat ≤ 0x100000) {p : Addr} (member : p ∈ rangePages phaseEnd (P2V t.physEnd)) : InRam map p := by
  obtain ⟨-, after, before⟩ := paged.mem_secondPages.mp member
  have high : phaseEnd.toNat = 0x80400000 := rfl
  have ram := List.find?_some above
  have stop := congrArg BitVec.toNat paged.physEnd
  rw [isExtended_iff] at ram
  simp only [BitVec.toNat_setWidth, BitVec.toNat_add] at stop
  have value : (V2P p).toNat = p.toNat - 2 ^ 31 := by
    unfold V2P KERNBASE
    bv_omega
  refine ⟨extmem, List.mem_of_find?_eq_some above, ram.1, ?_, ?_⟩
  · bv_omega
  · rw [value]
    have := Nat.mod_le (extmem.base.toNat + extmem.len.toNat) (2 ^ 64)
    have := Nat.mod_le ((extmem.base.toNat + extmem.len.toNat) % 2 ^ 64) (2 ^ 32)
    bv_omega

end Boot

/-- The allocator keeps exactly the pages it was given. -/
def Accounted (given : List Addr) (r : Run) : Prop := (∃ free, Conserved r free) ∧ r.given = given

theorem later_accounted {r r' : Run} {given : List Addr} (first : Accounted given r) (run : Reachable (· = r) Later r') :
    Accounted given r' := by
  apply run.invariant
  · rintro _ rfl
    exact first
  · rintro q q' ⟨inv, same⟩ ⟨taken, keeps⟩
    exact ⟨step_conserved q q' inv taken, keeps.trans same⟩

/-- The heap only ever contains usable memory, exactly when all of the memory from the
end of the image up to 4 MiB is usable. -/
theorem heap_only_ram_iff {map : List E820Entry} {kEnd : Addr} {r : Run} (loaded : Loaded map kEnd)
    (booted : Booted map kEnd r) :
    (∀ r', Reachable (· = r) Later r' → OnlyRam map kEnd r') ↔
      ∀ p, Aligned p → PGROUNDUP kEnd ≤ p → p < phaseEnd → InRam map p := by
  obtain ⟨extmem, t, free, free', above, paged, given, conserved⟩ := booted.conserved loaded
  constructor
  · intro always p aligned after before
    obtain ⟨other, heap, ram⟩ := always r (.start rfl)
    have same : other = free' := chain_unique heap.chain conserved.heap.chain
    have first : p ∈ rangePages (PGROUNDUP kEnd) phaseEnd := by
      have high : phaseEnd.toNat = 0x80400000 := rfl
      refine loaded.mem_firstPages.mpr ⟨aligned, after, ?_⟩
      unfold Aligned at aligned
      bv_omega
    refine (ram p ?_).1
    rw [same]
    apply conserved.pages.mem_iff.mpr
    rw [given]
    exact List.mem_append_right _ first
  · intro firstRam r' run
    obtain ⟨⟨now, conserved'⟩, same⟩ := later_accounted ⟨⟨free', conserved⟩, rfl⟩ run
    refine ⟨now, conserved'.heap, ?_⟩
    intro p member
    have page : p ∈ allPages kEnd t.physEnd := by
      rw [← given, ← same]
      exact conserved'.pages.subset member
    constructor
    · obtain ⟨extmem', above', low, -⟩ := loaded.inside
      obtain rfl : extmem = extmem' := Option.some.inj (above.symm.trans above')
      rcases List.mem_append.mp page with second | first
      · exact paged.second_inRam above low second
      · obtain ⟨aligned, after, before⟩ := loaded.mem_firstPages.mp first
        have high : phaseEnd.toNat = 0x80400000 := rfl
        exact firstRam p aligned after (by bv_omega)
    · intro a inside image
      exact InHeap.not_below (paged.inHeap loaded page) image.2 inside

/-- Memory is set up for a map with room for the kernel half in the pages of the first phase. -/
theorem exists_booted_map {map : List E820Entry} {kEnd : Addr} {extmem entry : E820Entry} {stop base len : Nat}
    (loaded : Loaded map kEnd) (above : extendedEntry map = some extmem) (tables : acpiEntry map = some entry)
    (numbers : stop = (extmem.base.toNat + extmem.len.toNat) % 2 ^ 32 ∧ base = entry.base.toNat % 2 ^ 32 ∧
      len = entry.len.toNat % 2 ^ 32)
    (fits : Fits stop base len) (blocks : Finset Nat) (cover : ∀ n, HalfPage stop base len n → n / 1024 ∈ blocks)
    (room : blocks.card + 1 ≤ (rangePages (PGROUNDUP kEnd) phaseEnd).length) : ∃ r, Booted map kEnd r := by
  have low : 0x80000000#32 < PGROUNDUP kEnd := by
    have := loaded.bounds
    bv_omega
  obtain ⟨u, heap, start, same, code⟩ := @run_startPaging map kEnd extmem entry (boot (fun _ => 0#8) 0x80000000#32) loaded
    (boot_quiet _ _) rfl low above tables
  obtain ⟨stop', base', len'⟩ := same.numbers
  rw [← numbers.1] at stop'
  rw [← numbers.2.1] at base'
  rw [← numbers.2.2] at len'
  rw [← stop', ← base', ← len'] at fits cover
  obtain ⟨p, v, setup, -⟩ := (fits.mappable heap (fits.enough blocks cover (by simpa using room))).returns
  obtain ⟨t, free, ran, paged⟩ := run_pagingInit loaded heap start same setup
  obtain ⟨t', added, -⟩ := paged.run_addMemory loaded
  exact ⟨⟨t', _, _⟩, ⟨true, _, t, boot_quiet _ _, rfl, low, code.trans ran, added, rfl, rfl⟩⟩

theorem firstPages_length {map : List E820Entry} (loaded : Loaded map 0x80103000#32) :
    9 ≤ (rangePages (PGROUNDUP 0x80103000#32) phaseEnd).length := by
  have distinct : (bootPages 9).Nodup := by decide
  apply distinct.length_le_of_subset
  intro p member
  have start : PGROUNDUP 0x80103000#32 = 0x80103000#32 := by decide
  obtain ⟨i, bound, rfl⟩ := List.mem_map.mp member
  rw [List.mem_range] at bound
  rw [loaded.mem_firstPages, start]
  unfold Aligned PGSIZE
  bv_omega

theorem heap_only_ram_small : ∃ r, Loaded smallMap 0x80103000#32 ∧ Booted smallMap 0x80103000#32 r ∧
    ∀ r', Reachable (· = r) Later r' → OnlyRam smallMap 0x80103000#32 r' := by
  have above : extendedEntry smallMap = some ⟨0x100000#64, 0x300000#64, E820_TYPE_RAM⟩ := by decide
  have tables : acpiEntry smallMap = some ⟨0x7fe0000#64, 0x20000#64, E820_TYPE_ACPI⟩ := by decide
  have loaded : Loaded smallMap 0x80103000#32 := ⟨by decide, by decide, _, above, by decide, by decide⟩
  have fits : Fits 0x400000 0x7fe0000 0x20000 :=
    ⟨by decide, by decide, by decide, by decide, .inl (by decide), by decide, by decide, .inl (by decide)⟩
  obtain ⟨r, booted⟩ := exists_booted_map loaded above tables (by decide) fits {512, 543, 1016, 1017, 1018, 1019}
    (fun n range => by simp only [HalfPage] at range; simp only [Finset.mem_insert, Finset.mem_singleton]; omega)
    (by have := firstPages_length loaded; exact (by decide : _ ≤ 9).trans this)
  refine ⟨r, loaded, booted, (heap_only_ram_iff loaded booted).mpr ?_⟩
  intro p aligned after before
  refine ⟨⟨0x100000#64, 0x300000#64, E820_TYPE_RAM⟩, by decide, rfl, ?_, ?_⟩
  · have start : (PGROUNDUP 0x80103000#32).toNat = 0x80103000 := by decide
    have high : phaseEnd.toNat = 0x80400000 := rfl
    unfold V2P KERNBASE
    bv_omega
  · have start : (PGROUNDUP 0x80103000#32).toNat = 0x80103000 := by decide
    have high : phaseEnd.toNat = 0x80400000 := rfl
    unfold Aligned at aligned
    unfold V2P KERNBASE
    bv_omega

/-- A machine with 2 MiB of memory and ACPI tables behind it. -/
def lowMap : List E820Entry :=
  [⟨0x0#64, 0x9f000#64, E820_TYPE_RAM⟩, ⟨0x100000#64, 0x100000#64, E820_TYPE_RAM⟩, ⟨0x200000#64, 0x200000#64, E820_TYPE_ACPI⟩]

/-- The first page of the tables is in the heap. -/
theorem heap_outside_ram : ∃ r, Loaded lowMap 0x80103000#32 ∧ Booted lowMap 0x80103000#32 r ∧
    ¬ OnlyRam lowMap 0x80103000#32 r := by
  have above : extendedEntry lowMap = some ⟨0x100000#64, 0x100000#64, E820_TYPE_RAM⟩ := by decide
  have tables : acpiEntry lowMap = some ⟨0x200000#64, 0x200000#64, E820_TYPE_ACPI⟩ := by decide
  have loaded : Loaded lowMap 0x80103000#32 := ⟨by decide, by decide, _, above, by decide, by decide⟩
  have fits : Fits 0x200000 0x200000 0x200000 :=
    ⟨by decide, by decide, by decide, by decide, .inl (by decide), by decide, by decide, .inl (by decide)⟩
  obtain ⟨r, booted⟩ := exists_booted_map loaded above tables (by decide) fits {512, 1016, 1017, 1018, 1019}
    (fun n range => by simp only [HalfPage] at range; simp only [Finset.mem_insert, Finset.mem_singleton]; omega)
    (by have := firstPages_length loaded; exact (by decide : _ ≤ 9).trans this)
  refine ⟨r, loaded, booted, ?_⟩
  rintro ⟨free, heap, ram⟩
  obtain ⟨extmem, t, -, free', -, paged, given, conserved⟩ := booted.conserved loaded
  have same : free = free' := chain_unique heap.chain conserved.heap.chain
  have page : 0x80200000#32 ∈ free ++ r.out := by
    rw [same]
    apply conserved.pages.mem_iff.mpr
    rw [given]
    exact List.mem_append_right _ (loaded.mem_firstPages.mpr ⟨by decide, by decide, by decide⟩)
  have inside : ¬ InRam lowMap 0x80200000#32 := by
    have value : (V2P 0x80200000#32).toNat = 0x200000 := by decide
    simp [InRam, lowMap, value, E820_TYPE_RAM, E820_TYPE_ACPI]
  exact inside (ram _ page).1

end OsDev.Kernel.HeapRam
