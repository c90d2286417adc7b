import OsDev.Machine.LinkedChain
import OsDev.Kernel.StringLib
import OsDev.Kernel.Console

/-! The physical page allocator (kernel/kalloc.c). The free list is threaded
through the first word of the free pages and ends at the address of its own head. -/

namespace OsDev.Kernel.Kalloc
open OsDev.Machine.Memory OsDev.Machine.Program OsDev.Machine.LinkedChain
open OsDev.Kernel.SpinLocks OsDev.Kernel.Mmu OsDev.Kernel.State OsDev.Kernel.StringLib OsDev.Kernel.Console

def kmemAcquire : Prog KernelState Unit := do
  if (← get).useLock then onCpu (acquire .kmem) else pure ()

def kmemRelease : Prog KernelState Unit := do
  if (← get).useLock then onCpu (release .kmem) else pure ()

def kfree (v : Addr) : Prog KernelState Unit := do
  let s ← get
  if v % PGSIZE ≠ 0#32 ∨ v < s.kheapStart ∨ s.kheapEnd ≤ V2P v then kpanic "kfree" else
  modify fun s => s.setMem (memset s.mem v 1#8 4096)
  kmemAcquire
  store32 v (← get).freelist
  modify fun s => s.setFreelist v
  kmemRelease

def kalloc : Prog KernelState Addr := do
  kmemAcquire
  let s ← get
  let r ← if s.freelist = s.KMEM_SENTINEL then pure 0#32 else do
    modify fun t => t.setFreelist (read32 t.mem s.freelist)
    pure s.freelist
  kmemRelease
  return r

/-- After 2^20 pages the pointer is back where it started and the loop never ends. -/
def freerangeLoop (vend : Addr) : Nat → Addr → Prog KernelState Unit
  | 0, _ => throw .spin
  | fuel + 1, p =>
      if p + PGSIZE ≤ vend then do
        kfree p
        freerangeLoop vend fuel (p + PGSIZE)
      else pure ()

@[irreducible] def freerange (vstart vend : Addr) : Prog KernelState Unit := freerangeLoop vend (2 ^ 20 + 1) (PGROUNDUP vstart)

/-- `p->next`; the sentinel is the word that holds the head of the list. -/
def nextFrame (s : KernelState) (p : Addr) : Addr := if p = s.KMEM_SENTINEL then s.freelist else read32 s.mem p

def dumpFreelistLoop : Nat → Addr → Nat → Prog KernelState (Addr × Nat)
  | 0, _, _ => throw .spin
  | fuel + 1, p, nframes => do
      let s ← get
      if nextFrame s p = s.KMEM_SENTINEL then return (p, nframes)
      else dumpFreelistLoop fuel (nextFrame s p) (nframes + 1)

def dumpFreelist : Prog KernelState Unit := do
  let p := (← get).freelist
  cprintf "kernel heap: start=0x%p" [p]
  let (last, nframes) ← dumpFreelistLoop (2 ^ 32 + 1) p 0
  cprintf " end=0x%p, number of free frames: %d\n" [last, BitVec.ofNat 32 nframes]

def kinit1 (vstart vend : Addr) : Prog KernelState Unit := do
  modify fun s => { s with kheapStart := vstart, freelist := s.KMEM_SENTINEL }
  onCpu (initlock .kmem)
  modify fun s => { s with useLock := false }
  freerange vstart vend

def kinit2 (vstart vend : Addr) : Prog KernelState Unit := do
  modify fun s => { s with kheapEnd := vend }
  freerange vstart vend
  modify fun s => { s with useLock := true }
  dumpFreelist

/-- A page `kfree` accepts, given the bounds it compares with. -/
structure InHeap (start stop p : Addr) : Prop where
  aligned : Aligned p
  above : start ≤ p
  below : V2P p < stop

abbrev Frame (s : KernelState) (p : Addr) : Prop := InHeap s.kheapStart s.kheapEnd p

/-- The allocator between two calls: the words stored in the free pages link
exactly the pages of the list, and the sentinel lies below the heap. -/
structure Heap (s : KernelState) (free : List Addr) : Prop where
  quiet : Quiet s.cpu
  sentinel : s.KMEM_SENTINEL < s.kheapStart
  chain : Chain (read32 s.mem) s.KMEM_SENTINEL s.freelist free
  distinct : free.Nodup
  frames : ∀ p ∈ free, Frame s p

theorem InHeap.ne_zero {start stop sentinel p : Addr} (frame : InHeap start stop p) (low : sentinel < start) :
    p ≠ 0#32 := by
  have above := frame.above
  bv_omega

theorem InHeap.ne_sentinel {start stop sentinel p : Addr} (frame : InHeap start stop p) (low : sentinel < start) :
    p ≠ sentinel := by
  have above := frame.above
  bv_omega

/-- The allocator only cares about what the free pages hold. -/
theorem Heap.setMem {s : KernelState} {free : List Addr} (heap : Heap s free) {m : Mem}
    (same : ∀ q ∈ free, Set.EqOn m s.mem (span q 4096)) : Heap (s.setMem m) free := by
  refine ⟨heap.quiet, heap.sentinel, ?_, heap.distinct, heap.frames⟩
  apply chain_congr _ heap.chain
  intro q member
  exact read32_congr ((same q member).mono (span_mono q 4 4096 (by decide)))

theorem Heap.setCpu {s : KernelState} {free : List Addr} (heap : Heap s free) (cpu : Processor) (quiet : Quiet cpu) :
    Heap (s.setCpu cpu) free :=
  ⟨quiet, heap.sentinel, heap.chain, heap.distinct, heap.frames⟩

/-- Whatever happens between taking and giving back the lock of the allocator,
the processor ends up quiet again. -/
theorem kmem_section (s : KernelState) (quiet : Quiet s.cpu) :
    ∃ inside after, Settled s.cpu after ∧ kmemAcquire.run s = .ok () (s.setCpu inside) ∧
      ∀ m f, kmemRelease.run (s.put m inside f) = .ok () (s.put m after f) := by
  obtain ⟨inside, enter, leave⟩ := run_release_acquire .kmem s.cpu quiet.toCalm (quiet.free .kmem)
  cases use : s.useLock with
  | false =>
    refine ⟨s.cpu, s.cpu, quiet.settled, by simp [kmemAcquire, use], ?_⟩
    intro m f
    simp [kmemRelease, use]
  | true =>
    refine ⟨inside, settle s.cpu, quiet.settled_settle, ?_, ?_⟩
    · simp [kmemAcquire, use, run_onCpu_ok enter]
    · intro m f
      have last := run_onCpu_ok (s := s.put m inside f) leave
      simp [kmemRelease, use, last]

theorem run_kalloc_nil (s : KernelState) (heap : Heap s []) :
    ∃ cpu, kalloc.run s = .ok 0#32 (s.setCpu cpu) ∧ Heap (s.setCpu cpu) [] := by
  obtain ⟨inside, after, settled, enter, leave⟩ := kmem_section s heap.quiet
  have empty : s.freelist = s.KMEM_SENTINEL := heap.chain
  refine ⟨after, ?_, ⟨settled.quiet, heap.sentinel, heap.chain, heap.distinct, by simp⟩⟩
  simp [kalloc, enter, empty, leave]
  rw [← empty]

theorem run_kalloc_cons (s : KernelState) (p : Addr) (rest : List Addr) (heap : Heap s (p :: rest)) :
    ∃ cpu, kalloc.run s = .ok p (s.put s.mem cpu (read32 s.mem p)) ∧
      Heap (s.put s.mem cpu (read32 s.mem p)) rest := by
  obtain ⟨inside, after, settled, enter, leave⟩ := kmem_section s heap.quiet
  obtain ⟨head, inner, tail⟩ := heap.chain
  refine ⟨after, ?_, ⟨settled.quiet, heap.sentinel, tail, heap.distinct.of_cons, ?_⟩⟩
  · simp [kalloc, enter, head, inner, leave]
  · intro q member
    exact heap.frames q (List.mem_cons_of_mem _ member)

/-- The memory after a page went back on the list: junk, and the old head in its first word. -/
def freed (s : KernelState) (v : Addr) : Mem := write32 (fill s.mem v 1#8 4096) v s.freelist

theorem freed_outside (s : KernelState) (v : Addr) : Set.EqOn (freed s v) s.mem (span v 4096)ᶜ := by
  have inner : (span v 4096)ᶜ ⊆ (span v 4)ᶜ := Set.compl_subset_compl.mpr (span_mono v 4 4096 (by decide))
  exact ((write32_outside _ v s.freelist).mono inner).trans (fill_outside s.mem v 1#8 4096)

/-- The check at the start of `kfree`. -/
theorem frame_iff (s : KernelState) (v : Addr) :
    Frame s v ↔ ¬ (v % PGSIZE ≠ 0#32 ∨ v < s.kheapStart ∨ s.kheapEnd ≤ V2P v) := by
  constructor
  · rintro ⟨aligned, above, below⟩
    have multiple : v % PGSIZE = 0#32 := BitVec.eq_of_toNat_eq aligned
    bv_omega
  · intro passed
    rw [not_or, not_or, not_not, BitVec.not_lt, BitVec.not_le] at passed
    obtain ⟨multiple, above, below⟩ := passed
    exact ⟨congrArg BitVec.toNat multiple, above, below⟩

theorem run_kfree_refused {s : KernelState} {v : Addr} (outside : ¬ Frame s v) :
    (kfree v).run s = .error (.panic "kfree") s := by
  rw [frame_iff, not_not] at outside
  unfold kfree
  rw [run_bind_ok (EStateM.run_get s), run_ite, if_pos outside]
  rfl

theorem run_kfree_accepted {s : KernelState} {v : Addr} (quiet : Quiet s.cpu) (frame : Frame s v) :
    ∃ cpu, Settled s.cpu cpu ∧ (kfree v).run s = .ok () (s.put (freed s v) cpu v) := by
  obtain ⟨inside, after, settled, enter, leave⟩ := kmem_section (s.setMem (fill s.mem v 1#8 4096)) quiet
  refine ⟨after, settled, ?_⟩
  have junk := memset_eq_fill s.mem v 1#8 4096 (by decide)
  unfold kfree
  rw [run_bind_ok (EStateM.run_get s), run_ite, if_neg ((frame_iff s v).mp frame), run_bind_ok (EStateM.run_modify _ _), junk,
    run_bind_ok enter, run_bind_ok (EStateM.run_get _), run_bind_ok (run_store32 _ _ _), run_bind_ok (EStateM.run_modify _ _)]
  exact leave _ _

theorem run_kfree (s : KernelState) (v : Addr) (free : List Addr) (heap : Heap s free) (frame : Frame s v)
    (fresh : v ∉ free) :
    ∃ m cpu, (kfree v).run s = .ok () (s.put m cpu v) ∧ Set.EqOn m s.mem (span v 4096)ᶜ ∧
      Heap (s.put m cpu v) (v :: free) := by
  obtain ⟨after, settled, ran⟩ := run_kfree_accepted heap.quiet frame
  refine ⟨freed s v, after, ran, freed_outside s v,
    ⟨settled.quiet, heap.sentinel, ⟨rfl, frame.ne_sentinel heap.sentinel, ?_⟩, ?_, ?_⟩⟩
  · -- the pages already on the list keep their links
    have head : read32 (freed s v) v = s.freelist := read32_write32_self _ _ _
    simp only [KernelState.put_mem, KernelState.put_KMEM_SENTINEL, head]
    apply chain_congr _ heap.chain
    intro q member
    apply read32_congr
    apply (freed_outside s v).mono
    have ne : q ≠ v := fun same => fresh (same ▸ member)
    have apart := page_disjoint (heap.frames q member).aligned frame.aligned ne
    exact (span_mono q 4 4096 (by decide)).trans (Set.subset_compl_iff_disjoint_right.mpr apart)
  · exact List.nodup_cons.mpr ⟨fresh, heap.distinct⟩
  · intro q member
    rcases List.mem_cons.mp member with rfl | member
    · exact frame
    · exact heap.frames q member

end OsDev.Kernel.Kalloc
