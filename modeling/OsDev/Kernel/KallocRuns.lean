import OsDev.Kernel.Kalloc

/-! Runs of the page allocator: initialisation over ranges of pages, then any
sequence of allocations, frees of pages handed out and writes into such pages. -/

namespace OsDev.Kernel.KallocRuns
open OsDev.Machine.Memory OsDev.Machine.Program OsDev.Machine.LinkedChain
open OsDev.Kernel.SpinLocks OsDev.Kernel.Mmu OsDev.Kernel.State OsDev.Kernel.Console OsDev.Kernel.Kalloc

/-- The pages the loop of `freerange` passes to `kfree`, in order. -/
def loopPages (vend : Addr) : Nat → Addr → List Addr
  | 0, _ => []
  | fuel + 1, p => if p + PGSIZE ≤ vend then p :: loopPages vend fuel (p + PGSIZE) else []

@[irreducible] def rangePages (vstart vend : Addr) : List Addr := loopPages vend (2 ^ 20 + 1) (PGROUNDUP vstart)

/-- Distinct pages inside the heap, none of which was given to the allocator before. -/
structure FreshRange (start stop : Addr) (given pages : List Addr) : Prop where
  distinct : pages.Nodup
  inside : ∀ p ∈ pages, InHeap start stop p
  fresh : ∀ p ∈ pages, p ∉ given

theorem aligned_PGROUNDUP (a : Addr) : Aligned (PGROUNDUP a) := by
  have rounded := PGROUNDUP_toNat a
  unfold Aligned
  omega

theorem aligned_next {p : Addr} (aligned : Aligned p) : Aligned (p + PGSIZE) := by
  unfold Aligned PGSIZE at *
  bv_omega

/-- Enough turns are left to reach the end of the range, or it is reached already. -/
def Ends (vend : Addr) (fuel : Nat) (p : Addr) : Prop :=
  2 ^ 32 < p.toNat + 4096 * fuel ∨ 0 < fuel ∧ ¬ p + PGSIZE ≤ vend

/-- Only page 0 follows the top of the address space. -/
theorem ends_next {vend : Addr} {fuel : Nat} {p : Addr} (ends : Ends vend (fuel + 1) p) (aligned : Aligned p)
    (more : p + PGSIZE ≤ vend) (positive : 0#32 ∉ loopPages vend fuel (p + PGSIZE)) :
    Ends vend fuel (p + PGSIZE) := by
  have bound := p.isLt
  have room : 2 ^ 32 < p.toNat + 4096 * (fuel + 1) := by
    rcases ends with room | ⟨-, done⟩
    · exact room
    · exact absurd more done
  unfold Aligned at aligned
  by_cases wrapped : p + PGSIZE = 0#32
  · have turns : 0 < fuel := by omega
    refine Or.inr ⟨turns, fun again => positive ?_⟩
    obtain ⟨fuel', rfl⟩ : ∃ fuel', fuel = fuel' + 1 := ⟨fuel - 1, by omega⟩
    rw [wrapped] at again ⊢
    simp only [loopPages, if_pos again, List.mem_cons, true_or]
  · left
    unfold PGSIZE at wrapped ⊢
    bv_omega

/-! A range that stops before the last page of the address space. -/

section Straight
variable {vend : Addr} (high : vend.toNat + 4096 < 2 ^ 32)
include high

theorem mem_loopPages {fuel : Nat} {p q : Addr} (aligned : Aligned p) (low : p.toNat + 4096 < 2 ^ 32)
    (turns : vend.toNat < p.toNat + 4096 * fuel) :
    q ∈ loopPages vend fuel p ↔ Aligned q ∧ p ≤ q ∧ q.toNat + 4096 ≤ vend.toNat := by
  induction fuel generalizing p with
  | zero =>
    have nothing : ¬ (p ≤ q ∧ q.toNat + 4096 ≤ vend.toNat) := by bv_omega
    simp [loopPages, nothing]
  | succ fuel ih =>
    have next : (p + PGSIZE).toNat = p.toNat + 4096 := by
      unfold PGSIZE
      bv_omega
    rw [loopPages]
    split
    case isTrue more =>
      rw [List.mem_cons, ih (aligned_next aligned) (by bv_omega) (by omega)]
      unfold Aligned at *
      constructor
      · rintro (rfl | ⟨aligned', above, below⟩)
        · exact ⟨aligned, by bv_omega, by bv_omega⟩
        · exact ⟨aligned', by bv_omega, below⟩
      · rintro ⟨aligned', above, below⟩
        by_cases first : q = p
        · exact .inl first
        · exact .inr ⟨aligned', by bv_omega, below⟩
    case isFalse done =>
      have nothing : ¬ (p ≤ q ∧ q.toNat + 4096 ≤ vend.toNat) := by bv_omega
      simp [nothing]

theorem nodup_loopPages {fuel : Nat} {p : Addr} (aligned : Aligned p) (low : p.toNat + 4096 < 2 ^ 32)
    (turns : vend.toNat < p.toNat + 4096 * fuel) : (loopPages vend fuel p).Nodup := by
  induction fuel generalizing p with
  | zero => exact List.nodup_nil
  | succ fuel ih =>
    have next : (p + PGSIZE).toNat = p.toNat + 4096 := by
      unfold PGSIZE
      bv_omega
    rw [loopPages]
    split
    case isTrue more =>
      have bound : (p + PGSIZE).toNat + 4096 < 2 ^ 32 := by bv_omega
      refine List.nodup_cons.mpr ⟨?_, ih (aligned_next aligned) bound (by omega)⟩
      rw [mem_loopPages high (aligned_next aligned) bound (by omega)]
      rintro ⟨-, above, -⟩
      bv_omega
    case isFalse done => exact List.nodup_nil

variable {vstart : Addr} (low : vstart.toNat + 8192 < 2 ^ 32)
include low

theorem mem_rangePages {q : Addr} :
    q ∈ rangePages vstart vend ↔ Aligned q ∧ vstart ≤ q ∧ q.toNat + 4096 ≤ vend.toNat := by
  have rounded := PGROUNDUP_toNat vstart
  unfold rangePages
  rw [mem_loopPages high (aligned_PGROUNDUP vstart) (by omega) (by omega)]
  apply and_congr_right
  intro aligned
  unfold Aligned at aligned
  apply and_congr_left'
  rw [BitVec.le_def, BitVec.le_def]
  omega

theorem nodup_rangePages : (rangePages vstart vend).Nodup := by
  have rounded := PGROUNDUP_toNat vstart
  unfold rangePages
  exact nodup_loopPages high (aligned_PGROUNDUP vstart) (by omega) (by omega)

end Straight

/-- The loop of `freerange` returns and puts its pages in front of the list. -/
theorem run_freerangeLoop (vend : Addr) (fuel : Nat) (p : Addr) (s : KernelState) (free : List Addr)
    (heap : Heap s free) (aligned : Aligned p) (ends : Ends vend fuel p)
    (range : FreshRange s.kheapStart s.kheapEnd free (loopPages vend fuel p)) :
    ∃ m c f, (freerangeLoop vend fuel p).run s = .ok () (s.put m c f) ∧
      Heap (s.put m c f) ((loopPages vend fuel p).reverse ++ free) := by
  induction fuel generalizing p s free with
  | zero =>
    have bound := p.isLt
    unfold Ends at ends
    omega
  | succ fuel ih =>
    by_cases more : p + PGSIZE ≤ vend
    · simp only [loopPages, more, ↓reduceIte] at range ⊢
      simp only [freerangeLoop, more, ↓reduceIte]
      have frame := range.inside p (by simp)
      obtain ⟨m, c, ran, -, heap'⟩ := run_kfree s p free heap frame (range.fresh p (by simp))
      rw [run_bind_ok ran]
      have restDistinct := List.nodup_cons.mp range.distinct
      have rest : FreshRange s.kheapStart s.kheapEnd (p :: free) (loopPages vend fuel (p + PGSIZE)) := by
        refine ⟨restDistinct.2, fun q member => range.inside q (by simp [member]), ?_⟩
        intro q member known
        rcases List.mem_cons.mp known with rfl | known
        · exact restDistinct.1 member
        · exact range.fresh q (by simp [member]) known
      have positive : 0#32 ∉ loopPages vend fuel (p + PGSIZE) := fun member =>
        (rest.inside 0#32 member).ne_zero heap.sentinel rfl
      obtain ⟨m', c', f, ran', heap''⟩ :=
        ih (p + PGSIZE) _ _ heap' (aligned_next aligned) (ends_next ends aligned more positive) rest
      refine ⟨m', c', f, ?_, ?_⟩
      · simpa using ran'
      · simpa using heap''
    · refine ⟨s.mem, s.cpu, s.freelist, ?_, ?_⟩
      · simp [freerangeLoop, more]
      · simpa [loopPages, more] using heap

theorem run_freerange (vstart vend : Addr) (s : KernelState) (free : List Addr) (heap : Heap s free)
    (range : FreshRange s.kheapStart s.kheapEnd free (rangePages vstart vend)) :
    ∃ m c f, (freerange vstart vend).run s = .ok () (s.put m c f) ∧
      Heap (s.put m c f) ((rangePages vstart vend).reverse ++ free) := by
  unfold freerange
  unfold rangePages at range ⊢
  exact run_freerangeLoop vend _ _ s free heap (aligned_PGROUNDUP vstart) (Or.inl (by omega)) range

/-- The walk of `dump_freelist`, with the places whose link it reads. -/
def dumpWalk (s : KernelState) : Nat → Addr → Nat → Option (Addr × Nat × List Addr)
  | 0, _, _ => none
  | fuel + 1, p, nframes =>
      if nextFrame s p = s.KMEM_SENTINEL then some (p, nframes, [p])
      else (dumpWalk s fuel (nextFrame s p) (nframes + 1)).map fun (last, total, reads) => (last, total, p :: reads)

theorem run_dumpFreelistLoop {s : KernelState} {fuel count total : Nat} {p last : Addr} {reads : List Addr}
    (walk : dumpWalk s fuel p count = some (last, total, reads)) :
    (dumpFreelistLoop fuel p count).run s = .ok (last, total) s := by
  induction fuel generalizing p count reads with
  | zero => cases walk
  | succ fuel ih =>
    rw [dumpWalk] at walk
    simp only [dumpFreelistLoop, EStateM.run_bind, EStateM.run_get]
    split at walk
    next stop =>
      cases walk
      rw [if_pos stop]
      rfl
    next more =>
      obtain ⟨⟨_, _, later⟩, step, same⟩ := Option.map_eq_some_iff.mp walk
      cases same
      rw [if_neg more]
      exact ih step

/-- It ends at the last page of the list, with the first one not counted. -/
theorem dumpWalk_chain {s : KernelState} {p : Addr} {rest : List Addr} (fuel count : Nat)
    (chain : Chain (read32 s.mem) s.KMEM_SENTINEL p (p :: rest)) (turns : rest.length < fuel) :
    ∃ last, dumpWalk s fuel p count = some (last, count + rest.length, p :: rest) := by
  induction rest generalizing p fuel count with
  | nil =>
    obtain ⟨fuel, rfl⟩ := Nat.exists_eq_succ_of_ne_zero (Nat.ne_zero_of_lt turns)
    obtain ⟨-, inner, last⟩ := chain
    have stop : nextFrame s p = s.KMEM_SENTINEL := by rw [nextFrame, if_neg inner]; exact last
    exact ⟨p, if_pos stop⟩
  | cons q rest ih =>
    obtain ⟨fuel, rfl⟩ := Nat.exists_eq_succ_of_ne_zero (Nat.ne_zero_of_lt turns)
    obtain ⟨-, inner, second⟩ := chain
    have step : nextFrame s p = q := by simpa [nextFrame, inner] using second.1
    obtain ⟨last, walk⟩ := ih fuel (count + 1) (second.1 ▸ second) (by simpa using turns)
    refine ⟨last, ?_⟩
    rw [dumpWalk, step, if_neg second.2.1, walk, Option.map_some, Nat.add_assoc, Nat.add_comm 1]
    rfl

/-- On an empty list the sentinel is taken for a page whose link is the head itself. -/
theorem dumpWalk_nil {s : KernelState} (fuel : Nat) (empty : s.freelist = s.KMEM_SENTINEL) :
    dumpWalk s (fuel + 1) s.freelist 0 = some (s.freelist, 0, [s.freelist]) := by
  have stop : nextFrame s s.freelist = s.KMEM_SENTINEL := by rw [nextFrame, if_pos empty, empty]
  exact if_pos stop

theorem nodup_length (pages : List Addr) (distinct : pages.Nodup) : pages.length ≤ 2 ^ 32 := by
  have values : (pages.map BitVec.toNat).Nodup := distinct.map fun _ _ same => BitVec.eq_of_toNat_eq same
  have bounded : pages.map BitVec.toNat ⊆ List.range (2 ^ 32) := by
    intro n member
    obtain ⟨p, -, rfl⟩ := List.mem_map.mp member
    exact List.mem_range.mpr p.isLt
  simpa using (values.subperm bounded).length_le

theorem Heap.print {s : KernelState} {free : List Addr} (heap : Heap s free) (chars : List Word) :
    Heap (s.print chars) free :=
  ⟨heap.quiet, heap.sentinel, heap.chain, heap.distinct, heap.frames⟩

/-- Whatever the list, the walk ends, and it only looks at the list and its sentinel. -/
theorem heap_dumpWalk {s : KernelState} {free : List Addr} (heap : Heap s free) :
    ∃ last reads, dumpWalk s (2 ^ 32 + 1) s.freelist 0 = some (last, free.length - 1, reads) ∧
      ∀ a ∈ reads, a ∈ free ∨ a = s.KMEM_SENTINEL := by
  cases free with
  | nil =>
    refine ⟨s.freelist, [s.freelist], dumpWalk_nil (2 ^ 32) heap.chain, fun a read => Or.inr ?_⟩
    rw [List.mem_singleton.mp read]
    exact heap.chain
  | cons p rest =>
    have head : s.freelist = p := heap.chain.1
    have short := nodup_length _ heap.distinct
    obtain ⟨last, walk⟩ := dumpWalk_chain (2 ^ 32 + 1) 0 (head ▸ heap.chain) (by simp only [List.length_cons] at short; omega)
    rw [Nat.zero_add] at walk
    exact ⟨last, p :: rest, head ▸ walk, fun a read => Or.inl read⟩

/-- Reporting on the free list changes nothing but the console. -/
theorem run_dumpFreelist (s : KernelState) (free : List Addr) (heap : Heap s free) :
    ∃ chars cpu, Quiet cpu ∧ dumpFreelist.run s = .ok () ((s.print chars).setCpu cpu) := by
  obtain ⟨first, cpu, settled, ran⟩ :=
    run_cprintf_plain "kernel heap: start=0x%p" [s.freelist] s heap.quiet (by decide)
  obtain ⟨last, reads, walk, -⟩ := heap_dumpWalk ((Heap.print heap first).setCpu cpu settled.quiet)
  have walked : (dumpFreelistLoop (2 ^ 32 + 1) s.freelist 0).run ((s.print first).setCpu cpu) =
      .ok (last, free.length - 1) ((s.print first).setCpu cpu) := run_dumpFreelistLoop walk
  obtain ⟨second, cpu', settled', ran'⟩ :=
    run_cprintf_plain " end=0x%p, number of free frames: %d\n" [last, BitVec.ofNat 32 (free.length - 1)]
      ((s.print first).setCpu cpu) settled.quiet (by decide)
  refine ⟨first ++ second, cpu', settled'.quiet, ?_⟩
  unfold dumpFreelist
  rw [run_bind_ok (EStateM.run_get s), run_bind_ok ran, run_bind_ok walked, ran']
  simp only [print_put, print_print, put_put]
  rfl

/-- An allocator in use: the kernel, the pages given to `freerange` so far and
the pages handed out by `kalloc` and not yet freed. -/
structure Run where
  kernel : KernelState
  given : List Addr
  out : List Addr

/-- The boot processor calls `kinit1` on a range of pages above the sentinel. -/
def Initial (r : Run) : Prop :=
  ∃ s vstart vend, Quiet s.cpu ∧ s.KMEM_SENTINEL < vstart ∧
    FreshRange vstart s.kheapEnd [] (rangePages vstart vend) ∧
    (kinit1 vstart vend).run s = .ok () r.kernel ∧ r.given = rangePages vstart vend ∧ r.out = []

inductive Step : Run → Run → Prop where
  | freerange {s t : KernelState} {given out : List Addr} (vstart vend : Addr)
      (range : FreshRange s.kheapStart s.kheapEnd given (rangePages vstart vend))
      (ran : (freerange vstart vend).run s = .ok () t) :
      Step ⟨s, given, out⟩ ⟨t, rangePages vstart vend ++ given, out⟩
  | kinit2 {s t : KernelState} {given out : List Addr} (vstart vend : Addr)
      (range : FreshRange s.kheapStart vend given (rangePages vstart vend))
      (kept : ∀ p ∈ given, V2P p < vend) (ran : (kinit2 vstart vend).run s = .ok () t) :
      Step ⟨s, given, out⟩ ⟨t, rangePages vstart vend ++ given, out⟩
  | kalloc {s t : KernelState} {given out : List Addr} (r : Addr) (ran : kalloc.run s = .ok r t) :
      Step ⟨s, given, out⟩ ⟨t, given, if r = 0#32 then out else r :: out⟩
  | kfree {s t : KernelState} {given out : List Addr} (v : Addr) (owned : v ∈ out)
      (ran : (kfree v).run s = .ok () t) : Step ⟨s, given, out⟩ ⟨t, given, out.erase v⟩
  | write {s : KernelState} {given out : List Addr} (p a : Addr) (b : Byte) (owned : p ∈ out)
      (inside : a ∈ span p 4096) : Step ⟨s, given, out⟩ ⟨s.setMem (store8 s.mem a b), given, out⟩

/-- Free and handed out pages are the pages that were given, each exactly once. -/
structure Conserved (r : Run) (free : List Addr) : Prop where
  heap : Heap r.kernel free
  pages : (free ++ r.out).Perm r.given
  distinct : r.given.Nodup
  frames : ∀ p ∈ r.given, Frame r.kernel p

theorem Conserved.disjoint {r : Run} {free : List Addr} (conserved : Conserved r free) :
    ∀ p ∈ free, p ∉ r.out := by
  have all : (free ++ r.out).Nodup := conserved.pages.nodup_iff.mpr conserved.distinct
  intro p isFree isOut
  exact (List.nodup_append.mp all).2.2 p isFree p isOut rfl

theorem Conserved.out_frame {r : Run} {free : List Addr} (conserved : Conserved r free) {v : Addr}
    (owned : v ∈ r.out) : Frame r.kernel v :=
  conserved.frames v (conserved.pages.subset (by simp [owned]))

theorem conserved_give {s t : KernelState} {given out free pages : List Addr}
    (conserved : Conserved ⟨s, given, out⟩ free) (heap : Heap t (pages.reverse ++ free))
    (range : FreshRange t.kheapStart t.kheapEnd given pages) (frames : ∀ p ∈ given, Frame t p) :
    Conserved ⟨t, pages ++ given, out⟩ (pages.reverse ++ free) := by
  refine ⟨heap, ?_, ?_, ?_⟩
  · have more : (pages.reverse ++ (free ++ out)).Perm (pages ++ given) :=
      (List.reverse_perm pages).append conserved.pages
    simpa using more
  · refine List.nodup_append.mpr ⟨range.distinct, conserved.distinct, ?_⟩
    rintro p isNew q isOld rfl
    exact range.fresh p isNew isOld
  · intro p member
    rcases List.mem_append.mp member with isNew | isOld
    · exact range.inside p isNew
    · exact frames p isOld

theorem FreshRange.not_free {start stop : Addr} {given free out pages : List Addr}
    (range : FreshRange start stop given pages) (all : (free ++ out).Perm given) :
    FreshRange start stop free pages :=
  ⟨range.distinct, range.inside, fun p member isFree =>
    range.fresh p member (all.subset (List.mem_append_left _ isFree))⟩

/-- What `kinit1` sets before it frees its range. -/
def bootHeap (s : KernelState) (vstart : Addr) : KernelState :=
  { s with kheapStart := vstart, freelist := s.KMEM_SENTINEL, cpu := setLock .kmem unlocked s.cpu, useLock := false }

theorem run_kinit1 (s : KernelState) (vstart vend : Addr) (quiet : Quiet s.cpu) (low : s.KMEM_SENTINEL < vstart)
    (range : FreshRange vstart s.kheapEnd [] (rangePages vstart vend)) :
    ∃ m c f, (kinit1 vstart vend).run s = .ok () ((bootHeap s vstart).put m c f) ∧
      Heap ((bootHeap s vstart).put m c f) (rangePages vstart vend).reverse := by
  have relocked : setLock .kmem unlocked s.cpu = s.cpu := by
    simp only [setLock, ← quiet.free .kmem, Function.update_eq_self]
  have heap : Heap (bootHeap s vstart) [] :=
    ⟨by simpa [bootHeap, relocked] using quiet, low, rfl, List.nodup_nil, by simp⟩
  obtain ⟨m, c, f, ran, heap'⟩ := run_freerange vstart vend (bootHeap s vstart) [] heap range
  refine ⟨m, c, f, ?_, by simpa using heap'⟩
  unfold kinit1
  rw [run_bind_ok (EStateM.run_modify _ _), run_bind_ok (run_onCpu_ok (run_initlock .kmem _)),
    run_bind_ok (EStateM.run_modify _ _)]
  exact ran

theorem run_kinit2 (s : KernelState) (vstart vend : Addr) (free : List Addr) (heap : Heap s free)
    (range : FreshRange s.kheapStart vend free (rangePages vstart vend)) (kept : ∀ p ∈ free, V2P p < vend) :
    ∃ t, (kinit2 vstart vend).run s = .ok () t ∧ Heap t ((rangePages vstart vend).reverse ++ free) ∧
      t.kheapStart = s.kheapStart ∧ t.kheapEnd = vend := by
  have widened : Heap { s with kheapEnd := vend } free :=
    ⟨heap.quiet, heap.sentinel, heap.chain, heap.distinct,
      fun p member => ⟨(heap.frames p member).aligned, (heap.frames p member).above, kept p member⟩⟩
  obtain ⟨m, c, f, ran, heap'⟩ := run_freerange vstart vend { s with kheapEnd := vend } free widened range
  have locking : Heap { KernelState.put { s with kheapEnd := vend } m c f with useLock := true }
      ((rangePages vstart vend).reverse ++ free) :=
    ⟨heap'.quiet, heap'.sentinel, heap'.chain, heap'.distinct, heap'.frames⟩
  obtain ⟨chars, cpu, quiet, dumped⟩ := run_dumpFreelist _ _ locking
  refine ⟨_, ?_, (Heap.print locking chars).setCpu cpu quiet, rfl, rfl⟩
  unfold kinit2
  rw [run_bind_ok (EStateM.run_modify _ _), run_bind_ok ran, run_bind_ok (EStateM.run_modify _ _)]
  exact dumped

theorem initial_conserved (r : Run) (first : Initial r) : ∃ free, Conserved r free := by
  obtain ⟨s, vstart, vend, quiet, low, range, ran, given, out⟩ := first
  obtain ⟨kernel, given', out'⟩ := r
  obtain ⟨m, c, f, whole, heap⟩ := run_kinit1 s vstart vend quiet low range
  have same : kernel = (bootHeap s vstart).put m c f := by
    rw [whole] at ran
    injection ran with _ same
    exact same.symm
  simp only at given out
  subst same given out
  exact ⟨_, heap, by simp, range.distinct, range.inside⟩

theorem step_conserved (r r' : Run) (inv : ∃ free, Conserved r free) (taken : Step r r') :
    ∃ free, Conserved r' free := by
  obtain ⟨free, conserved⟩ := inv
  cases taken with
  | @freerange s t given out vstart vend range ran =>
    obtain ⟨m, c, f, ran', heap⟩ :=
      run_freerange vstart vend s free conserved.heap (range.not_free conserved.pages)
    rw [ran] at ran'
    injection ran' with _ same
    subst same
    exact ⟨_, conserved_give conserved heap range conserved.frames⟩
  | @kinit2 s t given out vstart vend range kept ran =>
    have isGiven (p : Addr) (isFree : p ∈ free) : p ∈ given :=
      conserved.pages.subset (List.mem_append_left _ isFree)
    obtain ⟨t', ran', heap, start, stop⟩ :=
      run_kinit2 s vstart vend free conserved.heap (range.not_free conserved.pages)
        (fun p isFree => kept p (isGiven p isFree))
    rw [ran] at ran'
    injection ran' with _ same
    subst same
    refine ⟨_, conserved_give conserved heap ?_ ?_⟩
    · rw [start, stop]
      exact range
    · intro p member
      rw [Frame, start, stop]
      exact ⟨(conserved.frames p member).aligned, (conserved.frames p member).above, kept p member⟩
  | @kalloc s t given out v ran =>
    cases free with
    | nil =>
      obtain ⟨c, ran', heap⟩ := run_kalloc_nil s conserved.heap
      rw [ran] at ran'
      injection ran' with value same
      subst value same
      exact ⟨[], heap, by simpa using conserved.pages, conserved.distinct, conserved.frames⟩
    | cons p rest =>
      obtain ⟨c, ran', heap⟩ := run_kalloc_cons s p rest conserved.heap
      rw [ran] at ran'
      injection ran' with value same
      subst value same
      have nonzero : v ≠ 0#32 :=
        (conserved.heap.frames v (by simp)).ne_zero conserved.heap.sentinel
      refine ⟨rest, heap, ?_, conserved.distinct, conserved.frames⟩
      simp only [if_neg nonzero]
      exact List.perm_middle.trans conserved.pages
  | @kfree s t given out v owned ran =>
    have fresh : v ∉ free := fun isFree => conserved.disjoint v isFree owned
    obtain ⟨m, c, ran', -, heap⟩ := run_kfree s v free conserved.heap (conserved.out_frame owned) fresh
    rw [ran] at ran'
    injection ran' with _ same
    subst same
    refine ⟨v :: free, heap, ?_, conserved.distinct, conserved.frames⟩
    have moved : (v :: (free ++ out.erase v)).Perm (free ++ out) :=
      List.perm_middle.symm.trans ((List.perm_cons_erase owned).symm.append_left free)
    exact moved.trans conserved.pages
  | @write s given out p a b owned inside =>
    refine ⟨free, conserved.heap.setMem ?_, conserved.pages, conserved.distinct, conserved.frames⟩
    -- the page written to is handed out, so no link of the list lies in it
    intro q member x near
    apply store8_of_ne
    rintro rfl
    have ne : q ≠ p := fun same => conserved.disjoint q member (same ▸ owned)
    have apart := page_disjoint (conserved.heap.frames q member).aligned (conserved.out_frame owned).aligned ne
    exact Set.disjoint_left.mp apart near inside

theorem run_conserved {r : Run} (run : Reachable Initial Step r) : ∃ free, Conserved r free :=
  run.invariant initial_conserved step_conserved

/-- The free list of every run is a finite chain of distinct heap pages that ends at
the sentinel; free and handed out pages are exactly the pages given; `kalloc` takes a
free page whenever there is one; no call of the allocator stops the kernel. -/
theorem allocator_invariant (r : Run) (run : Reachable Initial Step r) :
    ∃ free : List Addr,
      (∀ i (bound : i < free.length), (read32 r.kernel.mem)^[i] r.kernel.freelist = free[i]) ∧
      (read32 r.kernel.mem)^[free.length] r.kernel.freelist = r.kernel.KMEM_SENTINEL ∧
      r.kernel.KMEM_SENTINEL ∉ free ∧ free.Nodup ∧
      (∀ p ∈ free, Aligned p ∧ r.kernel.kheapStart ≤ p ∧ V2P p < r.kernel.kheapEnd) ∧
      (∀ p ∈ free, p ∉ r.out) ∧
      (free ++ r.out).Perm r.given ∧ r.given.Nodup ∧
      (∃ v t, kalloc.run r.kernel = .ok v t ∧ (v = 0#32 ↔ free = []) ∧ (v ≠ 0#32 → v ∈ free ∧ v ∉ r.out)) ∧
      (∀ v ∈ r.out, ∃ t, (kfree v).run r.kernel = .ok () t) ∧
      (∀ vstart vend, FreshRange r.kernel.kheapStart r.kernel.kheapEnd r.given (rangePages vstart vend) →
        ∃ t, (freerange vstart vend).run r.kernel = .ok () t) := by
  obtain ⟨free, conserved⟩ := run_conserved run
  have heap := conserved.heap
  obtain ⟨visited, ended⟩ := chain_iterate heap.chain
  refine ⟨free, visited, ended, chain_stop_not_mem heap.chain, heap.distinct, ?_, conserved.disjoint,
    conserved.pages, conserved.distinct, ?_, ?_, ?_⟩
  · intro p member
    obtain ⟨aligned, above, below⟩ := heap.frames p member
    exact ⟨aligned, above, below⟩
  · cases free with
    | nil =>
      obtain ⟨c, ran, -⟩ := run_kalloc_nil r.kernel heap
      exact ⟨0#32, _, ran, by simp, by simp⟩
    | cons p rest =>
      obtain ⟨c, ran, -⟩ := run_kalloc_cons r.kernel p rest heap
      have nonzero : p ≠ 0#32 := (heap.frames p (by simp)).ne_zero heap.sentinel
      exact ⟨p, _, ran, by simp [nonzero], fun _ => ⟨by simp, conserved.disjoint p (by simp)⟩⟩
  · intro v owned
    have fresh : v ∉ free := fun isFree => conserved.disjoint v isFree owned
    obtain ⟨m, c, ran, -⟩ := run_kfree r.kernel v free heap (conserved.out_frame owned) fresh
    exact ⟨_, ran⟩
  · intro vstart vend range
    obtain ⟨m, c, f, ran, -⟩ := run_freerange vstart vend r.kernel free heap (range.not_free conserved.pages)
    exact ⟨_, ran⟩

/-- Two pages above the kernel image, one of them handed out. -/
theorem allocator_invariant_two_pages :
    ∃ r : Run, r.given = [0x80103000#32, 0x80104000#32] ∧ r.out = [0x80104000#32] ∧
      ∃ free : List Addr, (free ++ r.out).Perm r.given ∧ ∀ p ∈ free, p ∉ r.out := by
  have pages : rangePages 0x80103000#32 0x80105000#32 = [0x80103000#32, 0x80104000#32] := by
    unfold rangePages
    decide
  have range : FreshRange 0x80103000#32 0x07fe0000#32 [] (rangePages 0x80103000#32 0x80105000#32) := by
    rw [pages]
    exact ⟨by decide, fun p member => by
      rcases List.mem_pair.mp member with rfl | rfl <;> exact ⟨by decide, by decide, by decide⟩, by simp⟩
  obtain ⟨m, c, f, ran, heap⟩ := run_kinit1 (boot (fun _ => 0#8) 0x80102000#32) 0x80103000#32 0x80105000#32
    (boot_quiet _ _) (by decide) range
  have start : Reachable Initial Step ⟨_, rangePages 0x80103000#32 0x80105000#32, []⟩ :=
    .start ⟨_, _, _, boot_quiet _ _, by decide, range, ran, rfl, rfl⟩
  rw [pages] at heap start
  obtain ⟨c', allocated, -⟩ := run_kalloc_cons _ 0x80104000#32 [0x80103000#32] heap
  have run := Reachable.next start (Step.kalloc 0x80104000#32 allocated)
  obtain ⟨free, -, -, -, -, -, apart, all, -⟩ := allocator_invariant _ run
  exact ⟨_, rfl, rfl, free, all, apart⟩

/-- Some pages above the kernel image. -/
def bootPages (count : Nat) : List Addr := (List.range count).map fun i => 0x80103000#32 + PGSIZE * BitVec.ofNat 32 i

/-- A kernel that has just called `kinit1`, on a machine with the given memory map. -/
theorem exists_booted (count : Nat) (small : count ≤ 1024) (vend : Addr)
    (pages : rangePages 0x80103000#32 vend = bootPages count) (physEnd acpi acpiLen : Addr) :
    ∃ s : KernelState, Heap s (bootPages count).reverse ∧ s.physEnd = physEnd ∧ s.acpi = acpi ∧
      s.acpiLen = acpiLen ∧ s.kheapStart = 0x80103000#32 := by
  have range : FreshRange 0x80103000#32 0x07fe0000#32 [] (rangePages 0x80103000#32 vend) := by
    rw [pages]
    refine ⟨List.nodup_range.map_on ?_, fun p member => ?_, by simp⟩
    · intro i memberI j memberJ same
      have := List.mem_range.mp memberI
      have := List.mem_range.mp memberJ
      unfold PGSIZE at same
      bv_omega
    · obtain ⟨i, inside, rfl⟩ := List.mem_map.mp member
      have bound := List.mem_range.mp inside
      refine ⟨?_, ?_, ?_⟩
      · unfold Aligned PGSIZE
        bv_omega
      · unfold PGSIZE
        bv_omega
      · unfold V2P KERNBASE PGSIZE
        bv_omega
  obtain ⟨m, c, f, -, heap⟩ := run_kinit1
    { boot (fun _ => 0#8) 0x80102000#32 with physEnd := physEnd, acpi := acpi, acpiLen := acpiLen }
    0x80103000#32 vend (boot_quiet (fun _ => 0#8) 0x80102000#32) (by simp [boot]) range
  rw [pages] at heap
  exact ⟨_, heap, rfl, rfl, rfl, rfl⟩

end OsDev.Kernel.KallocRuns
