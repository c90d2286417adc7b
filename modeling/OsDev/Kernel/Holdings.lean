import Mathlib.Algebra.Order.Group.Multiset
import Mathlib.Tactic.Abel
import OsDev.Machine.Ownership
import OsDev.Kernel.FirstDispatch
import OsDev.Kernel.SpaceRuns

/-! Whose memory is whose: every directory, table, kernel stack and user page belongs
to one process or to the kernel, and the creation of a process keeps to free pages. -/

namespace OsDev.Kernel.Holdings
open OsDev.Machine.Memory OsDev.Machine.Program OsDev.Machine.Ownership
open OsDev.Kernel.SpinLocks OsDev.Kernel.Mmu OsDev.Kernel.State OsDev.Kernel.StringLib OsDev.Kernel.Kalloc
  OsDev.Kernel.Paging OsDev.Kernel.PageTables OsDev.Kernel.MapPages OsDev.Kernel.AddressSpace OsDev.Kernel.FreeVm
  OsDev.Kernel.Frames OsDev.Kernel.Proc
open OsDev.Kernel.SpaceRuns (userFrames_blank)
open OsDev.Kernel.FirstDispatch (tf_subset_page)

/-- Whom a page belongs to: a process, or the kernel itself. -/
abbrev Owner := Option Slot

def root (s : KernelState) : Owner → Addr
  | none => s.kpgdir
  | some q => (s.ptable q).pgdir

def stackPages (s : KernelState) : Owner → List Addr
  | none => []
  | some q => if (s.ptable q).kstack = 0#32 then [] else [(s.ptable q).kstack]

@[simp] theorem root_put (s : KernelState) (m : Mem) (c : Processor) (f : Addr) (i : Owner) :
    root (s.put m c f) i = root s i := by cases i <;> rfl

@[simp] theorem stackPages_put (s : KernelState) (m : Mem) (c : Processor) (f : Addr) (i : Owner) :
    stackPages (s.put m c f) i = stackPages s i := by cases i <;> rfl

/-- The pages the processor walks. -/
def walkPages (m : Mem) (pgdir : Addr) : List Addr := if pgdir = 0#32 then [] else pgdir :: tables m pgdir

/-- The pages the directory shows below KERNBASE. -/
def framePages (m : Mem) (pgdir : Addr) : List Addr := if pgdir = 0#32 then [] else userFrames m pgdir

def holdings (s : KernelState) (i : Owner) : List Addr :=
  stackPages s i ++ (walkPages s.mem (root s i) ++ framePages s.mem (root s i))

/-- Everything above does not depend on more of the kernel's state than this. -/
def view (s : KernelState) :=
  (s.mem, s.freelist, s.KMEM_SENTINEL, s.kheapStart, s.kheapEnd, s.physEnd, s.acpi, s.acpiLen, s.kpgdir,
    fun q : Slot => ((s.ptable q).kstack, (s.ptable q).pgdir))

/-- The entry that every directory has for a page of the upper half. -/
def upperEntry (s : KernelState) (n : Nat) : Word := if n ∈ kernelPages s then kernelEntry s n else 0#32

/-- Each page has one owner or is free, and all directories show the same upper half. -/
structure Spaces (s : KernelState) (free : List Addr) : Prop where
  heap : ∀ c, Quiet c → Heap (s.setCpu c) free
  divided : Divided (holdings s) free
  frames : ∀ i, ∀ p ∈ holdings s i, Frame s p
  flags : ∀ i, root s i ≠ 0#32 → ∀ d < 1024, has (pdeAt s.mem (root s i) d) PTE_P = true →
    has (pdeAt s.mem (root s i) d) PTE_W = true ∧ has (pdeAt s.mem (root s i) d) PTE_U = true ∧
      has (pdeAt s.mem (root s i) d) PTE_PS = false
  upper : ∀ i, root s i ≠ 0#32 → ∀ n, 2 ^ 19 ≤ n → n < 2 ^ 20 → pteAt s.mem (root s i) n = upperEntry s n
  firmware : Firmware s
  memory : 1 ≤ s.physEnd.toNat
  acpi : Aligned s.acpi

section Views
variable {s t : KernelState} {free : List Addr}

theorem view_eq (same : view t = view s) :
    t.mem = s.mem ∧ t.freelist = s.freelist ∧ t.KMEM_SENTINEL = s.KMEM_SENTINEL ∧ t.kheapStart = s.kheapStart ∧
      t.kheapEnd = s.kheapEnd ∧ t.physEnd = s.physEnd ∧ t.acpi = s.acpi ∧ t.acpiLen = s.acpiLen ∧ t.kpgdir = s.kpgdir ∧
      ∀ q : Slot, (t.ptable q).kstack = (s.ptable q).kstack ∧ (t.ptable q).pgdir = (s.ptable q).pgdir := by
  simp only [view, Prod.mk.injEq] at same
  obtain ⟨mem, freelist, sentinel, start, stop, physEnd, acpi, acpiLen, kpgdir, slots⟩ := same
  exact ⟨mem, freelist, sentinel, start, stop, physEnd, acpi, acpiLen, kpgdir, fun q => Prod.mk.inj (congrFun slots q)⟩

theorem root_congr (same : view t = view s) (i : Owner) : root t i = root s i := by
  obtain ⟨-, -, -, -, -, -, -, -, kpgdir, slots⟩ := view_eq same
  cases i with
  | none => exact kpgdir
  | some q => exact (slots q).2

theorem stackPages_congr (same : view t = view s) (i : Owner) : stackPages t i = stackPages s i := by
  obtain ⟨-, -, -, -, -, -, -, -, -, slots⟩ := view_eq same
  cases i with
  | none => rfl
  | some q => rw [stackPages, stackPages, (slots q).1]

theorem holdings_congr (same : view t = view s) : holdings t = holdings s := by
  funext i
  rw [holdings, holdings, root_congr same, stackPages_congr same, (view_eq same).1]

theorem firmware_congr (same : t.physEnd = s.physEnd ∧ t.acpi = s.acpi ∧ t.acpiLen = s.acpiLen) (firmware : Firmware s) :
    Firmware t := by
  obtain ⟨physEnd, acpi, acpiLen⟩ := same
  constructor
  · rw [physEnd]; exact firmware.physical
  · rw [acpi]; exact firmware.acpiHigh
  · rw [acpi, acpiLen]; exact firmware.acpiFits
  · rw [acpiLen]; exact firmware.acpiSome
  · rw [physEnd, acpi, acpiLen]; exact firmware.memoryAcpi
  · rw [physEnd]; exact firmware.memoryDevices
  · rw [acpi, acpiLen]; exact firmware.acpiDevices

theorem upperEntry_congr (same : t.physEnd = s.physEnd ∧ t.acpi = s.acpi ∧ t.acpiLen = s.acpiLen) (n : Nat) :
    upperEntry t n = upperEntry s n := by
  have pages : kernelPages t = kernelPages s := by simp only [kernelPages, same.1, same.2.1, same.2.2]
  have entry : kernelEntry t n = kernelEntry s n := by simp only [kernelEntry, same.1, same.2.1, same.2.2]
  rw [upperEntry, upperEntry, pages, entry]

theorem heap_congr (same : view t = view s) (heap : ∀ c, Quiet c → Heap (s.setCpu c) free) (c : Processor)
    (quiet : Quiet c) : Heap (t.setCpu c) free := by
  obtain ⟨mem, freelist, sentinel, start, stop, -⟩ := view_eq same
  obtain ⟨-, low, chain, distinct, frames⟩ := heap c quiet
  simp only [KernelState.put_mem, KernelState.put_freelist, KernelState.put_KMEM_SENTINEL, KernelState.put_kheapStart,
    KernelState.put_kheapEnd, Frame] at low chain frames
  refine ⟨quiet, ?_, ?_, distinct, ?_⟩
  · simpa only [KernelState.put_KMEM_SENTINEL, KernelState.put_kheapStart, sentinel, start] using low
  · simpa only [KernelState.put_mem, KernelState.put_freelist, KernelState.put_KMEM_SENTINEL, mem, freelist, sentinel] using chain
  · simpa only [KernelState.put_kheapStart, KernelState.put_kheapEnd, Frame, start, stop] using frames

theorem Spaces.congr (spaces : Spaces s free) (same : view t = view s) : Spaces t free := by
  obtain ⟨mem, -, -, start, stop, physEnd, acpi, acpiLen, -⟩ := view_eq same
  refine ⟨heap_congr same spaces.heap, ?_, ?_, ?_, ?_, firmware_congr ⟨physEnd, acpi, acpiLen⟩ spaces.firmware, ?_, ?_⟩
  · rw [holdings_congr same]
    exact spaces.divided
  · simp only [holdings_congr same, Frame, start, stop]
    exact spaces.frames
  · intro i
    rw [root_congr same, mem]
    exact spaces.flags i
  · intro i
    rw [root_congr same, mem]
    simp only [upperEntry_congr ⟨physEnd, acpi, acpiLen⟩]
    exact spaces.upper i
  · rw [physEnd]
    exact spaces.memory
  · rw [acpi]
    exact spaces.acpi

end Views

section Pages
variable {s : KernelState} {free : List Addr} {i : Owner} {p : Addr}

/-- The entry of a kernel page is not for user mode. -/
theorem kernelEntry_supervisor (aligned : Aligned s.acpi) (n : Nat) : has (kernelEntry s n) PTE_U = false := by
  have closed (pa : Addr) (k : Nat) (multiple : Aligned pa) : has (entryFor pa PTE_W k) PTE_U = false := by
    rw [entryFor, BitVec.or_assoc, has_or (aligned_pageAfter multiple k) (by decide)]
    decide
  unfold kernelEntry
  split
  · exact closed _ _ (by decide)
  · split
    · exact closed _ _ aligned
    · exact closed _ _ (by decide)

theorem Spaces.supervisor (spaces : Spaces s free) (mapped : root s i ≠ 0#32) {n : Nat} (high : 2 ^ 19 ≤ n) (bound : n < 2 ^ 20) :
    has (pteAt s.mem (root s i) n) PTE_U = false := by
  rw [spaces.upper i mapped n high bound, upperEntry]
  split
  · exact kernelEntry_supervisor spaces.acpi n
  · exact has_zero PTE_U

theorem mem_holdings (i : Owner) (p : Addr) : p ∈ holdings s i ↔
    p ∈ stackPages s i ∨ p ∈ walkPages s.mem (root s i) ∨ p ∈ framePages s.mem (root s i) := by
  simp only [holdings, List.mem_append]

theorem walkPages_subset (i : Owner) : walkPages s.mem (root s i) ⊆ holdings s i :=
  fun p member => (mem_holdings i p).mpr (.inr (.inl member))

/-- A processor that holds no lock. -/
def idle : Processor := ⟨false, 0, false, fun _ => unlocked⟩

theorem idle_quiet : Quiet idle := boot_quiet (fun _ => 0#8) 0#32

theorem Spaces.directory (spaces : Spaces s free) {c : Processor} (quiet : Quiet c) (mapped : root s i ≠ 0#32) :
    Directory (s.setCpu c) (root s i) free := by
  have pages : walkPages s.mem (root s i) = root s i :: tables s.mem (root s i) := if_neg mapped
  have owned {q : Addr} (member : q ∈ root s i :: tables s.mem (root s i)) : q ∈ holdings s i :=
    walkPages_subset i (pages ▸ member)
  refine ⟨spaces.heap c quiet, (spaces.frames i _ (owned List.mem_cons_self)).aligned, spaces.flags i mapped, ?_, ?_⟩
  · exact fun q member => spaces.frames i q (owned (List.mem_cons_of_mem _ member))
  · have below : (walkPages s.mem (root s i)).Sublist (holdings s i) :=
      (List.sublist_append_left _ _).trans (List.sublist_append_right _ _)
    have distinct := (spaces.divided.pool i).sublist (below.append_right free)
    rwa [pages] at distinct

theorem Spaces.free_frame (spaces : Spaces s free) (member : p ∈ free) : Frame s p :=
  (spaces.heap idle idle_quiet).frames p member

/-- The view of a directory, when the pages that the processor walks keep their contents. -/
theorem Spaces.walk_congr (spaces : Spaces s free) {m : Mem}
    (same : ∀ p ∈ walkPages s.mem (root s i), Set.EqOn m s.mem (span p 4096)) (mapped : root s i ≠ 0#32) :
    (∀ d < 1024, pdeAt m (root s i) d = pdeAt s.mem (root s i) d) ∧
      ∀ n < 2 ^ 20, pteAt m (root s i) n = pteAt s.mem (root s i) n := by
  have dir := spaces.directory idle_quiet mapped
  have pages : walkPages s.mem (root s i) = root s i :: tables s.mem (root s i) := if_neg mapped
  rw [pages] at same
  have first := same _ List.mem_cons_self
  exact ⟨pdeAt_congr dir.aligned first, dir.pteAt_congr first fun p member => same p (List.mem_cons_of_mem _ member)⟩

theorem Spaces.pages_congr (spaces : Spaces s free) {m : Mem}
    (same : ∀ p ∈ walkPages s.mem (root s i), Set.EqOn m s.mem (span p 4096)) :
    walkPages m (root s i) = walkPages s.mem (root s i) ∧ framePages m (root s i) = framePages s.mem (root s i) := by
  by_cases mapped : root s i = 0#32
  · simp only [walkPages, framePages, if_pos mapped, and_self]
  · obtain ⟨entries, ptes⟩ := spaces.walk_congr same mapped
    simp only [walkPages, framePages, if_neg mapped, tables_congr entries, true_and]
    exact framesIn_congr fun n _ below => ptes n (by omega)

end Pages

/-- A change in which one owner takes part: the others keep their pages and what is in them. -/
structure Moved (i : Owner) (s t : KernelState) (free free' : List Addr) : Prop where
  heap : ∀ c, Quiet c → Heap (t.setCpu c) free'
  bounds : t.kheapStart = s.kheapStart ∧ t.kheapEnd = s.kheapEnd
  firmware : t.physEnd = s.physEnd ∧ t.acpi = s.acpi ∧ t.acpiLen = s.acpiLen
  roots : ∀ j, j ≠ i → root t j = root s j
  kstacks : ∀ j, j ≠ i → stackPages t j = stackPages s j
  untouched : ∀ j, j ≠ i → ∀ p ∈ holdings s j, Set.EqOn t.mem s.mem (span p 4096)
  part : (holdings t i ++ free').Subperm (holdings s i ++ free)
  flags : root t i ≠ 0#32 → ∀ d < 1024, has (pdeAt t.mem (root t i) d) PTE_P = true →
    has (pdeAt t.mem (root t i) d) PTE_W = true ∧ has (pdeAt t.mem (root t i) d) PTE_U = true ∧
      has (pdeAt t.mem (root t i) d) PTE_PS = false
  upper : root t i ≠ 0#32 → ∀ n, 2 ^ 19 ≤ n → n < 2 ^ 20 → pteAt t.mem (root t i) n = upperEntry s n

/-- The owner and the pool together have what they had. -/
def Whole (i : Owner) (s t : KernelState) (free free' : List Addr) : Prop :=
  (holdings t i ++ free').Perm (holdings s i ++ free)

section Moves
variable {s t : KernelState} {free free' : List Addr} {i : Owner}

/-- Who keeps its directory, its stack and what is in its pages keeps its pages. -/
theorem Spaces.holdings_eq (spaces : Spaces s free) (sameRoot : root t i = root s i)
    (sameStack : stackPages t i = stackPages s i) (untouched : ∀ p ∈ holdings s i, Set.EqOn t.mem s.mem (span p 4096)) :
    holdings t i = holdings s i := by
  have same := spaces.pages_congr fun p member => untouched p (walkPages_subset i member)
  rw [holdings, holdings, sameRoot, sameStack, same.1, same.2]

theorem Moved.holdings_eq (moved : Moved i s t free free') (spaces : Spaces s free) {j : Owner} (other : j ≠ i) :
    holdings t j = holdings s j :=
  spaces.holdings_eq (moved.roots j other) (moved.kstacks j other) (moved.untouched j other)

theorem Moved.spaces (moved : Moved i s t free free') (spaces : Spaces s free) : Spaces t free' := by
  have walk {j : Owner} (other : j ≠ i) (p : Addr) (member : p ∈ walkPages s.mem (root s j)) :
      Set.EqOn t.mem s.mem (span p 4096) := moved.untouched j other p (walkPages_subset j member)
  have frame (p : Addr) : Frame t p = Frame s p := by simp only [Frame, moved.bounds.1, moved.bounds.2]
  refine ⟨moved.heap, spaces.divided.move (fun j => moved.holdings_eq spaces) moved.part, ?_, ?_, ?_, ?_, ?_, ?_⟩
  · intro j p member
    rw [frame]
    by_cases other : j = i
    · subst other
      rcases List.mem_append.mp (moved.part.subset (List.mem_append_left _ member)) with mine | pooled
      · exact spaces.frames j p mine
      · exact spaces.free_frame pooled
    · rw [moved.holdings_eq spaces other] at member
      exact spaces.frames j p member
  · intro j mapped d bound
    by_cases other : j = i
    · subst other
      exact moved.flags mapped d bound
    · rw [moved.roots j other] at mapped ⊢
      rw [(spaces.walk_congr (walk other) mapped).1 d bound]
      exact spaces.flags j mapped d bound
  · intro j mapped n high low
    rw [upperEntry_congr moved.firmware]
    by_cases other : j = i
    · subst other
      exact moved.upper mapped n high low
    · rw [moved.roots j other] at mapped ⊢
      rw [(spaces.walk_congr (walk other) mapped).2 n low]
      exact spaces.upper j mapped n high low
  · exact firmware_congr moved.firmware spaces.firmware
  · rw [moved.firmware.1]
    exact spaces.memory
  · rw [moved.firmware.2.1]
    exact spaces.acpi

theorem Moved.congr {u : KernelState} (moved : Moved i s t free free') (same : view u = view t) :
    Moved i s u free free' := by
  obtain ⟨mem, -, -, start, stop, physEnd, acpi, acpiLen, -⟩ := view_eq same
  have firmware : u.physEnd = s.physEnd ∧ u.acpi = s.acpi ∧ u.acpiLen = s.acpiLen := by
    rw [physEnd, acpi, acpiLen]
    exact moved.firmware
  refine ⟨heap_congr same moved.heap, ⟨start.trans moved.bounds.1, stop.trans moved.bounds.2⟩, firmware, fun j other => ?_,
    fun j other => ?_, ?_, ?_, ?_, ?_⟩
  · exact (root_congr same j).trans (moved.roots j other)
  · exact (stackPages_congr same j).trans (moved.kstacks j other)
  · rw [mem]
    exact moved.untouched
  · rw [holdings_congr same]
    exact moved.part
  · rw [root_congr same, mem]
    exact moved.flags
  · rw [root_congr same, mem]
    exact moved.upper

theorem Whole.congr {u : KernelState} (whole : Whole i s t free free') (same : view u = view t) : Whole i s u free free' := by
  rw [Whole, holdings_congr same]
  exact whole

/-- Nothing happens that memory management notices. -/
theorem Spaces.stay (spaces : Spaces s free) (same : view t = view s) (i : Owner) :
    Moved i s t free free ∧ Whole i s t free free := by
  have still : Moved i s s free free := ⟨spaces.heap, ⟨rfl, rfl⟩, ⟨rfl, rfl, rfl⟩, fun _ _ => rfl, fun _ _ => rfl,
    fun _ _ _ _ _ _ => rfl, List.Subperm.refl _, spaces.flags i, spaces.upper i⟩
  exact ⟨still.congr same, Whole.congr (List.Perm.refl _) same⟩

/-- What a step of one owner leaves. -/
structure Advanced (i : Owner) (s t : KernelState) : Prop where
  spaces : ∃ free, Spaces t free
  start : t.kheapStart = s.kheapStart
  firmware : t.physEnd = s.physEnd ∧ t.acpi = s.acpi ∧ t.acpiLen = s.acpiLen
  roots : ∀ j, j ≠ i → root t j = root s j
  kstacks : ∀ j, j ≠ i → stackPages t j = stackPages s j
  untouched : ∀ j, j ≠ i → ∀ p ∈ holdings s j, Set.EqOn t.mem s.mem (span p 4096)

theorem Moved.advanced (moved : Moved i s t free free') (spaces : Spaces s free) : Advanced i s t :=
  ⟨⟨free', moved.spaces spaces⟩, moved.bounds.1, moved.firmware, moved.roots, moved.kstacks, moved.untouched⟩

theorem Advanced.congr {u : KernelState} (advanced : Advanced i s t) (same : view u = view t) : Advanced i s u := by
  obtain ⟨free, spaces⟩ := advanced.spaces
  obtain ⟨mem, -, -, start, -, physEnd, acpi, acpiLen, -⟩ := view_eq same
  refine ⟨⟨free, spaces.congr same⟩, start.trans advanced.start, ?_, fun j other => ?_, fun j other => ?_, ?_⟩
  · rw [physEnd, acpi, acpiLen]
    exact advanced.firmware
  · exact (root_congr same j).trans (advanced.roots j other)
  · exact (stackPages_congr same j).trans (advanced.kstacks j other)
  · rw [mem]
    exact advanced.untouched

theorem Spaces.advanced (spaces : Spaces s free) (same : view t = view s) (i : Owner) : Advanced i s t :=
  (spaces.stay same i).1.advanced spaces

theorem Advanced.trans {u : KernelState} (first : Advanced i s t) (second : Advanced i t u) (spaces : Spaces s free) :
    Advanced i s u := by
  refine ⟨second.spaces, second.start.trans first.start, ?_, fun j other => ?_, fun j other => ?_, fun j other p member => ?_⟩
  · rw [second.firmware.1, second.firmware.2.1, second.firmware.2.2]
    exact first.firmware
  · exact (second.roots j other).trans (first.roots j other)
  · exact (second.kstacks j other).trans (first.kstacks j other)
  · have same := spaces.holdings_eq (first.roots j other) (first.kstacks j other) (first.untouched j other)
    exact (second.untouched j other p (same ▸ member)).trans (first.untouched j other p member)

/-- The kernel stack and the user pages of an owner, which it may write as it likes. -/
def dataPages (s : KernelState) (i : Owner) : List Addr := stackPages s i ++ framePages s.mem (root s i)

theorem dataPages_subset (i : Owner) : dataPages s i ⊆ holdings s i := by
  intro p member
  rw [mem_holdings]
  rcases List.mem_append.mp member with isStack | isFrame
  · exact .inl isStack
  · exact .inr (.inr isFrame)

/-- Writes to data pages of the owner and to the kernel image leave all other pages alone. -/
theorem Spaces.write_kept (spaces : Spaces s free) {m : Mem}
    (confined : ∀ x, m x ≠ s.mem x → x < s.kheapStart ∨ ∃ p ∈ dataPages s i, x ∈ span p 4096) {p : Addr} (frame : Frame s p)
    (apart : p ∉ dataPages s i) : Set.EqOn m s.mem (span p 4096) := by
  intro x inside
  by_contra changed
  rcases confined x changed with low | ⟨q, member, near⟩
  · exact InHeap.not_below frame low inside
  · have ne : q ≠ p := ne_of_mem_of_not_mem member apart
    have aligned := (spaces.frames i q (dataPages_subset i member)).aligned
    exact Set.disjoint_left.mp (page_disjoint aligned frame.aligned ne) near inside

theorem Spaces.write_walk (spaces : Spaces s free) {m : Mem}
    (confined : ∀ x, m x ≠ s.mem x → x < s.kheapStart ∨ ∃ p ∈ dataPages s i, x ∈ span p 4096) (p : Addr)
    (member : p ∈ walkPages s.mem (root s i)) : Set.EqOn m s.mem (span p 4096) := by
  refine spaces.write_kept confined (spaces.frames i p (walkPages_subset i member)) fun data => ?_
  obtain ⟨-, rest, stackApart⟩ := List.nodup_append'.mp (spaces.divided.each i)
  rcases List.mem_append.mp data with isStack | isFrame
  · exact stackApart isStack (List.mem_append_left _ member)
  · exact (List.nodup_append'.mp rest).2.2 member isFrame

theorem Spaces.write_holdings (spaces : Spaces s free) {m : Mem}
    (confined : ∀ x, m x ≠ s.mem x → x < s.kheapStart ∨ ∃ p ∈ dataPages s i, x ∈ span p 4096) :
    holdings (s.setMem m) i = holdings s i := by
  have pages := spaces.pages_congr (spaces.write_walk confined)
  rw [holdings, holdings, root_put, stackPages_put, KernelState.put_mem, pages.1, pages.2]

/-- The owner writes into its kernel stack and its user pages, and anybody into the kernel image. -/
theorem Spaces.write (spaces : Spaces s free) {m : Mem}
    (confined : ∀ x, m x ≠ s.mem x → x < s.kheapStart ∨ ∃ p ∈ dataPages s i, x ∈ span p 4096) :
    Moved i s (s.setMem m) free free ∧ Whole i s (s.setMem m) free free := by
  have same := spaces.write_holdings confined
  refine ⟨?_, by rw [Whole, same]⟩
  have kept {p : Addr} := spaces.write_kept (p := p) confined
  have walk := spaces.write_walk confined
  refine ⟨fun c quiet => ?_, ⟨rfl, rfl⟩, ⟨rfl, rfl, rfl⟩, fun j _ => root_put .., fun j _ => stackPages_put ..,
    fun j other p member => ?_, ?_, ?_, ?_⟩
  · exact (spaces.heap c quiet).setMem fun p member =>
      kept (spaces.free_frame member) fun data => spaces.divided.taken i (dataPages_subset i data) member
  · exact kept (spaces.frames j p member) fun data => spaces.divided.apart j i other member (dataPages_subset i data)
  · rw [same]
  · rw [root_put, KernelState.put_mem]
    intro mapped d bound
    rw [(spaces.walk_congr walk mapped).1 d bound]
    exact spaces.flags i mapped d bound
  · rw [root_put, KernelState.put_mem]
    intro mapped n high low
    rw [(spaces.walk_congr walk mapped).2 n low]
    exact spaces.upper i mapped n high low

end Moves

section Slots
variable {s : KernelState} {p : Slot} {entry : Process} {j : Owner}

theorem root_setSlot (other : j ≠ some p) : root (setSlot s p entry) j = root s j := by
  cases j with
  | none => rfl
  | some q =>
    have ne : q ≠ p := fun same => other (congrArg some same)
    simp [root, ne]

theorem stackPages_setSlot (other : j ≠ some p) : stackPages (setSlot s p entry) j = stackPages s j := by
  cases j with
  | none => rfl
  | some q =>
    have ne : q ≠ p := fun same => other (congrArg some same)
    simp [stackPages, ne]

theorem holdings_setSlot (s : KernelState) (p : Slot) (entry : Process) : holdings (setSlot s p entry) (some p) =
    (if entry.kstack = 0#32 then [] else [entry.kstack]) ++
      (walkPages s.mem entry.pgdir ++ framePages s.mem entry.pgdir) := by
  simp only [holdings, stackPages, root, setSlot_same, setSlot_mem]

theorem setSlot_self (s : KernelState) (p : Slot) : setSlot s p (s.ptable p) = s := by
  unfold setSlot
  rw [Function.update_eq_self]

theorem view_setSlot (kstack : entry.kstack = (s.ptable p).kstack) (pgdir : entry.pgdir = (s.ptable p).pgdir) :
    view (setSlot s p entry) = view s := by
  have slots : (fun q : Slot => (((setSlot s p entry).ptable q).kstack, ((setSlot s p entry).ptable q).pgdir)) =
      fun q => ((s.ptable q).kstack, (s.ptable q).pgdir) := by
    funext q
    by_cases same : q = p
    · subst same
      simp [kstack, pgdir]
    · simp [same]
  simp only [view, slots]
  rfl

end Slots

section Creation
variable {s t : KernelState} {free : List Addr} {p : Slot}

/-- Memory, the free list and the entry of one process have changed. -/
theorem moved_slot {u : KernelState} {entry : Process} {free' : List Addr}
    (same : view u = view (s.put u.mem s.cpu u.freelist)) (heap : ∀ c, Quiet c → Heap (u.setCpu c) free')
    (untouched : ∀ j, j ≠ some p → ∀ q ∈ holdings s j, Set.EqOn u.mem s.mem (span q 4096))
    (part : ((if entry.kstack = 0#32 then [] else [entry.kstack]) ++
      (walkPages u.mem entry.pgdir ++ framePages u.mem entry.pgdir) ++ free').Subperm (holdings s (some p) ++ free))
    (flags : entry.pgdir ≠ 0#32 → ∀ d < 1024, has (pdeAt u.mem entry.pgdir d) PTE_P = true →
      has (pdeAt u.mem entry.pgdir d) PTE_W = true ∧ has (pdeAt u.mem entry.pgdir d) PTE_U = true ∧
        has (pdeAt u.mem entry.pgdir d) PTE_PS = false)
    (upper : entry.pgdir ≠ 0#32 → ∀ n, 2 ^ 19 ≤ n → n < 2 ^ 20 → pteAt u.mem entry.pgdir n = upperEntry s n) :
    Moved (some p) s (setSlot u p entry) free free' := by
  obtain ⟨-, -, -, start, stop, physEnd, acpi, acpiLen, -, -⟩ := view_eq same
  have mine : root (setSlot u p entry) (some p) = entry.pgdir := by simp [root]
  refine ⟨fun c quiet => ?_, ⟨start, stop⟩, ⟨physEnd, acpi, acpiLen⟩, fun j other => ?_, fun j other => ?_, untouched, ?_, ?_, ?_⟩
  · have after := heap c quiet
    exact ⟨quiet, after.sentinel, after.chain, after.distinct, after.frames⟩
  · rw [root_setSlot other, root_congr same, root_put]
  · rw [stackPages_setSlot other, stackPages_congr same, stackPages_put]
  · rw [holdings_setSlot]
    exact part
  · rw [mine]
    exact flags
  · rw [mine]
    exact upper

theorem run_takeKstack_cons {head : Addr} {rest : List Addr} (spaces : Spaces s (head :: rest)) (quiet : Quiet s.cpu) :
    ∃ c, Quiet c ∧ (takeKstack p).run s =
        .ok head (setSlot (s.put s.mem c (read32 s.mem head)) p { s.ptable p with kstack := head }) ∧
      Moved (some p) s (setSlot (s.put s.mem c (read32 s.mem head)) p { s.ptable p with kstack := head }) (head :: rest) rest := by
  have heap := spaces.heap s.cpu quiet
  obtain ⟨c, taken, after⟩ := run_kalloc_cons s head rest heap
  have real : head ≠ 0#32 := (spaces.free_frame List.mem_cons_self).ne_zero heap.sentinel
  refine ⟨c, after.quiet, ?_, ?_⟩
  · rw [takeKstack, run_bind_ok taken, run_bind_ok (run_updateSlot _ _ _)]
    rfl
  · refine moved_slot rfl (fun c' => after.setCpu c') (fun _ _ _ _ _ _ => rfl) ?_ (spaces.flags (some p))
      (spaces.upper (some p))
    rw [if_neg real, holdings]
    exact List.perm_middle.symm.subperm.trans ((List.sublist_append_right _ _).append_right _).subperm

theorem takeKstack_moved {k : Addr} (spaces : Spaces s free) (quiet : Quiet s.cpu) (ran : (takeKstack p).run s = .ok k t) :
    ∃ free', Moved (some p) s t free free' ∧ ((s.ptable p).kstack = 0#32 → Whole (some p) s t free free') := by
  cases free with
  | nil =>
    obtain ⟨c, taken, -⟩ := run_kalloc_nil s (spaces.heap s.cpu quiet)
    rw [takeKstack, run_bind_ok taken, run_bind_ok (run_updateSlot _ _ _)] at ran
    cases ran
    refine ⟨[], moved_slot rfl spaces.heap (fun _ _ _ _ _ _ => rfl) ?_ (spaces.flags (some p)) (spaces.upper (some p)),
      fun blank => ?_⟩
    · exact ((List.sublist_append_right _ _).append_right []).subperm
    · have unseen := @view_setSlot (s.setCpu c) p { s.ptable p with kstack := 0#32 } blank.symm rfl
      exact (spaces.stay unseen (some p)).2
  | cons head rest =>
    obtain ⟨c, -, taken, moved⟩ := run_takeKstack_cons (p := p) spaces quiet
    rw [taken] at ran
    injection ran with value state
    subst value state
    refine ⟨rest, moved, fun blank => ?_⟩
    have real : head ≠ 0#32 := (spaces.free_frame List.mem_cons_self).ne_zero (spaces.heap s.cpu quiet).sentinel
    have bare : stackPages s (some p) = [] := if_pos blank
    rw [Whole, holdings_setSlot, if_neg real, holdings, bare]
    exact List.perm_middle.symm

/-- What is written to the kernel stack of a process. -/
theorem stack_data {m : Mem} (real : (s.ptable p).kstack ≠ 0#32)
    (confined : Set.EqOn m s.mem (span (s.ptable p).kstack 4096)ᶜ) (x : Addr) (changed : m x ≠ s.mem x) :
    x < s.kheapStart ∨ ∃ q ∈ dataPages s (some p), x ∈ span q 4096 := by
  have pages : stackPages s (some p) = [(s.ptable p).kstack] := if_neg real
  refine .inr ⟨(s.ptable p).kstack, ?_, ?_⟩
  · rw [dataPages, pages]
    exact List.mem_append_left _ List.mem_cons_self
  · by_contra outside
    exact changed (confined outside)

theorem firstStack_within (image : Image) (m : Mem) (kstack : Addr) :
    Set.EqOn (firstStack image m kstack) m (span kstack 4096)ᶜ := by
  have sizes : KSTACKSIZE = 4096#32 ∧ interruptStateSize = 64 ∧ contextSize = 20 ∧ ContextField.eip.offset = 16#32 :=
    ⟨rfl, rfl, rfl, rfl⟩
  obtain ⟨stack, state, context, eip⟩ := sizes
  intro x outside
  simp only [Set.mem_compl_iff, mem_span] at outside
  unfold firstStack contextOf tfOf
  rw [memset_eq_fill _ _ _ _ (by decide), stack, state, context, eip]
  rw [write32_outside _ _ _ (by simp only [Set.mem_compl_iff, mem_span]; bv_omega),
    fill_outside _ _ _ _ (by simp only [Set.mem_compl_iff, mem_span]; bv_omega),
    write32_outside _ _ _ (by simp only [Set.mem_compl_iff, mem_span]; bv_omega)]

theorem layoutKstack_moved {image : Image} {u : Unit} (spaces : Spaces s free) (real : (s.ptable p).kstack ≠ 0#32)
    (ran : (layoutKstack image p).run s = .ok u t) :
    Moved (some p) s t free free ∧ Whole (some p) s t free free ∧ (t.ptable p).tf = tfOf (t.ptable p).kstack := by
  rw [run_layoutKstack] at ran
  cases ran
  have unseen {entry : Process} := @view_setSlot (s.setMem (firstStack image s.mem (s.ptable p).kstack)) p entry
  obtain ⟨moved, whole⟩ := spaces.write (stack_data real (firstStack_within image s.mem _))
  exact ⟨moved.congr (unseen rfl rfl), whole.congr (unseen rfl rfl), by simp⟩

/-- A directory that `setupkvm` returned, made of pages that were free. -/
structure Fresh (s u : KernelState) (free free' : List Addr) (pgdir : Addr) : Prop where
  dir : Directory u pgdir free'
  rest : ∃ m c f, u = s.put m c f
  order : (pgdir :: (tables u.mem pgdir ++ free')).Perm free
  within : Set.EqOn u.mem s.mem (outside free)
  inside : present u.mem pgdir ⊆ (kernelPages s).image (· / 1024)
  entries : ∀ n ∈ kernelPages s, pteAt u.mem pgdir n = kernelEntry s n
  blank : ∀ n < 2 ^ 20, n ∉ kernelPages s → pteAt u.mem pgdir n = 0#32

theorem Fresh.upper {u : KernelState} {free' : List Addr} {pgdir : Addr} (fresh : Fresh s u free free' pgdir) (n : Nat)
    (bound : n < 2 ^ 20) : pteAt u.mem pgdir n = upperEntry s n := by
  unfold upperEntry
  split
  next member => exact fresh.entries n member
  next away => exact fresh.blank n bound away

theorem Fresh.lower {u : KernelState} {free' : List Addr} {pgdir : Addr} (fresh : Fresh s u free free' pgdir)
    (firmware : Firmware s) (n : Nat) (low : n < 2 ^ 19) : pteAt u.mem pgdir n = 0#32 := by
  refine fresh.blank n (by omega) fun member => ?_
  have := (kernelPages_high firmware member).1
  omega

theorem setupkvm_fresh {pgdir : Addr} {u : KernelState} (heap : Heap s free) (firmware : Firmware s)
    (memory : 1 ≤ s.physEnd.toNat) (ran : setupkvm.run s = .ok pgdir u) :
    ∃ free', Fresh s u free free' pgdir := by
  cases free with
  | nil =>
    obtain ⟨c, refused, -⟩ := run_kalloc_nil s heap
    rw [setupkvm, run_bind_ok refused, run_ite, if_pos rfl] at ran
    cases ran
  | cons head rest =>
    obtain ⟨c, v, free', fresh, built, noTables, ending⟩ := run_setupkvm heap firmware memory
    rcases ending with ⟨ended, entries⟩ | ⟨ended, -⟩
    case inr => exact absurd (ended.symm.trans ran) (mapfail_not_ok pgdir)
    rw [ended] at ran
    injection ran with value state
    subst value state
    obtain ⟨m, c', f, rfl⟩ := built.grows.rest
    have conserved := built.grows.conserved
    rw [noTables, List.nil_append] at conserved
    refine ⟨free', built.grows.directory, ⟨m, c', f, rfl⟩, conserved.cons head, ?_, built.inside, entries, built.blank⟩
    intro x away
    have off : x ∉ span head 4096 := away head List.mem_cons_self
    have same := built.grows.unchanged (x := x) (by rw [noTables]; exact away)
    exact same.trans (fill_outside s.mem head 0#8 4096 off)

/-- Pages that are not free keep their contents when only free pages are written. -/
theorem Spaces.off_free (spaces : Spaces s free) {m : Mem} (within : Set.EqOn m s.mem (outside free)) {i : Owner} {q : Addr}
    (owned : q ∈ holdings s i) : Set.EqOn m s.mem (span q 4096) := by
  intro x inside
  refine within fun r isFree near => ?_
  have ne : r ≠ q := fun same => spaces.divided.taken i owned (same ▸ isFree)
  exact Set.disjoint_left.mp (page_disjoint (spaces.free_frame isFree).aligned (spaces.frames i q owned).aligned ne) near inside

theorem takePgdir_moved {x : Unit} (spaces : Spaces s free) (quiet : Quiet s.cpu) (ran : (takePgdir p).run s = .ok x t) :
    ∃ pgdir u free', Fresh { s with initproc := some p } u free free' pgdir ∧ pgdir ≠ 0#32 ∧
      t = setSlot u p { s.ptable p with pgdir := pgdir } ∧ Moved (some p) s t free free' ∧
      ((s.ptable p).pgdir = 0#32 → Whole (some p) s t free free') := by
  rw [takePgdir, run_bind_ok (EStateM.run_modify _ _)] at ran
  obtain ⟨pgdir, u, built, ran⟩ := run_bind_eq_ok ran
  have begun : Spaces { s with initproc := some p } free := spaces.congr rfl
  obtain ⟨free', fresh⟩ := setupkvm_fresh (begun.heap _ quiet) begun.firmware begun.memory built
  obtain ⟨m, c, f, same⟩ := fresh.rest
  have entry : u.ptable p = s.ptable p := by rw [same]; rfl
  rw [run_bind_ok (run_updateSlot _ _ _), run_ite] at ran
  split at ran
  case isTrue => cases ran
  case isFalse nonzero =>
    cases ran
    rw [entry]
    have noFrames : userFrames u.mem pgdir = [] := userFrames_blank (fresh.lower begun.firmware)
    have pages : walkPages u.mem pgdir ++ framePages u.mem pgdir = pgdir :: tables u.mem pgdir := by
      simp only [walkPages, framePages, if_neg nonzero, noFrames, List.append_nil]
    have order : (stackPages s (some p) ++ pgdir :: tables u.mem pgdir ++ free').Perm (stackPages s (some p) ++ free) := by
      rw [List.append_assoc]
      exact fresh.order.append_left _
    refine ⟨pgdir, u, free', fresh, nonzero, rfl, ?_, fun blank => ?_⟩
    · refine moved_slot (by rw [same]; rfl) (fun c' => fresh.dir.heap.setCpu c') (fun j _ q owned => ?_) ?_
        (fun _ => fresh.dir.flags) (fun _ n _ bound => fresh.upper n bound)
      · exact spaces.off_free fresh.within owned
      · simp only [pages]
        exact order.subperm.trans ((List.sublist_append_left _ _).append_right free).subperm
    · have bare : holdings s (some p) = stackPages s (some p) := by
        have unmapped : root s (some p) = 0#32 := blank
        simp only [holdings, walkPages, framePages, unmapped, if_true, List.append_nil]
      simp only [Whole, holdings_setSlot, pages, bare]
      exact order

/-- The image went into a free page, mapped at 0 unless there was none left for its table. -/
structure Placed (pgdir : Addr) (s u : KernelState) (rest free' : List Addr) (q : Addr) : Prop where
  dir : Directory u pgdir free'
  kept : ∃ m c f, u = s.put m c f
  order : (tables u.mem pgdir ++ free').Perm (tables s.mem pgdir ++ rest)
  few : (tables u.mem pgdir).length ≤ (tables s.mem pgdir).length + 1
  within : Set.EqOn u.mem s.mem (outside (pgdir :: (tables s.mem pgdir ++ q :: rest)))
  others : ∀ n < 2 ^ 20, n ≠ 0 → pteAt u.mem pgdir n = pteAt s.mem pgdir n
  first : frameAt u.mem pgdir 0 = some q ∨ rest = [] ∧ frameAt u.mem pgdir 0 = none

/-- A single page takes at most one table. -/
theorem mappages_few {pgdir pa perm : Addr} {u : KernelState} {r : Int} (dir : Directory s pgdir free)
    (ran : (mappages pgdir 0#32 PGSIZE pa perm).run s = .ok r u) :
    (tables u.mem pgdir).length ≤ (tables s.mem pgdir).length + 1 := by
  obtain ⟨done, v, free', mapped, ending⟩ := run_mappages dir 0#32 PGSIZE pa perm
  have count : (PGROUNDDOWN (0#32 + PGSIZE - 1#32) - PGROUNDDOWN 0#32).toNat / 4096 = 0 := by decide
  rw [ran, count] at ending
  have same : u = v ∧ done ≤ 1 := by
    cases ending with
    | mapped all => exact ⟨rfl, by omega⟩
    | exhausted more => exact ⟨rfl, by omega⟩
  obtain ⟨rfl, upto⟩ := same
  have inside : present u.mem pgdir ⊆ present s.mem pgdir ∪ {0} := by
    intro d member
    obtain ⟨bound, there⟩ := mem_present.mp member
    rcases mapped.touched d bound there with old | ⟨k, less, rfl⟩
    · exact Finset.mem_union_left _ (mem_present.mpr ⟨bound, old⟩)
    · have first : k = 0 := by omega
      subst first
      exact Finset.mem_union_right _ (Finset.mem_singleton.mpr rfl)
  have fewer := (Finset.card_le_card inside).trans (Finset.card_union_le _ _)
  rwa [card_present, card_present, Finset.card_singleton] at fewer

theorem inituvm_placed {pgdir init sz q : Addr} {rest : List Addr} {u : KernelState} {x : Unit}
    (dir : Directory s pgdir (q :: rest)) (frame : Frame s pgdir) (image : init.toNat + sz.toNat ≤ s.kheapStart.toNat)
    (clear : has (pteAt s.mem pgdir 0) PTE_P = false) (ran : (inituvm pgdir init sz).run s = .ok x u) :
    ∃ free', Placed pgdir s u rest free' q := by
  have small : sz < PGSIZE := by
    by_contra large
    rw [BitVec.not_lt] at large
    rw [inituvm, run_ite, if_pos large] at ran
    cases ran
  have frameQ : Frame s q := dir.heap.frames q List.mem_cons_self
  obtain ⟨c, allocated, heap⟩ := run_kalloc_cons s q rest dir.heap
  obtain ⟨taken, apart⟩ := dir.take heap
  obtain ⟨cleared, sameTables, same⟩ := taken.setMem frameQ.aligned apart (fill_outside s.mem q 0#8 4096)
  obtain ⟨v, free', grows, others, -, ending⟩ := run_mappages_page 0#32 (V2P q) (PTE_W ||| PTE_U) cleared (by decide)
    (by rw [KernelState.put_mem, same _ (by decide)]; exact clear)
  have off : q ∉ pgdir :: (tables v.mem pgdir ++ free') := by
    intro member
    apply apart
    rw [(grows.conserved.cons pgdir).mem_iff] at member
    simpa [sameTables] using member
  have forward : sz.toNat ≤ (q - init).toNat := forward_of_apart fun a part =>
    Directory.image_outside dir frame 1 image a part q (by simp)
  have nearby : Set.EqOn (memmove v.mem q init sz.toNat) v.mem (span q 4096)ᶜ := by
    have move : memmove v.mem q init sz.toNat = memcpy v.mem q init sz.toNat := if_pos forward
    rw [move]
    exact (memcpy_outside v.mem q init sz.toNat forward).mono
      (Set.compl_subset_compl.mpr (span_mono q _ _ (Nat.le_of_lt small)))
  obtain ⟨final, finalTables, finalView⟩ := grows.directory.setMem frameQ.aligned off nearby
  have mapped : ∃ r, (mappages pgdir 0#32 PGSIZE (V2P q) (PTE_W ||| PTE_U)).run
      ((s.put s.mem c (read32 s.mem q)).setMem (fill s.mem q 0#8 4096)) = .ok r v := by
    rcases ending with ⟨ended, -⟩ | ⟨ended, -⟩
    · exact ⟨_, ended⟩
    · exact ⟨_, ended⟩
  obtain ⟨r, ended⟩ := mapped
  have state : u = v.setMem (memmove v.mem q init sz.toNat) := by
    unfold inituvm clearPage at ran
    rw [run_ite, if_neg (BitVec.not_le.mpr small), run_bind_ok allocated, run_bind_ok (EStateM.run_modify _ _),
      memset_eq_fill _ _ _ _ (by decide), KernelState.put_mem, run_bind_ok ended] at ran
    cases ran
    rfl
  subst state
  obtain ⟨m, cpu, f, kept⟩ := grows.rest
  refine ⟨free', final, ⟨_, cpu, f, by rw [kept]; rfl⟩, ?_, ?_, ?_, ?_, ?_⟩
  · have conserved := grows.conserved
    rw [KernelState.put_mem, sameTables] at conserved
    rw [KernelState.put_mem, finalTables]
    exact conserved
  · have few := mappages_few cleared ended
    rw [KernelState.put_mem, sameTables] at few
    rw [KernelState.put_mem, finalTables]
    exact few
  · intro x away
    have elsewhere : x ∉ span q 4096 := away q (by simp)
    have offTables : x ∈ outside (pgdir :: (tables s.mem pgdir ++ rest)) :=
      outside_anti (List.cons_subset_cons pgdir ((List.sublist_cons_self q rest).append_left _).subset) away
    have unchanged := grows.unchanged (x := x) (by rw [KernelState.put_mem, sameTables]; exact offTables)
    rw [KernelState.put_mem, nearby elsewhere, unchanged]
    exact fill_outside s.mem q 0#8 4096 elsewhere
  · intro n bound other
    rw [KernelState.put_mem, finalView n bound, others n bound other]
    exact same n bound
  · rw [KernelState.put_mem, frameAt_congr (finalView 0 (by decide))]
    rcases ending with ⟨-, entry, -⟩ | ⟨-, spent, -, zero⟩
    · left
      have value : pteAt v.mem pgdir 0 = entryFor (V2P q) (PTE_W ||| PTE_U) 0 := entry.trans (by simp [entryFor, pageAfter])
      rw [frameAt, value, has_entryFor, if_pos rfl, PTE_ADDR_entryFor _ (aligned_V2P frameQ.aligned) (by simp)]
      simp [pageAfter]
    · exact .inr ⟨spent, frameAt_zero zero⟩

/-- A page of the pool and some more for the tables, in the order of the holdings. -/
theorem perm_taken {stack tabs tabs' frames new rest rest' : List Addr} {pgdir : Addr}
    (order : (tabs' ++ rest').Perm (tabs ++ rest)) :
    (stack ++ (pgdir :: tabs' ++ (new ++ frames)) ++ rest').Perm (stack ++ (pgdir :: tabs ++ frames) ++ (new ++ rest)) := by
  have same := Multiset.coe_eq_coe.mpr order
  rw [← Multiset.coe_eq_coe]
  simp only [← Multiset.coe_add, ← Multiset.cons_coe, ← Multiset.singleton_add] at same ⊢
  calc (stack : Multiset Addr) + ({pgdir} + tabs' + (new + frames)) + rest'
      = stack + {pgdir} + frames + (tabs' + rest') + new := by abel
    _ = stack + {pgdir} + frames + (tabs + rest) + new := by rw [same]
    _ = stack + ({pgdir} + tabs + frames) + (new + rest) := by abel

/-- The frames of the lower half, once the first page may have got one. -/
theorem userFrames_first {m m' : Mem} {pgdir : Addr} (clear : frameAt m pgdir 0 = none)
    (others : ∀ n < 2 ^ 19, n ≠ 0 → pteAt m' pgdir n = pteAt m pgdir n) :
    userFrames m' pgdir = (frameAt m' pgdir 0).toList ++ userFrames m pgdir := by
  have rest : framesIn m' pgdir 1 (2 ^ 19) = framesIn m pgdir 1 (2 ^ 19) :=
    framesIn_congr fun n above below => others n below (by omega)
  rw [userFrames, userFrames, framesIn_cons (by decide), framesIn_cons (m := m) (by decide), clear, rest]
  rfl

theorem loadImage_moved {image : Image} {x : Unit} {q : Addr} {rest : List Addr} (spaces : Spaces s (q :: rest))
    (quiet : Quiet s.cpu) (mapped : (s.ptable p).pgdir ≠ 0#32)
    (low : image.userInitStart.toNat + image.userInitSize.toNat ≤ s.kheapStart.toNat)
    (clear : pteAt s.mem (s.ptable p).pgdir 0 = 0#32) (ran : (loadImage image p).run s = .ok x t) :
    ∃ free', Placed (s.ptable p).pgdir s t rest free' q ∧ Moved (some p) s t (q :: rest) free' ∧
      (rest ≠ [] → Whole (some p) s t (q :: rest) free') := by
  rw [loadImage, run_bind_ok (EStateM.run_get s)] at ran
  have dir : Directory s (s.ptable p).pgdir (q :: rest) := spaces.directory (i := some p) quiet mapped
  have owned : (s.ptable p).pgdir ∈ holdings s (some p) := walkPages_subset _ (by simp [walkPages, root, mapped])
  obtain ⟨free', placed⟩ := inituvm_placed dir (spaces.frames _ _ owned) low (by rw [clear]; rfl) ran
  refine ⟨free', placed, ?_⟩
  obtain ⟨m, c, f, rfl⟩ := placed.kept
  have frames : userFrames m (s.ptable p).pgdir =
      (frameAt m (s.ptable p).pgdir 0).toList ++ userFrames s.mem (s.ptable p).pgdir :=
    userFrames_first (frameAt_zero clear) fun n below => placed.others n (by omega)
  have held (m : Mem) : holdings (s.put m c f) (some p) = stackPages s (some p) ++
      ((s.ptable p).pgdir :: tables m (s.ptable p).pgdir ++ userFrames m (s.ptable p).pgdir) := by
    simp only [holdings, stackPages_put, walkPages, framePages, root, KernelState.put_mem, KernelState.put_ptable, mapped, if_false]
  have before : holdings s (some p) = _ := held s.mem
  -- The image page is in the list of frames, or was lost because there was no page for its table.
  have order : (holdings (s.put m c f) (some p) ++ free').Perm
      (holdings s (some p) ++ ((frameAt m (s.ptable p).pgdir 0).toList ++ rest)) := by
    rw [held, before, frames]
    exact perm_taken placed.order
  have first : frameAt m (s.ptable p).pgdir 0 = some q ∨ rest = [] ∧ frameAt m (s.ptable p).pgdir 0 = none := placed.first
  have one : (frameAt m (s.ptable p).pgdir 0).toList.Sublist [q] := by
    rcases first with found | ⟨-, blank⟩
    · rw [found]
      exact List.Sublist.refl _
    · rw [blank]
      exact List.nil_sublist _
  have part : (holdings (s.put m c f) (some p) ++ free').Subperm (holdings s (some p) ++ q :: rest) :=
    order.subperm.trans ((one.append_right rest).append_left _).subperm
  refine ⟨?_, fun more => ?_⟩
  rotate_left
  · rcases first with found | ⟨spent, -⟩
    · rw [found] at order
      exact order
    · exact absurd spent more
  rw [← setSlot_self (s.put m c f) p] at part ⊢
  refine moved_slot rfl (fun c' => placed.dir.heap.setCpu c') (fun j other r member => ?_) (holdings_setSlot _ _ _ ▸ part)
    (fun _ => placed.dir.flags) (fun _ n high bound => ?_)
  · have apart (page : Addr) (mine : page ∈ (s.ptable p).pgdir :: (tables s.mem (s.ptable p).pgdir ++ q :: rest)) :
        page ≠ r := by
      rintro rfl
      rw [← List.cons_append, List.mem_append] at mine
      rcases mine with walked | isFree
      · refine spaces.divided.apart j (some p) other member (walkPages_subset _ ?_)
        rw [walkPages, root, if_neg mapped]
        exact walked
      · exact spaces.divided.taken j member isFree
    intro x inside
    refine placed.within fun page mine near => ?_
    exact Set.disjoint_left.mp (page_disjoint (dir.page_aligned mine) (spaces.frames j r member).aligned (apart page mine))
      near inside
  · have entry := placed.others n bound (by omega)
    rw [KernelState.put_mem] at entry
    rw [KernelState.put_mem, KernelState.put_ptable, entry]
    exact spaces.upper (some p) mapped n high bound

/-- The frame with which a process starts. -/
def startFrame (m : Mem) (tf : Addr) : Mem :=
  write32 (write32 (write32 (write32 (write32 (write32 (memset m tf 0#8 interruptStateSize) (tf + TrapField.cs.offset) 0x1b#32)
    (tf + TrapField.ds.offset) 0x23#32) (tf + TrapField.ss.offset) 0x23#32) (tf + TrapField.eflags.offset) FL_IF)
    (tf + TrapField.esp.offset) PGSIZE) (tf + TrapField.eip.offset) 0#32

theorem run_initFrame_start (p : Slot) (s : KernelState) : (initFrame p).run s =
    .ok () (setSlot (s.setMem (startFrame s.mem (s.ptable p).tf)) p { s.ptable p with sz := PGSIZE }) := by
  unfold initFrame
  rw [run_bind_ok (run_updateSlot _ _ _), run_bind_ok (EStateM.run_get _), run_bind_ok (EStateM.run_modify _ _),
    run_bind_ok (run_store32 _ _ _), run_bind_ok (run_store32 _ _ _), run_bind_ok (run_store32 _ _ _),
    run_bind_ok (run_store32 _ _ _), run_bind_ok (run_store32 _ _ _), run_store32]
  simp only [setSlot_same, setSlot_put, put_put, setSlot_mem, KernelState.put_mem, startFrame]
  rfl

theorem startFrame_within (m : Mem) (tf : Addr) : Set.EqOn (startFrame m tf) m (span tf interruptStateSize)ᶜ := by
  have size : interruptStateSize = 64 := rfl
  have field (m : Mem) (f : TrapField) (w : Word) :
      Set.EqOn (write32 m (tf + f.offset) w) m (span tf interruptStateSize)ᶜ := by
    have small : f.offset.toNat + 4 ≤ 64 := by cases f <;> decide
    intro x outside
    refine write32_outside _ _ _ ?_
    simp only [Set.mem_compl_iff, mem_span, size] at outside ⊢
    bv_omega
  have cleared : Set.EqOn (memset m tf 0#8 interruptStateSize) m (span tf interruptStateSize)ᶜ := by
    rw [memset_eq_fill _ _ _ _ (by decide)]
    exact fill_outside m tf 0#8 interruptStateSize
  exact (field _ _ _).trans ((field _ _ _).trans ((field _ _ _).trans ((field _ _ _).trans ((field _ _ _).trans
    ((field _ _ _).trans cleared)))))

theorem initFrame_moved {x : Unit} (spaces : Spaces s free) (real : (s.ptable p).kstack ≠ 0#32)
    (top : (s.ptable p).tf = tfOf (s.ptable p).kstack) (ran : (initFrame p).run s = .ok x t) :
    Moved (some p) s t free free ∧ Whole (some p) s t free free := by
  rw [run_initFrame_start] at ran
  cases ran
  have confined : Set.EqOn (startFrame s.mem (s.ptable p).tf) s.mem (span (s.ptable p).kstack 4096)ᶜ := by
    rw [top]
    exact (startFrame_within s.mem _).mono (Set.compl_subset_compl.mpr (tf_subset_page _))
  have unseen {entry : Process} := @view_setSlot (s.setMem (startFrame s.mem (s.ptable p).tf)) p entry
  obtain ⟨moved, whole⟩ := spaces.write (stack_data real confined)
  exact ⟨moved.congr (unseen rfl rfl), whole.congr (unseen rfl rfl)⟩

end Creation

/-- A byte that user mode sees. -/
def Seen (s : KernelState) (q : Slot) (x : Addr) : Prop :=
  ∃ a t, translation s.mem (s.ptable q).pgdir a = some t ∧ t.user = true ∧ x = P2V t.pa

/-- A byte that user mode may write. -/
def Storable (s : KernelState) (q : Slot) (x : Addr) : Prop :=
  ∃ a t, translation s.mem (s.ptable q).pgdir a = some t ∧ t.user = true ∧ t.writable = true ∧ x = P2V t.pa

section Users
variable {s : KernelState} {free : List Addr} {q : Slot}

/-- What is mapped in the lower half lies in a frame of the process. -/
theorem Spaces.low_frame (spaces : Spaces s free) (mapped : (s.ptable q).pgdir ≠ 0#32) {a : Addr} {t : Mapping}
    (walk : translation s.mem (s.ptable q).pgdir a = some t) (low : a.toNat / 4096 < 2 ^ 19) :
    ∃ frame ∈ framePages s.mem (s.ptable q).pgdir, P2V t.pa ∈ span frame 4096 := by
  have dir := spaces.directory (i := some q) idle_quiet mapped
  have value : translation s.mem (s.ptable q).pgdir a =
      decode (pteAt s.mem (s.ptable q).pgdir (a.toNat / 4096)) a := dir.translation_eq a
  rw [value, decode] at walk
  split at walk
  case isFalse => cases walk
  case isTrue present =>
    cases walk
    have found : frameAt s.mem (s.ptable q).pgdir (a.toNat / 4096) =
        some (P2V (PTE_ADDR (pteAt s.mem (s.ptable q).pgdir (a.toNat / 4096)))) := by rw [frameAt, if_pos present]
    have member : P2V (PTE_ADDR (pteAt s.mem (s.ptable q).pgdir (a.toNat / 4096))) ∈ framePages s.mem (s.ptable q).pgdir := by
      rw [framePages, if_neg mapped]
      exact mem_framesIn.mpr ⟨_, Nat.zero_le _, low, found⟩
    refine ⟨_, member, ?_⟩
    have offset := ADDR_PAGE_OFFSET_toNat a
    generalize ADDR_PAGE_OFFSET a = o at offset
    generalize PTE_ADDR (pteAt s.mem (s.ptable q).pgdir (a.toNat / 4096)) = base
    simp only [mem_span, P2V]
    bv_omega

/-- User mode reaches the lower half only. -/
theorem Spaces.user_frame (spaces : Spaces s free) (mapped : (s.ptable q).pgdir ≠ 0#32) {a : Addr} {t : Mapping}
    (walk : translation s.mem (s.ptable q).pgdir a = some t) (user : t.user = true) :
    ∃ frame ∈ framePages s.mem (s.ptable q).pgdir, P2V t.pa ∈ span frame 4096 := by
  have dir := spaces.directory (i := some q) idle_quiet mapped
  have small : a.toNat / 4096 < 2 ^ 20 := by have := a.isLt; omega
  refine spaces.low_frame mapped walk ?_
  by_contra high
  have value : translation s.mem (s.ptable q).pgdir a =
      decode (pteAt s.mem (s.ptable q).pgdir (a.toNat / 4096)) a := dir.translation_eq a
  have closed := spaces.supervisor (i := some q) mapped (Nat.le_of_not_lt high) small
  rw [value, decode] at walk
  split at walk
  · cases walk
    cases user.symm.trans closed
  · cases walk

theorem Spaces.seen_frame (spaces : Spaces s free) (mapped : (s.ptable q).pgdir ≠ 0#32) {x : Addr} (seen : Seen s q x) :
    ∃ frame ∈ holdings s (some q), frame ∈ framePages s.mem (s.ptable q).pgdir ∧ Frame s frame ∧ x ∈ span frame 4096 := by
  obtain ⟨a, t, walk, user, rfl⟩ := seen
  obtain ⟨frame, member, inside⟩ := spaces.user_frame mapped walk user
  have owned : frame ∈ holdings s (some q) := (mem_holdings _ _).mpr (.inr (.inr member))
  exact ⟨frame, owned, member, spaces.frames _ _ owned, inside⟩

/-- A byte lies in one page only. -/
theorem page_unique {p q x : Addr} (alignedP : Aligned p) (alignedQ : Aligned q) (inP : x ∈ span p 4096)
    (inQ : x ∈ span q 4096) : p = q := by
  by_contra ne
  exact Set.disjoint_left.mp (page_disjoint alignedP alignedQ ne) inP inQ

/-- No byte is seen by two processes. -/
theorem Spaces.seen_apart (spaces : Spaces s free) {r : Slot} (ne : q ≠ r) (mappedQ : (s.ptable q).pgdir ≠ 0#32)
    (mappedR : (s.ptable r).pgdir ≠ 0#32) {x : Addr} (seen : Seen s q x) : ¬ Seen s r x := by
  intro seen'
  obtain ⟨frame, mine, -, real, inside⟩ := spaces.seen_frame mappedQ seen
  obtain ⟨frame', theirs, -, real', inside'⟩ := spaces.seen_frame mappedR seen'
  obtain rfl := page_unique real.aligned real'.aligned inside inside'
  exact spaces.divided.apart (some q) (some r) (fun same => ne (Option.some.inj same)) mine theirs

/-- What user mode sees is no kernel stack, no directory, no table and no free page. -/
theorem Spaces.seen_off (spaces : Spaces s free) (mapped : (s.ptable q).pgdir ≠ 0#32) {x : Addr} (seen : Seen s q x) :
    s.kheapStart ≤ x ∧ (∀ i, ∀ page ∈ stackPages s i ++ walkPages s.mem (root s i), x ∉ span page 4096) ∧
      ∀ page ∈ free, x ∉ span page 4096 := by
  obtain ⟨frame, mine, data, real, inside⟩ := spaces.seen_frame mapped seen
  refine ⟨?_, fun i page member near => ?_, fun page isFree near => ?_⟩
  · by_contra below
    exact InHeap.not_below real (BitVec.not_le.mp below) inside
  · have held : page ∈ holdings s i := by
      rw [holdings, ← List.append_assoc]
      exact List.mem_append_left _ member
    obtain rfl := page_unique real.aligned (spaces.frames i page held).aligned inside near
    by_cases same : i = some q
    · subst same
      have distinct := spaces.divided.each (some q)
      rw [holdings, ← List.append_assoc] at distinct
      exact (List.nodup_append'.mp distinct).2.2 member data
    · exact spaces.divided.apart i (some q) same held mine
  · obtain rfl := page_unique real.aligned (spaces.free_frame isFree).aligned inside near
    exact spaces.divided.taken (some q) mine isFree

/-- A process whose directory and tables are as they were. -/
theorem Spaces.translation_kept (spaces : Spaces s free) {t : KernelState} {free' : List Addr} (after : Spaces t free')
    (mapped : (s.ptable q).pgdir ≠ 0#32) (same : (t.ptable q).pgdir = (s.ptable q).pgdir)
    (untouched : ∀ p ∈ walkPages s.mem (s.ptable q).pgdir, Set.EqOn t.mem s.mem (span p 4096)) (a : Addr) :
    translation t.mem (s.ptable q).pgdir a = translation s.mem (s.ptable q).pgdir a := by
  have small : a.toNat / 4096 < 2 ^ 20 := by have := a.isLt; omega
  have before := (spaces.directory (i := some q) idle_quiet mapped).translation_eq a
  have later := (after.directory (i := some q) idle_quiet (by rw [root, same]; exact mapped)).translation_eq a
  rw [root, same] at later
  have entry := (spaces.walk_congr (i := some q) untouched mapped).2 _ small
  exact later.trans ((congrArg (decode · a) entry).trans before.symm)

/-- A process in whose pages nothing is written. -/
theorem Spaces.seen_kept (spaces : Spaces s free) {t : KernelState} {free' : List Addr} (after : Spaces t free')
    (mapped : (s.ptable q).pgdir ≠ 0#32) (same : (t.ptable q).pgdir = (s.ptable q).pgdir)
    (untouched : ∀ p ∈ holdings s (some q), Set.EqOn t.mem s.mem (span p 4096)) :
    (∀ a, translation t.mem (s.ptable q).pgdir a = translation s.mem (s.ptable q).pgdir a) ∧
      ∀ x, Seen s q x → t.mem x = s.mem x := by
  refine ⟨spaces.translation_kept after mapped same fun p member => untouched p (walkPages_subset _ member), fun x seen => ?_⟩
  obtain ⟨frame, mine, -, -, inside⟩ := spaces.seen_frame mapped seen
  exact untouched frame mine inside

/-- What a process writes: its kernel stack, what user mode may write, and the kernel's variables. -/
theorem Spaces.work_data (spaces : Spaces s free) (mapped : (s.ptable q).pgdir ≠ 0#32) {m : Mem}
    (confined : ∀ x, m x ≠ s.mem x → x < s.kheapStart ∨ Storable s q x ∨
      (s.ptable q).kstack ≠ 0#32 ∧ x ∈ span (s.ptable q).kstack 4096) (x : Addr) (changed : m x ≠ s.mem x) :
    x < s.kheapStart ∨ ∃ p ∈ dataPages s (some q), x ∈ span p 4096 := by
  rcases confined x changed with low | ⟨a, t, walk, user, -, rfl⟩ | ⟨real, inside⟩
  · exact .inl low
  · obtain ⟨frame, member, inside⟩ := spaces.user_frame mapped walk user
    exact .inr ⟨frame, List.mem_append_right _ member, inside⟩
  · have stack : (s.ptable q).kstack ∈ stackPages s (some q) := by simp [stackPages, real]
    exact .inr ⟨_, List.mem_append_left _ stack, inside⟩

end Users

end OsDev.Kernel.Holdings
