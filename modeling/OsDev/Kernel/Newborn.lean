import OsDev.Kernel.FirstDispatch
import OsDev.Kernel.Holdings
import OsDev.Kernel.SchedulerRuns

/-! `initproc_init` with enough pages at hand: it runs through, and the process that it
makes RUNNABLE starts at address 0 of its own copy of the image. -/

namespace OsDev.Kernel.Newborn
open OsDev.Machine.Memory OsDev.Machine.Program OsDev.Machine.X86
open OsDev.Machine.LinkedChain (Chain)
open OsDev.Kernel.SpinLocks OsDev.Kernel.Mmu OsDev.Kernel.State OsDev.Kernel.StringLib OsDev.Kernel.Kalloc
  OsDev.Kernel.Paging OsDev.Kernel.PageTables OsDev.Kernel.MapPages OsDev.Kernel.AddressSpace OsDev.Kernel.Frames
  OsDev.Kernel.Proc OsDev.Kernel.Scheduler OsDev.Kernel.Holdings OsDev.Kernel.FirstDispatch
open OsDev.Kernel.SchedulerRuns (Free Locked)

/-- Where a page is taken without asking. -/
def takesPage : Creation → Bool
  | .image _ => true
  | _ => false

/-- The pieces of process creation from a point on, with a page for the image and one for its table where `inituvm`
takes them. -/
inductive Pieces (image : Image) : Nat → Creation → KernelState → KernelState → Prop where
  | last {c : Creation} {s t : KernelState} (plain : takesPage c = false) (ran : (createCode image c).run s = .ok none t) :
      Pieces image 1 c s t
  | more {n : Nat} {c next : Creation} {s u t : KernelState}
      (supplied : takesPage c = true → ∃ page more rest, Chain (read32 s.mem) s.KMEM_SENTINEL s.freelist (page :: more :: rest))
      (ran : (createCode image c).run s = .ok (some next) u) (rest : Pieces image n next u t) :
      Pieces image (n + 1) c s t

theorem Pieces.run {image : Image} {n : Nat} {c : Creation} {s t : KernelState} (pieces : Pieces image n c s t) :
    (createRun image n c).run s = .ok () t := by
  induction pieces with
  | last _ ran => rw [createRun, run_bind_ok ran, EStateM.run_pure]
  | more _ ran _ ih => rw [createRun, run_bind_ok ran, ih]

theorem Pieces.step {image : Image} {n : Nat} {c next : Creation} {s u t : KernelState} (rest : Pieces image n next u t)
    (ran : (createCode image c).run s = .ok (some next) u) (plain : takesPage c = false) : Pieces image (n + 1) c s t := by
  refine .more (fun takes => ?_) ran rest
  rw [plain] at takes
  cases takes

section Stages
variable {image : Image} {s : KernelState} {free : List Addr} {p : Slot}

theorem pieces_claim (image : Image) (idle : Free s.cpu) (found : findUnused s = some p) :
    ∃ c, Settled s.cpu c ∧
      ∀ n t, Pieces image n (.stack p) ((claimed s p).setCpu c) t → Pieces image (n + 5) .lock s t := by
  obtain ⟨c, entered, left⟩ := run_release_acquire .ptable s.cpu idle.toCalm (idle.free .ptable)
  have locked := run_onCpu_ok (s := s) entered
  have unlocked := run_onCpu_ok (s := (claimed s p).setCpu c) left
  refine ⟨settle s.cpu, idle.toQuiet.settled_settle, fun n t rest => ?_⟩
  have scanned : (createCode image .scan).run (s.setCpu c) = .ok (some (.claim p)) (s.setCpu c) := by
    have same : findUnused (s.setCpu c) = some p := found
    rw [createCode, run_bind_ok (EStateM.run_get _), same]
    rfl
  have numbered : (createCode image (.number p)).run (setSlot (s.setCpu c) p { s.ptable p with state := .initial }) =
      .ok (some (.unlock p)) ((claimed s p).setCpu c) := by
    rw [createCode, run_bind_ok (run_takePid _ _)]
    simp only [setSlot_same, setSlot_setSlot]
    rfl
  have unlocking : Pieces image (n + 1) (.unlock p) ((claimed s p).setCpu c) t := rest.step (run_bind_ok unlocked) rfl
  have numbering := unlocking.step numbered rfl
  have claiming := numbering.step (c := .claim p) (run_bind_ok (run_setState _ _ (s.setCpu c))) rfl
  exact (claiming.step scanned rfl).step (run_bind_ok locked) rfl

/-- The entry of a process whose kernel stack has been laid out. -/
def stacked (entry : Process) (kstack : Addr) : Process :=
  { entry with kstack := kstack, tf := tfOf kstack, context := contextOf kstack }

theorem pieces_stack (image : Image) (p : Slot) {k : Addr} {rest : List Addr} (idle : Free s.cpu)
    (spaces : Spaces s (k :: rest)) :
    ∃ c f, Settled s.cpu c ∧ Spaces ((setSlot s p (stacked (s.ptable p) k)).put (firstStack image s.mem k) c f) rest ∧
      Advanced (some p) s ((setSlot s p (stacked (s.ptable p) k)).put (firstStack image s.mem k) c f) ∧
      ∀ n t, Pieces image n (.directory p) ((setSlot s p (stacked (s.ptable p) k)).put (firstStack image s.mem k) c f) t →
        Pieces image (n + 2) (.stack p) s t := by
  have real : k ≠ 0#32 := (spaces.free_frame List.mem_cons_self).ne_zero (spaces.heap s.cpu idle.toQuiet).sentinel
  obtain ⟨c, -, taken, moved⟩ := run_takeKstack_cons (p := p) spaces idle.toQuiet
  have settled : Settled s.cpu c := by
    obtain ⟨m, c', f, settled, same⟩ := (SchedulerRuns.takeKstack_yields idle.toQuiet p).returned taken
    have cpu : c = c' := congrArg KernelState.cpu same
    exact cpu ▸ settled
  generalize begun : setSlot (s.put s.mem c (read32 s.mem k)) p { s.ptable p with kstack := k } = u at taken moved
  have state : (setSlot u p { u.ptable p with tf := tfOf (u.ptable p).kstack, context := contextOf (u.ptable p).kstack }).setMem
      (firstStack image u.mem (u.ptable p).kstack) =
      (setSlot s p (stacked (s.ptable p) k)).put (firstStack image s.mem k) c (read32 s.mem k) := by
    subst begun
    simp [stacked]
  have laid := run_layoutKstack image p u
  rw [state] at laid
  obtain ⟨moved', -⟩ := layoutKstack_moved (moved.spaces spaces) (by subst begun; simpa using real) laid
  refine ⟨c, read32 s.mem k, settled, moved'.spaces (moved.spaces spaces),
    (moved.advanced spaces).trans (moved'.advanced (moved.spaces spaces)) spaces, fun n t rest => ?_⟩
  have laying : (createCode image (.layout p)).run u = .ok (some (.directory p)) _ := run_bind_ok laid
  have taking : (createCode image (.stack p)).run s = .ok (some (.layout p)) u := by
    rw [createCode, run_bind_ok taken, run_ite, if_neg real]
    rfl
  exact (rest.step laying rfl).step taking rfl

theorem setupkvm_returns (heap : Heap s free) (firmware : Firmware s) (memory : 1 ≤ s.physEnd.toNat)
    (enough : (neededTables s).card + 1 ≤ free.length) : ∃ pgdir u, setupkvm.run s = .ok pgdir u ∧ pgdir ∈ free := by
  cases free with
  | nil => simp at enough
  | cons head rest =>
    obtain ⟨c, u, free', -, built, noTables, ⟨ran, -⟩ | ⟨-, rfl, n, range, missing⟩⟩ :=
      run_setupkvm heap firmware memory
    · exact ⟨head, u, ran, List.mem_cons_self⟩
    · have inside : present u.mem head ⊆ neededTables s :=
        built.inside.trans (Finset.image_subset_image Finset.subset_union_left)
      have wanted : n / 1024 ∈ neededTables s := Finset.mem_image_of_mem _ (Finset.mem_union_left _ range)
      refine (not_exhausted built.grows (neededTables s) inside wanted missing ?_).elim
      rw [noTables, List.length_nil, Nat.zero_add]
      exact Nat.le_of_succ_le_succ enough

theorem takePgdir_returns (p : Slot) (spaces : Spaces s free) (quiet : Quiet s.cpu)
    (enough : (neededTables s).card + 1 ≤ free.length) : ∃ t, (takePgdir p).run s = .ok () t := by
  have begun : Spaces { s with initproc := some p } free := spaces.congr rfl
  have heap : Heap { s with initproc := some p } free := begun.heap s.cpu quiet
  obtain ⟨pgdir, u, built, member⟩ := setupkvm_returns heap begun.firmware begun.memory enough
  have nonzero : pgdir ≠ 0#32 := (spaces.free_frame member).ne_zero (spaces.heap s.cpu quiet).sentinel
  refine ⟨setSlot u p { u.ptable p with pgdir := pgdir }, ?_⟩
  rw [takePgdir, run_bind_ok (EStateM.run_modify _ _), run_bind_ok built, run_bind_ok (run_updateSlot _ _ _), run_ite,
    if_neg nonzero, EStateM.run_pure]

/-- The kernel stack of a process is none of its other pages, and not free. -/
theorem stack_apart (spaces : Spaces s free) (real : (s.ptable p).kstack ≠ 0#32) {page : Addr}
    (member : page ∈ walkPages s.mem (s.ptable p).pgdir ∨ page ∈ framePages s.mem (s.ptable p).pgdir ∨ page ∈ free) :
    Disjoint (span page 4096) (span (s.ptable p).kstack 4096) := by
  have pages : stackPages s (some p) = [(s.ptable p).kstack] := if_neg real
  have mine : (s.ptable p).kstack ∈ holdings s (some p) := (mem_holdings _ _).mpr (.inl (by rw [pages]; exact List.mem_cons_self))
  have distinct := spaces.divided.pool (some p)
  rw [holdings, pages, List.append_assoc, List.singleton_append, List.nodup_cons] at distinct
  have ne : page ≠ (s.ptable p).kstack := by
    rintro rfl
    refine distinct.1 ?_
    rcases member with walk | frame | isFree
    · exact List.mem_append_left _ (List.mem_append_left _ walk)
    · exact List.mem_append_left _ (List.mem_append_right _ frame)
    · exact List.mem_append_right _ isFree
  have aligned : Aligned page := by
    rcases member with walk | frame | isFree
    · exact (spaces.frames (some p) page ((mem_holdings _ _).mpr (.inr (.inl walk)))).aligned
    · exact (spaces.frames (some p) page ((mem_holdings _ _).mpr (.inr (.inr frame)))).aligned
    · exact (spaces.free_frame isFree).aligned
  exact page_disjoint aligned (spaces.frames (some p) _ mine).aligned ne

/-- `initproc_init` leaves the values of `initprocFrame` in the trap frame. -/
theorem startFrame_reads (m : Mem) (tf : Addr) (field : TrapField) :
    field.read (startFrame m tf) tf = initprocFrame field := by
  have written (m : Mem) (other : TrapField) (w : Word) :
      field.read (write32 m (tf + other.offset) w) tf = if field = other then w else field.read m tf := by
    split
    next same =>
      subst same
      exact read32_write32_self _ _ _
    next ne =>
      refine read32_write32_disjoint _ _ _ _ (Set.disjoint_left.mpr fun x first second => ?_)
      have index : other.ctorIdx ≠ field.ctorIdx := fun same => ne (by cases field <;> cases other <;> first | rfl | cases same)
      have bounds : other.ctorIdx < 16 ∧ field.ctorIdx < 16 := by constructor <;> cases field <;> cases other <;> decide
      simp only [mem_span, TrapField.offset] at first second
      bv_omega
  have cleared : field.read (memset m tf 0#8 interruptStateSize) tf = 0#32 := by
    rw [memset_eq_fill _ _ _ _ (by decide)]
    refine read32_fill_zero _ _ _ _ (span_subset _ _ _ _ ?_)
    have small : field.offset.toNat + 4 ≤ 64 := by cases field <;> decide
    simp only [interruptStateSize]
    bv_omega
  unfold startFrame
  rw [written, written, written, written, written, written, cleared]
  cases field <;> rfl

/-- After `setupkvm`: a directory of free pages that shows the kernel half. -/
structure Directed (p : Slot) (s t : KernelState) (free free' : List Addr) (pgdir : Addr) : Prop where
  entry : t.ptable p = { s.ptable p with pgdir := pgdir }
  others : ∀ q, q ≠ p → t.ptable q = s.ptable q
  real : pgdir ≠ 0#32
  nextpid : t.nextpid = s.nextpid
  settled : Settled s.cpu t.cpu
  moved : Moved (some p) s t free free'
  within : Set.EqOn t.mem s.mem (outside free)
  count : free.length = free'.length + (tables t.mem pgdir).length + 1
  inside : present t.mem pgdir ⊆ (kernelPages s).image (· / 1024)
  entries : ∀ n ∈ kernelPages s, pteAt t.mem pgdir n = kernelEntry s n
  blank : ∀ n < 2 ^ 20, n ∉ kernelPages s → pteAt t.mem pgdir n = 0#32

theorem run_takePgdir (p : Slot) (idle : Free s.cpu) (spaces : Spaces s free)
    (enough : (neededTables s).card + 1 ≤ free.length) :
    ∃ pgdir t free', (takePgdir p).run s = .ok () t ∧ Directed p s t free free' pgdir := by
  obtain ⟨t, ran⟩ := takePgdir_returns p spaces idle.toQuiet enough
  obtain ⟨pgdir, u, free', fresh, real, same, moved, -⟩ := takePgdir_moved spaces idle.toQuiet ran
  have settled : Settled s.cpu t.cpu := by
    obtain ⟨_, m, c, f, -, settled, last⟩ := (SchedulerRuns.takePgdir_yields idle.toQuiet p).returned ran
    rw [last]
    exact settled
  have order := fresh.order.length_eq
  simp only [List.length_cons, List.length_append] at order
  obtain ⟨m, c, f, kept⟩ := fresh.rest
  refine ⟨pgdir, t, free', ran, ⟨by rw [same, setSlot_same], fun q other => ?_, real, by rw [same, kept]; rfl, settled, moved,
    ?_, ?_, ?_, ?_, ?_⟩⟩
  · rw [same, kept, setSlot_ptable, Function.update_of_ne other]
    rfl
  · rw [same]
    exact fresh.within
  · rw [same, setSlot_mem]
    omega
  · rw [same]
    exact fresh.inside
  · rw [same]
    exact fresh.entries
  · rw [same]
    exact fresh.blank

/-- After `inituvm`: the image in a page of its own, at address 0. -/
structure Imaged (image : Image) (p : Slot) (s t : KernelState) (q : Addr) (rest free' : List Addr) : Prop where
  same : t.ptable = s.ptable ∧ t.nextpid = s.nextpid
  settled : Settled s.cpu t.cpu
  moved : Moved (some p) s t (q :: rest) free'
  placed : Placed (s.ptable p).pgdir s t rest free' q
  first : pteAt t.mem (s.ptable p).pgdir 0 = entryFor (V2P q) (PTE_W ||| PTE_U) 0
  bytes : ∀ a : Addr, a < PGSIZE →
    t.mem (q + a) = if a < image.userInitSize then s.mem (image.userInitStart + a) else 0#8

theorem run_loadImage {q : Addr} {rest : List Addr} (idle : Free s.cpu) (spaces : Spaces s (q :: rest))
    (mapped : (s.ptable p).pgdir ≠ 0#32) (small : image.userInitSize < PGSIZE)
    (low : image.userInitStart.toNat + image.userInitSize.toNat ≤ s.kheapStart.toNat)
    (clear : pteAt s.mem (s.ptable p).pgdir 0 = 0#32) (needed : Finset Nat)
    (inside : present s.mem (s.ptable p).pgdir ⊆ needed) (wanted : 0 ∈ needed)
    (enough : needed.card ≤ (tables s.mem (s.ptable p).pgdir).length + rest.length) :
    ∃ t free', (loadImage image p).run s = .ok () t ∧ Imaged image p s t q rest free' := by
  have dir : Directory s (s.ptable p).pgdir (q :: rest) := spaces.directory (i := some p) idle.toQuiet mapped
  have owned : (s.ptable p).pgdir ∈ holdings s (some p) := walkPages_subset _ (by simp [walkPages, root, mapped])
  obtain ⟨t, -, loaded, -, first, -, bytes⟩ := run_inituvm image.userInitStart image.userInitSize dir (spaces.frames _ _ owned)
    small low clear needed inside wanted enough
  have ran : (loadImage image p).run s = .ok () t := by
    rw [loadImage, run_bind_ok (EStateM.run_get s)]
    exact loaded
  obtain ⟨free', placed, moved, -⟩ := loadImage_moved spaces idle.toQuiet mapped low clear ran
  have settled : Settled s.cpu t.cpu := by
    obtain ⟨m, c, f, same, settled⟩ :=
      (SchedulerRuns.yields_confined (MemoryFrame.confined_inituvm _ _ _) idle.toQuiet).returned loaded
    rw [same]
    exact settled
  obtain ⟨m, c, f, kept⟩ := placed.kept
  exact ⟨t, free', ran, ⟨by rw [kept]; exact ⟨rfl, rfl⟩, settled, moved, placed, first, bytes⟩⟩

/-- The address space and the trap frame of a new process. -/
structure Housed (image : Image) (p : Slot) (s t : KernelState) (free free' : List Addr) (pgdir : Addr) : Prop where
  entry : t.ptable p = { s.ptable p with pgdir := pgdir, sz := PGSIZE }
  others : ∀ q, q ≠ p → t.ptable q = s.ptable q
  real : pgdir ≠ 0#32
  nextpid : t.nextpid = s.nextpid
  settled : Settled s.cpu t.cpu
  spaces : Spaces t free'
  count : free.length ≤ free'.length + ((neededTables s).card + 2)
  advanced : Advanced (some p) s t
  below : ∀ x, x < s.kheapStart → t.mem x = s.mem x
  stack : Set.EqOn t.mem s.mem (span (s.ptable p).kstack 4096 \ span (s.ptable p).tf interruptStateSize)
  frame : ∀ field : TrapField, field.read t.mem (s.ptable p).tf = initprocFrame field
  space : Isolated s t pgdir image.userInitStart image.userInitSize

theorem outside_below {pages : List Addr} (frames : ∀ page ∈ pages, Frame s page) {x : Addr} (low : x < s.kheapStart) :
    x ∈ outside pages :=
  fun page member => InHeap.not_below (frames page member) low

/-- Writes to the kernel stack leave the address space alone. -/
theorem startFrame_pteAt (spaces : Spaces s free) (real : (s.ptable p).kstack ≠ 0#32)
    (top : (s.ptable p).tf = tfOf (s.ptable p).kstack) (mapped : (s.ptable p).pgdir ≠ 0#32) (n : Nat) (bound : n < 2 ^ 20) :
    pteAt (startFrame s.mem (s.ptable p).tf) (s.ptable p).pgdir n = pteAt s.mem (s.ptable p).pgdir n := by
  refine (spaces.walk_congr (i := some p) (fun page member x inside => ?_) mapped).2 n bound
  refine startFrame_within s.mem _ fun near => ?_
  rw [top] at near
  exact Set.disjoint_left.mp (stack_apart spaces real (.inl member)) inside (tf_subset_page _ near)

theorem neededTables_card (firmware : Firmware s) :
    (neededTables s).card = ((kernelPages s).image (· / 1024)).card + 1 := by
  have apart : 0 ∉ (kernelPages s).image (· / 1024) := by
    intro member
    obtain ⟨n, range, same⟩ := Finset.mem_image.mp member
    have := (kernelPages_high firmware range).1
    omega
  have both : neededTables s = (kernelPages s).image (· / 1024) ∪ {0} := by rw [neededTables, Finset.image_union]; rfl
  rw [both, Finset.card_union_of_disjoint (Finset.disjoint_singleton_right.mpr apart), Finset.card_singleton]

section Housing
variable {t₁ t₂ : KernelState} {free₂ rest : List Addr} {pgdir q : Addr}

/-- The three pieces of `initproc_init` that build the address space and the trap frame. -/
theorem Imaged.housed (imaged : Imaged image p t₁ t₂ q rest free₂) (directed : Directed p s t₁ free (q :: rest) pgdir)
    (spaces : Spaces s free) (real : (s.ptable p).kstack ≠ 0#32) (top : (s.ptable p).tf = tfOf (s.ptable p).kstack)
    (small : image.userInitSize < PGSIZE)
    (low : image.userInitStart.toNat + image.userInitSize.toNat ≤ s.kheapStart.toNat) :
    Housed image p s (setSlot (t₂.setMem (startFrame t₂.mem (t₂.ptable p).tf)) p { t₂.ptable p with sz := PGSIZE }) free free₂
      pgdir := by
  have spaces₁ := directed.moved.spaces spaces
  have spaces₂ := imaged.moved.spaces spaces₁
  have start₁ : t₁.kheapStart = s.kheapStart := directed.moved.bounds.1
  have entry₂ : t₂.ptable p = { s.ptable p with pgdir := pgdir } := by rw [imaged.same.1, directed.entry]
  have real₁ : (t₁.ptable p).kstack ≠ 0#32 := by rw [directed.entry]; exact real
  have real₂ : (t₂.ptable p).kstack ≠ 0#32 := by rw [entry₂]; exact real
  have top₂ : (t₂.ptable p).tf = tfOf (t₂.ptable p).kstack := by rw [entry₂]; exact top
  have mapped₂ : (t₂.ptable p).pgdir ≠ 0#32 := by rw [entry₂]; exact directed.real
  have stack₁ : (t₁.ptable p).kstack = (s.ptable p).kstack := by rw [directed.entry]
  have pages₁ : walkPages t₁.mem (t₁.ptable p).pgdir = pgdir :: tables t₁.mem pgdir := by
    rw [directed.entry, walkPages, if_neg directed.real]
  have ran₃ := run_initFrame_start p t₂
  obtain ⟨moved₃, -⟩ := initFrame_moved spaces₂ real₂ top₂ ran₃
  have spaces₃ := moved₃.spaces spaces₂
  have placed := imaged.placed
  rw [show (t₁.ptable p).pgdir = pgdir by rw [directed.entry]] at placed
  -- the pages that `inituvm` may write: those of the directory, and free ones
  have written {page : Addr} (member : page ∈ pgdir :: (tables t₁.mem pgdir ++ q :: rest)) :
      page ∈ walkPages t₁.mem (t₁.ptable p).pgdir ∨ page ∈ q :: rest := by
    rw [pages₁]
    rcases List.mem_cons.mp member with rfl | member
    · exact .inl List.mem_cons_self
    · rcases List.mem_append.mp member with isTable | isFree
      · exact .inl (List.mem_cons_of_mem _ isTable)
      · exact .inr isFree
  have stackKept : Set.EqOn t₂.mem s.mem (span (s.ptable p).kstack 4096) := by
    intro x inside
    have first : t₁.mem x = s.mem x := directed.within fun page isFree near =>
      Set.disjoint_left.mp (stack_apart spaces real (.inr (.inr isFree))) near inside
    refine Eq.trans (placed.within fun page member near => ?_) first
    rw [← stack₁] at inside
    rcases written member with walk | isFree
    · exact Set.disjoint_left.mp (stack_apart spaces₁ real₁ (.inl walk)) near inside
    · exact Set.disjoint_left.mp (stack_apart spaces₁ real₁ (.inr (.inr isFree))) near inside
  have lowKept₁ (x : Addr) (below : x < s.kheapStart) : t₁.mem x = s.mem x :=
    directed.within (outside_below (fun page => spaces.free_frame) below)
  have lowKept (x : Addr) (below : x < s.kheapStart) : t₂.mem x = s.mem x := by
    refine Eq.trans (placed.within (outside_below (s := t₁) (fun page member => ?_) (by rw [start₁]; exact below)))
      (lowKept₁ x below)
    rcases written member with walk | isFree
    · exact spaces₁.frames (some p) page (walkPages_subset (some p) walk)
    · exact spaces₁.free_frame isFree
  have frameKept : Set.EqOn (startFrame t₂.mem (t₂.ptable p).tf) t₂.mem (span (s.ptable p).kstack 4096)ᶜ := by
    rw [entry₂, top]
    exact (startFrame_within t₂.mem _).mono (Set.compl_subset_compl.mpr (tf_subset_page _))
  have stackFrame : Frame s (s.ptable p).kstack :=
    spaces.frames (some p) _ ((mem_holdings _ _).mpr (.inl (by simp [stackPages, real])))
  have ptes (n : Nat) (bound : n < 2 ^ 20) :
      pteAt (startFrame t₂.mem (t₂.ptable p).tf) pgdir n = pteAt t₂.mem pgdir n := by
    have same := startFrame_pteAt spaces₂ real₂ top₂ mapped₂ n bound
    rwa [show (t₂.ptable p).pgdir = pgdir by rw [entry₂]] at same
  constructor
  case entry => rw [setSlot_same, entry₂]
  case others =>
    intro r other
    rw [setSlot_ptable, Function.update_of_ne other, KernelState.put_ptable, imaged.same.1, directed.others r other]
  case real => exact directed.real
  case nextpid => exact imaged.same.2.trans directed.nextpid
  case settled => exact directed.settled.trans imaged.settled
  case spaces => exact spaces₃
  case count =>
    have tabs := Finset.card_le_card directed.inside
    have total := directed.count
    have order := placed.order.length_eq
    have few := placed.few
    rw [card_present] at tabs
    simp only [List.length_append, List.length_cons] at order total
    have needed := neededTables_card spaces.firmware
    omega
  case advanced =>
    have before := (directed.moved.advanced spaces).trans (imaged.moved.advanced spaces₁) spaces
    exact before.trans (moved₃.advanced spaces₂) spaces
  case below =>
    intro x below
    exact (frameKept fun near => InHeap.not_below stackFrame below near).trans (lowKept x below)
  case stack =>
    intro x page
    have same : (t₂.ptable p).tf = (s.ptable p).tf := by rw [entry₂]
    refine Eq.trans (startFrame_within t₂.mem _ ?_) (stackKept page.1)
    rw [same]
    exact page.2
  case frame =>
    intro field
    have same : (t₂.ptable p).tf = (s.ptable p).tf := by rw [entry₂]
    rw [← same]
    exact startFrame_reads t₂.mem _ field
  case space =>
    have root₃ : root (setSlot (t₂.setMem (startFrame t₂.mem (t₂.ptable p).tf)) p { t₂.ptable p with sz := PGSIZE }) (some p) =
        pgdir := by
      rw [root, setSlot_same, entry₂]
    have dir := spaces₃.directory imaged.settled.quiet (by rw [root₃]; exact directed.real)
    rw [root₃] at dir
    have frameQ : Frame t₁ q := spaces₁.free_frame List.mem_cons_self
    refine isolated (s := s) dir spaces.firmware spaces.acpi (fun n member => ?_) frameQ.aligned ?_ (fun n bound away nonzero => ?_)
      small (fun a inPage => ?_)
    · have high := kernelPages_high spaces.firmware member
      exact (ptes n high.2).trans ((placed.others n high.2 (by omega)).trans (directed.entries n member))
    · refine (ptes 0 (by decide)).trans ?_
      have first := imaged.first
      rwa [show (t₁.ptable p).pgdir = pgdir by rw [directed.entry]] at first
    · exact (ptes n bound).trans ((placed.others n bound nonzero).trans (directed.blank n bound away))
    · have inside : q + a ∈ span q 4096 := by
        have offset : q + a - q = a := by bv_omega
        rw [mem_span, offset]
        exact inPage
      have off : q + a ∉ span (s.ptable p).kstack 4096 := by
        rw [← stack₁]
        exact Set.disjoint_left.mp (stack_apart spaces₁ real₁ (.inr (.inr List.mem_cons_self))) inside
      refine (frameKept off).trans ((imaged.bytes a inPage).trans ?_)
      split
      case isTrue copied => exact lowKept₁ _ (by bv_omega)
      case isFalse => rfl

end Housing

theorem pieces_space (image : Image) (p : Slot) (idle : Free s.cpu) (spaces : Spaces s free)
    (real : (s.ptable p).kstack ≠ 0#32) (top : (s.ptable p).tf = tfOf (s.ptable p).kstack)
    (enough : (neededTables s).card + 2 ≤ free.length) (small : image.userInitSize < PGSIZE)
    (low : image.userInitStart.toNat + image.userInitSize.toNat ≤ s.kheapStart.toNat) :
    ∃ pgdir t free', Housed image p s t free free' pgdir ∧
      ∀ n u, Pieces image n (.publish p) t u → Pieces image (n + 3) (.directory p) s u := by
  obtain ⟨d, t₁, free₁, ran₁, directed⟩ := run_takePgdir p idle spaces (by omega)
  have spaces₁ := directed.moved.spaces spaces
  have inside : present t₁.mem d ⊆ neededTables s :=
    directed.inside.trans (Finset.image_subset_image Finset.subset_union_left)
  have wanted : 0 ∈ neededTables s := Finset.mem_image.mpr ⟨0, by simp, rfl⟩
  have missing : 0 ∉ present t₁.mem d := by
    intro member
    obtain ⟨n, kernel, zero⟩ := Finset.mem_image.mp (directed.inside member)
    have := kernelPages_high spaces.firmware kernel
    omega
  have used := Finset.card_lt_card (Finset.ssubset_iff_subset_ne.mpr ⟨inside, fun same => missing (same ▸ wanted)⟩)
  rw [card_present] at used
  have count := directed.count
  have start₁ : t₁.kheapStart = s.kheapStart := directed.moved.bounds.1
  have userPage : 0 ∉ kernelPages s := fun member => by have := kernelPages_high spaces.firmware member; omega
  have pgdir₁ : (t₁.ptable p).pgdir = d := by rw [directed.entry]
  have kstack₁ : (t₁.ptable p).kstack = (s.ptable p).kstack := by rw [directed.entry]
  have tf₁ : (t₁.ptable p).tf = (s.ptable p).tf := by rw [directed.entry]
  cases free₁ with
  | nil =>
    rw [List.length_nil] at count
    omega
  | cons q rest =>
    rw [List.length_cons] at count
    obtain ⟨t₂, free₂, ran₂, imaged⟩ := run_loadImage (p := p) (idle.settled directed.settled) spaces₁
      (by rw [pgdir₁]; exact directed.real) small (by rw [start₁]; exact low)
      (by rw [pgdir₁]; exact directed.blank 0 (by decide) userPage) (neededTables s) (by rw [pgdir₁]; exact inside)
      wanted (by rw [pgdir₁]; omega)
    refine ⟨d, _, free₂, imaged.housed directed spaces real top small low, fun n u after => ?_⟩
    have supplied : ∃ page more others, Chain (read32 t₁.mem) t₁.KMEM_SENTINEL t₁.freelist (page :: more :: others) := by
      cases rest with
      | nil =>
        rw [List.length_nil] at count
        omega
      | cons more others => exact ⟨q, more, others, (spaces₁.heap t₁.cpu directed.settled.quiet).chain⟩
    have framing := after.step (c := .frame p) (run_bind_ok (run_initFrame_start p t₂)) rfl
    have imaging : Pieces image (n + 2) (.image p) t₁ u := .more (fun _ => supplied) (run_bind_ok ran₂) framing
    exact imaging.step (run_bind_ok ran₁) rfl

theorem pieces_publish (image : Image) (p : Slot) (idle : Free s.cpu) :
    ∃ c, Settled s.cpu c ∧ Pieces image 3 (.publish p) s ((setSlot s p { s.ptable p with state := .runnable }).setCpu c) := by
  obtain ⟨c, entered, left⟩ := run_release_acquire .ptable s.cpu idle.toCalm (idle.free .ptable)
  have locked := run_onCpu_ok (s := s) entered
  have unlocked := run_onCpu_ok (s := setSlot (s.setCpu c) p { s.ptable p with state := .runnable }) left
  refine ⟨settle s.cpu, idle.toQuiet.settled_settle, ?_⟩
  have finishing : Pieces image 1 .finish (setSlot (s.setCpu c) p { s.ptable p with state := .runnable }) _ :=
    .last rfl (run_bind_ok unlocked)
  exact (finishing.step (run_bind_ok (run_setState _ _ (s.setCpu c))) rfl).step (run_bind_ok locked) rfl

/-- The process that `initproc_init` has made, and what else has changed. -/
structure Born (image : Image) (p : Slot) (s t : KernelState) (free free' : List Addr) (kstack pgdir : Addr) : Prop where
  head : free.head? = some kstack
  entry : t.ptable p = ⟨s.nextpid, contextOf kstack, .runnable, (s.ptable p).xstate, pgdir, kstack, PGSIZE, tfOf kstack⟩
  others : ∀ q, q ≠ p → t.ptable q = s.ptable q
  nextpid : t.nextpid = s.nextpid + 1#16
  mapped : pgdir ≠ 0#32
  settled : Settled s.cpu t.cpu
  spaces : Spaces t free'
  count : free.length ≤ free'.length + ((neededTables s).card + 3)
  advanced : Advanced (some p) s t
  below : ∀ x, x < s.kheapStart → t.mem x = s.mem x
  stack : Set.EqOn t.mem (firstStack image s.mem kstack) (span kstack 4096 \ span (tfOf kstack) interruptStateSize)
  frame : ∀ field : TrapField, field.read t.mem (tfOf kstack) = initprocFrame field
  space : Isolated s t pgdir image.userInitStart image.userInitSize

theorem born (image : Image) (idle : Free s.cpu) (spaces : Spaces s free) (found : findUnused s = some p)
    (enough : (neededTables s).card + 3 ≤ free.length) (small : image.userInitSize < PGSIZE)
    (low : image.userInitStart.toNat + image.userInitSize.toNat ≤ s.kheapStart.toNat) :
    ∃ kstack pgdir t free', Pieces image 13 .lock s t ∧ Born image p s t free free' kstack pgdir := by
  cases free with
  | nil => simp at enough
  | cons k rest =>
    obtain ⟨c, settled₁, claiming⟩ := pieces_claim image idle found
    have same₁ : view ((claimed s p).setCpu c) = view s := by
      exact @view_setSlot s p { s.ptable p with state := .initial, pid := s.nextpid } rfl rfl
    have spaces₁ : Spaces ((claimed s p).setCpu c) (k :: rest) := spaces.congr same₁
    obtain ⟨c', f, settled₂, spaces₂, advanced₂, stacking⟩ := pieces_stack image p (s := (claimed s p).setCpu c)
      (idle.settled settled₁) spaces₁
    have frame : Frame s k := spaces.free_frame List.mem_cons_self
    have real : k ≠ 0#32 := frame.ne_zero (spaces.heap s.cpu idle.toQuiet).sentinel
    generalize laid : (setSlot ((claimed s p).setCpu c) p (stacked (((claimed s p).setCpu c).ptable p) k)).put
      (firstStack image ((claimed s p).setCpu c).mem k) c' f = u at spaces₂ advanced₂ stacking
    have entry₂ : u.ptable p = ⟨s.nextpid, contextOf k, .initial, (s.ptable p).xstate, (s.ptable p).pgdir, k, (s.ptable p).sz,
        tfOf k⟩ := by
      rw [← laid, KernelState.put_ptable, setSlot_same]
      simp [stacked, claimed]
    have mem₂ : u.mem = firstStack image s.mem k := by rw [← laid]; rfl
    have tables₂ : neededTables u = neededTables s := by rw [← laid]; rfl
    have start₂ : u.kheapStart = s.kheapStart := by rw [← laid]; rfl
    have cpu₂ : Settled s.cpu u.cpu := by rw [← laid]; exact settled₁.trans settled₂
    have below₂ (x : Addr) (low : x < s.kheapStart) : u.mem x = s.mem x := by
      rw [mem₂]
      exact firstStack_within image s.mem k (InHeap.not_below frame low)
    obtain ⟨pgdir, t, free', housed, spacing⟩ := pieces_space image p (idle.settled cpu₂) spaces₂
      (by rw [entry₂]; exact real) (by rw [entry₂])
      (by rw [tables₂]; simpa using enough) small (by rw [start₂]; exact low)
    have cpu₃ := cpu₂.trans housed.settled
    obtain ⟨c'', settled₄, publishing⟩ := pieces_publish image p (idle.settled cpu₃)
    have same₃ : view ((setSlot t p { t.ptable p with state := .runnable }).setCpu c'') = view t :=
      @view_setSlot t p { t.ptable p with state := .runnable } rfl rfl
    refine ⟨k, pgdir, _, free', claiming _ _ (stacking _ _ (spacing _ _ publishing)), ?_⟩
    constructor
    case head => rfl
    case entry => rw [KernelState.put_ptable, setSlot_same, housed.entry, entry₂]
    case others =>
      intro q other
      rw [KernelState.put_ptable, setSlot_ptable, Function.update_of_ne other, housed.others q other, ← laid]
      simp [claimed, other]
    case nextpid =>
      refine housed.nextpid.trans ?_
      rw [← laid]
      rfl
    case mapped => exact housed.real
    case settled => exact cpu₃.trans settled₄
    case spaces => exact housed.spaces.congr same₃
    case count =>
      have count := housed.count
      rw [tables₂] at count
      rw [List.length_cons]
      omega
    case advanced =>
      have first := spaces.advanced same₁ (some p)
      exact (first.trans (advanced₂.trans (housed.advanced.congr same₃) spaces₁) spaces)
    case below =>
      intro x low
      exact (housed.below x (by rw [start₂]; exact low)).trans (below₂ x low)
    case stack =>
      have kept := housed.stack
      rw [entry₂, mem₂] at kept
      exact kept
    case frame =>
      have fields := housed.frame
      rw [entry₂] at fields
      exact fields
    case space =>
      have space := housed.space
      have image (a : Addr) (copied : a < image.userInitSize) : u.mem (image.userInitStart + a) = s.mem (image.userInitStart + a) :=
        below₂ _ (by bv_omega)
      subst laid
      exact ⟨space.user, fun a copied => (space.image a copied).trans (congrArg some (image a copied)), space.zero, space.memory,
        space.acpi, space.devices, space.absent⟩

end Stages

end OsDev.Kernel.Newborn
