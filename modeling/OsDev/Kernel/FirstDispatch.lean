import OsDev.Kernel.Isr
import OsDev.Kernel.Proc
import OsDev.Kernel.Swtch

/-! The first time the scheduler switches to a new process: `swtch` pops the
context that `process_alloc` laid out, `enter_process` returns into `trapret`, and
`trapret` pops the trap frame. -/

namespace OsDev.Kernel.FirstDispatch
open OsDev.Machine.Memory OsDev.Machine.Program OsDev.Machine.X86
open OsDev.Kernel.SpinLocks OsDev.Kernel.Mmu OsDev.Kernel.State OsDev.Kernel.StringLib OsDev.Kernel.Kalloc
  OsDev.Kernel.Frames OsDev.Kernel.Proc OsDev.Kernel.Swtch OsDev.Kernel.Isr
open OsDev.Kernel.Gdt (accessTable switchuvmEntry gdtInit KernelTable kernelTable_switchuvm)

/-- A C function from its entry to its return. It uses at most `depth` bytes of the
stack below its return address, and leaves the `frame` bytes above it alone. -/
structure Cdecl (depth frame : Nat) (entry exit : Core) : Prop where
  eip : exit.eip = entry.top
  esp : exit.reg .esp = entry.reg .esp + 4#32
  seg : exit.seg = entry.seg
  gdt : exit.gdt = entry.gdt
  nested : exit.eflags.getLsbD flagNt = entry.eflags.getLsbD flagNt
  caller : Set.EqOn exit.mem entry.mem (span (entry.reg .esp + 4#32) frame)
  reads : ∃ own, exit.reads = own ++ entry.reads ∧
    ∀ a ∈ own, span a 4 ⊆ span (entry.reg .esp - BitVec.ofNat 32 depth) (depth + 4)

/-- A function that only returns. -/
theorem cdecl_popEip (frame : Nat) (m : Core) : Cdecl 0 frame m m.popEip where
  eip := rfl
  esp := by simp [Core.popEip]
  seg := rfl
  gdt := rfl
  nested := rfl
  caller := fun _ _ => rfl
  reads := by
    refine ⟨[m.reg .esp], rfl, ?_⟩
    intro a member
    obtain rfl := List.mem_singleton.mp member
    exact span_subset _ _ _ _ (by simp)

/-- The scheduler at level 0, in no nested task, on entry to `swtch(&c->scheduler, p->context)`.
Its stack and `cpus` lie in the kernel image, below the pages of the allocator. -/
structure SwtchCall (heapStart : Addr) (m : Core) (old new : Addr) : Prop where
  kernel : rpl (m.seg .cs) = 0#2
  single : m.eflags.getLsbD flagNt = false
  arguments : Holds m.mem (m.reg .esp) [m.top, old, new]
  stackBelow : ∀ x ∈ span (m.reg .esp - 16#32) 28, x < heapStart
  slotBelow : ∀ x ∈ span old 4, x < heapStart
  apart : Disjoint (span (m.reg .esp - 16#32) 20) (span old 4)

/-- What `swtch` finds on the stack of a new process. -/
def firstContext (image : Image) : Context
  | .eip => image.enterProcess
  | _ => 0#32

theorem firstStack_context (image : Image) (m : Mem) (kstack : Addr) :
    Holds (firstStack image m kstack) (contextOf kstack) (ContextField.all.map (firstContext image)) := by
  rw [holds_context]
  have cleared (field : ContextField) (other : field ≠ .eip) :
      field.read (firstStack image m kstack) (contextOf kstack) = 0#32 := by
    have small : field.offset.toNat + 4 ≤ 16 := by cases field <;> first | decide | exact absurd rfl other
    have eip : ContextField.eip.offset = 16#32 := rfl
    unfold ContextField.read firstStack
    rw [read32_write32_disjoint, memset_eq_fill _ _ _ _ (by decide)]
    · apply read32_fill_zero
      apply span_subset
      simp only [contextSize]
      bv_omega
    · rw [Set.disjoint_left]
      intro x first second
      simp only [mem_span, eip] at first second
      bv_omega
  intro field
  cases field with
  | eip => exact read32_write32_self _ _ _
  | _ => exact cleared _ (by decide)

theorem firstStack_trapret (image : Image) (m : Mem) (kstack : Addr) :
    read32 (firstStack image m kstack) (tfOf kstack - 4#32) = image.trapret := by
  have eip : ContextField.eip.offset = 16#32 := rfl
  calc read32 (firstStack image m kstack) (tfOf kstack - 4#32)
      = read32 (write32 m (tfOf kstack - 4#32) image.trapret) (tfOf kstack - 4#32) := by
        apply read32_congr
        intro x inside
        unfold firstStack
        rw [memset_eq_fill _ _ _ _ (by decide)]
        simp only [mem_span] at inside
        have below : x ∉ span (contextOf kstack + ContextField.eip.offset) 4 := by
          simp only [mem_span, eip, contextOf, contextSize]
          bv_omega
        have apart : x ∉ span (contextOf kstack) contextSize := by
          simp only [mem_span, contextOf, contextSize]
          bv_omega
        exact (write32_outside _ _ _ below).trans (fill_outside _ _ _ _ apart)
    _ = image.trapret := read32_write32_self _ _ _

/-- From `process_alloc` to the return of `enter_process`. In between, the kernel
may write what it likes into the trap frame. -/
structure FirstRun (image : Image) (free : List Addr) (s s' : KernelState) (p : Slot) (m : Core) (old : Addr)
    (returned : Core) : Prop where
  heap : Heap s free
  created : (processAlloc image).run s = .ok (some p) s'
  content : Set.EqOn m.mem s'.mem (span (s'.ptable p).kstack 4096 \ span (s'.ptable p).tf interruptStateSize)
  call : SwtchCall s.kheapStart m old (s'.ptable p).context
  body : ∃ depth ≤ 4028, Cdecl depth interruptStateSize (swtch m) returned

/-- The processor is in the state a trap frame describes. -/
structure Enters (frame : TrapFrame) (m : Core) : Prop where
  eip : m.eip = frame .eip
  cs : m.seg .cs = (frame .cs).setWidth 16
  eflags : m.eflags = legalFlags (frame .eflags)
  esp : m.reg .esp = frame .esp
  ss : m.seg .ss = (frame .ss).setWidth 16
  general : m.reg .eax = frame .eax ∧ m.reg .ebx = frame .ebx ∧ m.reg .ecx = frame .ecx ∧ m.reg .edx = frame .edx ∧
    m.reg .esi = frame .esi ∧ m.reg .edi = frame .edi ∧ m.reg .ebp = frame .ebp
  data : ∀ s ∈ [Seg.ds, .es, .fs, .gs], m.seg s = (frame .ds).setWidth 16

/-- The trap frame at the time of the switch. -/
def frameOf (m : Core) (tf : Addr) : TrapFrame := fun field => field.read m.mem tf

section FirstRun
variable {image : Image} {free : List Addr} {s s' : KernelState} {p : Slot} {m returned : Core} {old : Addr}

/-- The scheduler saves its registers away from the pages of the allocator. -/
theorem saved_page {heapStart new kstack : Addr} (call : SwtchCall heapStart m old new) (aligned : Aligned kstack)
    (above : heapStart ≤ kstack) : Set.EqOn (saved m old) m.mem (span kstack 4096) := by
  intro x inside
  have high : kstack ≤ x := by
    simp only [mem_span] at inside
    have whole : kstack.toNat % 4096 = 0 := aligned
    bv_omega
  apply saved_outside
  simp only [Set.compl_union, Set.mem_inter_iff, Set.mem_compl_iff]
  constructor
  · intro pushed
    have low := call.stackBelow x (span_mono _ 16 28 (by decide) pushed)
    bv_omega
  · intro stored
    have low := call.slotBelow x stored
    bv_omega

/-- What the first switch leaves, in terms of the page of the new process. -/
structure Switched (image : Image) (m : Core) (old kstack : Addr) : Prop where
  eip : (swtch m).eip = image.enterProcess
  esp : (swtch m).reg .esp = tfOf kstack - 4#32
  top : (swtch m).top = image.trapret
  seg : (swtch m).seg = m.seg
  gdt : (swtch m).gdt = m.gdt
  eflags : (swtch m).eflags = m.eflags
  mem : (swtch m).mem = saved m old
  page : Set.EqOn (saved m old) m.mem (span kstack 4096)
  reads : ∃ own, (swtch m).reads = own ++ ([m.reg .esp + 8#32, m.reg .esp + 4#32] ++ m.reads) ∧
    ∀ a ∈ own, span a 4 ⊆ span kstack 4096

theorem FirstRun.switched (setup : FirstRun image free s s' p m old returned) :
    (s'.ptable p).tf = tfOf (s'.ptable p).kstack ∧ Switched image m old (s'.ptable p).kstack := by
  obtain ⟨kstack, member, isKstack, isTf, isContext, isMem⟩ := processAlloc_some setup.heap setup.created
  have frame := setup.heap.frames kstack member
  have content := setup.content
  have call := setup.call
  rw [isContext] at call
  rw [isKstack, isTf, isMem] at content
  have page := saved_page call frame.aligned frame.above
  have laid : Set.EqOn (saved m old) (firstStack image s.mem kstack) (span (contextOf kstack) 24) := by
    have inside : span (contextOf kstack) 24 ⊆ span kstack 4096 \ span (tfOf kstack) interruptStateSize := by
      intro x member
      simp only [mem_span, contextOf, tfOf, contextSize, interruptStateSize, KSTACKSIZE, PGSIZE, Set.mem_sdiff] at member ⊢
      constructor <;> bv_omega
    intro x member
    exact (page (inside member).1).trans (content (inside member))
  have context : Holds (saved m old) (contextOf kstack) (ContextField.all.map (firstContext image)) := by
    apply holds_congr _ (by simp [ContextField.all]) (firstStack_context image s.mem kstack)
    exact laid.mono (span_mono _ 20 24 (by decide))
  have ran := run_swtch m call.arguments context
  have place : contextOf kstack + 20#32 = tfOf kstack - 4#32 := by
    simp only [contextOf, contextSize]
    bv_omega
  have trapret : read32 (saved m old) (tfOf kstack - 4#32) = image.trapret := by
    rw [← firstStack_trapret image s.mem kstack]
    apply read32_congr
    apply laid.mono
    apply span_subset
    simp only [contextOf, contextSize]
    bv_omega
  rw [isKstack]
  refine ⟨isTf, ⟨by rw [ran]; rfl, ?_, ?_, by rw [ran], by rw [ran], by rw [ran], by rw [ran], page, ?_⟩⟩
  · rw [ran]
    simpa [loaded] using place
  · rw [ran]
    simp only [Core.top, loaded, Function.update_self, place, trapret]
  · refine ⟨_, congrArg Core.reads ran, ?_⟩
    intro a member
    apply span_subset
    simp only [List.mem_cons, List.not_mem_nil, or_false] at member
    simp only [contextOf, tfOf, contextSize, interruptStateSize, KSTACKSIZE, PGSIZE] at member
    rcases member with rfl | rfl | rfl | rfl | rfl <;> bv_omega

/-- `trapret` starts on the trap frame, which nobody has touched since the switch. -/
structure AtTrapret (image : Image) (m returned : Core) (kstack : Addr) : Prop where
  eip : returned.eip = image.trapret
  esp : returned.reg .esp = tfOf kstack
  kernel : rpl (returned.seg .cs) = 0#2
  single : returned.eflags.getLsbD flagNt = false
  gdt : returned.gdt = m.gdt
  frame : ∀ field, field.read returned.mem (tfOf kstack) = frameOf m (tfOf kstack) field
  reads : ∃ own, returned.reads = own ++ ([m.reg .esp + 8#32, m.reg .esp + 4#32] ++ m.reads) ∧
    ∀ a ∈ own, span a 4 ⊆ span kstack 4096

theorem field_subset_frame (field : TrapField) (kstack : Addr) :
    span (tfOf kstack + field.offset) 4 ⊆ span (tfOf kstack) interruptStateSize := by
  have small : field.offset.toNat + 4 ≤ 64 := by cases field <;> decide
  apply span_subset
  simp only [interruptStateSize]
  bv_omega

theorem tf_subset_page (kstack : Addr) : span (tfOf kstack) interruptStateSize ⊆ span kstack 4096 := by
  apply span_subset
  simp only [tfOf, interruptStateSize, KSTACKSIZE, PGSIZE]
  bv_omega

theorem FirstRun.atTrapret (setup : FirstRun image free s s' p m old returned) :
    AtTrapret image m returned (s'.ptable p).kstack := by
  obtain ⟨-, switched⟩ := setup.switched
  obtain ⟨depth, room, body⟩ := setup.body
  generalize (s'.ptable p).kstack = kstack at switched
  have place : (swtch m).reg .esp + 4#32 = tfOf kstack := by
    rw [switched.esp]
    bv_omega
  have caller := body.caller
  rw [place, switched.mem] at caller
  refine ⟨body.eip.trans switched.top, body.esp.trans place, ?_, ?_, body.gdt.trans switched.gdt, ?_, ?_⟩
  · rw [body.seg, switched.seg]
    exact setup.call.kernel
  · rw [body.nested, switched.eflags]
    exact setup.call.single
  · intro field
    apply read32_congr
    intro x inside
    have here := field_subset_frame field kstack inside
    exact (caller here).trans (switched.page (tf_subset_page kstack here))
  · obtain ⟨first, before, firstInside⟩ := switched.reads
    obtain ⟨second, after, secondInside⟩ := body.reads
    refine ⟨second ++ first, by rw [after, before, List.append_assoc], ?_⟩
    intro a member
    rcases List.mem_append.mp member with member | member
    · apply (secondInside a member).trans
      apply span_subset
      rw [switched.esp]
      simp only [tfOf, interruptStateSize, KSTACKSIZE, PGSIZE]
      bv_omega
    · exact firstInside a member

/-- `trapret` goes through with a frame that the descriptor table allows. -/
theorem AtTrapret.leaves {kstack : Addr} (ready : AtTrapret image m returned kstack)
    (outer : OuterFrame m (frameOf m (tfOf kstack))) : attempt trapretCode returned = some { returned with
      reg := restoredReg (frameOf m (tfOf kstack)) (frameOf m (tfOf kstack) .esp)
      seg := restoredSeg (frameOf m (tfOf kstack)) ((frameOf m (tfOf kstack) .ss).setWidth 16)
      eip := frameOf m (tfOf kstack) .eip
      eflags := legalFlags (frameOf m (tfOf kstack) .eflags)
      reads := frameReads outerLevelFields (returned.reg .esp) ++ returned.reads } := by
  refine attempt_trapret_outer returned (fun field _ => ?_) ready.kernel ready.single (outer.congr ready.gdt)
  rw [ready.esp]
  exact ready.frame field

end FirstRun

/-- What `trapret` leaves is what the frame describes. -/
theorem enters_restored (m : Core) (frame : TrapFrame) (reads : List Addr) : Enters frame { m with
    reg := restoredReg frame (frame .esp)
    seg := restoredSeg frame ((frame .ss).setWidth 16)
    eip := frame .eip
    eflags := legalFlags (frame .eflags)
    reads := reads } :=
  ⟨rfl, rfl, rfl, rfl, rfl, ⟨rfl, rfl, rfl, rfl, rfl, rfl, rfl⟩, by simp [restoredSeg]⟩

/-! A kernel with one free page, and the scheduler about to switch to the process created on it. -/

def smallImage : Image := ⟨0x80100100#32, 0x80100200#32, 0#32, 0#32⟩

def smallKstack : Addr := 0x80400000#32
def smallTf : Addr := 0x80400fc0#32

def smallKernel : KernelState :=
  { boot (write32 (fun _ => 0#8) smallKstack 0x80200000#32) 0x80200000#32 with
    kheapStart := 0x80300000#32
    freelist := smallKstack }

def smallCreated : KernelState :=
  match (processAlloc smallImage).run smallKernel with
  | .ok _ t => t
  | .error _ t => t

def smallCall (frame : TrapFrame) : Core where
  reg := fun
    | .esp => 0x80110000#32
    | _ => 0#32
  seg := fun
    | .cs => 0x8#16
    | _ => 0x10#16
  eip := 0#32
  eflags := 2#32
  gdt := accessTable (switchuvmEntry (gdtInit (fun _ => 0#8) 0x80121000#32) 0x80121000#32 0x80122000#32) 0x80121000#32
  mem := writeWords (writeWords smallCreated.mem smallTf (TrapField.all.map frame)) 0x80110000#32
    [0x80100300#32, 0x80120000#32, (smallCreated.ptable firstSlot).context]
  reads := []

def smallReturned (frame : TrapFrame) : Core := (swtch (smallCall frame)).popEip

theorem smallCreated_run : (processAlloc smallImage).run smallKernel = .ok (some firstSlot) smallCreated := rfl

theorem smallCreated_slot : (smallCreated.ptable firstSlot).kstack = smallKstack ∧
    (smallCreated.ptable firstSlot).tf = smallTf ∧ (smallCreated.ptable firstSlot).context = 0x80400fa8#32 := by
  decide +kernel

theorem smallKernel_heap : Heap smallKernel [smallKstack] where
  quiet := boot_quiet (write32 (fun _ => 0#8) smallKstack 0x80200000#32) 0x80200000#32
  sentinel := by decide
  chain := ⟨rfl, by decide, read32_write32_self _ _ _⟩
  distinct := List.nodup_singleton _
  frames := by
    intro p member
    obtain rfl := List.mem_singleton.mp member
    exact ⟨by decide, by decide, by decide⟩

theorem smallCall_frame (frame : TrapFrame) (field : TrapField) :
    frameOf (smallCall frame) (smallCreated.ptable firstSlot).tf field = frame field := by
  rw [smallCreated_slot.2.1]
  revert field
  apply (holds_trapFrame _ _ frame).mp
  have words := holds_writeWords smallCreated.mem smallTf (TrapField.all.map frame) (by simp [TrapField.all])
  apply holds_congr _ (by simp [TrapField.all]) words
  apply (writeWords_outside _ _ _ (by simp)).mono
  intro x inside
  simp only [smallTf, Set.mem_compl_iff, mem_span, TrapField.all, List.length_map, List.length_cons, List.length_nil] at inside ⊢
  bv_omega

abbrev SmallRun (frame : TrapFrame) : Prop :=
  FirstRun smallImage [smallKstack] smallKernel smallCreated firstSlot (smallCall frame) 0x80120000#32 (smallReturned frame)

theorem smallRun (frame : TrapFrame) : SmallRun frame where
  heap := smallKernel_heap
  created := smallCreated_run
  content := by
    obtain ⟨isKstack, isTf, -⟩ := smallCreated_slot
    rw [isKstack, isTf]
    intro x inside
    simp only [Set.mem_sdiff, mem_span, interruptStateSize] at inside
    have stack : x ∉ span 0x80110000#32 12 := by
      simp only [smallKstack, mem_span] at inside ⊢
      bv_omega
    exact (writeWords_outside _ _ _ (by simp) stack).trans (writeWords_outside _ _ _ (by simp [TrapField.all]) inside.2)
  call := by
    have words := holds_writeWords (writeWords smallCreated.mem smallTf (TrapField.all.map frame)) 0x80110000#32
      [0x80100300#32, 0x80120000#32, (smallCreated.ptable firstSlot).context] (by simp)
    refine ⟨by change rpl 0x8#16 = 0#2; decide, by change (2#32).getLsbD flagNt = false; decide, ⟨rfl, words.2⟩, ?_, ?_, ?_⟩
    · intro x inside
      simp only [mem_span, smallCall] at inside
      simp only [smallKernel]
      bv_omega
    · intro x inside
      simp only [mem_span] at inside
      simp only [smallKernel]
      bv_omega
    · rw [Set.disjoint_left]
      intro x first second
      simp only [mem_span, smallCall] at first second
      bv_omega
  body := ⟨0, by decide, cdecl_popEip _ _⟩

/-- The values `initproc_init` writes. -/
def initprocFrame : TrapFrame
  | .cs => 0x1b#32
  | .ds => 0x23#32
  | .ss => 0x23#32
  | .eflags => FL_IF
  | .esp => PGSIZE
  | _ => 0#32

/-- The kernel's table has the segments for it. -/
theorem initproc_outer {m : Core} (table : KernelTable m.gdt) : OuterFrame m initprocFrame := by
  obtain ⟨code, stack, data⟩ := user_segments table
  exact ⟨by decide, by decide, code, stack, data⟩

def kernelFrame : TrapFrame
  | .cs => 0x8#32
  | .esp => PGSIZE
  | _ => 0#32

def virtualFrame : TrapFrame
  | .cs => 0x1b#32
  | .eflags => 0x20000#32
  | _ => 0#32

def paddedFrame : TrapFrame
  | .cs => 0xffff001b#32
  | .ss => 0x23#32
  | _ => 0#32

/-- A program of level 3 with the kernel's data segment. -/
def dataFrame : TrapFrame
  | .cs => 0x1b#32
  | .ds => 0x10#32
  | .ss => 0x23#32
  | _ => 0#32

/-- The same with the kernel's stack segment. -/
def stackFrame : TrapFrame
  | .cs => 0x1b#32
  | .ss => 0x10#32
  | _ => 0#32

theorem first_dispatch {image : Image} {free : List Addr} {s s' : KernelState} {p : Slot} {m returned : Core} {old : Addr}
    (setup : FirstRun image free s s' p m old returned) (outer : OuterFrame m (frameOf m (s'.ptable p).tf)) :
    (swtch m).eip = image.enterProcess ∧ returned.eip = image.trapret ∧
      (∃ user, attempt trapretCode returned = some user ∧ Enters (frameOf m (s'.ptable p).tf) user ∧
        ∃ own, user.reads = own ++ ([m.reg .esp + 8#32, m.reg .esp + 4#32] ++ m.reads) ∧
          ∀ a ∈ own, span a 4 ⊆ span (s'.ptable p).kstack 4096) ∧
      read32 (swtch m).mem old = m.reg .esp - 16#32 ∧
      ∀ field : ContextField, field.read (swtch m).mem (m.reg .esp - 16#32) = callerContext m field := by
  obtain ⟨isTf, switched⟩ := setup.switched
  have ready := setup.atTrapret
  rw [isTf] at outer ⊢
  generalize (s'.ptable p).kstack = kstack at switched ready outer
  refine ⟨switched.eip, ready.eip, ⟨_, ready.leaves outer, ?_, ?_⟩, ?_, ?_⟩
  · exact enters_restored _ _ _
  · obtain ⟨own, reads, inside⟩ := ready.reads
    refine ⟨frameReads outerLevelFields (tfOf kstack) ++ own, ?_, ?_⟩
    · rw [reads, ready.esp, List.append_assoc]
    · intro a member
      rcases List.mem_append.mp member with member | member
      · simp only [frameReads, List.mem_reverse, List.mem_map] at member
        obtain ⟨field, -, rfl⟩ := member
        exact (field_subset_frame field kstack).trans (tf_subset_page kstack)
      · exact inside a member
  · rw [switched.mem]
    exact saved_slot m old
  · rw [switched.mem, ← holds_context]
    exact saved_context m old setup.call.apart

theorem first_dispatch_initproc : OuterFrame (smallCall initprocFrame) initprocFrame ∧
    ∃ user, attempt trapretCode (smallReturned initprocFrame) = some user ∧ Enters initprocFrame user := by
  have frame := funext (smallCall_frame initprocFrame)
  have outer : OuterFrame (smallCall initprocFrame) initprocFrame := initproc_outer (kernelTable_switchuvm _ _ _)
  obtain ⟨-, -, ⟨user, left, entered, -⟩, -⟩ := first_dispatch (smallRun initprocFrame) (by rw [frame]; exact outer)
  rw [frame] at entered
  exact ⟨outer, user, left, entered⟩

/-- A return to level 0 keeps the stack of the kernel; a return to virtual 8086 mode
reads past the end of the page; the flags get their fixed bit; a selector has 16
bits; a data segment of the kernel is not kept and its stack segment not loaded at
level 3; and `swtch` reads its arguments from the stack of the scheduler. -/
theorem first_dispatch_not_every_frame :
    SmallRun kernelFrame ∧ (attempt trapretCode (smallReturned kernelFrame)).any (fun user =>
      user.reg .esp != TrapField.esp.read (smallCall kernelFrame).mem smallTf) = true ∧
    SmallRun virtualFrame ∧ (attempt trapretCode (smallReturned virtualFrame)).any (fun user =>
      user.reads.contains (smallTf + 64#32)) = true ∧ smallTf + 64#32 ∉ span smallKstack 4096 ∧
    SmallRun initprocFrame ∧ (attempt trapretCode (smallReturned initprocFrame)).any (fun user =>
      user.eflags != TrapField.eflags.read (smallCall initprocFrame).mem smallTf) = true ∧
    SmallRun paddedFrame ∧ (attempt trapretCode (smallReturned paddedFrame)).any (fun user =>
      (user.seg .cs).setWidth 32 != TrapField.cs.read (smallCall paddedFrame).mem smallTf) = true ∧
    SmallRun dataFrame ∧ (attempt trapretCode (smallReturned dataFrame)).any (fun user =>
      user.seg .ds != (TrapField.ds.read (smallCall dataFrame).mem smallTf).setWidth 16) = true ∧
    SmallRun stackFrame ∧ (attempt trapretCode (smallReturned stackFrame)).isNone = true ∧
    (attempt trapretCode (smallReturned initprocFrame)).any (fun user =>
      user.reads.contains ((smallCall initprocFrame).reg .esp + 4#32)) = true ∧
      (smallCall initprocFrame).reg .esp + 4#32 ∉ span smallKstack 4096 := by
  refine ⟨smallRun _, ?_, smallRun _, ?_, ?_, smallRun _, ?_, smallRun _, ?_, smallRun _, ?_, smallRun _, ?_, ?_, ?_⟩ <;>
    decide +kernel

end OsDev.Kernel.FirstDispatch
