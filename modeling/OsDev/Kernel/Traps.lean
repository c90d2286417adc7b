import OsDev.Kernel.FirstDispatch
import OsDev.Kernel.Idt

/-! A trap from its delivery to the `iret` that ends it. -/

namespace OsDev.Kernel.Traps
open OsDev.Machine.Memory OsDev.Machine.Program OsDev.Machine.X86
open OsDev.Kernel.State OsDev.Kernel.Kalloc OsDev.Kernel.Frames OsDev.Kernel.Proc OsDev.Kernel.Isr OsDev.Kernel.Idt
  OsDev.Kernel.FirstDispatch
open OsDev.Kernel.Gdt (accessTable switchuvmEntry gdtInit KernelTable kernelTable_switchuvm)

/-- Where the linker put the code around `isr_handler`. -/
structure Layout where
  isrStubTable : Nat → Addr
  isrHandler : Addr
  /-- The instruction after the call in `isr_wrapper`. -/
  afterCall : Addr

/-- The processor pushes an error code exactly for the vectors whose stub expects one. -/
def errorCode (vector : Nat) (error : Word) : Option Word := if vector ∈ errVectors then some error else none

/-- The exceptions whose instruction is to be tried again. -/
def faultVectors : List Nat := [0, 5, 6, 7, 9, 10, 11, 12, 13, 14, 16, 17, 19, 20, 21]

/-- Whether the processor sets RF in the image of the flags: for a fault, and for anything else that comes
midway through an instruction (a repeated string instruction, a debug exception that is a fault). -/
def resumes (vector : Nat) (midway : Bool) : Bool := decide (vector ∈ faultVectors) || midway

/-- From the interrupted instruction to the entry of `isr_handler`. -/
def enter (layout : Layout) (tss : Tss) (vector : Nat) (error : Word) (midway : Bool) (m : Core) : Option Core :=
  (gateOf (idtInit layout.isrStubTable vector)).bind fun gate =>
    if accepts gate tss m then
      attempt (isrStub vector ++ wrapperCode layout.isrHandler layout.afterCall)
        (deliver gate tss (errorCode vector error) (resumes vector midway) m)
    else none

/-- From the return of `isr_handler` to the interrupted instruction. -/
def leave (m : Core) : Option Core := attempt (cleanupCode ++ trapretCode) m

/-- The argument of `isr_handler` on its entry. -/
def stateArg (m : Core) : Addr := read32 m.mem (m.reg .esp + 4#32)

/-- `isr_handler` from its entry to its return: a C function that changes at most
the `eax` member of the state it is given. -/
structure Handles (entry exit : Core) : Prop where
  eip : exit.eip = entry.top
  esp : exit.reg .esp = entry.reg .esp + 4#32
  seg : exit.seg = entry.seg
  gdt : exit.gdt = entry.gdt
  nested : exit.eflags.getLsbD flagNt = entry.eflags.getLsbD flagNt
  state : Set.EqOn exit.mem entry.mem
    (span (stateArg entry) interruptStateSize \ span (stateArg entry + TrapField.eax.offset) 4)

/-- A processor in protected mode with the descriptor table of the kernel, whose
segment registers hold what they can be loaded with and whose data segment
registers agree. -/
structure Interrupted extends Core where
  flat : ∀ s ∈ [Seg.es, .fs, .gs], seg s = seg .ds
  legal : legalFlags eflags = eflags
  real : eflags.getLsbD flagVm = false
  table : KernelTable gdt
  code : (toCore.access (seg .cs)).any (Access.returnable (seg .cs)) = true
  stack : (toCore.access (seg .ss)).any (Access.stackable (rpl (seg .cs)) (seg .ss)) = true
  data : toCore.usable (rpl (seg .cs)) (seg .ds) = true

/-- The state that `isr_handler` should see; the two members above EFLAGS belong to
the frame only if the trap switched stacks. -/
def trapFrame (m : Core) (vector : Nat) (error : Word) (midway : Bool) (useless esp ss : Word) : TrapFrame
  | .ds => (m.seg .ds).setWidth 32
  | .edi => m.reg .edi
  | .esi => m.reg .esi
  | .ebp => m.reg .ebp
  | .useless => useless
  | .ebx => m.reg .ebx
  | .edx => m.reg .edx
  | .ecx => m.reg .ecx
  | .eax => m.reg .eax
  | .intNo => BitVec.ofNat 32 vector
  | .errCode => (errorCode vector error).getD 0#32
  | .eip => m.eip
  | .cs => (m.seg .cs).setWidth 32
  | .eflags => imageFlags (resumes vector midway) m.eflags
  | .esp => esp
  | .ss => ss

/-- The stack the processor pushes on. -/
def trapStack (tss : Tss) (m : Core) : Core :=
  if rpl (m.seg .cs) = 0#2 then m else
    ((m.setSeg .ss tss.ss0).setReg .esp tss.esp0).pushAll [(m.seg .ss).setWidth 32, m.reg .esp]

theorem run_isrStub (gate : Gate) (tss : Tss) (vector : Nat) (error : Word) (midway : Bool) (m : Core) :
    run (isrStub vector) (deliver gate tss (errorCode vector error) (resumes vector midway) m) =
      { ((trapStack tss m).pushAll [imageFlags (resumes vector midway) m.eflags, (m.seg .cs).setWidth 32, m.eip,
          (errorCode vector error).getD 0#32, BitVec.ofNat 32 vector]).setSeg .cs (gate.selector &&& 0xfffc#16) with
        eip := gate.offset
        eflags := handlerFlags gate m.eflags } := by
  by_cases err : vector ∈ errVectors
  · simp [isrStub, errorCode, err, isrErrStub, run, exec, deliver, trapStack, Core.push, Core.setSeg]
  · simp [isrStub, errorCode, err, isrNoErrStub, run, exec, deliver, trapStack, Core.push, Core.setSeg]

theorem attempt_isrStub (vector : Nat) (m : Core) : attempt (isrStub vector) m = some (run (isrStub vector) m) := by
  by_cases err : vector ∈ errVectors
  · simp only [isrStub, if_pos err]
    rfl
  · simp only [isrStub, if_neg err]
    rfl

/-- `isr_wrapper` from its second instruction to its call: DS, a pointer to it, and the return address. -/
theorem run_wrapperCode_tail (isrHandler next : Addr) (m : Core) :
    let entered := run (wrapperCode isrHandler next).tail m
    entered.mem = (m.pushAll [(m.seg .ds).setWidth 32, m.reg .esp - 4#32, next]).mem ∧
      entered.reg .esp = m.reg .esp - 12#32 ∧ entered.eip = isrHandler ∧ entered.seg .cs = m.seg .cs ∧
      entered.seg .ss = m.seg .ss ∧ entered.gdt = m.gdt ∧ entered.eflags = m.eflags &&& ~~~0x400#32 := by
  have bottom : m.reg .esp - 4#32 - 4#32 - 4#32 = m.reg .esp - 12#32 := by bv_omega
  simp [wrapperCode, run, exec, Core.push, Core.setReg, Core.setSeg, bottom]

/-- What `isr_wrapper` leaves on top of the stack for `isr_handler`. -/
theorem run_wrapperCode (isrHandler next : Addr) (m : Core) (below : List Word) (short : below.length ≤ 16)
    (words : Holds m.mem (m.reg .esp) below) :
    let entered := run (wrapperCode isrHandler next) m
    Holds entered.mem (entered.reg .esp) ([next, m.reg .esp - 36#32, (m.seg .ds).setWidth 32] ++
        ([.edi, .esi, .ebp, .esp, .ebx, .edx, .ecx, .eax].map m.reg ++ below)) ∧
      entered.reg .esp = m.reg .esp - 44#32 ∧ entered.eip = isrHandler ∧ entered.seg .cs = m.seg .cs ∧
      entered.seg .ss = m.seg .ss ∧ entered.gdt = m.gdt ∧ entered.eflags = m.eflags &&& ~~~0x400#32 := by
  have order : ([.eax, .ecx, .edx, .ebx, .esp, .ebp, .esi, .edi].map m.reg).reverse =
      [.edi, .esi, .ebp, .esp, .ebx, .edx, .ecx, .eax].map m.reg := rfl
  have split : run (wrapperCode isrHandler next) m = run (wrapperCode isrHandler next).tail
      (m.pushAll ([.eax, .ecx, .edx, .ebx, .esp, .ebp, .esi, .edi].map m.reg)) := run_cons m .pushad _
  have seg := Core.pushAll_seg m ([.eax, .ecx, .edx, .ebx, .esp, .ebp, .esi, .edi].map m.reg)
  have gdt := Core.pushAll_gdt m ([.eax, .ecx, .edx, .ebx, .esp, .ebp, .esi, .edi].map m.reg)
  have flags := Core.pushAll_eflags m ([.eax, .ecx, .edx, .ebx, .esp, .ebp, .esi, .edi].map m.reg)
  have esp := Core.pushAll_esp m ([.eax, .ecx, .edx, .ebx, .esp, .ebp, .esi, .edi].map m.reg)
  have general := Core.pushAll_holds m ([.eax, .ecx, .edx, .ebx, .esp, .ebp, .esi, .edi].map m.reg) below
    (by simp only [List.length_map, List.length_cons, List.length_nil]; omega) words
  rw [order] at general
  rw [split]
  generalize m.pushAll ([.eax, .ecx, .edx, .ebx, .esp, .ebp, .esi, .edi].map m.reg) = saved at seg gdt flags esp general
  simp only [List.length_map, List.length_cons, List.length_nil] at esp
  have pointer : m.reg .esp - 32#32 - 4#32 = m.reg .esp - 36#32 := by bv_omega
  have bottom : m.reg .esp - 32#32 - 12#32 = m.reg .esp - 44#32 := by bv_omega
  have all := Core.pushAll_holds saved [(saved.seg .ds).setWidth 32, saved.reg .esp - 4#32, next] _
    (by simp only [List.length_append, List.length_map, List.length_cons, List.length_nil]; omega) general
  obtain ⟨mem, top, eip, cs, ss, gdt', flags'⟩ := run_wrapperCode_tail isrHandler next saved
  rw [Core.pushAll_esp] at all
  rw [esp] at top
  rw [seg] at cs ss
  refine ⟨?_, top.trans bottom, eip, cs, ss, gdt'.trans gdt, by rw [flags', flags]⟩
  rw [mem, top]
  rw [seg, esp] at all ⊢
  rw [← pointer]
  exact all

/-- The kernel's data segment goes into four registers. -/
theorem attempt_wrapperCode (isrHandler next : Addr) (m : Core) (data : m.admits 0x10#16 = true) :
    attempt (wrapperCode isrHandler next) m = some (run (wrapperCode isrHandler next) m) := by
  have loads (n : Core) (gdt : n.gdt = m.gdt) (cs : n.seg .cs = m.seg .cs) (low : (n.reg .eax).setWidth 16 = 0x10#16) (s : Seg)
      (member : s ∈ [Seg.ds, .es, .fs, .gs]) : permits n (.movToSeg s .eax) = true := by
    have admitted : n.admits ((n.reg .eax).setWidth 16) = true := by
      rw [low, Core.admits_congr gdt cs]
      exact data
    simp only [List.mem_cons, List.not_mem_nil, or_false] at member
    rcases member with rfl | rfl | rfl | rfl <;> exact admitted
  have split : wrapperCode isrHandler next = (wrapperCode isrHandler next).take 6 ++ (wrapperCode isrHandler next).drop 6 := rfl
  have before : attempt ((wrapperCode isrHandler next).take 6) m = some (run ((wrapperCode isrHandler next).take 6) m) := rfl
  have gdt : (run ((wrapperCode isrHandler next).take 6) m).gdt = m.gdt := rfl
  have cs : (run ((wrapperCode isrHandler next).take 6) m).seg .cs = m.seg .cs := rfl
  have low : ((run ((wrapperCode isrHandler next).take 6) m).reg .eax).setWidth 16 = 0x10#16 := by
    simp only [wrapperCode, run, List.take_succ_cons, List.take_zero, List.foldl_cons, List.foldl_nil, exec, Core.setReg_reg,
      Function.update_self]
    exact BitVec.setWidth_append_eq_right
  rw [split, attempt_append, before, Option.bind_some, run_append]
  generalize run ((wrapperCode isrHandler next).take 6) m = n at gdt cs low
  refine (attempt_cons _ (loads _ gdt cs low .ds (by decide))).trans ?_
  refine (attempt_cons _ (loads _ (by exact gdt) (by exact cs) (by exact low) .es (by decide))).trans ?_
  refine (attempt_cons _ (loads _ (by exact gdt) (by exact cs) (by exact low) .fs (by decide))).trans ?_
  exact attempt_cons _ (loads _ (by exact gdt) (by exact cs) (by exact low) .gs (by decide))

theorem trapStack_reg (tss : Tss) (m : Core) (r : Reg) (other : r ≠ .esp) : (trapStack tss m).reg r = m.reg r := by
  unfold trapStack
  split
  · rfl
  · rw [Core.pushAll_reg _ _ r other]
    exact Function.update_of_ne other ..

theorem trapStack_seg (tss : Tss) (m : Core) (s : Seg) (other : s ≠ .ss) : (trapStack tss m).seg s = m.seg s := by
  unfold trapStack
  split
  · rfl
  · rw [Core.pushAll_seg]
    exact Function.update_of_ne other ..

theorem trapStack_gdt (tss : Tss) (m : Core) : (trapStack tss m).gdt = m.gdt := by
  unfold trapStack
  split
  · rfl
  · exact Core.pushAll_gdt _ _

/-- A handler is in no nested task. -/
theorem handlerFlags_nested (gate : Gate) (flags : Word) : (handlerFlags gate flags).getLsbD flagNt = false := by
  unfold handlerFlags
  split <;> simp [flagNt]

/-- The processor's part of the frame and the stub's are on the stack, and the general registers are as they were. -/
structure Stubbed (tss : Tss) (vector : Nat) (error : Word) (midway : Bool) (m : Core) (esp ss : Word) (n : Core) : Prop where
  words : Holds n.mem (n.reg .esp) [BitVec.ofNat 32 vector, (errorCode vector error).getD 0#32, m.eip,
    (m.seg .cs).setWidth 32, imageFlags (resumes vector midway) m.eflags, esp, ss]
  esp : n.reg .esp = (trapStack tss m).reg .esp - 20#32
  reg : ∀ r, r ≠ .esp → n.reg r = m.reg r
  ds : n.seg .ds = m.seg .ds
  ss : n.seg .ss = (trapStack tss m).seg .ss
  cs : rpl (n.seg .cs) = 0#2
  gdt : n.gdt = m.gdt
  nested : n.eflags.getLsbD flagNt = false

theorem stubbed (offset : Addr) (masks : Bool) (tss : Tss) (vector : Nat) (error : Word) (midway : Bool) (m : Core) (esp ss : Word)
    (above : Holds (trapStack tss m).mem ((trapStack tss m).reg .esp) [esp, ss]) :
    Stubbed tss vector error midway m esp ss
      (run (isrStub vector) (deliver ⟨0x8#16, offset, masks⟩ tss (errorCode vector error) (resumes vector midway) m)) := by
  rw [run_isrStub]
  refine ⟨?_, ?_, ?_, ?_, ?_, ?_, ?_, handlerFlags_nested _ _⟩
  · exact Core.pushAll_holds _ _ [esp, ss] (by simp) above
  · simp only [Core.setSeg_reg, Core.pushAll_esp]
    rfl
  · intro r other
    simp only [Core.setSeg_reg]
    exact (Core.pushAll_reg _ _ r other).trans (trapStack_reg tss m r other)
  · simp only [Core.setSeg_seg, Core.pushAll_seg]
    exact (Function.update_of_ne (by decide) ..).trans (trapStack_seg tss m .ds (by decide))
  · simp only [Core.setSeg_seg, Core.pushAll_seg]
    exact Function.update_of_ne (by decide) ..
  · simp only [Core.setSeg_seg, Function.update_self]
    decide
  · simp only [Core.setSeg_gdt, Core.pushAll_gdt]
    exact trapStack_gdt tss m

/-- `isr_handler` has been called with a pointer to a trap frame. -/
structure Entered (layout : Layout) (stack : Core) (frame : TrapFrame) (entered : Core) : Prop where
  eip : entered.eip = layout.isrHandler
  esp : entered.reg .esp = stack.reg .esp - 64#32
  top : entered.top = layout.afterCall
  arg : stateArg entered = stack.reg .esp - 56#32
  fields : ∀ field : TrapField, field.read entered.mem (stack.reg .esp - 56#32) = frame field
  cs : rpl (entered.seg .cs) = 0#2
  ss : entered.seg .ss = stack.seg .ss
  gdt : entered.gdt = stack.gdt
  nested : entered.eflags.getLsbD flagNt = false

theorem Entered.read {layout : Layout} {stack entered : Core} {frame : TrapFrame} (entry : Entered layout stack frame entered)
    (field : TrapField) : field.read entered.mem (stateArg entered) = frame field := by
  rw [entry.arg]
  exact entry.fields field

/-- The processor can deliver traps: it has the kernel's segments, and the stack segment of the kernel in its task state. -/
structure Trappable (tss : Tss) (m : Core) : Prop where
  table : KernelTable m.gdt
  stack : rpl (m.seg .cs) = 0#2 ∨ tss.ss0 = 0x10#16

theorem Trappable.accepts {tss : Tss} {m : Core} (trappable : Trappable tss m) (offset : Addr) (masks : Bool) :
    accepts ⟨0x8#16, offset, masks⟩ tss m = true := by
  obtain ⟨code, stack, -⟩ := kernel_segments trappable.table
  rw [OsDev.Machine.X86.accepts, code, Bool.true_and, Bool.or_eq_true]
  rcases trappable.stack with level | ss0
  · exact .inl (decide_eq_true level)
  · rw [ss0]
    exact .inr stack

theorem run_enter (layout : Layout) (tss : Tss) (vector : Nat) (error : Word) (midway : Bool) (m : Core) (esp ss : Word)
    (known : vector ∈ stubVectors) (trappable : Trappable tss m)
    (above : Holds (trapStack tss m).mem ((trapStack tss m).reg .esp) [esp, ss]) :
    ∃ entered useless, enter layout tss vector error midway m = some entered ∧
      Entered layout (trapStack tss m) (trapFrame m vector error midway useless esp ss) entered := by
  have stub := stubbed (layout.isrStubTable vector) (decide (vector ≠ IDT_TRAP_SYSCALL)) tss vector error midway m esp ss above
  have ran : enter layout tss vector error midway m = (attempt (wrapperCode layout.isrHandler layout.afterCall)
      (run (isrStub vector) (deliver ⟨0x8#16, layout.isrStubTable vector, decide (vector ≠ IDT_TRAP_SYSCALL)⟩ tss
        (errorCode vector error) (resumes vector midway) m))) := by
    rw [enter, gateOf_idtInit _ _ known, Option.bind_some, trappable.accepts, if_pos rfl, attempt_append, attempt_isrStub,
      Option.bind_some]
  rw [ran]
  generalize run (isrStub vector) _ = n at stub
  have data : n.admits 0x10#16 = true := by
    obtain ⟨-, -, loadable⟩ := kernel_segments (m := n) (by rw [stub.gdt]; exact trappable.table)
    rw [Core.admits, stub.cs, loadable, Bool.or_true]
  rw [attempt_wrapperCode _ _ n data]
  obtain ⟨words, top, eip, cs, ss', gdt, flags⟩ := run_wrapperCode layout.isrHandler layout.afterCall n _ (by simp) stub.words
  generalize run (wrapperCode layout.isrHandler layout.afterCall) n = entered at words top eip cs ss' gdt flags
  have place : entered.reg .esp = (trapStack tss m).reg .esp - 64#32 := by
    rw [top, stub.esp]
    bv_omega
  have arg : n.reg .esp - 36#32 = (trapStack tss m).reg .esp - 56#32 := by
    rw [stub.esp]
    bv_omega
  have frame : (trapStack tss m).reg .esp - 64#32 + 4#32 + 4#32 = (trapStack tss m).reg .esp - 56#32 := by bv_omega
  obtain ⟨first, second, rest⟩ := words
  rw [place] at second rest
  refine ⟨entered, n.reg .esp, rfl, ⟨eip, place, first, ?_, ?_, by rw [cs]; exact stub.cs, ss'.trans stub.ss, ?_, ?_⟩⟩
  · rw [stateArg, place, second, arg]
  · apply (holds_trapFrame _ _ _).mp
    rw [← frame]
    simpa [TrapField.all, trapFrame, stub.reg, stub.ds] using rest
  · rw [gdt, stub.gdt, trapStack_gdt]
  · rw [flags, BitVec.getLsbD_and, stub.nested, Bool.false_and]

theorem field_subset_state (field : TrapField) (tf : Addr) (other : field ≠ .eax) :
    span (tf + field.offset) 4 ⊆ span tf interruptStateSize \ span (tf + TrapField.eax.offset) 4 := by
  have eax : TrapField.eax.offset = 32#32 := rfl
  have small : field.offset.toNat + 4 ≤ 64 ∧ (field.offset.toNat + 4 ≤ 32 ∨ 36 ≤ field.offset.toNat) := by
    cases field <;> first | decide | exact absurd rfl other
  intro x inside
  simp only [mem_span, interruptStateSize, Set.mem_sdiff, eax] at inside ⊢
  constructor <;> bv_omega

/-- The frame `trapret` finds: the one on entry, with the result of the handler in `eax`. -/
theorem Handles.fields {layout : Layout} {stack entered exit : Core} {frame : TrapFrame}
    (entry : Entered layout stack frame entered) (handles : Handles entered exit) (field : TrapField) :
    field.read exit.mem (stateArg entered) =
      Function.update frame .eax (TrapField.eax.read exit.mem (stateArg entered)) field := by
  by_cases result : field = .eax
  · rw [result, Function.update_self]
  · rw [Function.update_of_ne result, ← entry.read field]
    apply read32_congr
    exact handles.state.mono (field_subset_state field _ result)

/-- `trapret` starts on the frame. -/
structure Ready (stack : Core) (tf : Addr) (frame : TrapFrame) (m : Core) : Prop where
  esp : m.reg .esp = tf
  fields : ∀ field : TrapField, field.read m.mem (m.reg .esp) = frame field
  cs : rpl (m.seg .cs) = 0#2
  ss : m.seg .ss = stack.seg .ss
  gdt : m.gdt = stack.gdt
  nested : m.eflags.getLsbD flagNt = false

theorem Handles.ready {layout : Layout} {stack entered exit : Core} {frame : TrapFrame}
    (entry : Entered layout stack frame entered) (handles : Handles entered exit) :
    Ready stack (stateArg entered) (Function.update frame .eax (TrapField.eax.read exit.mem (stateArg entered)))
      (run cleanupCode exit) := by
  have place : exit.reg .esp + 4#32 = stateArg entered := by
    rw [handles.esp, entry.esp, entry.arg]
    bv_omega
  have esp : (run cleanupCode exit).reg .esp = stateArg entered := by simpa [cleanupCode, run, exec] using place
  refine ⟨esp, ?_, ?_, ?_, handles.gdt.trans entry.gdt, ?_⟩
  · intro field
    rw [esp]
    exact handles.fields entry field
  · change rpl (exit.seg .cs) = 0#2
    rw [handles.seg]
    exact entry.cs
  · change exit.seg .ss = stack.seg .ss
    rw [handles.seg]
    exact entry.ss
  · exact (addFlags_nested _ _ _).trans (handles.nested.trans entry.nested)

/-- Everything is as it was, but for the result in EAX and for RF. -/
structure Restored (m : Core) (resumed : Bool) (eax : Word) (after : Core) : Prop where
  eip : after.eip = m.eip
  eflags : after.eflags = imageFlags resumed m.eflags
  seg : after.seg = m.seg
  reg : after.reg = Function.update m.reg .eax eax

theorem legalFlags_image (resumed : Bool) {flags : Word} (legal : legalFlags flags = flags) :
    legalFlags (imageFlags resumed flags) = imageFlags resumed flags := by
  have split : legalFlags (flags ||| 0x10000#32) = legalFlags flags ||| 0x10000#32 := by
    unfold legalFlags
    ext i bound
    simp only [BitVec.getElem_or, BitVec.getElem_and]
    cases flags[i] <;> revert bound <;> revert i <;> decide
  cases resumed with
  | false => exact legal
  | true => exact split.trans (by rw [legal]; rfl)

theorem imageFlags_vm (resumed : Bool) (flags : Word) : (imageFlags resumed flags).getLsbD flagVm = flags.getLsbD flagVm := by
  cases resumed with
  | false => rfl
  | true => simp [imageFlags, flagVm]

theorem restoredReg_trapFrame (m : Core) (vector : Nat) (error : Word) (midway : Bool) (useless esp ss eax : Word) :
    restoredReg (Function.update (trapFrame m vector error midway useless esp ss) .eax eax) (m.reg .esp) =
      Function.update m.reg .eax eax := by
  funext r
  cases r <;> simp [restoredReg, trapFrame]

theorem restoredSeg_trapFrame (m : Interrupted) (vector : Nat) (error : Word) (midway : Bool) (useless esp ss eax : Word) :
    restoredSeg (Function.update (trapFrame m.toCore vector error midway useless esp ss) .eax eax) (m.seg .ss) = m.seg := by
  have narrow (s : Selector) : (s.setWidth 32).setWidth 16 = s := by simp
  funext s
  cases s with
  | cs => simp [restoredSeg, trapFrame, narrow]
  | ss => rfl
  | ds => simp [restoredSeg, trapFrame, narrow]
  | _ => simp [restoredSeg, trapFrame, narrow, m.flat]

/-- The selectors and flags of the interrupted code, in the frame that `trapret` finds. -/
theorem frame_selectors (m : Interrupted) (vector : Nat) (error : Word) (midway : Bool) (useless esp ss eax : Word) :
    let frame := Function.update (trapFrame m.toCore vector error midway useless esp ss) .eax eax
    (frame .cs).setWidth 16 = m.seg .cs ∧ (frame .ds).setWidth 16 = m.seg .ds ∧
      (frame .eflags).getLsbD flagVm = false ∧ legalFlags (frame .eflags) = imageFlags (resumes vector midway) m.eflags := by
  refine ⟨by simp [trapFrame], by simp [trapFrame], ?_, ?_⟩
  · exact (imageFlags_vm _ _).trans m.real
  · exact legalFlags_image _ m.legal

section Leave
variable {layout : Layout} {tss : Tss} {vector : Nat} {error useless esp ss : Word} {midway : Bool} {m : Interrupted}
  {entered exit : Core}

theorem restored_same (level : rpl (m.seg .cs) = 0#2)
    (entry : Entered layout (trapStack tss m.toCore) (trapFrame m.toCore vector error midway useless esp ss) entered)
    (handles : Handles entered exit) : ∃ after, leave exit = some after ∧ after.mem = exit.mem ∧
      Restored m.toCore (resumes vector midway) (TrapField.eax.read exit.mem (stateArg entered)) after := by
  have ready := handles.ready entry
  have home : trapStack tss m.toCore = m.toCore := if_pos level
  have top : stateArg entered + 56#32 = m.reg .esp := by
    rw [entry.arg, home]
    bv_omega
  obtain ⟨cs, ds, vm, legal⟩ := frame_selectors m vector error midway useless esp ss
    (TrapField.eax.read exit.mem (stateArg entered))
  have gdt : (run cleanupCode exit).gdt = m.gdt := by rw [ready.gdt, home]
  have access (selector : Selector) : (run cleanupCode exit).access selector = m.toCore.access selector := by
    rw [Core.access, Core.access, gdt]
  have left := attempt_trapret_same _ (fun field _ => ready.fields field) ready.cs ready.nested
    ((legalFlags_vm _).trans vm) (by rw [cs]; exact level) (by rw [cs, access]; exact m.code)
    (by rw [ds, Core.usable, access, ← level]; exact m.data)
  rw [ready.esp, top, ready.ss, home, restoredReg_trapFrame, restoredSeg_trapFrame, legal] at left
  exact ⟨_, left, rfl, rfl, rfl, rfl, rfl⟩

theorem restored_outer (level : rpl (m.seg .cs) ≠ 0#2)
    (entry : Entered layout (trapStack tss m.toCore)
      (trapFrame m.toCore vector error midway useless (m.reg .esp) ((m.seg .ss).setWidth 32)) entered)
    (handles : Handles entered exit) : ∃ after, leave exit = some after ∧ after.mem = exit.mem ∧
      Restored m.toCore (resumes vector midway) (TrapField.eax.read exit.mem (stateArg entered)) after := by
  have ready := handles.ready entry
  obtain ⟨cs, ds, vm, legal⟩ := frame_selectors m vector error midway useless (m.reg .esp) ((m.seg .ss).setWidth 32)
    (TrapField.eax.read exit.mem (stateArg entered))
  have esp (eax : Word) : Function.update (trapFrame m.toCore vector error midway useless (m.reg .esp) ((m.seg .ss).setWidth 32))
      .eax eax .esp = m.reg .esp := by simp [trapFrame]
  have ss (eax : Word) : (Function.update (trapFrame m.toCore vector error midway useless (m.reg .esp)
      ((m.seg .ss).setWidth 32)) .eax eax .ss).setWidth 16 = m.seg .ss := by simp [trapFrame]
  have access (selector : Selector) : (run cleanupCode exit).access selector = m.toCore.access selector := by
    rw [Core.access, Core.access, ready.gdt, trapStack_gdt]
  have outer : OuterFrame (run cleanupCode exit) (Function.update (trapFrame m.toCore vector error midway useless (m.reg .esp)
      ((m.seg .ss).setWidth 32)) .eax (TrapField.eax.read exit.mem (stateArg entered))) := by
    refine ⟨vm, by rw [cs]; exact level, by rw [cs, access]; exact m.code, ?_, ?_⟩
    · rw [cs, ss, access]
      exact m.stack
    · rw [cs, ds, Core.usable, access]
      exact m.data
  have left := attempt_trapret_outer _ (fun field _ => ready.fields field) ready.cs ready.nested outer
  rw [esp, ss, restoredReg_trapFrame, restoredSeg_trapFrame, legal] at left
  exact ⟨_, left, rfl, rfl, rfl, rfl, rfl⟩

end Leave

/-- What the state should decode to. From level 0 the processor pushes no stack pointer. -/
def decoded (m : Core) (vector : Nat) (error : Word) (midway : Bool) : TrapField → Option Word
  | .useless => none
  | .esp => if rpl (m.seg .cs) = 0#2 then none else some (m.reg .esp)
  | .ss => if rpl (m.seg .cs) = 0#2 then none else some ((m.seg .ss).setWidth 32)
  | field => some (trapFrame m vector error midway 0#32 0#32 0#32 field)

/-- The words above EFLAGS: pushed on a switch of stacks, and otherwise whatever is there. -/
theorem trapStack_above (tss : Tss) (m : Core) :
    ∃ esp ss, Holds (trapStack tss m).mem ((trapStack tss m).reg .esp) [esp, ss] ∧
      (rpl (m.seg .cs) ≠ 0#2 → esp = m.reg .esp ∧ ss = (m.seg .ss).setWidth 32 ∧
        (trapStack tss m).reg .esp = tss.esp0 - 8#32) := by
  by_cases level : rpl (m.seg .cs) = 0#2
  · exact ⟨_, _, ⟨rfl, rfl, trivial⟩, fun outer => absurd level outer⟩
  · refine ⟨m.reg .esp, (m.seg .ss).setWidth 32, ?_, fun _ => ⟨rfl, rfl, ?_⟩⟩
    · simp only [trapStack, if_neg level]
      exact Core.pushAll_holds _ [(m.seg .ss).setWidth 32, m.reg .esp] [] (by simp) trivial
    · simp only [trapStack, if_neg level, Core.pushAll_esp, Core.setReg_reg, Function.update_self]
      rfl

theorem trapFrame_decoded {m : Core} {vector : Nat} {error esp ss w : Word} {midway : Bool} (useless : Word)
    (pushed : rpl (m.seg .cs) ≠ 0#2 → esp = m.reg .esp ∧ ss = (m.seg .ss).setWidth 32) {field : TrapField}
    (expected : decoded m vector error midway field = some w) : trapFrame m vector error midway useless esp ss field = w := by
  cases field with
  | useless => cases expected
  | esp =>
    simp only [decoded, Option.ite_none_left_eq_some, Option.some.injEq] at expected
    exact (pushed expected.1).1.trans expected.2
  | ss =>
    simp only [decoded, Option.ite_none_left_eq_some, Option.some.injEq] at expected
    exact (pushed expected.1).2.trans expected.2
  | _ => exact Option.some.inj expected

/-- A process that `process_alloc` returned, dispatched through `switchuvm` at any
later time, and the task state segment from then on. -/
structure Dispatched (image : Image) (free : List Addr) (s s' t t' : KernelState) (p : Slot) (tss : Tss) : Prop where
  heap : Heap s free
  created : (processAlloc image).run s = .ok (some p) s'
  kept : (t.ptable p).kstack = (s'.ptable p).kstack
  switched : (switchuvm (some p)).run t = .ok () t'
  tss : tss = ⟨t'.ss0, t'.esp0⟩

theorem Dispatched.esp0 {image : Image} {free : List Addr} {s s' t t' : KernelState} {p : Slot} {tss : Tss}
    (dispatched : Dispatched image free s s' t t' p tss) :
    tss.esp0 - 64#32 = (s'.ptable p).tf ∧
      (s'.ptable p).tf = (s'.ptable p).kstack + KSTACKSIZE - BitVec.ofNat 32 interruptStateSize := by
  obtain ⟨kstack, -, isKstack, isTf, -, -⟩ := processAlloc_some dispatched.heap dispatched.created
  obtain ⟨esp0, -⟩ := switchuvm_stack dispatched.switched
  rw [dispatched.tss, esp0, dispatched.kept, isTf, isKstack]
  exact ⟨rfl, rfl⟩

theorem trap_round_trip (layout : Layout) (tss : Tss) (vector : Nat) (error : Word) (midway : Bool) (m : Interrupted)
    (known : vector ∈ stubVectors) (stack : rpl (m.seg .cs) = 0#2 ∨ tss.ss0 = 0x10#16) :
    ∃ entered, enter layout tss vector error midway m.toCore = some entered ∧ entered.eip = layout.isrHandler ∧
      (∀ field w, decoded m.toCore vector error midway field = some w → field.read entered.mem (stateArg entered) = w) ∧
      (∀ exit, Handles entered exit → exit.eip = layout.afterCall ∧ ∃ after, leave exit = some after ∧ after.mem = exit.mem ∧
        Restored m.toCore (resumes vector midway) (TrapField.eax.read exit.mem (stateArg entered)) after) ∧
      (∀ image free s s' t t' p, Dispatched image free s s' t t' p tss → rpl (m.seg .cs) ≠ 0#2 →
        stateArg entered = (s'.ptable p).tf ∧
        (s'.ptable p).tf = (s'.ptable p).kstack + KSTACKSIZE - BitVec.ofNat 32 interruptStateSize) := by
  obtain ⟨esp, ss, above, pushed⟩ := trapStack_above tss m.toCore
  obtain ⟨entered, useless, ran, entry⟩ := run_enter layout tss vector error midway m.toCore esp ss known ⟨m.table, stack⟩ above
  refine ⟨entered, ran, entry.eip, ?_, ?_, ?_⟩
  · intro field w expected
    rw [entry.read]
    exact trapFrame_decoded useless (fun level => ⟨(pushed level).1, (pushed level).2.1⟩) expected
  · intro exit handles
    refine ⟨handles.eip.trans entry.top, ?_⟩
    by_cases level : rpl (m.seg .cs) = 0#2
    · exact restored_same level entry handles
    · obtain ⟨rfl, rfl, -⟩ := pushed level
      exact restored_outer level entry handles
  · intro image free s s' t t' p dispatched level
    have bottom : tss.esp0 - 8#32 - 56#32 = tss.esp0 - 64#32 := by bv_omega
    obtain ⟨frame, place⟩ := dispatched.esp0
    refine ⟨?_, place⟩
    rw [entry.arg, (pushed level).2.2, bottom, frame]

/-- A user program, on the kernel stack of the first process. -/
def userCore : Interrupted where
  reg := fun _ => 0x100#32
  seg := fun
    | .cs => 0x1b#16
    | _ => 0x23#16
  eip := 0x10#32
  eflags := 0x202#32
  mem := smallCreated.mem
  gdt := accessTable (switchuvmEntry (gdtInit (fun _ => 0#8) 0x80121000#32) 0x80121000#32 0x80122000#32) 0x80121000#32
  reads := []
  flat := by decide
  legal := by decide
  real := by decide
  table := kernelTable_switchuvm _ _ _
  code := (user_segments (kernelTable_switchuvm _ _ _)).1
  stack := (user_segments (kernelTable_switchuvm _ _ _)).2.1
  data := (user_segments (kernelTable_switchuvm _ _ _)).2.2

def smallLayout : Layout := ⟨fun vector => 0x80101000#32 + BitVec.ofNat 32 (16 * vector), 0x80102000#32, 0x80103000#32⟩

def smallDispatch : KernelState := setSlot smallCreated firstSlot
  { smallCreated.ptable firstSlot with pgdir := 0x80500000#32 }

def smallSwitched : KernelState :=
  match (switchuvm (some firstSlot)).run smallDispatch with
  | .ok _ t => t
  | .error _ t => t

theorem smallDispatched : Dispatched smallImage [smallKstack] smallKernel smallCreated smallDispatch smallSwitched firstSlot
    ⟨smallSwitched.ss0, smallSwitched.esp0⟩ where
  heap := smallKernel_heap
  created := smallCreated_run
  kept := by
    unfold smallDispatch
    rw [setSlot_same]
  switched := by
    have returns : (match (switchuvm (some firstSlot)).run smallDispatch with
      | .ok _ _ => true
      | .error _ _ => false) = true := by decide +kernel
    cases outcome : (switchuvm (some firstSlot)).run smallDispatch with
    | ok _ t =>
      unfold smallSwitched
      rw [outcome]
    | error e t =>
      rw [outcome] at returns
      cases returns
  tss := rfl

/-- A handler that only returns. -/
theorem handles_popEip (m : Core) : Handles m m.popEip :=
  ⟨rfl, by simp [Core.popEip], rfl, rfl, rfl, fun _ _ => rfl⟩

theorem smallSwitched_ss0 : smallSwitched.ss0 = 0x10#16 := by decide +kernel

theorem trap_round_trip_syscall :
    64 ∈ stubVectors ∧ ∃ entered after,
      enter smallLayout ⟨smallSwitched.ss0, smallSwitched.esp0⟩ 64 0#32 false userCore.toCore = some entered ∧
      Handles entered entered.popEip ∧ leave entered.popEip = some after ∧
      Restored userCore.toCore false (TrapField.eax.read entered.mem (stateArg entered)) after ∧
      stateArg entered = smallTf := by
  have known : 64 ∈ stubVectors := by decide
  obtain ⟨entered, ran, -, -, handled, placed⟩ := trap_round_trip smallLayout ⟨smallSwitched.ss0, smallSwitched.esp0⟩ 64
    0#32 false userCore known (.inr smallSwitched_ss0)
  have frame := (placed _ _ _ _ _ _ _ smallDispatched (by decide)).1
  have handles := handles_popEip entered
  obtain ⟨after, left, -, restored⟩ := (handled _ handles).2
  exact ⟨known, entered, after, ran, handles, left, restored, frame.trans smallCreated_slot.2.1⟩

/-- A general protection fault: the processor has set RF in the image of the flags, and they come back with it. -/
theorem trap_round_trip_not_fault : 13 ∈ stubVectors ∧ ∃ entered after,
    enter smallLayout ⟨smallSwitched.ss0, smallSwitched.esp0⟩ 13 0#32 false userCore.toCore = some entered ∧
    TrapField.eflags.read entered.mem (stateArg entered) ≠ userCore.eflags ∧
    Handles entered entered.popEip ∧ leave entered.popEip = some after ∧ after.eflags ≠ userCore.eflags := by
  have known : 13 ∈ stubVectors := by decide
  obtain ⟨esp, ss, above, pushed⟩ := trapStack_above ⟨smallSwitched.ss0, smallSwitched.esp0⟩ userCore.toCore
  obtain ⟨rfl, rfl, -⟩ := pushed (by decide)
  obtain ⟨entered, useless, ran, entry⟩ := run_enter smallLayout ⟨smallSwitched.ss0, smallSwitched.esp0⟩ 13 0#32 false
    userCore.toCore _ _ known ⟨userCore.table, .inr smallSwitched_ss0⟩ above
  have handles := handles_popEip entered
  obtain ⟨after, left, -, restored⟩ := restored_outer (m := userCore) (by decide) entry handles
  have different : imageFlags (resumes 13 false) userCore.eflags ≠ userCore.eflags := by decide
  refine ⟨known, entered, after, ran, ?_, handles, left, ?_⟩
  · rw [entry.read]
    exact different
  · rw [restored.eflags]
    exact different

end OsDev.Kernel.Traps
