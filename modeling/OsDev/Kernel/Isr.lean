import OsDev.Kernel.Frames
import OsDev.Kernel.Gdt
import OsDev.Machine.X86

/-! The way into and out of `isr_handler` (kernel/isr.asm). -/

namespace OsDev.Kernel.Isr
open OsDev.Machine.Memory OsDev.Machine.X86 OsDev.Kernel.Frames
open OsDev.Kernel.Gdt (KernelTable)

def isrErrStub (vector : Nat) : List Instr := [.pushImm (BitVec.ofNat 32 vector)]

def isrNoErrStub (vector : Nat) : List Instr := [.pushImm 0#32, .pushImm (BitVec.ofNat 32 vector)]

/-- The vectors for which the processor pushes an error code. -/
def errVectors : List Nat := [8, 10, 11, 12, 13, 14, 17, 30]

def stubVectors : List Nat := List.range 48 ++ [64]

def isrStub (vector : Nat) : List Instr :=
  if vector ∈ errVectors then isrErrStub vector else isrNoErrStub vector

/-- `isr_wrapper` up to its call. -/
def wrapperCode (isrHandler next : Addr) : List Instr := [
  .pushad,
  .movFromSeg .eax .ds,
  .push .eax,
  .mov .eax .esp,
  .push .eax,
  .movLow .eax 0x10#16,
  .movToSeg .ds .eax,
  .movToSeg .es .eax,
  .movToSeg .fs .eax,
  .movToSeg .gs .eax,
  .cld,
  .call isrHandler next]

/-- `isr_wrapper` between its call and `trapret`. -/
def cleanupCode : List Instr := [.add .esp 4#32]

/-- `trapret` up to its `iret`. -/
def restoreCode : List Instr := [
  .pop .eax,
  .movToSeg .ds .eax,
  .movToSeg .es .eax,
  .movToSeg .fs .eax,
  .movToSeg .gs .eax,
  .popad,
  .add .esp 8#32]

def trapretCode : List Instr := restoreCode ++ [.iret]

/-- The general registers of a trap frame, with a given stack pointer. -/
def restoredReg (frame : TrapFrame) (esp : Word) : Reg → Word
  | .eax => frame .eax
  | .ecx => frame .ecx
  | .edx => frame .edx
  | .ebx => frame .ebx
  | .esp => esp
  | .ebp => frame .ebp
  | .esi => frame .esi
  | .edi => frame .edi

/-- The segment registers of a trap frame, with a given stack segment. -/
def restoredSeg (frame : TrapFrame) (ss : Selector) : Seg → Selector
  | .cs => (frame .cs).setWidth 16
  | .ss => ss
  | _ => (frame .ds).setWidth 16

@[simp] theorem update_restoredReg (frame : TrapFrame) (before after : Word) :
    Function.update (restoredReg frame before) .esp after = restoredReg frame after := by
  funext r
  cases r <;> simp [restoredReg]

@[simp] theorem update_restoredSeg_cs (frame : TrapFrame) (ss : Selector) :
    Function.update (restoredSeg frame ss) .cs ((frame .cs).setWidth 16) = restoredSeg frame ss :=
  Function.update_eq_self .cs (restoredSeg frame ss)

@[simp] theorem update_restoredSeg_ss (frame : TrapFrame) (before after : Selector) :
    Function.update (restoredSeg frame before) .ss after = restoredSeg frame after := by
  funext s
  cases s <;> simp [restoredSeg]

theorem legalFlags_vm (flags : Word) : (legalFlags flags).getLsbD flagVm = flags.getLsbD flagVm := by
  simp [legalFlags, flagVm]

/-- A frame for protected mode at an outer level, whose selectors the descriptor table lets a program of that level have. -/
structure OuterFrame (m : Core) (frame : TrapFrame) : Prop where
  real : (frame .eflags).getLsbD flagVm = false
  outer : rpl ((frame .cs).setWidth 16) ≠ 0#2
  code : (m.access ((frame .cs).setWidth 16)).any (Access.returnable ((frame .cs).setWidth 16)) = true
  stack : (m.access ((frame .ss).setWidth 16)).any
    (Access.stackable (rpl ((frame .cs).setWidth 16)) ((frame .ss).setWidth 16)) = true
  data : m.usable (rpl ((frame .cs).setWidth 16)) ((frame .ds).setWidth 16) = true

/-- The level asked for, and the descriptors, are all that counts. -/
theorem OuterFrame.congr {m n : Core} {frame : TrapFrame} (outer : OuterFrame m frame) (gdt : n.gdt = m.gdt) :
    OuterFrame n frame := by
  have access (selector : Selector) : n.access selector = m.access selector := by rw [Core.access, Core.access, gdt]
  refine ⟨outer.real, outer.outer, ?_, ?_, ?_⟩
  · rw [access]
    exact outer.code
  · rw [access]
    exact outer.stack
  · rw [Core.usable, access]
    exact outer.data

section Kernel
variable {m : Core} (table : KernelTable m.gdt)
include table

/-- The kernel's own segments, at level 0. -/
theorem kernel_segments :
    (m.access 0x8#16).any (fun a => a.app && a.present && a.code && !a.conforming && decide (a.dpl = 0#2)) = true ∧
    (m.access 0x10#16).any (Access.stackable 0#2 0x10#16) = true ∧
    (m.access 0x10#16).any (Access.loadable 0#2 0x10#16) = true := by
  have code : m.access 0x8#16 = m.gdt 1#13 := rfl
  have data : m.access 0x10#16 = m.gdt 2#13 := rfl
  rw [code, data]
  refine ⟨?_, ?_, ?_⟩
  · rcases table.kcode with here | here <;> rw [here] <;> decide
  · rcases table.kdata with here | here <;> rw [here] <;> decide
  · rcases table.kdata with here | here <;> rw [here] <;> decide

/-- The segments of a process, at level 3. -/
theorem user_segments : (m.access 0x1b#16).any (Access.returnable 0x1b#16) = true ∧
    (m.access 0x23#16).any (Access.stackable 3#2 0x23#16) = true ∧ m.usable 3#2 0x23#16 = true := by
  have code : m.access 0x1b#16 = m.gdt 3#13 := rfl
  have data : m.access 0x23#16 = m.gdt 4#13 := rfl
  rw [Core.usable, code, data]
  refine ⟨?_, ?_, ?_⟩
  · rcases table.ucode with here | here <;> rw [here] <;> decide
  · rcases table.udata with here | here <;> rw [here] <;> decide
  · rcases table.udata with here | here <;> rw [here] <;> decide

end Kernel

/-- The words `trapret` takes off the stack before its `iret`, in order. -/
def restoredFields : List TrapField := [.ds, .edi, .esi, .ebp, .ebx, .edx, .ecx, .eax]

def sameLevelFields : List TrapField := restoredFields ++ [.eip, .cs, .eflags]
def outerLevelFields : List TrapField := restoredFields ++ [.eip, .cs, .eflags, .esp, .ss]

/-- The trace that reading the members of a frame one by one leaves. -/
def frameReads (fields : List TrapField) (tf : Addr) : List Addr := (fields.map fun field => tf + field.offset).reverse

theorem frameReads_append (first second : List TrapField) (tf : Addr) :
    frameReads (first ++ second) tf = frameReads second tf ++ frameReads first tf := by
  simp [frameReads]

theorem run_restoreCode (m : Core) {frame : TrapFrame}
    (fields : ∀ field ∈ restoredFields, field.read m.mem (m.reg .esp) = frame field) :
    run restoreCode m = { m with
      reg := restoredReg frame (m.reg .esp + 44#32)
      seg := Function.update (restoredSeg frame (m.seg .ss)) .cs (m.seg .cs)
      eflags := addFlags m.eflags (m.reg .esp + 36#32) 8#32
      reads := frameReads restoredFields (m.reg .esp) ++ m.reads } := by
  have ds : read32 m.mem (m.reg .esp) = frame .ds := by
    have start : TrapField.ds.offset = 0#32 := rfl
    simpa [TrapField.read, start] using fields .ds (by decide)
  have edi : read32 m.mem (m.reg .esp + 4#32) = frame .edi := fields .edi (by decide)
  have esi : read32 m.mem (m.reg .esp + 8#32) = frame .esi := fields .esi (by decide)
  have ebp : read32 m.mem (m.reg .esp + 12#32) = frame .ebp := fields .ebp (by decide)
  have ebx : read32 m.mem (m.reg .esp + 20#32) = frame .ebx := fields .ebx (by decide)
  have edx : read32 m.mem (m.reg .esp + 24#32) = frame .edx := fields .edx (by decide)
  have ecx : read32 m.mem (m.reg .esp + 28#32) = frame .ecx := fields .ecx (by decide)
  have eax : read32 m.mem (m.reg .esp + 32#32) = frame .eax := fields .eax (by decide)
  simp [restoreCode, run, exec, popAll, Core.popReg, Core.top, Core.drop, Core.setReg, Core.setSeg, BitVec.add_assoc, ds,
    edi, esi, ebp, ebx, edx, ecx, eax, frameReads, restoredFields, TrapField.offset]
  refine ⟨?_, ?_, by decide⟩
  · funext r
    cases r <;> simp [restoredReg]
  · funext s
    cases s <;> simp [restoredSeg]

/-- The selector in the frame goes into four registers. -/
theorem attempt_restoreCode (m : Core) {frame : TrapFrame}
    (fields : ∀ field ∈ restoredFields, field.read m.mem (m.reg .esp) = frame field)
    (data : m.admits ((frame .ds).setWidth 16) = true) : attempt restoreCode m = some (run restoreCode m) := by
  have ds : read32 m.mem (m.reg .esp) = frame .ds := by
    have start : TrapField.ds.offset = 0#32 := rfl
    simpa [TrapField.read, start] using fields .ds (by decide)
  have loads (n : Core) (gdt : n.gdt = m.gdt) (cs : n.seg .cs = m.seg .cs) (eax : n.reg .eax = frame .ds) (s : Seg)
      (member : s ∈ [Seg.ds, .es, .fs, .gs]) : permits n (.movToSeg s .eax) = true := by
    have admitted : n.admits ((n.reg .eax).setWidth 16) = true := by
      rw [eax, Core.admits_congr gdt cs]
      exact data
    simp only [List.mem_cons, List.not_mem_nil, or_false] at member
    rcases member with rfl | rfl | rfl | rfl <;> exact admitted
  have popped : (exec m (.pop .eax)).reg .eax = frame .ds := by simp [exec, Core.popReg, Core.top, ds]
  refine (attempt_cons _ rfl).trans ?_
  refine (attempt_cons _ (loads _ (by rfl) (by rfl) (by exact popped) .ds (by decide))).trans ?_
  refine (attempt_cons _ (loads _ (by rfl) (by rfl) (by exact popped) .es (by decide))).trans ?_
  refine (attempt_cons _ (loads _ (by rfl) (by rfl) (by exact popped) .fs (by decide))).trans ?_
  exact attempt_cons _ (loads _ (by rfl) (by rfl) (by exact popped) .gs (by decide))

/-- `trapret` on a frame built by a trap at level 0: the stack ends up right above EFLAGS. -/
theorem attempt_trapret_same (m : Core) {frame : TrapFrame}
    (fields : ∀ field ∈ sameLevelFields, field.read m.mem (m.reg .esp) = frame field)
    (kernel : rpl (m.seg .cs) = 0#2) (single : m.eflags.getLsbD flagNt = false)
    (real : (legalFlags (frame .eflags)).getLsbD flagVm = false) (level : rpl ((frame .cs).setWidth 16) = 0#2)
    (code : (m.access ((frame .cs).setWidth 16)).any (Access.returnable ((frame .cs).setWidth 16)) = true)
    (data : m.usable 0#2 ((frame .ds).setWidth 16) = true) :
    attempt trapretCode m = some { m with
      reg := restoredReg frame (m.reg .esp + 56#32)
      seg := restoredSeg frame (m.seg .ss)
      eip := frame .eip
      eflags := legalFlags (frame .eflags)
      reads := frameReads sameLevelFields (m.reg .esp) ++ m.reads } := by
  have fields' : ∀ field ∈ restoredFields, field.read m.mem (m.reg .esp) = frame field :=
    fun field member => fields field (List.mem_append_left _ member)
  have restored := run_restoreCode m fields'
  have last : Holds m.mem (m.reg .esp + 44#32) [frame .eip, frame .cs, frame .eflags] := by
    simp only [Holds, BitVec.add_assoc]
    exact ⟨fields .eip (by decide), fields .cs (by decide), fields .eflags (by decide), trivial⟩
  have words : Holds (run restoreCode m).mem ((run restoreCode m).reg .esp) [frame .eip, frame .cs, frame .eflags] := by
    rw [restored]
    exact last
  have inner : rpl ((frame .cs).setWidth 16) = rpl ((run restoreCode m).seg .cs) := by simpa [restored, kernel] using level
  have returns : permits (run restoreCode m) .iret = true := by
    refine Core.returns_same _ words ?_ inner ?_
    · rw [restored]
      exact (addFlags_nested _ _ _).trans single
    · rw [restored]
      exact code
  have back := Core.iret_same (run restoreCode m) words real inner
  have tail : frameReads [.eip, .cs, .eflags] (m.reg .esp) =
      [m.reg .esp + 52#32, m.reg .esp + 48#32, m.reg .esp + 44#32] := rfl
  rw [trapretCode, attempt_append, attempt_restoreCode m fields' (Core.usable_admits data (by rw [kernel]; exact Nat.le_refl _)),
    Option.bind_some, attempt_cons _ returns, attempt]
  change some (run restoreCode m).iret = _
  rw [back, restored]
  simp [restoredReg, sameLevelFields, frameReads_append, tail, BitVec.add_assoc]

/-- `trapret` on a full frame. -/
theorem attempt_trapret_outer (m : Core) {frame : TrapFrame}
    (fields : ∀ field ∈ outerLevelFields, field.read m.mem (m.reg .esp) = frame field)
    (kernel : rpl (m.seg .cs) = 0#2) (single : m.eflags.getLsbD flagNt = false) (outer : OuterFrame m frame) :
    attempt trapretCode m = some { m with
      reg := restoredReg frame (frame .esp)
      seg := restoredSeg frame ((frame .ss).setWidth 16)
      eip := frame .eip
      eflags := legalFlags (frame .eflags)
      reads := frameReads outerLevelFields (m.reg .esp) ++ m.reads } := by
  have fields' : ∀ field ∈ restoredFields, field.read m.mem (m.reg .esp) = frame field :=
    fun field member => fields field (List.mem_append_left _ member)
  have restored := run_restoreCode m fields'
  have last : Holds m.mem (m.reg .esp + 44#32) [frame .eip, frame .cs, frame .eflags, frame .esp, frame .ss] := by
    simp only [Holds, BitVec.add_assoc]
    exact ⟨fields .eip (by decide), fields .cs (by decide), fields .eflags (by decide), fields .esp (by decide),
      fields .ss (by decide), trivial⟩
  have words : Holds (run restoreCode m).mem ((run restoreCode m).reg .esp)
      [frame .eip, frame .cs, frame .eflags, frame .esp, frame .ss] := by
    rw [restored]
    exact last
  have returns : permits (run restoreCode m) .iret = true := by
    refine Core.returns_outer _ words ?_ ?_ ?_ ?_
    · rw [restored]
      exact (addFlags_nested _ _ _).trans single
    · simpa [restored] using kernel
    · rw [restored]
      exact outer.code
    · rw [restored]
      exact outer.stack
  have back := Core.iret_outer (run restoreCode m) words ((legalFlags_vm _).trans outer.real)
    (by simpa [restored, kernel] using outer.outer) (by
    intro s member
    rw [restored]
    simp only [List.mem_cons, List.not_mem_nil, or_false] at member
    rcases member with rfl | rfl | rfl | rfl <;> exact outer.data)
  have tail : frameReads [.eip, .cs, .eflags, .esp, .ss] (m.reg .esp) =
      [m.reg .esp + 60#32, m.reg .esp + 56#32, m.reg .esp + 52#32, m.reg .esp + 48#32, m.reg .esp + 44#32] := rfl
  rw [trapretCode, attempt_append,
    attempt_restoreCode m fields' (Core.usable_admits outer.data (by rw [kernel]; exact Nat.zero_le _)),
    Option.bind_some, attempt_cons _ returns, attempt]
  change some (run restoreCode m).iret = _
  rw [back, restored]
  simp [restoredReg, outerLevelFields, frameReads_append, tail, BitVec.add_assoc]

end OsDev.Kernel.Isr
