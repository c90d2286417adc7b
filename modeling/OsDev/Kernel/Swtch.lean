import OsDev.Machine.X86
import OsDev.Kernel.Frames

/-! The context switch (kernel/swtch.asm). -/

namespace OsDev.Kernel.Swtch
open OsDev.Machine.Memory OsDev.Machine.X86 OsDev.Kernel.Frames

def saveCode : List Instr := [
  .load .eax .esp 4#32,
  .load .edx .esp 8#32,
  .push .ebp,
  .push .ebx,
  .push .esi,
  .push .edi,
  .store .eax .esp,
  .mov .esp .edx]

def loadCode : List Instr := [.pop .edi, .pop .esi, .pop .ebx, .pop .ebp, .ret]

def swtch (m : Core) : Core := run (saveCode ++ loadCode) m

/-- The four registers on the stack of the caller. -/
def pushed (m : Core) : Core := m.pushAll [m.reg .ebp, m.reg .ebx, m.reg .esi, m.reg .edi]

/-- The memory once `*old` points to them. -/
def saved (m : Core) (old : Addr) : Mem := write32 (pushed m).mem old (m.reg .esp - 16#32)

/-- What a suspended caller of `swtch` needs to go on: its own registers and where it was called from. -/
def callerContext (m : Core) : Context
  | .edi => m.reg .edi
  | .esi => m.reg .esi
  | .ebx => m.reg .ebx
  | .ebp => m.reg .ebp
  | .eip => m.top

/-- The registers once a context is popped off the stack. -/
def loaded (reg : Reg → Word) (context : Context) : Reg → Word
  | .edi => context .edi
  | .esi => context .esi
  | .ebx => context .ebx
  | .ebp => context .ebp
  | .esp => reg .esp + 20#32
  | r => reg r

theorem run_saveCode (m : Core) {old new ret : Word} (call : Holds m.mem (m.reg .esp) [ret, old, new]) :
    run saveCode m = { m with
      reg := Function.update (Function.update (Function.update m.reg .eax old) .edx new) .esp new
      mem := saved m old
      reads := [m.reg .esp + 8#32, m.reg .esp + 4#32] ++ m.reads } := by
  have first : read32 m.mem (m.reg .esp + 4#32) = old := call.read 1 rfl
  have second : read32 m.mem (m.reg .esp + 8#32) = new := call.read 2 rfl
  have below : m.reg .esp - 4#32 - 4#32 - 4#32 - 4#32 = m.reg .esp - 16#32 := by bv_omega
  simp [saveCode, run, exec, first, second, saved, pushed, Core.pushAll, Core.push, Core.setReg, below]

theorem run_loadCode (m : Core) {context : Context}
    (words : Holds m.mem (m.reg .esp) (ContextField.all.map context)) :
    run loadCode m = { m with
      reg := loaded m.reg context
      eip := context .eip
      reads := [m.reg .esp + 16#32, m.reg .esp + 12#32, m.reg .esp + 8#32, m.reg .esp + 4#32, m.reg .esp] ++ m.reads } := by
  have edi : read32 m.mem (m.reg .esp) = context .edi := words.1
  have esi : read32 m.mem (m.reg .esp + 4#32) = context .esi := words.read 1 rfl
  have ebx : read32 m.mem (m.reg .esp + 8#32) = context .ebx := words.read 2 rfl
  have ebp : read32 m.mem (m.reg .esp + 12#32) = context .ebp := words.read 3 rfl
  have eip : read32 m.mem (m.reg .esp + 16#32) = context .eip := words.read 4 rfl
  simp [loadCode, run, exec, Core.popReg, Core.popEip, Core.top, Core.drop, Core.setReg, BitVec.add_assoc, edi, esi, ebx,
    ebp, eip]
  funext r
  cases r <;> simp [loaded]

theorem run_swtch (m : Core) {old new ret : Word} {context : Context}
    (call : Holds m.mem (m.reg .esp) [ret, old, new]) (words : Holds (saved m old) new (ContextField.all.map context)) :
    swtch m = { m with
      reg := loaded (Function.update (Function.update (Function.update m.reg .eax old) .edx new) .esp new) context
      eip := context .eip
      mem := saved m old
      reads := [new + 16#32, new + 12#32, new + 8#32, new + 4#32, new] ++
        ([m.reg .esp + 8#32, m.reg .esp + 4#32] ++ m.reads) } := by
  rw [swtch, run_append, run_saveCode m call]
  exact run_loadCode _ words

theorem saved_slot (m : Core) (old : Addr) : read32 (saved m old) old = m.reg .esp - 16#32 := read32_write32_self _ _ _

theorem saved_outside (m : Core) (old : Addr) :
    Set.EqOn (saved m old) m.mem (span (m.reg .esp - 16#32) 16 ∪ span old 4)ᶜ := by
  intro x outside
  simp only [Set.compl_union, Set.mem_inter_iff] at outside
  calc saved m old x = (pushed m).mem x := write32_outside _ _ _ outside.2
    _ = m.mem x := Core.pushAll_outside m _ (by simp) outside.1

/-- The saved words are the members of a `struct context`, in its order. -/
theorem saved_context (m : Core) (old : Addr) (apart : Disjoint (span (m.reg .esp - 16#32) 20) (span old 4)) :
    Holds (saved m old) (m.reg .esp - 16#32) (ContextField.all.map (callerContext m)) := by
  have words : Holds (pushed m).mem ((pushed m).reg .esp) (ContextField.all.map (callerContext m)) :=
    Core.pushAll_holds m [m.reg .ebp, m.reg .ebx, m.reg .esi, m.reg .edi] [m.top] (by simp) ⟨rfl, trivial⟩
  have place : (pushed m).reg .esp = m.reg .esp - 16#32 := Core.pushAll_esp m _
  rw [place] at words
  apply holds_congr _ (by simp [ContextField.all]) words
  exact (write32_outside _ old _).mono (Set.subset_compl_iff_disjoint_right.mpr apart)

end OsDev.Kernel.Swtch
