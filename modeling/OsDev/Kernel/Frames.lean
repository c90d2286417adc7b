import OsDev.Machine.Memory

/-! The two records the assembly code and the C code share on a kernel stack:
`struct interrupt_state` (kernel/idt.h) and `struct context` (kernel/proc.h). -/

namespace OsDev.Kernel.Frames
open OsDev.Machine.Memory

/-- The members of `struct interrupt_state`, in order. -/
inductive TrapField where
  | ds
  | edi
  | esi
  | ebp
  | useless
  | ebx
  | edx
  | ecx
  | eax
  | intNo
  | errCode
  | eip
  | cs
  | eflags
  | esp
  | ss
  deriving DecidableEq, Repr

/-- The members of `struct context`, in order. -/
inductive ContextField where
  | edi
  | esi
  | ebx
  | ebp
  | eip
  deriving DecidableEq, Repr

def TrapField.offset (field : TrapField) : Addr := BitVec.ofNat 32 (4 * field.ctorIdx)
def ContextField.offset (field : ContextField) : Addr := BitVec.ofNat 32 (4 * field.ctorIdx)

/-- `sizeof(struct interrupt_state)` and `sizeof(struct context)`. -/
def interruptStateSize : Nat := 64
def contextSize : Nat := 20

def TrapField.read (field : TrapField) (m : Mem) (tf : Addr) : Word := read32 m (tf + field.offset)
def ContextField.read (field : ContextField) (m : Mem) (context : Addr) : Word := read32 m (context + field.offset)

abbrev TrapFrame := TrapField → Word
abbrev Context := ContextField → Word

def TrapField.all : List TrapField :=
  [.ds, .edi, .esi, .ebp, .useless, .ebx, .edx, .ecx, .eax, .intNo, .errCode, .eip, .cs, .eflags, .esp, .ss]

def ContextField.all : List ContextField := [.edi, .esi, .ebx, .ebp, .eip]

theorem TrapField.all_index (i : Nat) (field : TrapField) (here : TrapField.all[i]? = some field) :
    field.ctorIdx = i := by
  obtain ⟨bound, rfl⟩ := List.getElem?_eq_some_iff.mp here
  exact (by decide : ∀ i : Fin 16, (TrapField.all.get i).ctorIdx = i) ⟨i, bound⟩

theorem ContextField.all_index (i : Nat) (field : ContextField) (here : ContextField.all[i]? = some field) :
    field.ctorIdx = i := by
  obtain ⟨bound, rfl⟩ := List.getElem?_eq_some_iff.mp here
  exact (by decide : ∀ i : Fin 5, (ContextField.all.get i).ctorIdx = i) ⟨i, bound⟩

theorem holds_trapFrame (m : Mem) (tf : Addr) (frame : TrapFrame) :
    Holds m tf (TrapField.all.map frame) ↔ ∀ field : TrapField, field.read m tf = frame field :=
  holds_record TrapField.all TrapField.ctorIdx (fun field => by cases field <;> rfl) TrapField.all_index m tf frame

theorem holds_context (m : Mem) (a : Addr) (context : Context) :
    Holds m a (ContextField.all.map context) ↔ ∀ field : ContextField, field.read m a = context field :=
  holds_record ContextField.all ContextField.ctorIdx (fun field => by cases field <;> rfl) ContextField.all_index m a
    context

end OsDev.Kernel.Frames
