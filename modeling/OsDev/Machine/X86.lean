import OsDev.Machine.Memory

/-! The part of a 32-bit x86 processor that switching stacks and taking interrupts
depends on. Segments are flat. An instruction that the processor refuses with an
exception has no successor, and neither has a return from a nested task. -/

namespace OsDev.Machine.X86
open OsDev.Machine.Memory

inductive Reg where
  | eax
  | ecx
  | edx
  | ebx
  | esp
  | ebp
  | esi
  | edi
  deriving DecidableEq, Repr

inductive Seg where
  | cs
  | ss
  | ds
  | es
  | fs
  | gs
  deriving DecidableEq, Repr

abbrev Selector := BitVec 16

/-- The privilege level in a selector; the one in CS is the current level. -/
def rpl (selector : Selector) : BitVec 2 := selector.setWidth 2

/-- A selector of the first descriptor selects nothing. -/
def null (selector : Selector) : Bool := decide (selector &&& 0xfffc#16 = 0#16)

/-- The access byte of a descriptor. -/
abbrev Access := BitVec 8

namespace Access

def present (a : Access) : Bool := a.getLsbD 7
def dpl (a : Access) : BitVec 2 := a.extractLsb' 5 2
/-- Neither a system segment nor a gate. -/
def app (a : Access) : Bool := a.getLsbD 4
def code (a : Access) : Bool := a.getLsbD 3
def conforming (a : Access) : Bool := a.code && a.getLsbD 2
/-- A code segment that can be read, a data segment that can be written. -/
def readWrite (a : Access) : Bool := a.getLsbD 1

/-- What DS, ES, FS and GS can be loaded with at a level. -/
def loadable (level : BitVec 2) (selector : Selector) (a : Access) : Bool :=
  a.app && a.present && (!a.code || a.readWrite) &&
    (a.conforming || decide (level ≤ a.dpl) && decide (rpl selector ≤ a.dpl))

/-- What SS can be loaded with at a level. -/
def stackable (level : BitVec 2) (selector : Selector) (a : Access) : Bool :=
  a.app && a.present && !a.code && a.readWrite && decide (rpl selector = level) && decide (a.dpl = level)

/-- What a return can load CS with. -/
def returnable (selector : Selector) (a : Access) : Bool :=
  a.app && a.present && a.code && if a.conforming then decide (a.dpl ≤ rpl selector) else decide (a.dpl = rpl selector)

theorem loadable_inner {level inner : BitVec 2} {selector : Selector} {a : Access} (le : inner ≤ level)
    (outer : a.loadable level selector = true) : a.loadable inner selector = true := by
  simp only [loadable, Bool.and_eq_true, Bool.or_eq_true, decide_eq_true_eq] at outer ⊢
  obtain ⟨kind, conforms | ⟨reach, own⟩⟩ := outer
  · exact ⟨kind, .inl conforms⟩
  · exact ⟨kind, .inr ⟨BitVec.le_trans le reach, own⟩⟩

theorem loadable_kept {level : BitVec 2} {selector : Selector} {a : Access} (outer : a.loadable level selector = true) :
    (!a.conforming && decide (a.dpl < level)) = false := by
  simp only [loadable, Bool.and_eq_true, Bool.or_eq_true, decide_eq_true_eq] at outer
  obtain ⟨-, conforms | ⟨reach, -⟩⟩ := outer
  · rw [conforms]
    rfl
  · rw [decide_eq_false (BitVec.not_lt.mpr reach), Bool.and_false]

end Access

structure Core where
  reg : Reg → Word
  seg : Seg → Selector
  eip : Addr
  eflags : Word
  mem : Mem
  /-- The descriptor table, up to its limit. -/
  gdt : BitVec 13 → Option Access
  /-- The addresses of the words read so far, latest first. -/
  reads : List Addr

def flagNt : Nat := 14
def flagVm : Nat := 17

/-- Bit 1 always reads as one; bits 3, 5, 15 and 22 to 31 always read as zero. -/
def legalFlags (image : Word) : Word := (image &&& 0x3f7fd5#32) ||| 2#32

namespace Core

@[simps -fullyApplied] def setReg (m : Core) (r : Reg) (v : Word) : Core :=
  { m with reg := Function.update m.reg r v }

@[simps -fullyApplied] def setSeg (m : Core) (s : Seg) (v : Selector) : Core :=
  { m with seg := Function.update m.seg s v }

def top (m : Core) : Word := read32 m.mem (m.reg .esp)

/-- The stack without its top word, which was read. -/
@[simps -fullyApplied] def drop (m : Core) : Core :=
  { m with reg := Function.update m.reg .esp (m.reg .esp + 4#32), reads := m.reg .esp :: m.reads }

@[simps -fullyApplied] def push (m : Core) (v : Word) : Core :=
  { m with
    reg := Function.update m.reg .esp (m.reg .esp - 4#32)
    mem := write32 m.mem (m.reg .esp - 4#32) v }

/-- Push in the order of the list, so that its last word ends up on top. -/
def pushAll (m : Core) (words : List Word) : Core := words.foldl push m

def popReg (m : Core) (r : Reg) : Core := m.drop.setReg r m.top
def popSeg (m : Core) (s : Seg) : Core := m.drop.setSeg s (m.top.setWidth 16)
def popEip (m : Core) : Core := { m.drop with eip := m.top }
def popEflags (m : Core) : Core := { m.drop with eflags := legalFlags m.top }

/-- The descriptor of a selector. There is no local table. -/
def access (m : Core) (selector : Selector) : Option Access :=
  if null selector || selector.getLsbD 2 then none else m.gdt (selector.extractLsb' 3 13)

/-- Whether DS, ES, FS and GS can be loaded with the selector. -/
def admits (m : Core) (selector : Selector) : Bool :=
  null selector || (m.access selector).any (Access.loadable (rpl (m.seg .cs)) selector)

/-- What a data segment register can hold at a level. -/
def usable (m : Core) (level : BitVec 2) (selector : Selector) : Bool :=
  decide (selector = 0#16) || (m.access selector).any (Access.loadable level selector)

/-- On the way to an outer level the data segments that it may not use are cleared. -/
def outward (m : Core) : Core :=
  let lost (s : Seg) : Bool := null (m.seg s) ||
    (m.access (m.seg s)).any fun a => !a.conforming && decide (a.dpl < rpl (m.seg .cs))
  { m with seg := fun s => if s ∈ [.ds, .es, .fs, .gs] ∧ lost s = true then 0#16 else m.seg s }

/-- The return from an interrupt, at level 0. An image of the flags with VM set goes
to virtual 8086 mode, which takes its segments off the stack too. A return to the
same level leaves the stack where it is. -/
def iret (m : Core) : Core :=
  let back := (m.popEip.popSeg .cs).popEflags
  if back.eflags.getLsbD flagVm then
    (((((back.drop.popSeg .ss).popSeg .es).popSeg .ds).popSeg .fs).popSeg .gs).setReg .esp back.top
  else if rpl (back.seg .cs) = rpl (m.seg .cs) then back
  else ((back.drop.popSeg .ss).setReg .esp back.top).outward

/-- Whether the processor lets `iret` go back where the stack tells it to. -/
def returns (m : Core) : Bool :=
  let back := (m.popEip.popSeg .cs).popEflags
  let cs := back.seg .cs
  let ss := (back.drop.popSeg .ss).seg .ss
  !m.eflags.getLsbD flagNt && (back.eflags.getLsbD flagVm ||
    (decide (rpl (m.seg .cs) ≤ rpl cs) && (m.access cs).any (Access.returnable cs) &&
      (decide (rpl cs = rpl (m.seg .cs)) || (m.access ss).any (Access.stackable (rpl cs) ss))))

end Core

/-- The arithmetic flags after an addition: CF, PF, AF, ZF, SF and OF. -/
def addFlags (flags a b : Word) : Word :=
  let sum := a + b
  let parity := (List.range 8).foldl (fun even i => even ^^ sum.getLsbD i) true
  let bit (value : Bool) (position : Nat) : Word := (BitVec.ofBool value).setWidth 32 <<< position
  (flags &&& 0xfffff72a#32) ||| bit (BitVec.carry 32 a b false) 0 ||| bit parity 2 |||
    bit (BitVec.carry 4 a b false) 4 ||| bit (decide (sum = 0#32)) 6 ||| bit sum.msb 7 |||
    bit (a.msb == b.msb && sum.msb != a.msb) 11

theorem addFlags_nested (flags a b : Word) : (addFlags flags a b).getLsbD flagNt = flags.getLsbD flagNt := by
  simp [addFlags, flagNt]

inductive Instr where
  | mov (dst src : Reg)
  | load (dst base : Reg) (disp : Word)
  | store (base src : Reg)
  | push (src : Reg)
  | pushImm (value : Word)
  | pop (dst : Reg)
  | pushad
  | popad
  | movFromSeg (dst : Reg) (src : Seg)
  | movLow (dst : Reg) (value : BitVec 16)
  | movToSeg (dst : Seg) (src : Reg)
  | add (dst : Reg) (value : Word)
  | cld
  | call (target next : Addr)
  | ret
  | iret
  deriving DecidableEq, Repr

/-- `popad` goes through the registers of `pushad` in reverse and skips ESP. -/
def popAll (m : Core) : Core :=
  let low := ((m.popReg .edi).popReg .esi).popReg .ebp
  let skipped := low.setReg .esp (low.reg .esp + 4#32)
  (((skipped.popReg .ebx).popReg .edx).popReg .ecx).popReg .eax

def exec (m : Core) : Instr → Core
  | .mov dst src => m.setReg dst (m.reg src)
  | .load dst base disp =>
      { m.setReg dst (read32 m.mem (m.reg base + disp)) with reads := (m.reg base + disp) :: m.reads }
  | .store base src => { m with mem := write32 m.mem (m.reg base) (m.reg src) }
  | .push src => m.push (m.reg src)
  | .pushImm value => m.push value
  | .pop dst => m.popReg dst
  | .pushad => m.pushAll ([.eax, .ecx, .edx, .ebx, .esp, .ebp, .esi, .edi].map m.reg)
  | .popad => popAll m
  | .movFromSeg dst src => m.setReg dst ((m.seg src).setWidth 32)
  | .movLow dst value => m.setReg dst ((m.reg dst).extractLsb' 16 16 ++ value)
  | .movToSeg dst src => m.setSeg dst ((m.reg src).setWidth 16)
  | .add dst value => { m.setReg dst (m.reg dst + value) with eflags := addFlags m.eflags (m.reg dst) value }
  | .cld => { m with eflags := m.eflags &&& ~~~0x400#32 }
  | .call target next => { m.push next with eip := target }
  | .ret => m.popEip
  | .iret => m.iret

/-- Whether an instruction goes through. -/
def permits (m : Core) : Instr → Bool
  | .movToSeg .cs _ => false
  | .movToSeg .ss src =>
      (m.access ((m.reg src).setWidth 16)).any (Access.stackable (rpl (m.seg .cs)) ((m.reg src).setWidth 16))
  | .movToSeg _ src => m.admits ((m.reg src).setWidth 16)
  | .iret => m.returns
  | _ => true

def run (code : List Instr) (m : Core) : Core := code.foldl exec m

/-- The code up to its end, unless the processor refuses an instruction on the way. -/
def attempt : List Instr → Core → Option Core
  | [], m => some m
  | i :: rest, m => if permits m i then attempt rest (exec m i) else none

theorem run_cons (m : Core) (i : Instr) (rest : List Instr) : run (i :: rest) m = run rest (exec m i) := rfl

theorem run_append (m : Core) (first second : List Instr) : run (first ++ second) m = run second (run first m) :=
  List.foldl_append

theorem attempt_cons {m : Core} {i : Instr} (rest : List Instr) (permitted : permits m i = true) :
    attempt (i :: rest) m = attempt rest (exec m i) := by
  rw [attempt, if_pos permitted]

/-- Code that goes through does what it does without the checks. -/
theorem attempt_run {code : List Instr} {m n : Core} (ran : attempt code m = some n) : run code m = n := by
  induction code generalizing m with
  | nil => exact Option.some.inj ran
  | cons i rest ih =>
    rw [attempt] at ran
    split at ran
    · exact ih ran
    · cases ran

theorem attempt_append (first second : List Instr) (m : Core) :
    attempt (first ++ second) m = (attempt first m).bind (attempt second) := by
  induction first generalizing m with
  | nil => rfl
  | cons i rest ih =>
    simp only [List.cons_append, attempt]
    split
    · exact ih (exec m i)
    · rfl

structure Gate where
  selector : Selector
  offset : Addr
  /-- An interrupt gate clears IF, a trap gate does not. -/
  masks : Bool

/-- The stack for level 0, from the task state segment. -/
structure Tss where
  ss0 : Selector
  esp0 : Addr

/-- The flags in the handler: TF, NT, RF and VM are clear, and IF where the gate masks interrupts. -/
def handlerFlags (gate : Gate) (flags : Word) : Word :=
  if gate.masks then flags &&& ~~~0x34300#32 else flags &&& ~~~0x34100#32

/-- The image of the flags that is pushed. RF is set in it when the interrupted instruction is to be resumed. -/
def imageFlags (resumes : Bool) (flags : Word) : Word := if resumes then flags ||| 0x10000#32 else flags

/-- Whether the processor can go through a gate to level 0. -/
def accepts (gate : Gate) (tss : Tss) (m : Core) : Bool :=
  (m.access gate.selector).any (fun a => a.app && a.present && a.code && !a.conforming && decide (a.dpl = 0#2)) &&
    (decide (rpl (m.seg .cs) = 0#2) || (m.access tss.ss0).any (Access.stackable 0#2 tss.ss0))

/-- Going through a gate to level 0, out of protected mode. From an outer level the
processor first switches to the stack of the task state segment. -/
def deliver (gate : Gate) (tss : Tss) (error : Option Word) (resumes : Bool) (m : Core) : Core :=
  let inner := if rpl (m.seg .cs) = 0#2 then m else
    ((m.setSeg .ss tss.ss0).setReg .esp tss.esp0).pushAll [(m.seg .ss).setWidth 32, m.reg .esp]
  let saved := inner.pushAll ([imageFlags resumes m.eflags, (m.seg .cs).setWidth 32, m.eip] ++ error.toList)
  { saved.setSeg .cs (gate.selector &&& 0xfffc#16) with eip := gate.offset, eflags := handlerFlags gate m.eflags }

namespace Core

@[simp] theorem pushAll_nil (m : Core) : m.pushAll [] = m := rfl

@[simp] theorem pushAll_cons (m : Core) (w : Word) (rest : List Word) :
    m.pushAll (w :: rest) = (m.push w).pushAll rest := rfl

/-- Pushing leaves alone what one push leaves alone. -/
theorem pushAll_keeps {α : Type} (part : Core → α) (kept : ∀ m w, part (m.push w) = part m) (m : Core) (words : List Word) :
    part (m.pushAll words) = part m := by
  induction words generalizing m with
  | nil => rfl
  | cons w rest ih => exact (ih (m.push w)).trans (kept m w)

theorem pushAll_seg (m : Core) (words : List Word) : (m.pushAll words).seg = m.seg := pushAll_keeps seg (fun _ _ => rfl) m words

theorem pushAll_gdt (m : Core) (words : List Word) : (m.pushAll words).gdt = m.gdt := pushAll_keeps gdt (fun _ _ => rfl) m words

theorem pushAll_eflags (m : Core) (words : List Word) : (m.pushAll words).eflags = m.eflags :=
  pushAll_keeps eflags (fun _ _ => rfl) m words

theorem pushAll_reg (m : Core) (words : List Word) (r : Reg) (other : r ≠ .esp) : (m.pushAll words).reg r = m.reg r := by
  induction words generalizing m with
  | nil => rfl
  | cons w rest ih => exact (ih (m.push w)).trans (Function.update_of_ne other ..)

theorem pushAll_esp (m : Core) (words : List Word) :
    (m.pushAll words).reg .esp = m.reg .esp - BitVec.ofNat 32 (4 * words.length) := by
  induction words generalizing m with
  | nil => simp
  | cons w rest ih =>
    rw [pushAll_cons, ih]
    simp only [push_reg, Function.update_self, List.length_cons]
    bv_omega

/-- Pushing changes memory only where the new words go. -/
theorem pushAll_outside (m : Core) (words : List Word) (bound : 4 * words.length ≤ 2 ^ 32) :
    Set.EqOn (m.pushAll words).mem m.mem
      (span (m.reg .esp - BitVec.ofNat 32 (4 * words.length)) (4 * words.length))ᶜ := by
  induction words generalizing m with
  | nil => exact fun x _ => rfl
  | cons w rest ih =>
    simp only [List.length_cons] at bound ⊢
    have later := ih (m.push w) (by omega)
    intro x outside
    simp only [push_reg, Function.update_self, Set.mem_compl_iff, mem_span] at later outside
    calc (m.pushAll (w :: rest)).mem x = (m.push w).mem x := by
          apply later
          simp only [Set.mem_compl_iff, mem_span]
          bv_omega
      _ = m.mem x := by
          apply write32_outside
          simp only [Set.mem_compl_iff, mem_span]
          bv_omega

/-- The pushed words stand above each other on top of what was there. -/
theorem pushAll_holds (m : Core) (words below : List Word) (bound : 4 * (words.length + below.length) ≤ 2 ^ 32)
    (holds : Holds m.mem (m.reg .esp) below) :
    Holds (m.pushAll words).mem ((m.pushAll words).reg .esp) (words.reverse ++ below) := by
  induction words generalizing m below with
  | nil => exact holds
  | cons w rest ih =>
    simp only [List.length_cons] at bound
    have step : Holds (m.push w).mem ((m.push w).reg .esp) (w :: below) := by
      simp only [push_mem, push_reg, Function.update_self, Holds, read32_write32_self, BitVec.sub_add_cancel, true_and]
      apply holds_congr _ (by omega) holds
      apply (write32_outside m.mem _ w).mono
      intro x inside
      simp only [Set.mem_compl_iff, mem_span] at inside ⊢
      bv_omega
    have later := ih (m.push w) (w :: below) (by simp only [List.length_cons]; omega) step
    simpa using later

/-- The descriptors and the current level are all that the checks on a selector look at. -/
theorem admits_congr {m n : Core} (gdt : n.gdt = m.gdt) (cs : n.seg .cs = m.seg .cs) (selector : Selector) :
    n.admits selector = m.admits selector := by
  rw [admits, admits, access, access, gdt, cs]

/-- A selector without a descriptor is the null selector, or refused. -/
theorem access_null {m : Core} {selector : Selector} (nothing : null selector = true) : m.access selector = none := by
  rw [access, nothing, Bool.true_or, if_pos rfl]

theorem null_of_any {m : Core} {selector : Selector} {test : Access → Bool} (found : (m.access selector).any test = true) :
    null selector = false := by
  cases nothing : null selector with
  | false => rfl
  | true =>
    rw [access_null nothing] at found
    cases found

theorem usable_admits {m : Core} {level : BitVec 2} {selector : Selector} (usable : m.usable level selector = true)
    (inner : rpl (m.seg .cs) ≤ level) : m.admits selector = true := by
  rw [Core.usable, Bool.or_eq_true] at usable
  rcases usable with zero | found
  · rw [of_decide_eq_true zero]
    rfl
  · obtain ⟨a, here, loadable⟩ := (Option.any_eq_true _ _).mp found
    rw [admits, here, Option.any_some, Access.loadable_inner inner loadable, Bool.or_true]

/-- A data segment register that the outer level may use is kept. -/
theorem outward_usable {m : Core} (usable : ∀ s ∈ [Seg.ds, .es, .fs, .gs], m.usable (rpl (m.seg .cs)) (m.seg s) = true) :
    m.outward = m := by
  have kept (s : Seg) : m.outward.seg s = m.seg s := by
    simp only [outward]
    split
    next lost =>
      have here := usable s lost.1
      rw [Core.usable, Bool.or_eq_true] at here
      rcases here with zero | found
      · exact (of_decide_eq_true zero).symm
      · have selects := null_of_any found
        obtain ⟨a, here, loadable⟩ := (Option.any_eq_true _ _).mp found
        have cleared := lost.2
        rw [selects, here, Option.any_some, Bool.false_or, Access.loadable_kept loadable] at cleared
        cases cleared
    next => rfl
  exact congrArg (fun seg => { m with seg := seg }) (funext kept)

/-- A return to the level of the interrupt's handler. -/
theorem iret_same (m : Core) {eip cs flags : Word} (words : Holds m.mem (m.reg .esp) [eip, cs, flags])
    (real : (legalFlags flags).getLsbD flagVm = false) (level : rpl (cs.setWidth 16) = rpl (m.seg .cs)) :
    m.iret = { m with
      reg := Function.update m.reg .esp (m.reg .esp + 12#32)
      seg := Function.update m.seg .cs (cs.setWidth 16)
      eip := eip
      eflags := legalFlags flags
      reads := [m.reg .esp + 8#32, m.reg .esp + 4#32, m.reg .esp] ++ m.reads } := by
  have first : read32 m.mem (m.reg .esp) = eip := words.1
  have second : read32 m.mem (m.reg .esp + 4#32) = cs := words.read 1 rfl
  have third : read32 m.mem (m.reg .esp + 8#32) = flags := words.read 2 rfl
  simp [iret, popEip, popSeg, popEflags, top, setSeg, drop, BitVec.add_assoc, first, second, third, real, level]

/-- A return to an outer level that may use the data segments. -/
theorem iret_outer (m : Core) {eip cs flags esp ss : Word} (words : Holds m.mem (m.reg .esp) [eip, cs, flags, esp, ss])
    (real : (legalFlags flags).getLsbD flagVm = false) (level : rpl (cs.setWidth 16) ≠ rpl (m.seg .cs))
    (data : ∀ s ∈ [Seg.ds, .es, .fs, .gs], m.usable (rpl (cs.setWidth 16)) (m.seg s) = true) :
    m.iret = { m with
      reg := Function.update m.reg .esp esp
      seg := Function.update (Function.update m.seg .cs (cs.setWidth 16)) .ss (ss.setWidth 16)
      eip := eip
      eflags := legalFlags flags
      reads := [m.reg .esp + 16#32, m.reg .esp + 12#32, m.reg .esp + 8#32, m.reg .esp + 4#32, m.reg .esp] ++ m.reads } := by
  have first : read32 m.mem (m.reg .esp) = eip := words.1
  have second : read32 m.mem (m.reg .esp + 4#32) = cs := words.read 1 rfl
  have third : read32 m.mem (m.reg .esp + 8#32) = flags := words.read 2 rfl
  have fourth : read32 m.mem (m.reg .esp + 12#32) = esp := words.read 3 rfl
  have fifth : read32 m.mem (m.reg .esp + 16#32) = ss := words.read 4 rfl
  simp [iret, popEip, popSeg, popEflags, top, setReg, setSeg, drop, BitVec.add_assoc, first, second, third, fourth, fifth,
    real, level]
  apply outward_usable
  intro s member
  have same := data s member
  simp only [List.mem_cons, List.not_mem_nil, or_false] at member
  rcases member with rfl | rfl | rfl | rfl <;> exact same

/-- The processor returns to the level of the handler. -/
theorem returns_same (m : Core) {eip cs flags : Word} (words : Holds m.mem (m.reg .esp) [eip, cs, flags])
    (single : m.eflags.getLsbD flagNt = false) (level : rpl (cs.setWidth 16) = rpl (m.seg .cs))
    (code : (m.access (cs.setWidth 16)).any (Access.returnable (cs.setWidth 16)) = true) : m.returns = true := by
  have second : read32 m.mem (m.reg .esp + 4#32) = cs := words.read 1 rfl
  simp [returns, popEip, popSeg, popEflags, top, setSeg, drop, second, single, level, code]

/-- From level 0 the processor returns to an outer level. -/
theorem returns_outer (m : Core) {eip cs flags esp ss : Word} (words : Holds m.mem (m.reg .esp) [eip, cs, flags, esp, ss])
    (single : m.eflags.getLsbD flagNt = false) (kernel : rpl (m.seg .cs) = 0#2)
    (code : (m.access (cs.setWidth 16)).any (Access.returnable (cs.setWidth 16)) = true)
    (stack : (m.access (ss.setWidth 16)).any (Access.stackable (rpl (cs.setWidth 16)) (ss.setWidth 16)) = true) :
    m.returns = true := by
  have second : read32 m.mem (m.reg .esp + 4#32) = cs := words.read 1 rfl
  have fifth : read32 m.mem (m.reg .esp + 16#32) = ss := words.read 4 rfl
  simp [returns, popEip, popSeg, popEflags, top, setSeg, drop, BitVec.add_assoc, second, fifth, single, kernel, code, stack]
  exact .inr (Nat.zero_le _)

end Core

end OsDev.Machine.X86
