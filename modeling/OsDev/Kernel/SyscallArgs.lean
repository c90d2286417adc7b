import OsDev.Kernel.Syscall
import OsDev.Machine.X86

/-! Which arguments of a system call the kernel accepts. -/

namespace OsDev.Kernel.SyscallArgs
open OsDev.Machine.Memory OsDev.Machine.Program OsDev.Machine.X86 OsDev.Kernel.Mmu OsDev.Kernel.StringLib
  OsDev.Kernel.State OsDev.Kernel.Frames OsDev.Kernel.Proc OsDev.Kernel.Syscall

section Arguments
variable {u : Mem} {proc : Slot} {s : KernelState}

theorem argAddr_toNat (s : KernelState) (proc : Slot) (n : Word) : (argAddr s proc n).toNat =
    ((TrapField.esp.read s.mem (s.ptable proc).tf).toNat + 4 * (1 + n.toNat)) % 2 ^ 32 := by
  simp only [argAddr, CDECL_ARG, BitVec.toNat_add, BitVec.toNat_mul, BitVec.toNat_ofNat]
  omega

/-- A caller in C pushes the arguments, last one first, and calls a wrapper of
user/syscall.asm, which loads the number. This is the stack the trap saves. -/
def userCall (m : Core) (num ret : Word) (args : List Word) : Core := (m.pushAll (args.reverse ++ [ret])).setReg .eax num

theorem userCall_argument (m : Core) (num ret : Word) (args : List Word) (n : Nat) {w : Word}
    (bound : 4 * (args.length + 1) ≤ 2 ^ 32) (found : args[n]? = some w) :
    read32 (userCall m num ret args).mem ((userCall m num ret args).reg .esp + BitVec.ofNat 32 (4 * (1 + n))) = w := by
  have words := Core.pushAll_holds m (args.reverse ++ [ret]) [] (by simpa using bound) trivial
  simp only [List.reverse_append, List.reverse_cons, List.reverse_nil, List.nil_append, List.reverse_reverse,
    List.append_nil] at words
  have here := words.read (1 + n) (by rw [Nat.add_comm]; simpa using found)
  simpa [userCall] using here

/-- What `fetchstr` accepts: a string with its terminator inside the process. -/
theorem strAt_eq_some {sz addr len a : Word} : strAt u sz addr = some (len, a) ↔
    a = addr ∧ addr.toNat + len.toNat < sz.toNat ∧ u (addr + len) = 0#8 ∧ ∀ j < len, u (addr + j) ≠ 0#8 := by
  have bound := sz.isLt
  have self (w : Word) : BitVec.ofNat 32 w.toNat = w := by simp
  constructor
  · intro accepted
    simp only [strAt, Option.ite_none_right_eq_some] at accepted
    obtain ⟨k, found, pair⟩ := Option.map_eq_some_iff.mp accepted.2
    obtain ⟨rfl, rfl⟩ := Prod.mk.inj pair
    obtain ⟨short, zero, first⟩ := nulAt_eq_some found
    have value : (BitVec.ofNat 32 k).toNat = k := by
      rw [BitVec.toNat_ofNat]
      omega
    refine ⟨rfl, by omega, zero, ?_⟩
    intro j before
    rw [← self j]
    apply first
    have less : j.toNat < (BitVec.ofNat 32 k).toNat := before
    omega
  · rintro ⟨rfl, inside, zero, first⟩
    have found : nulAt u a (sz.toNat - a.toNat) = some len.toNat := by
      apply nulAt_first (by omega) (by rw [self]; exact zero)
      intro j before
      apply first
      have small := len.isLt
      bv_omega
    have below : a < sz := by bv_omega
    simp only [strAt, if_pos below, found, Option.map_some, self]

theorem argWord_eq_some {n w : Word} : argWord u s proc n = some w ↔
    (argAddr s proc n).toNat + 4 ≤ (s.ptable proc).sz.toNat ∧ read32 u (argAddr s proc n) = w := by
  simp only [argWord, Option.ite_none_right_eq_some, Option.some.injEq]

end Arguments

/-- A process of one page that calls `hello(5, (char *)8, "hi")`. -/
def helloProcess : KernelState :=
  { boot (writeWords (writeWords (writeWords (writeWords (fun _ => 0#8) 0x80001000#32 [0x2007#32]) 0x80002000#32
      [0x3007#32]) 0x80003000#32 [0x11#32, 5#32, 8#32, 16#32, 0x6968#32]) 0x80004020#32 [SYS_hello]) 0#32 with
    proc := some ⟨0, by decide⟩
    cr3 := 0x1000#32
    ptable := fun _ => { Process.zero with tf := 0x80004000#32, sz := 0x1000#32, state := .running } }

def helloMemory : Mem := fun a => helloProcess.mem (0x80003000#32 + a)

/-- A page directory at 0x1000 whose only table, at 0x2000, maps the first page to 0x3000. -/
theorem onePage_sees {s : KernelState} (cr3 : s.cr3 = 0x1000#32) (first : read32 s.mem 0x80001000#32 = 0x2007#32)
    (second : read32 s.mem 0x80002000#32 = 0x3007#32) : Sees (fun a => s.mem (0x80003000#32 + a)) 0x1000#32 s := by
  intro a below
  have small : a.toNat < 4096 := below
  have directory : PDX a = 0#32 := by
    apply BitVec.eq_of_toNat_eq
    rw [PDX_toNat]
    exact Nat.div_eq_of_lt (by omega)
  have table : PTX a = 0#32 := by
    apply BitVec.eq_of_toNat_eq
    rw [PTX_toNat, Nat.div_eq_of_lt small]
    rfl
  have offset : ADDR_PAGE_OFFSET a = a := by
    apply BitVec.eq_of_toNat_eq
    rw [ADDR_PAGE_OFFSET_toNat, Nat.mod_eq_of_lt small]
  have walk : translation s.mem (P2V s.cr3) a = some ⟨0x3000#32 + a, true, true⟩ := by
    have start : P2V s.cr3 + 4#32 * 0#32 = 0x80001000#32 := by rw [cr3]; decide
    have next : P2V (PTE_ADDR 0x2007#32) + 4#32 * 0#32 = 0x80002000#32 := by decide
    have frame : PTE_ADDR 0x3007#32 = 0x3000#32 := by decide
    simp only [translation, directory, table, offset, start, first, next, second, frame]
    rfl
  have place : P2V (0x3000#32 + a) = 0x80003000#32 + a := by
    unfold P2V KERNBASE
    bv_omega
  simp only [byteAt, walk, Option.map_some, place]

theorem helloProcess_user : UserProcess helloMemory ⟨0, by decide⟩ helloProcess :=
  ⟨by decide, onePage_sees rfl (by decide +kernel) (by decide +kernel)⟩

theorem sysarg_fetch_exact {u : Mem} {proc : Slot} {s : KernelState} (user : UserProcess u proc s) (n : Word) :
    (argAddr s proc n).toNat =
      ((TrapField.esp.read s.mem (s.ptable proc).tf).toNat + 4 * (1 + n.toNat)) % 2 ^ 32 ∧
    (∃ r reads, (sysargGetInt proc n).run s = .ok r (s.noted reads) ∧ (∀ x ∈ reads, x < (s.ptable proc).sz) ∧
      ∀ w, r = some w ↔
        (argAddr s proc n).toNat + 4 ≤ (s.ptable proc).sz.toNat ∧ read32 u (argAddr s proc n) = w) ∧
    (∃ r reads, (sysargGetStr proc n).run s = .ok r (s.noted reads) ∧ (∀ x ∈ reads, x < (s.ptable proc).sz) ∧
      ∀ len a, r = some (len, a) ↔
        (argAddr s proc n).toNat + 4 ≤ (s.ptable proc).sz.toNat ∧ read32 u (argAddr s proc n) = a ∧
          a.toNat + len.toNat < (s.ptable proc).sz.toNat ∧ u (a + len) = 0#8 ∧ (∀ j < len, u (a + j) ≠ 0#8) ∧
          0 ≤ len.toInt) ∧
    (∀ (m : Core) (num ret : Word) (args : List Word) (w : Word), 4 * (args.length + 1) ≤ 2 ^ 32 →
      args[n.toNat]? = some w → u = (userCall m num ret args).mem →
      TrapField.esp.read s.mem (s.ptable proc).tf = (userCall m num ret args).reg .esp → read32 u (argAddr s proc n) = w) := by
  refine ⟨argAddr_toNat s proc n, ?_, ?_, ?_⟩
  · exact ⟨_, _, run_fetchint user n, argReads_below s proc n, fun w => argWord_eq_some⟩
  · refine ⟨_, _, run_sysargGetStr user n, strArgReads_below u s proc n, ?_⟩
    intro len a
    rw [Option.bind_eq_some_iff]
    constructor
    · rintro ⟨addr, found, accepted⟩
      obtain ⟨rfl, inside, zero, first⟩ := strAt_eq_some.mp accepted
      obtain ⟨fits, word⟩ := argWord_eq_some.mp found
      refine ⟨fits, word, inside, zero, first, ?_⟩
      have small : (s.ptable proc).sz.toNat ≤ 2 ^ 31 := user.small
      rw [BitVec.toInt_eq_toNat_of_lt (by omega)]
      omega
    · rintro ⟨fits, word, inside, zero, first, -⟩
      exact ⟨a, argWord_eq_some.mpr ⟨fits, word⟩, strAt_eq_some.mpr ⟨rfl, inside, zero, first⟩⟩
  · intro m num ret args w bound found memory stack
    have here := userCall_argument m num ret args n.toNat bound found
    have place : argAddr s proc n = (userCall m num ret args).reg .esp + BitVec.ofNat 32 (4 * (1 + n.toNat)) := by
      rw [argAddr, stack, CDECL_ARG]
      bv_omega
    rw [place, memory]
    exact here

theorem sysarg_fetch_exact_hello :
    UserProcess helloMemory ⟨0, by decide⟩ helloProcess ∧
      ∃ reads, (sysargGetStr ⟨0, by decide⟩ 2#32).run helloProcess = .ok (some (2#32, 16#32)) (helloProcess.noted reads) := by
  obtain ⟨-, -, ⟨r, reads, ran, -, accepts⟩, -⟩ := sysarg_fetch_exact helloProcess_user 2#32
  have word : r = some (2#32, 16#32) := by
    apply (accepts 2#32 16#32).mpr
    refine ⟨by decide +kernel, by decide +kernel, by decide +kernel, by decide +kernel, ?_, by decide⟩
    intro j before
    have cases : j = 0#32 ∨ j = 1#32 := by bv_omega
    rcases cases with rfl | rfl <;> decide +kernel
  rw [word] at ran
  exact ⟨helloProcess_user, reads, ran⟩

/-- An accepted pointer names a block inside the process, and a block that is not inside is refused. -/
structure PointerExact (u : Mem) (s : KernelState) (proc : Slot) (n size : Word) : Prop where
  accepted : ∀ p t, (sysargGetPtr proc n size).run s = .ok (some p) t →
    p < (s.ptable proc).sz ∧ p.toNat + size.toNat ≤ (s.ptable proc).sz.toNat
  refused : ∀ p, argWord u s proc n = some p → (s.ptable proc).sz.toNat < p.toNat + size.toNat →
    ∃ t, (sysargGetPtr proc n size).run s = .ok none t

theorem sysargGetPtr_exact_iff {u : Mem} {proc : Slot} {s : KernelState} (user : UserProcess u proc s) (n size : Word) :
    PointerExact u s proc n size ↔
      ∀ p, argWord u s proc n = some p → p < (s.ptable proc).sz → p.toNat + size.toNat < 2 ^ 32 := by
  have ran := run_sysargGetPtr user n size
  have small : (s.ptable proc).sz.toNat ≤ 2 ^ 31 := user.small
  have bound := size.isLt
  constructor
  · intro exact p word below
    -- a sum that wraps is below the pointer itself, so the second test lets it pass
    by_contra wraps
    have passes : p + size ≤ (s.ptable proc).sz := by bv_omega
    rw [word, Option.filter_some, if_pos (by simp [below, passes])] at ran
    have inside := (exact.accepted p _ ran).2
    omega
  · intro unwrapped
    cases word : argWord u s proc n with
    | none =>
      rw [word, Option.filter_none] at ran
      constructor
      · intro p t other
        rw [ran] at other
        cases other
      · intro p found
        rw [word] at found
        cases found
    | some i =>
      rw [word, Option.filter_some] at ran
      have whole := unwrapped i word
      constructor
      · intro p t other
        rw [ran] at other
        split at other
        next passes =>
          simp only [EStateM.Result.ok.injEq, Option.some.injEq] at other
          obtain ⟨rfl, -⟩ := other
          simp only [decide_eq_true_eq] at passes
          have sum := whole passes.1
          exact ⟨passes.1, by bv_omega⟩
        next => cases other
      · intro p found outside
        obtain rfl : i = p := Option.some.inj (word.symm.trans found)
        have fails : ¬ (i < (s.ptable proc).sz ∧ i + size ≤ (s.ptable proc).sz) := by
          rintro ⟨below, fits⟩
          have sum := whole below
          bv_omega
        rw [if_neg (by simpa using fails)] at ran
        exact ⟨_, ran⟩

/-- The buffer of `hello`, with its real size. -/
theorem sysargGetPtr_exact_hello :
    UserProcess helloMemory ⟨0, by decide⟩ helloProcess ∧ PointerExact helloMemory helloProcess ⟨0, by decide⟩ 1#32 8#32 := by
  refine ⟨helloProcess_user, (sysargGetPtr_exact_iff helloProcess_user 1#32 8#32).mpr ?_⟩
  intro p word below
  have small : p.toNat < 4096 := below
  simp only [BitVec.toNat_ofNat]
  omega

/-- The same buffer with a size of nearly 4 GiB is accepted. -/
theorem sysargGetPtr_wraps :
    UserProcess helloMemory ⟨0, by decide⟩ helloProcess ∧
      (∃ t, (sysargGetPtr ⟨0, by decide⟩ 1#32 0xfffffff8#32).run helloProcess = .ok (some 8#32) t) ∧
      ¬ (8#32).toNat + (0xfffffff8#32).toNat ≤ (helloProcess.ptable ⟨0, by decide⟩).sz.toNat := by
  have ran := run_sysargGetPtr helloProcess_user 1#32 0xfffffff8#32
  have word : argWord helloMemory helloProcess ⟨0, by decide⟩ 1#32 = some 8#32 := by decide +kernel
  rw [word] at ran
  exact ⟨helloProcess_user, ⟨_, ran⟩, by decide⟩

end OsDev.Kernel.SyscallArgs
