import OsDev.Kernel.Proc

/-! System calls and their arguments (kernel/syscall.c, kernel/syshello.c,
kernel/sysproc.c). Arguments are read through user addresses, which go through the
page directory of the process, and each byte read this way is noted. -/

namespace OsDev.Kernel.Syscall
open OsDev.Machine.Memory OsDev.Machine.Program OsDev.Kernel.SpinLocks OsDev.Kernel.Mmu OsDev.Kernel.StringLib
  OsDev.Kernel.State OsDev.Kernel.Console OsDev.Kernel.Frames OsDev.Kernel.Proc

def SYS_hello : Word := 1#32
def SYS_exit : Word := 2#32
def SYSFAIL : Word := -1#32

/-- Element `n` on the stack `p` after EIP. -/
def CDECL_ARG (p n : Word) : Addr := p + 4#32 * (1#32 + n)

/-- `*(int32_t*)a` for a user address. -/
def vload32 (a : Addr) : Prog KernelState Word := do
  let b0 ← vload a
  let b1 ← vload (a + 1#32)
  let b2 ← vload (a + 2#32)
  let b3 ← vload (a + 3#32)
  return BitVec.ofNat 32 (b0.toNat + 2 ^ 8 * b1.toNat + 2 ^ 16 * b2.toNat + 2 ^ 24 * b3.toNat)

/-- A negative result is `none`, and an out parameter is part of the other results. -/
def fetchint (proc : Slot) (n : Word) : Prog KernelState (Option Word) := do
  let entry := (← get).ptable proc
  let esp ← load32 (entry.tf + TrapField.esp.offset)
  let addr := CDECL_ARG esp n
  if entry.sz ≤ addr ∨ entry.sz < addr + 4#32 then return none else
  return some (← vload32 addr)

def sysargGetInt (proc : Slot) (n : Word) : Prog KernelState (Option Word) := fetchint proc n

/-- `size` is unsigned, so the first test never succeeds. -/
def sysargGetPtr (proc : Slot) (n size : Word) : Prog KernelState (Option Addr) := do
  match ← fetchint proc n with
  | none => return none
  | some i =>
    let sz := ((← get).ptable proc).sz
    if size < 0#32 ∨ sz ≤ i ∨ sz < i + size then return none else return some i

/-- The pointer reaches `ep` before it comes back to where it started. -/
def fetchstrLoop (pp ep : Addr) : Nat → Addr → Prog KernelState (Option (Word × Addr))
  | 0, _ => throw .spin
  | fuel + 1, s =>
      if s < ep then do
        let b ← vload s
        if b = 0#8 then return some (s - pp, pp) else fetchstrLoop pp ep fuel (s + 1#32)
      else return none

@[irreducible] def fetchstr (proc : Slot) (addr : Addr) : Prog KernelState (Option (Word × Addr)) := do
  let sz := ((← get).ptable proc).sz
  if sz ≤ addr then return none else fetchstrLoop addr sz (2 ^ 32) addr

def sysargGetStr (proc : Slot) (n : Word) : Prog KernelState (Option (Word × Addr)) := do
  match ← sysargGetInt proc n with
  | none => return none
  | some addr => fetchstr proc addr

def sysHello : Prog KernelState Word := do
  let proc ← deref (← myproc)
  match ← sysargGetInt proc 0#32 with
  | none => return SYSFAIL
  | some i =>
    match ← sysargGetPtr proc 1#32 8#32 with
    | none => return SYSFAIL
    | some p =>
      match ← sysargGetStr proc 2#32 with
      | none => return SYSFAIL
      | some (len, str) =>
        if len.msb then return SYSFAIL else
        cprintf "Hello world! i=%d p=0x%x len=%d str=%s\n" [i, p, len, str]
        return 0#32

/-- `exit` up to the switch from which it never comes back. -/
def exit (status : Word) : Prog KernelState Unit := do
  let p ← exitBegin
  onCpu (acquire .ptable)
  let p ← exitStatus p status
  setState p .zombie
  let _ ← enterScheduler
  throw .spin

def sysExit : Prog KernelState Word := do
  let proc ← deref (← myproc)
  match ← sysargGetInt proc 0#32 with
  | none => return SYSFAIL
  | some n =>
    exit n
    return 0#32

def syscalls : List (Option (Prog KernelState Word)) := [none, some sysHello, some sysExit]

/-- The call a number stands for. -/
def syscallOf (num : Word) : Option (Prog KernelState Word) :=
  if 0#32 < num ∧ num.toNat < syscalls.length then (syscalls[num.toNat]?).join else none

def syscallHandler (state : Addr) : Prog KernelState Unit := do
  let proc ← deref (← myproc)
  updateSlot proc ({ · with tf := state })
  let num ← load32 (state + TrapField.eax.offset)
  match syscallOf num with
  | some call => do
    let result ← call
    store32 (state + TrapField.eax.offset) result
  | none => do
    warn "Unknown sys call %d\n" [num]
    store32 (state + TrapField.eax.offset) SYSFAIL

/-- The bytes of a word, in the order they are read. -/
def wordReads (a : Addr) : List Addr := [a + 3#32, a + 2#32, a + 1#32, a]

theorem wordReads_below {sz : Word} {a : Addr} (fits : a.toNat + 4 ≤ sz.toNat) : ∀ x ∈ wordReads a, x < sz := by
  intro x member
  simp only [wordReads, List.mem_cons, List.not_mem_nil, or_false] at member
  have bound := sz.isLt
  rcases member with rfl | rfl | rfl | rfl <;> bv_omega

theorem run_vload32 {u : Mem} {sz : Word} {s : KernelState} (sees : Sees u sz s) (a : Addr)
    (fits : a.toNat + 4 ≤ sz.toNat) : (vload32 a).run s = .ok (read32 u a) (s.noted (wordReads a)) := by
  have below := wordReads_below fits
  unfold vload32
  rw [run_bind_ok (run_vload sees a (below _ (by simp [wordReads]))),
    run_bind_ok (run_vload (sees.noted _) _ (below _ (by simp [wordReads]))),
    run_bind_ok (run_vload ((sees.noted _).noted _) _ (below _ (by simp [wordReads]))),
    run_bind_ok (run_vload (((sees.noted _).noted _).noted _) _ (below _ (by simp [wordReads])))]
  rfl

/-- A process whose memory is below the kernel's half. -/
structure UserProcess (u : Mem) (proc : Slot) (s : KernelState) : Prop where
  small : (s.ptable proc).sz ≤ KERNBASE
  sees : Sees u (s.ptable proc).sz s

/-- Where argument `n` of the current system call lies. -/
def argAddr (s : KernelState) (proc : Slot) (n : Word) : Addr :=
  CDECL_ARG (TrapField.esp.read s.mem (s.ptable proc).tf) n

/-- The word at an argument's address, if it lies in the process. -/
def argWord (u : Mem) (s : KernelState) (proc : Slot) (n : Word) : Option Word :=
  if (argAddr s proc n).toNat + 4 ≤ (s.ptable proc).sz.toNat then some (read32 u (argAddr s proc n)) else none

def argReads (s : KernelState) (proc : Slot) (n : Word) : List Addr :=
  if (argAddr s proc n).toNat + 4 ≤ (s.ptable proc).sz.toNat then wordReads (argAddr s proc n) else []

theorem argReads_below (s : KernelState) (proc : Slot) (n : Word) : ∀ x ∈ argReads s proc n, x < (s.ptable proc).sz := by
  unfold argReads
  split
  next fits => exact wordReads_below fits
  next => simp

section Fetch
variable {u : Mem} {proc : Slot} {s : KernelState}

theorem run_fetchint (user : UserProcess u proc s) (n : Word) :
    (fetchint proc n).run s = .ok (argWord u s proc n) (s.noted (argReads s proc n)) := by
  have small : (s.ptable proc).sz.toNat ≤ 2 ^ 31 := user.small
  have test : ((s.ptable proc).sz ≤ argAddr s proc n ∨ (s.ptable proc).sz < argAddr s proc n + 4#32) ↔
      ¬ (argAddr s proc n).toNat + 4 ≤ (s.ptable proc).sz.toNat := by bv_omega
  unfold fetchint
  rw [run_bind_ok (EStateM.run_get s), run_bind_ok (run_load32 _ s)]
  change EStateM.run (if (s.ptable proc).sz ≤ argAddr s proc n ∨ (s.ptable proc).sz < argAddr s proc n + 4#32 then pure none
    else vload32 (argAddr s proc n) >>= fun w => pure (some w)) s = _
  rw [run_ite]
  by_cases fits : (argAddr s proc n).toNat + 4 ≤ (s.ptable proc).sz.toNat
  · rw [if_neg (by rw [test]; exact not_not.mpr fits), run_bind_ok (run_vload32 user.sees _ fits)]
    simp [argWord, argReads, fits]
  · rw [if_pos (test.mpr fits)]
    simp [argWord, argReads, fits, KernelState.noted]

theorem run_fetchstrLoop {sz : Word} (pp : Addr) (fuel n : Nat) (a : Addr) (sees : Sees u sz s) (enough : n < fuel)
    (here : a.toNat + n = sz.toNat) :
    (fetchstrLoop pp sz fuel a).run s =
      .ok ((nulAt u a n).map fun k => (a + BitVec.ofNat 32 k - pp, pp)) (s.noted (scanned u a n)) := by
  induction n generalizing a s fuel with
  | zero =>
    obtain ⟨fuel, rfl⟩ : ∃ f, fuel = f + 1 := ⟨fuel - 1, by omega⟩
    have stop : ¬ a < sz := by bv_omega
    simp [fetchstrLoop, stop, nulAt, scanned, KernelState.noted]
  | succ n ih =>
    obtain ⟨fuel, rfl⟩ : ∃ f, fuel = f + 1 := ⟨fuel - 1, by omega⟩
    have inside : a < sz := by bv_omega
    have bound := sz.isLt
    rw [fetchstrLoop, if_pos inside, run_bind_ok (run_vload sees a inside), run_ite]
    by_cases zero : u a = 0#8
    · simp [zero, nulAt, scanned]
    · rw [if_neg zero, ih fuel (a + 1#32) (sees.noted _) (by omega) (by bv_omega)]
      simp only [nulAt, scanned, if_neg zero, Option.map_map]
      congr 1
      · congr 1
        funext k
        simp only [Function.comp_apply, Prod.mk.injEq, and_true]
        bv_omega
      · simp [KernelState.noted]

/-- What `fetchstr` finds at an address: the length of a string that ends in the process. -/
def strAt (u : Mem) (sz addr : Word) : Option (Word × Addr) :=
  if addr < sz then (nulAt u addr (sz.toNat - addr.toNat)).map fun k => (BitVec.ofNat 32 k, addr) else none

def strReads (u : Mem) (sz addr : Word) : List Addr := if addr < sz then scanned u addr (sz.toNat - addr.toNat) else []

theorem strReads_below (u : Mem) (sz addr : Word) : ∀ x ∈ strReads u sz addr, x < sz := by
  unfold strReads
  split
  next inside => exact scanned_below (by bv_omega)
  next => simp

theorem run_fetchstr (user : UserProcess u proc s) (addr : Addr) :
    (fetchstr proc addr).run s = .ok (strAt u (s.ptable proc).sz addr) (s.noted (strReads u (s.ptable proc).sz addr)) := by
  unfold fetchstr
  rw [run_bind_ok (EStateM.run_get s), run_ite]
  by_cases inside : addr < (s.ptable proc).sz
  · have bound := (s.ptable proc).sz.isLt
    have count := run_fetchstrLoop addr (2 ^ 32) ((s.ptable proc).sz.toNat - addr.toNat) addr user.sees (by omega)
      (by bv_omega)
    rw [if_neg (by bv_omega), count]
    simp [strAt, strReads, inside]
  · rw [if_pos (by bv_omega)]
    simp [strAt, strReads, inside, KernelState.noted]

theorem UserProcess.noted (user : UserProcess u proc s) (reads : List Addr) : UserProcess u proc (s.noted reads) :=
  ⟨user.small, user.sees⟩

theorem run_sysargGetPtr (user : UserProcess u proc s) (n size : Word) :
    (sysargGetPtr proc n size).run s = .ok ((argWord u s proc n).filter fun i =>
      decide (i < (s.ptable proc).sz ∧ i + size ≤ (s.ptable proc).sz)) (s.noted (argReads s proc n)) := by
  unfold sysargGetPtr
  rw [run_bind_ok (run_fetchint user n)]
  cases argWord u s proc n with
  | none => rfl
  | some i =>
    have test : (size < 0#32 ∨ (s.ptable proc).sz ≤ i ∨ (s.ptable proc).sz < i + size) ↔
        ¬ (i < (s.ptable proc).sz ∧ i + size ≤ (s.ptable proc).sz) := by bv_omega
    change EStateM.run (get >>= fun s => if size < 0#32 ∨ (s.ptable proc).sz ≤ i ∨ (s.ptable proc).sz < i + size then
      pure none else pure (some i)) (s.noted (argReads s proc n)) = _
    rw [run_bind_ok (EStateM.run_get _), run_ite]
    simp only [KernelState.noted_ptable]
    by_cases inside : i < (s.ptable proc).sz ∧ i + size ≤ (s.ptable proc).sz
    · rw [if_neg (fun refused => test.mp refused inside)]
      simp only [EStateM.run_pure, Option.filter_some, inside, and_self, decide_true, if_true]
    · rw [if_pos (test.mpr inside)]
      simp only [EStateM.run_pure, Option.filter_some, inside, decide_false, Bool.false_eq_true, if_false]

/-- What fetching a string argument reads: its address, then the string. -/
def strArgReads (u : Mem) (s : KernelState) (proc : Slot) (n : Word) : List Addr :=
  ((argWord u s proc n).map (strReads u (s.ptable proc).sz)).getD [] ++ argReads s proc n

theorem strArgReads_below (u : Mem) (s : KernelState) (proc : Slot) (n : Word) :
    ∀ x ∈ strArgReads u s proc n, x < (s.ptable proc).sz := by
  intro x member
  rcases List.mem_append.mp member with member | member
  · cases found : argWord u s proc n with
    | none => simp [found] at member
    | some addr =>
      rw [found] at member
      exact strReads_below u _ addr x member
  · exact argReads_below s proc n x member

theorem run_sysargGetStr (user : UserProcess u proc s) (n : Word) :
    (sysargGetStr proc n).run s = .ok ((argWord u s proc n).bind (strAt u (s.ptable proc).sz))
      (s.noted (strArgReads u s proc n)) := by
  unfold sysargGetStr sysargGetInt strArgReads
  rw [run_bind_ok (run_fetchint user n)]
  cases argWord u s proc n with
  | none => rfl
  | some addr =>
    change (fetchstr proc addr).run _ = _
    rw [run_fetchstr (user.noted _) addr]
    simp [KernelState.noted]

end Fetch

end OsDev.Kernel.Syscall
