import OsDev.Kernel.State
import OsDev.Kernel.StringLib

/-! Formatted output on the console (kernel/drivers/screen.c). The arguments of
`cprintf` are the stack words above its format, read by index. -/

namespace OsDev.Kernel.Console
open OsDev.Machine.Memory OsDev.Machine.Program OsDev.Kernel.SpinLocks OsDev.Kernel.StringLib OsDev.Kernel.State

def consputc (c : Word) : Prog KernelState Unit := modify fun s => s.print [c]

@[simp] theorem run_consputc (c : Word) (s : KernelState) : (consputc c).run s = .ok () (s.print [c]) := rfl

def putAll : List Word → Prog KernelState Unit
  | [] => pure ()
  | c :: rest => do
      consputc c
      putAll rest

def ascii (c : Char) : Byte := BitVec.ofNat 8 c.toNat

def cstring (text : String) : List Byte := text.toList.map ascii

def digits : List Byte := cstring "0123456789abcdef"

/-- The do-while loop of `printint`: digits least significant first. A 32-bit
value has at most 32 of them. -/
def printintLoop (base : Nat) : Nat → Nat → List Byte
  | 0, _ => []
  | fuel + 1, x =>
      digits.getD (x % base) 0#8 :: if x / base = 0 then [] else printintLoop base fuel (x / base)

def printintChars (xx : Word) (base : Nat) (sign : Bool) : List Word :=
  let negative := sign && xx.msb
  let x := if negative then (-xx).toNat else xx.toNat
  let buf := printintLoop base 32 x ++ if negative then [ascii '-'] else []
  buf.reverse.map (BitVec.signExtend 32)

def printint (xx : Word) (base : Nat) (sign : Bool) : Prog KernelState Unit := putAll (printintChars xx base sign)

def printptrLoop : Nat → BitVec 64 → List Byte
  | 0, _ => []
  | count + 1, x => digits.getD (x >>> 60).toNat 0#8 :: printptrLoop count (x <<< 4)

def printptr (x : BitVec 64) : Prog KernelState Unit :=
  putAll ((cstring "0x" ++ printptrLoop 16 x).map (BitVec.signExtend 32))

/-- The `%s` loop. A pointer visits every address before it comes back to where it
started, so the bound on the number of turns is never met on a terminated string. -/
def putString : Nat → Addr → Prog KernelState Unit
  | 0, _ => throw .spin
  | fuel + 1, a => do
      let b ← vload a
      if b = 0#8 then pure () else
      consputc (b.signExtend 32)
      putString fuel (a + 1#32)

/-- One conversion after a percent sign, and the number of argument words it takes. -/
def directive (d : Byte) (args : Nat → Word) (argp : Nat) : Prog KernelState Nat :=
  if d = ascii 'd' then do
    printint (args argp) 10 true
    return argp + 1
  else if d = ascii 'x' ∨ d = ascii 'p' then do
    printint (args argp) 16 false
    return argp + 1
  else if d = ascii 'l' then do
    printptr (args (argp + 1) ++ args argp)
    return argp + 2
  else if d = ascii 's' then do
    if args argp = 0#32 then putAll ((cstring "(null)").map (BitVec.signExtend 32))
    else putString (2 ^ 32) (args argp)
    return argp + 1
  else if d = ascii '%' then do
    consputc (d.zeroExtend 32)
    return argp
  else do
    consputc ((ascii '%').zeroExtend 32)
    consputc (d.zeroExtend 32)
    return argp

def cprintfLoop (args : Nat → Word) : List Byte → Nat → Prog KernelState Unit
  | [], _ => pure ()
  | [c], _ => if c = ascii '%' then pure () else consputc (c.zeroExtend 32)
  | c :: d :: rest, argp =>
      if c = ascii '%' then do
        let argp ← directive d args argp
        cprintfLoop args rest argp
      else do
        consputc (c.zeroExtend 32)
        cprintfLoop args (d :: rest) argp

/-- The words a caller pushed after the format. -/
def stackWords (args : List Word) (i : Nat) : Word := args.getD i 0#32

def cprintf (fmt : String) (args : List Word) : Prog KernelState Unit := do
  let locking := (← get).consLocking
  if locking then onCpu (acquire .cons) else pure ()
  cprintfLoop (stackWords args) (cstring fmt) 0
  if locking then onCpu (release .cons) else pure ()

/-- The texts printed this way have no percent sign and print as themselves. -/
def print (text : String) : Prog KernelState Unit := cprintf text []

theorem run_putAll (chars : List Word) (s : KernelState) : (putAll chars).run s = .ok () (s.print chars) := by
  induction chars generalizing s with
  | nil => simp [putAll, print_nil]
  | cons c rest ih => simp [putAll, ih]

/-- Formats without a string conversion read no memory. -/
def plain : List Byte → Bool
  | [] => true
  | [_] => true
  | c :: d :: rest => if c = ascii '%' then decide (d ≠ ascii 's') && plain rest else plain (d :: rest)

/-- The number of argument words a conversion takes. -/
def width (d : Byte) : Nat :=
  if d = ascii 'd' ∨ d = ascii 'x' ∨ d = ascii 'p' ∨ d = ascii 's' then 1 else if d = ascii 'l' then 2 else 0

/-- Every conversion but `%s` prints the same in every state. -/
theorem run_directive_plain (d : Byte) (args : Nat → Word) (argp : Nat) (simple : d ≠ ascii 's') :
    ∃ chars, ∀ s : KernelState, (directive d args argp).run s = .ok (argp + width d) (s.print chars) := by
  unfold directive width
  by_cases isD : d = ascii 'd'
  · refine ⟨printintChars (args argp) 10 true, fun s => ?_⟩
    rw [if_pos isD, printint, run_bind_ok (run_putAll _ s)]
    simp [isD]
  by_cases isX : d = ascii 'x' ∨ d = ascii 'p'
  · refine ⟨printintChars (args argp) 16 false, fun s => ?_⟩
    rw [if_neg isD, if_pos isX, printint, run_bind_ok (run_putAll _ s)]
    rcases isX with rfl | rfl <;> simp
  rw [not_or] at isX
  by_cases isL : d = ascii 'l'
  · refine ⟨(cstring "0x" ++ printptrLoop 16 (args (argp + 1) ++ args argp)).map (BitVec.signExtend 32), fun s => ?_⟩
    rw [if_neg isD, if_neg (by simp [isX]), if_pos isL, printptr, run_bind_ok (run_putAll _ s)]
    subst isL
    rfl
  by_cases isPercent : d = ascii '%'
  · refine ⟨[d.zeroExtend 32], fun s => ?_⟩
    rw [if_neg isD, if_neg (by simp [isX]), if_neg isL, if_neg simple, if_pos isPercent]
    simp [isD, isX, isL, simple]
  · refine ⟨[(ascii '%').zeroExtend 32, d.zeroExtend 32], fun s => ?_⟩
    rw [if_neg isD, if_neg (by simp [isX]), if_neg isL, if_neg simple, if_neg isPercent]
    simp [isD, isX, isL, simple]

/-- The arguments a format takes for strings. -/
def stringArgs : List Byte → Nat → List Nat
  | [], _ => []
  | [_], _ => []
  | c :: d :: rest, argp =>
      if c = ascii '%' then (if d = ascii 's' then [argp] else []) ++ stringArgs rest (argp + width d)
      else stringArgs (d :: rest) argp

/-- A null pointer, or a string that ends below `sz`. -/
def Printable (u : Mem) (sz a : Word) : Prop := a = 0#32 ∨ a < sz ∧ (nulAt u a (sz.toNat - a.toNat)).isSome

section Strings
variable {u : Mem} {sz : Word}

theorem run_putString (fuel n : Nat) (a : Addr) (enough : n ≤ fuel) (here : a.toNat + n = sz.toNat)
    (ends : (nulAt u a n).isSome) : ∃ chars, ∀ s : KernelState, Sees u sz s →
      (putString fuel a).run s = .ok () ((s.print chars).noted (scanned u a n)) := by
  induction n generalizing a fuel with
  | zero => cases ends
  | succ n ih =>
    obtain ⟨fuel, rfl⟩ : ∃ f, fuel = f + 1 := ⟨fuel - 1, by omega⟩
    have inside : a < sz := by bv_omega
    by_cases zero : u a = 0#8
    · refine ⟨[], fun s sees => ?_⟩
      rw [putString, run_bind_ok (run_vload sees a inside), run_ite, if_pos zero, EStateM.run_pure, scanned, if_pos zero,
        print_nil, List.nil_append]
    · rw [nulAt, if_neg zero, Option.isSome_map] at ends
      have bound := sz.isLt
      obtain ⟨chars, later⟩ := ih fuel (a + 1#32) (by omega) (by bv_omega) ends
      refine ⟨(u a).signExtend 32 :: chars, fun s sees => ?_⟩
      rw [putString, run_bind_ok (run_vload sees a inside), run_ite, if_neg zero,
        run_bind_ok (run_consputc _ _), later _ ((sees.noted _).print _), scanned, if_neg zero]
      simp

theorem directive_string (args : Nat → Word) (argp : Nat) : directive (ascii 's') args argp = (do
    if args argp = 0#32 then putAll ((cstring "(null)").map (BitVec.signExtend 32))
    else putString (2 ^ 32) (args argp)
    return argp + 1) := rfl

/-- A conversion prints the same, and reads the same below `sz`, in every state that
shows the same user memory. -/
theorem run_directive (d : Byte) (args : Nat → Word) (argp : Nat)
    (string : d = ascii 's' → Printable u sz (args argp)) :
    ∃ chars reads, (∀ x ∈ reads, x < sz) ∧ ∀ s : KernelState, Sees u sz s →
      (directive d args argp).run s = .ok (argp + width d) ((s.print chars).noted reads) := by
  by_cases isS : d = ascii 's'
  · have one : width d = 1 := by
      subst isS
      rfl
    rw [one, isS, directive_string]
    by_cases null : args argp = 0#32
    · refine ⟨(cstring "(null)").map (BitVec.signExtend 32), [], by simp, fun s sees => ?_⟩
      rw [if_pos null, run_bind_ok (run_putAll _ s)]
      rfl
    · obtain ⟨inside, ends⟩ := (string isS).resolve_left null
      have bound := sz.isLt
      have whole : (args argp).toNat + (sz.toNat - (args argp).toNat) = sz.toNat := by bv_omega
      obtain ⟨chars, ran⟩ := run_putString (2 ^ 32) _ (args argp) (by omega) whole ends
      refine ⟨chars, scanned u _ _, scanned_below whole.le, fun s sees => ?_⟩
      rw [if_neg null, run_bind_ok (ran s sees)]
      rfl
  · obtain ⟨chars, ran⟩ := run_directive_plain d args argp isS
    exact ⟨chars, [], by simp, fun s _ => ran s⟩

theorem run_cprintfLoop (args : Nat → Word) (fmt : List Byte) (argp : Nat)
    (strings : ∀ i ∈ stringArgs fmt argp, Printable u sz (args i)) :
    ∃ chars reads, (∀ x ∈ reads, x < sz) ∧ ∀ s : KernelState, Sees u sz s →
      (cprintfLoop args fmt argp).run s = .ok () ((s.print chars).noted reads) := by
  induction fmt, argp using stringArgs.induct with
  | case1 argp => exact ⟨[], [], by simp, fun s _ => by simp [cprintfLoop, print_nil, noted_nil]⟩
  | case2 c argp =>
    by_cases percent : c = ascii '%'
    · exact ⟨[], [], by simp, fun s _ => by simp [cprintfLoop, percent, print_nil, noted_nil]⟩
    · exact ⟨[c.zeroExtend 32], [], by simp, fun s _ => by simp [cprintfLoop, percent, noted_nil]⟩
  | case3 d rest argp ih =>
    simp only [stringArgs, ↓reduceIte, List.mem_append] at strings
    obtain ⟨first, reads, below, ran⟩ := @run_directive u sz d args argp
      (fun isS => strings argp (.inl (by simp [isS])))
    obtain ⟨second, more, belowMore, later⟩ := ih (fun i member => strings i (.inr member))
    refine ⟨first ++ second, more ++ reads, ?_, fun s sees => ?_⟩
    · intro x member
      exact (List.mem_append.mp member).elim (belowMore x) (below x)
    · simp only [cprintfLoop, ↓reduceIte]
      rw [run_bind_ok (ran s sees), later _ ((sees.print _).noted _)]
      simp
  | case4 c d rest argp literal ih =>
    simp only [stringArgs, literal, ↓reduceIte] at strings
    obtain ⟨second, reads, below, later⟩ := ih strings
    refine ⟨c.zeroExtend 32 :: second, reads, below, fun s sees => ?_⟩
    simp only [cprintfLoop, literal, ↓reduceIte]
    rw [run_bind_ok (run_consputc _ s), later _ (sees.print _), print_print]
    rfl

/-- Other locks may be held around a call. -/
theorem run_cprintf_calm (fmt : String) (args : List Word)
    (strings : ∀ i ∈ stringArgs (cstring fmt) 0, Printable u sz (stackWords args i)) :
    ∃ chars reads, (∀ x ∈ reads, x < sz) ∧ ∀ s : KernelState, Calm s.cpu → s.cpu.locks .cons = unlocked → Sees u sz s →
      ∃ cpu, (cpu = s.cpu ∨ cpu = settle s.cpu) ∧
        (cprintf fmt args).run s = .ok () (((s.print chars).noted reads).setCpu cpu) := by
  obtain ⟨chars, reads, below, ran⟩ := run_cprintfLoop (stackWords args) (cstring fmt) 0 strings
  refine ⟨chars, reads, below, fun s calm free sees => ?_⟩
  cases locking : s.consLocking with
  | false =>
    refine ⟨s.cpu, .inl rfl, ?_⟩
    simp [cprintf, locking, ran s sees]
    rfl
  | true =>
    obtain ⟨inside, enter, leave⟩ := run_release_acquire .cons s.cpu calm free
    have middle := ran (s.setCpu inside) sees
    have last := run_onCpu_ok (s := ((s.setCpu inside).print chars).noted reads) leave
    refine ⟨settle s.cpu, .inr rfl, ?_⟩
    simp only [print_put, noted_put] at middle last
    simp [cprintf, locking, middle, run_onCpu_ok enter, last]
    rfl

theorem run_cprintf (fmt : String) (args : List Word)
    (strings : ∀ i ∈ stringArgs (cstring fmt) 0, Printable u sz (stackWords args i)) :
    ∃ chars reads, (∀ x ∈ reads, x < sz) ∧ ∀ s : KernelState, Quiet s.cpu → Sees u sz s →
      ∃ cpu, Settled s.cpu cpu ∧ (cprintf fmt args).run s = .ok () (((s.print chars).noted reads).setCpu cpu) := by
  obtain ⟨chars, reads, below, ran⟩ := run_cprintf_calm fmt args strings
  refine ⟨chars, reads, below, fun s quiet sees => ?_⟩
  obtain ⟨cpu, same, ran⟩ := ran s quiet.toCalm (quiet.free .cons) sees
  exact ⟨cpu, quiet.settled_of same, ran⟩

end Strings

/-- A view of the kernel that printing leaves alone. -/
structure Unprinted {τ : Type} (view : KernelState → τ) : Prop where
  print : ∀ s chars, view (s.print chars) = view s
  noted : ∀ s reads, view (s.noted reads) = view s
  cpu : ∀ s cpu, view (s.setCpu cpu) = view s

section Preserves
variable {τ : Type} {view : KernelState → τ}

theorem preserves_onCpu {α : Type} (unprinted : Unprinted view) (part : Prog Processor α) : Preserves view (onCpu part) :=
  preserves_zoom part fun cpu s => unprinted.cpu s cpu

theorem preserves_consputc (unprinted : Unprinted view) (c : Word) : Preserves view (consputc c) :=
  preserves_modify fun s => unprinted.print s [c]

theorem preserves_putAll (unprinted : Unprinted view) (chars : List Word) : Preserves view (putAll chars) := by
  intro s
  rw [run_putAll]
  exact unprinted.print s chars

theorem preserves_vload (unprinted : Unprinted view) (a : Addr) : Preserves view (vload a) := by
  have noted : Preserves view (modify fun s : KernelState => { s with accessed := a :: s.accessed }) :=
    preserves_modify fun s => unprinted.noted s [a]
  apply noted.bind
  intro _
  apply preserves_get.bind
  intro s
  split
  · exact preserves_pure _
  · exact preserves_throw _

theorem preserves_putString (unprinted : Unprinted view) (fuel : Nat) (a : Addr) : Preserves view (putString fuel a) := by
  induction fuel generalizing a with
  | zero => exact preserves_throw _
  | succ fuel ih =>
    apply (preserves_vload unprinted a).bind
    intro b
    apply Preserves.ite
    · exact preserves_pure ()
    · exact (preserves_consputc unprinted _).bind fun _ => ih _

theorem preserves_directive (unprinted : Unprinted view) (d : Byte) (args : Nat → Word) (argp : Nat) :
    Preserves view (directive d args argp) := by
  by_cases isS : d = ascii 's'
  · rw [isS, directive_string]
    apply Preserves.ite
    · exact (preserves_putAll unprinted _).bind fun _ => preserves_pure _
    · exact (preserves_putString unprinted _ _).bind fun _ => preserves_pure _
  · obtain ⟨chars, ran⟩ := run_directive_plain d args argp isS
    intro s
    rw [ran]
    exact unprinted.print s chars

theorem preserves_cprintfLoop (unprinted : Unprinted view) (args : Nat → Word) (fmt : List Byte) (argp : Nat) :
    Preserves view (cprintfLoop args fmt argp) := by
  fun_induction cprintfLoop args fmt argp with
  | case1 => exact preserves_pure ()
  | case2 => exact preserves_pure ()
  | case3 => exact preserves_consputc unprinted _
  | case4 d rest argp ih => exact (preserves_directive unprinted d args argp).bind ih
  | case5 c d rest argp literal ih => exact (preserves_consputc unprinted _).bind fun _ => ih

theorem preserves_cprintf (unprinted : Unprinted view) (fmt : String) (args : List Word) : Preserves view (cprintf fmt args) := by
  have loop := preserves_cprintfLoop unprinted (stackWords args) (cstring fmt) 0
  unfold cprintf
  apply preserves_get.bind
  intro s
  cases s.consLocking with
  | false => exact loop.bind fun _ => preserves_pure ()
  | true =>
    apply (preserves_onCpu unprinted _).bind
    intro _
    exact loop.bind fun _ => preserves_onCpu unprinted _

end Preserves

theorem stringArgs_plain (fmt : List Byte) (argp : Nat) (simple : plain fmt = true) : stringArgs fmt argp = [] := by
  induction fmt, argp using stringArgs.induct with
  | case1 argp => rfl
  | case2 c argp => rfl
  | case3 d rest argp ih =>
    simp only [plain, ↓reduceIte, Bool.and_eq_true, decide_eq_true_eq] at simple
    simp only [stringArgs, ↓reduceIte, if_neg simple.1, List.nil_append]
    exact ih simple.2
  | case4 c d rest argp literal ih =>
    simp only [plain, literal, ↓reduceIte] at simple
    simp only [stringArgs, literal, ↓reduceIte]
    exact ih simple

theorem run_cprintf_plain_calm (fmt : String) (args : List Word) (s : KernelState) (calm : Calm s.cpu)
    (free : s.cpu.locks .cons = unlocked) (simple : plain (cstring fmt) = true) :
    ∃ chars cpu, (cpu = s.cpu ∨ cpu = settle s.cpu) ∧ (cprintf fmt args).run s = .ok () ((s.print chars).setCpu cpu) := by
  -- no address is below a size of zero, so nothing is asked of the memory and nothing is read
  have strings : ∀ i ∈ stringArgs (cstring fmt) 0, Printable s.mem 0#32 (stackWords args i) := by
    simp [stringArgs_plain _ 0 simple]
  obtain ⟨chars, reads, below, ran⟩ := run_cprintf_calm fmt args strings
  obtain ⟨cpu, same, ran⟩ := ran s calm free (fun a impossible => absurd impossible (by bv_omega))
  have empty : reads = [] := List.eq_nil_iff_forall_not_mem.mpr fun x member => absurd (below x member) (by bv_omega)
  subst empty
  exact ⟨chars, cpu, same, ran⟩

theorem run_cprintf_plain (fmt : String) (args : List Word) (s : KernelState) (quiet : Quiet s.cpu)
    (simple : plain (cstring fmt) = true) :
    ∃ chars cpu, Settled s.cpu cpu ∧ (cprintf fmt args).run s = .ok () ((s.print chars).setCpu cpu) := by
  obtain ⟨chars, cpu, same, ran⟩ := run_cprintf_plain_calm fmt args s quiet.toCalm (quiet.free .cons) simple
  exact ⟨chars, cpu, quiet.settled_of same, ran⟩

theorem run_print (text : String) (s : KernelState) (quiet : Quiet s.cpu) (simple : plain (cstring text) = true) :
    ∃ chars cpu, Settled s.cpu cpu ∧ (print text).run s = .ok () ((s.print chars).setCpu cpu) :=
  run_cprintf_plain text [] s quiet simple

/-- The line the macros of kernel/lib/debug.h print before they stop the kernel. -/
def place (function file : String) (line : Nat) : String :=
  "function '" ++ function ++ "', file '" ++ file ++ "': line " ++ toString line ++ "\n"

/-- The macro `assert`, after its condition has failed. -/
def assertFail {α : Type} (function file : String) (line : Nat) : Prog KernelState α := do
  print (place function file line)
  kpanic "assertion failed"

section Assert
variable {α : Type} {function file : String} {line : Nat} {s t : KernelState}

theorem run_assertFail (calm : Calm s.cpu) (free : s.cpu.locks .cons = unlocked)
    (simple : plain (cstring (place function file line)) = true) :
    ∃ t, (assertFail function file line : Prog KernelState α).run s = .error (.panic "assertion failed") t := by
  obtain ⟨chars, cpu, -, ran⟩ := run_cprintf_plain_calm _ [] s calm free simple
  exact ⟨_, run_bind_ok ran⟩

theorem assertFail_ne_ok {a : α} : (assertFail function file line).run s ≠ .ok a t := by
  intro ran
  obtain ⟨_, _, -, stopped⟩ := run_bind_eq_ok ran
  cases stopped

/-- Nothing runs after a failed assertion. -/
theorem assertFail_bind {β : Type} (next : α → Prog KernelState β) :
    assertFail function file line >>= next = assertFail function file line := by
  rw [assertFail, bind_assoc]
  rfl

theorem preserves_assertFail {τ : Type} {view : KernelState → τ} (unprinted : Unprinted view) :
    Preserves view (assertFail function file line : Prog KernelState α) :=
  (preserves_cprintf unprinted _ _).bind fun _ => preserves_throw _

end Assert

end OsDev.Kernel.Console
