import OsDev.Kernel.Cprintf
import OsDev.Kernel.Interrupts
import OsDev.Kernel.SchedulerRuns
import OsDev.Kernel.SyscallLeaks
import OsDev.Kernel.Traps

/-! A system call from the trap instruction of the user program to the instruction
behind it: what the caller gets, what is printed, and what stays as it was. -/

namespace OsDev.Kernel.SyscallTrip
open OsDev.Machine.Memory OsDev.Machine.Program OsDev.Machine.X86
open OsDev.Kernel.SpinLocks OsDev.Kernel.State OsDev.Kernel.Console OsDev.Kernel.Cprintf OsDev.Kernel.Frames
  OsDev.Kernel.Proc OsDev.Kernel.Idt OsDev.Kernel.Traps OsDev.Kernel.Syscall
open OsDev.Kernel.SyscallArgs (strAt_eq_some helloProcess helloMemory onePage_sees)
open OsDev.Kernel.SyscallLeaks (Idle)
open OsDev.Kernel.SchedulerRuns (Free Locked run_enterScheduler)
open OsDev.Machine.Pic8259 (noLine)
open OsDev.Kernel.Interrupts (Board Driver isrHandler isrDispatch intNoAt onKernel bootTable)

section Answers
variable (u : Mem) (sz esp : Word)

/-- Argument `n` of a C function that is called with this stack pointer. -/
def userArg (n : Word) : Option Word :=
  if (CDECL_ARG esp n).toNat + 4 ≤ sz.toNat then some (read32 u (CDECL_ARG esp n)) else none

def userString (a len : Word) : List Byte := (List.range len.toNat).map fun k => u (a + BitVec.ofNat 32 k)

def helloText (i ptr len : Word) (str : Arg) : List Byte :=
  cstring "Hello world! i=" ++ ((Arg.signed i).text ++ (cstring " p=0x" ++ ((Arg.unsigned ptr).text ++
    (cstring " len=" ++ ((Arg.signed len).text ++ (cstring " str=" ++ (str.text ++ cstring "\n")))))))

/-- The result of `hello` and what it prints. -/
def hello : Word × List Byte :=
  match userArg u sz esp 0#32, (userArg u sz esp 1#32).filter (fun p => decide (p < sz ∧ p + 8#32 ≤ sz)),
    (userArg u sz esp 2#32).bind (strAt u sz) with
  | some i, some ptr, some (len, str) => (0#32, helloText i ptr len (.string str (userString u str len)))
  | _, _, _ => (SYSFAIL, [])

def unknownText (num : Word) : List Byte :=
  cstring "WARN: Unknown sys call " ++ ((Arg.signed num).text ++ cstring "\n\n")

/-- What a system call gives back and prints, from the caller's memory and registers
alone; an accepted `exit` does not come back. -/
def answer (num : Word) : Option (Word × List Byte) :=
  if num = SYS_hello then some (hello u sz esp)
  else if num = SYS_exit then if (userArg u sz esp 0#32).isSome then none else some (SYSFAIL, [])
  else some (SYSFAIL, unknownText num)

end Answers

/-- A stretch of a format without conversions prints as it stands. -/
theorem prints_literal (text : List Byte) {rest : List Byte} {args : List Arg} {out : List Byte}
    (simple : text.all (fun c => c ≠ ascii '%' && c ≠ 0#8) = true) (later : Prints rest args out) :
    Prints (text ++ rest) args (text ++ out) := by
  induction text with
  | nil => exact later
  | cons c text ih =>
    simp only [List.all_cons, Bool.and_eq_true, decide_eq_true_eq] at simple
    exact .literal simple.1.1 simple.1.2 (ih simple.2)

theorem prints_hello (i ptr len : Word) (str : Addr) (bytes : List Byte) :
    Prints (cstring "Hello world! i=%d p=0x%x len=%d str=%s\n") [.signed i, .unsigned ptr, .signed len, .string str bytes]
      (helloText i ptr len (.string str bytes)) := by
  have format : cstring "Hello world! i=%d p=0x%x len=%d str=%s\n" = cstring "Hello world! i=" ++
      ascii '%' :: ascii 'd' :: (cstring " p=0x" ++ ascii '%' :: ascii 'x' :: (cstring " len=" ++
        ascii '%' :: ascii 'd' :: (cstring " str=" ++ ascii '%' :: ascii 's' :: (cstring "\n" ++ [])))) := by decide +kernel
  have last := prints_literal (cstring "\n") (by decide +kernel) Prints.done
  rw [List.append_nil (cstring "\n")] at last
  rw [format]
  exact prints_literal _ (by decide +kernel) (.argument rfl (prints_literal _ (by decide +kernel) (.argument (.inl rfl)
    (prints_literal _ (by decide +kernel) (.argument rfl (prints_literal _ (by decide +kernel) (.argument rfl last)))))))

theorem prints_unknown (num : Word) : Prints (cstring ("WARN: " ++ "Unknown sys call %d\n" ++ "\n")) [.signed num]
    (unknownText num) := by
  have format : cstring ("WARN: " ++ "Unknown sys call %d\n" ++ "\n") = cstring "WARN: Unknown sys call " ++
      ascii '%' :: ascii 'd' :: (cstring "\n\n" ++ []) := by decide +kernel
  have last := prints_literal (cstring "\n\n") (by decide +kernel) Prints.done
  rw [format]
  rw [List.append_nil (cstring "\n\n")] at last ⊢
  exact prints_literal _ (by decide +kernel) (.argument rfl last)

section Handler
variable {u : Mem} {p : Slot} {s : KernelState}

theorem argWord_userArg (n : Word) : argWord u s p n =
    userArg u (s.ptable p).sz (TrapField.esp.read s.mem (s.ptable p).tf) n := rfl

theorem stringAt_userString {sz : Word} (sees : Sees u sz s) (n : Nat) (a : Addr) (inside : a.toNat + n < sz.toNat)
    (zero : u (a + BitVec.ofNat 32 n) = 0#8) (first : ∀ k < n, u (a + BitVec.ofNat 32 k) ≠ 0#8) :
    StringAt (byteAt s) a ((List.range n).map fun k => u (a + BitVec.ofNat 32 k)) := by
  have bound := sz.isLt
  induction n generalizing a with
  | zero =>
    rw [BitVec.add_zero] at zero
    rw [List.range_zero, List.map_nil, StringAt, sees a (by bv_omega), zero]
  | succ n ih =>
    have next (k : Nat) : a + 1#32 + BitVec.ofNat 32 k = a + BitVec.ofNat 32 (k + 1) := by bv_omega
    have here := first 0 (Nat.succ_pos n)
    rw [BitVec.add_zero] at here
    rw [List.range_succ_eq_map, List.map_cons, List.map_map]
    refine ⟨by simpa using sees a (by bv_omega), by simpa using here, ?_⟩
    have later := ih (a + 1#32) (by bv_omega) (by rw [next]; exact zero) fun k small => by
      rw [next]
      exact first (k + 1) (by omega)
    simp only [next] at later
    exact later

theorem consoleCpu_settled (quiet : Quiet s.cpu) : Settled s.cpu (consoleCpu s) := by
  rw [consoleCpu]
  split
  · rw [setLock_settle (quiet.free .cons)]
    exact quiet.settled_settle
  · exact quiet.settled

/-- Printing a known text with the console lock free. -/
theorem run_prints {fmt : String} {args : List Arg} {text : List Byte}
    (prints : Prints (cstring fmt) args text) (quiet : Quiet s.cpu) (words : List Word) (same : args.flatMap Arg.words = words)
    (readable : ∀ arg ∈ args, arg.Readable (byteAt s)) :
    ∃ chars reads cpu, (cprintf fmt words).run s = .ok () (((s.print chars).noted reads).setCpu cpu) ∧
      chars.map (BitVec.setWidth 8) = text ∧ Settled s.cpu cpu := by
  obtain ⟨chars, reads, low, -, ran⟩ := run_cprintf_text prints [] s readable quiet.toCalm
    fun _ => by rw [quiet.free .cons]; rfl
  rw [List.append_nil, same] at ran
  exact ⟨chars, reads, _, ran, low, consoleCpu_settled quiet⟩

/-- From `t` on the code of a call that began in `s` ends with this result and has printed this text. -/
def Ends (s t : KernelState) (code : Prog KernelState Word) (result : Word × List Byte) : Prop :=
  ∃ chars reads cpu, code.run t = .ok result.1 (((s.print chars).noted reads).setCpu cpu) ∧
    chars.map (BitVec.setWidth 8) = result.2 ∧ Settled s.cpu cpu

theorem ends_refused (reads : List Addr) {cpu : Processor} (settled : Settled s.cpu cpu) :
    Ends s ((s.noted reads).setCpu cpu) (pure SYSFAIL) (SYSFAIL, []) :=
  ⟨[], reads, cpu, by rw [print_nil]; rfl, rfl, settled⟩

theorem ends_bind {α : Type} {t t' : KernelState} {first : Prog KernelState α} {a : α} {next : α → Prog KernelState Word}
    {result : Word × List Byte} (ran : first.run t = .ok a t') (rest : Ends s t' (next a) result) :
    Ends s t (first >>= next) result := by
  obtain ⟨chars, reads, cpu, ended, text, settled⟩ := rest
  exact ⟨chars, reads, cpu, (run_bind_ok ran).trans ended, text, settled⟩

/-- The call of `cprintf` in `sys_hello`, with a string that ends in the process. -/
theorem ends_printed (idle : Idle u p s) {len str addr : Word} (found : strAt u (s.ptable p).sz addr = some (len, str))
    (i ptr : Word) (reads : List Addr) {cpu : Processor} (settled : Settled s.cpu cpu) :
    Ends s ((s.noted reads).setCpu cpu)
      (do cprintf "Hello world! i=%d p=0x%x len=%d str=%s\n" [i, ptr, len, str]; return 0#32)
      (0#32, helloText i ptr len (.string str (userString u str len))) := by
  obtain ⟨rfl, inside, zero, first⟩ := strAt_eq_some.mp found
  have bound := len.isLt
  have text := stringAt_userString (s := (s.noted reads).setCpu cpu) idle.user.sees len.toNat str inside
    (by simpa using zero) fun k small => first _ (by bv_omega)
  obtain ⟨chars, more, cpu', ran, printed, settled'⟩ := run_prints (s := (s.noted reads).setCpu cpu)
    (prints_hello i ptr len str (userString u str len)) settled.quiet [i, ptr, len, str] rfl (by
      intro arg member
      simp only [List.mem_cons, List.not_mem_nil, or_false] at member
      rcases member with rfl | rfl | rfl | rfl
      · trivial
      · trivial
      · trivial
      · exact .inr text)
  refine ends_bind ran ⟨chars, more ++ reads, cpu', ?_, printed, settled.trans settled'⟩
  simp only [EStateM.run_pure, print_put, print_noted, noted_put, noted_noted, put_put]
  rfl

theorem ends_sysHello (idle : Idle u p s) :
    Ends s s sysHello (hello u (s.ptable p).sz (TrapField.esp.read s.mem (s.ptable p).tf)) := by
  have settled := idle.quiet.settled_settle
  have user (reads : List Addr) : UserProcess u p ((s.noted reads).setCpu (settle s.cpu)) :=
    ⟨idle.user.small, idle.user.sees⟩
  have small : (s.ptable p).sz.toNat ≤ 2 ^ 31 := idle.user.small
  unfold sysHello hello
  refine ends_bind (run_myproc s idle.quiet.toCalm) ?_
  rw [idle.current]
  refine ends_bind (EStateM.run_pure p _) (ends_bind (run_fetchint (user []) 0#32) ?_)
  rw [argWord_userArg]
  simp only [KernelState.put_mem, KernelState.put_ptable, KernelState.noted_mem, KernelState.noted_ptable]
  cases userArg u (s.ptable p).sz (TrapField.esp.read s.mem (s.ptable p).tf) 0#32 with
  | none => exact ends_refused _ settled
  | some i =>
    refine ends_bind (run_sysargGetPtr (user _) 1#32 8#32) ?_
    rw [argWord_userArg]
    simp only [KernelState.put_mem, KernelState.put_ptable, KernelState.noted_mem, KernelState.noted_ptable, noted_put,
      noted_noted]
    cases (userArg u (s.ptable p).sz (TrapField.esp.read s.mem (s.ptable p).tf) 1#32).filter _ with
    | none => exact ends_refused _ settled
    | some ptr =>
      refine ends_bind (run_sysargGetStr (user _) 2#32) ?_
      rw [argWord_userArg]
      simp only [KernelState.put_mem, KernelState.put_ptable, KernelState.noted_mem, KernelState.noted_ptable, noted_put,
        noted_noted]
      cases accepted : (userArg u (s.ptable p).sz (TrapField.esp.read s.mem (s.ptable p).tf) 2#32).bind
        (strAt u (s.ptable p).sz) with
      | none => exact ends_refused _ settled
      | some pair =>
        obtain ⟨len, str⟩ := pair
        obtain ⟨addr, -, found⟩ := Option.bind_eq_some_iff.mp accepted
        have short : len.msb = false := by
          have inside := (strAt_eq_some.mp found).2.1
          rw [BitVec.msb_eq_false_iff_two_mul_lt]
          omega
        simp only [short, Bool.false_eq_true, if_false]
        exact ends_printed idle found i ptr _ settled

theorem run_exitBegin (free : Free s.cpu) :
    ∃ chars cpu, exitBegin.run s = .ok s.proc ((s.print chars).setCpu cpu) ∧ Free cpu := by
  have settled : Free (settle s.cpu) := free.settle
  unfold exitBegin
  rw [run_bind_ok (run_myproc s free.toCalm), run_bind_ok (EStateM.run_get _), run_ite]
  split
  next =>
    obtain ⟨chars, cpu, kept, ran⟩ := run_warn "init exiting" [] (s.setCpu (settle s.cpu)) settled.toQuiet (by decide)
    exact ⟨chars, cpu, (run_bind_ok ran).trans rfl, settled.settled kept⟩
  next =>
    refine ⟨[], settle s.cpu, ?_, settled⟩
    rw [print_nil]
    rfl

/-- A process that exits is a zombie with its status, and never runs again. -/
structure Exited (s t : KernelState) (p : Slot) (status : Word) : Prop where
  zombie : (t.ptable p).state = .zombie
  xstate : (t.ptable p).xstate = status
  others : ∀ q, q ≠ p → t.ptable q = s.ptable q
  mem : t.mem = s.mem

theorem run_exit (free : Free s.cpu) (current : s.proc = some p) (status : Word) :
    ∃ t, (exit status).run s = .error .spin t ∧ Exited s t p status := by
  obtain ⟨chars, cpu, begun, free⟩ := run_exitBegin free
  obtain ⟨cpu', acquired, locked⟩ := Free.acquire (s := (s.print chars).setCpu cpu) free
  unfold exit
  rw [run_bind_ok begun, run_bind_ok acquired, current, run_bind_ok (run_exitStatus p status _),
    run_bind_ok (run_setState p .zombie _), setSlot_setSlot, setSlot_same]
  refine ⟨_, run_bind_ok (run_enterScheduler locked current (by simp)), ?_, ?_, fun q other => ?_, rfl⟩
  · simp
  · simp
  · simp [other]

theorem run_sysExit (idle : Idle u p s) (unnested : s.cpu.ncli = 0) :
    match userArg u (s.ptable p).sz (TrapField.esp.read s.mem (s.ptable p).tf) 0#32 with
    | none => Ends s s sysExit (SYSFAIL, [])
    | some status => ∃ t, sysExit.run s = .error .spin t ∧ Exited s t p status := by
  have settled := idle.quiet.settled_settle
  have user : UserProcess u p (s.setCpu (settle s.cpu)) := ⟨idle.user.small, idle.user.sees⟩
  have fetched := run_fetchint user 0#32
  rw [argWord_userArg] at fetched
  simp only [KernelState.put_mem, KernelState.put_ptable, noted_put] at fetched
  have begun : sysExit.run s = ((sysargGetInt p 0#32) >>= fun n => match n with
      | none => pure SYSFAIL
      | some n => do exit n; return 0#32).run (s.setCpu (settle s.cpu)) := by
    unfold sysExit
    rw [run_bind_ok (run_myproc s idle.quiet.toCalm), idle.current]
    rfl
  generalize userArg u (s.ptable p).sz (TrapField.esp.read s.mem (s.ptable p).tf) 0#32 = word at fetched
  have went := begun.trans (run_bind_ok fetched)
  cases word with
  | none =>
    obtain ⟨chars, reads, cpu, ran, text, kept⟩ := ends_refused (s := s) (argReads (s.setCpu (settle s.cpu)) p 0#32) settled
    exact ⟨chars, reads, cpu, went.trans ran, text, kept⟩
  | some status =>
    have free : Free (settle s.cpu) := ⟨idle.quiet.settle, unnested⟩
    obtain ⟨t, ran, exited⟩ := run_exit (p := p)
      (s := (s.noted (argReads (s.setCpu (settle s.cpu)) p 0#32)).setCpu (settle s.cpu)) free idle.current status
    exact ⟨t, went.trans (run_bind_error ran), exited.zombie, exited.xstate, exited.others, exited.mem⟩

theorem syscallOf_cases (num : Word) : syscallOf num =
    if num = SYS_hello then some sysHello else if num = SYS_exit then some sysExit else none := by
  by_cases hello : num = SYS_hello
  · subst hello
    rfl
  · by_cases exit : num = SYS_exit
    · subst exit
      rfl
    · have outside : ¬ (0#32 < num ∧ num.toNat < syscalls.length) := by
        rintro ⟨positive, small⟩
        have size : syscalls.length = 3 := rfl
        rw [size] at small
        have cases : num = SYS_hello ∨ num = SYS_exit := by
          simp only [SYS_hello, SYS_exit]
          bv_omega
        exact cases.elim hello exit
      simp only [syscallOf, if_neg outside, if_neg hello, if_neg exit]

/-- The handler's effect on the kernel: the frame is noted, text is printed, and the result is in `eax`. -/
def handled (s : KernelState) (p : Slot) (state : Addr) (result : Word) (chars : List Word) (reads : List Addr)
    (cpu : Processor) : KernelState :=
  (((setSlot s p { s.ptable p with tf := state }).print chars).noted reads).put
    (write32 s.mem (state + TrapField.eax.offset) result) cpu s.freelist

theorem Ends.stored {state : Addr} {call : Prog KernelState Word} {result : Word × List Byte}
    (ends : Ends (setSlot (s.setCpu (settle s.cpu)) p { s.ptable p with tf := state })
      (setSlot (s.setCpu (settle s.cpu)) p { s.ptable p with tf := state }) call result) :
    ∃ chars reads cpu, (do let r ← call; store32 (state + TrapField.eax.offset) r : Prog KernelState Unit).run
        (setSlot (s.setCpu (settle s.cpu)) p { s.ptable p with tf := state }) =
          .ok () (handled s p state result.1 chars reads cpu) ∧
      chars.map (BitVec.setWidth 8) = result.2 ∧ Settled s.cpu cpu := by
  obtain ⟨chars, reads, cpu, ran, text, settled⟩ := ends
  exact ⟨chars, reads, cpu, (run_bind_ok ran).trans rfl, text, settled.quiet, settled.flIf, settled.ncli⟩

theorem run_syscallHandler (idle : Idle u p s) (unnested : s.cpu.ncli = 0) (state : Addr) :
    (answer u (s.ptable p).sz (TrapField.esp.read s.mem state) (TrapField.eax.read s.mem state)).elim
      (∃ status t, userArg u (s.ptable p).sz (TrapField.esp.read s.mem state) 0#32 = some status ∧
        (syscallHandler state).run s = .error .spin t ∧ Exited s t p status)
      fun result => ∃ chars reads cpu, (syscallHandler state).run s = .ok () (handled s p state result.1 chars reads cpu) ∧
        chars.map (BitVec.setWidth 8) = result.2 ∧ Settled s.cpu cpu := by
  have entered : Idle u p (setSlot (s.setCpu (settle s.cpu)) p { s.ptable p with tf := state }) := by
    refine ⟨⟨?_, ?_⟩, idle.current, idle.quiet.settle⟩
    · simpa using idle.user.small
    · rw [setSlot_same]
      exact idle.user.sees
  have known (call : Prog KernelState Word) (isCall : syscallOf (TrapField.eax.read s.mem state) = some call) :
      (syscallHandler state).run s = (do
        let result ← call
        store32 (state + TrapField.eax.offset) result : Prog KernelState Unit).run
          (setSlot (s.setCpu (settle s.cpu)) p { s.ptable p with tf := state }) := by
    unfold TrapField.read at isCall
    unfold syscallHandler
    rw [run_bind_ok (run_myproc s idle.quiet.toCalm), idle.current, deref, run_bind_ok (EStateM.run_pure _ _),
      run_bind_ok (run_updateSlot _ _ _), run_bind_ok (run_load32 _ _)]
    simp only [setSlot_mem, KernelState.put_mem, isCall, KernelState.put_ptable]
  have unknown (isNone : syscallOf (TrapField.eax.read s.mem state) = none) : (syscallHandler state).run s = (do
        warn "Unknown sys call %d\n" [TrapField.eax.read s.mem state]
        store32 (state + TrapField.eax.offset) SYSFAIL : Prog KernelState Unit).run
          (setSlot (s.setCpu (settle s.cpu)) p { s.ptable p with tf := state }) := by
    unfold TrapField.read at isNone ⊢
    unfold syscallHandler
    rw [run_bind_ok (run_myproc s idle.quiet.toCalm), idle.current, deref, run_bind_ok (EStateM.run_pure _ _),
      run_bind_ok (run_updateSlot _ _ _), run_bind_ok (run_load32 _ _)]
    simp only [setSlot_mem, KernelState.put_mem, isNone, KernelState.put_ptable]
  rw [syscallOf_cases] at known unknown
  unfold answer
  by_cases isHello : TrapField.eax.read s.mem state = SYS_hello
  · rw [if_pos isHello] at known ⊢
    have begun := known sysHello rfl
    have ends := ends_sysHello entered
    rw [setSlot_same] at ends
    obtain ⟨chars, reads, cpu, ran, text, settled⟩ := ends.stored
    exact ⟨chars, reads, cpu, begun.trans ran, text, settled⟩
  · rw [if_neg isHello] at known unknown ⊢
    by_cases isExit : TrapField.eax.read s.mem state = SYS_exit
    · rw [if_pos isExit] at known ⊢
      have begun := known sysExit rfl
      have ends := run_sysExit entered unnested
      rw [setSlot_same] at ends
      change match userArg u (s.ptable p).sz (TrapField.esp.read s.mem state) 0#32 with
        | none => _
        | some status => _ at ends
      cases word : userArg u (s.ptable p).sz (TrapField.esp.read s.mem state) 0#32 with
      | none =>
        rw [word] at ends
        obtain ⟨chars, reads, cpu, ran, text, settled⟩ := ends.stored
        exact ⟨chars, reads, cpu, begun.trans ran, text, settled⟩
      | some status =>
        rw [word] at ends
        obtain ⟨t, ran, exited⟩ := ends
        refine ⟨status, t, rfl, begun.trans (run_bind_error ran), exited.zombie, exited.xstate, fun q other => ?_, exited.mem⟩
        rw [exited.others q other]
        simp [other]
    · rw [if_neg isExit] at unknown ⊢
      have begun := unknown rfl
      obtain ⟨chars, reads, cpu, ran, text, settled⟩ := run_prints (prints_unknown (TrapField.eax.read s.mem state))
        entered.quiet [TrapField.eax.read s.mem state] rfl (by simp [Arg.Readable])
      exact ⟨chars, reads, cpu, begun.trans (run_bind_ok ran), text, settled.quiet, settled.flIf, settled.ncli⟩

end Handler

/-- Some bytes have been pushed, and memory is as it was elsewhere. -/
structure Pushed (m n : Core) (bytes : Nat) : Prop where
  esp : n.reg .esp = m.reg .esp - BitVec.ofNat 32 bytes
  mem : Set.EqOn n.mem m.mem (span (n.reg .esp) bytes)ᶜ

theorem Pushed.trans {m n o : Core} {j k : Nat} (first : Pushed m n j) (second : Pushed n o k) (bound : j + k ≤ 2 ^ 32) :
    Pushed m o (j + k) := by
  refine ⟨?_, fun x outside => ?_⟩
  · rw [second.esp, first.esp]
    bv_omega
  · have esp := second.esp
    simp only [Set.mem_compl_iff, mem_span] at outside
    have inner : x ∈ (span (o.reg .esp) k)ᶜ := by
      simp only [Set.mem_compl_iff, mem_span]
      omega
    have outer : x ∈ (span (n.reg .esp) j)ᶜ := by
      simp only [Set.mem_compl_iff, mem_span]
      bv_omega
    exact (second.mem inner).trans (first.mem outer)

theorem pushed_pushAll (m : Core) (words : List Word) (bound : 4 * words.length ≤ 2 ^ 32) :
    Pushed m (m.pushAll words) (4 * words.length) := by
  refine ⟨Core.pushAll_esp m words, ?_⟩
  rw [Core.pushAll_esp]
  exact Core.pushAll_outside m words bound

/-- The general registers, `ds`, the pointer to the frame and the return address. -/
theorem pushed_wrapperCode (handler next : Addr) (m : Core) : Pushed m (run (Isr.wrapperCode handler next) m) 44 := by
  have general := pushed_pushAll m ([.eax, .ecx, .edx, .ebx, .esp, .ebp, .esi, .edi].map m.reg) (by simp)
  generalize saved : m.pushAll ([.eax, .ecx, .edx, .ebx, .esp, .ebp, .esi, .edi].map m.reg) = n at general
  have split : run (Isr.wrapperCode handler next) m = run (Isr.wrapperCode handler next).tail n := by
    rw [← saved]
    exact run_cons m .pushad _
  obtain ⟨mem, esp, -⟩ := run_wrapperCode_tail handler next n
  rw [← split] at mem esp
  refine general.trans ⟨esp, ?_⟩ (by simp)
  rw [mem, esp]
  exact Core.pushAll_outside n [_, _, _] (by simp)

/-- From an outer level the trap only writes below the top of the kernel stack. -/
theorem enter_outside {layout : Layout} {tss : Tss} {vector : Nat} {error : Word} {midway : Bool} {m entered : Core}
    (known : vector ∈ Isr.stubVectors) (level : rpl (m.seg .cs) ≠ 0#2)
    (ran : enter layout tss vector error midway m = some entered) :
    Set.EqOn entered.mem m.mem (span (tss.esp0 - 72#32) 72)ᶜ := by
  have stack : Pushed ((m.setSeg .ss tss.ss0).setReg .esp tss.esp0) (trapStack tss m) 8 := by
    have inner : trapStack tss m = ((m.setSeg .ss tss.ss0).setReg .esp tss.esp0).pushAll
        [(m.seg .ss).setWidth 32, m.reg .esp] := if_neg level
    rw [inner]
    exact pushed_pushAll _ _ (by simp)
  have frame := pushed_pushAll (trapStack tss m) [imageFlags (resumes vector midway) m.eflags, (m.seg .cs).setWidth 32, m.eip,
    (errorCode vector error).getD 0#32, BitVec.ofNat 32 vector] (by simp)
  rw [enter, gateOf_idtInit _ _ known, Option.bind_some, Option.ite_none_right_eq_some] at ran
  have ran := attempt_run ran.2
  rw [run_append, run_isrStub] at ran
  generalize stubbed : ({ ((trapStack tss m).pushAll [imageFlags (resumes vector midway) m.eflags, (m.seg .cs).setWidth 32, m.eip,
    (errorCode vector error).getD 0#32, BitVec.ofNat 32 vector]).setSeg .cs _ with eip := _, eflags := _ } : Core) = n at ran
  have stub : Pushed (trapStack tss m) n 20 := by
    rw [← stubbed]
    exact ⟨frame.esp, frame.mem⟩
  have all := (stack.trans stub (by decide)).trans (pushed_wrapperCode layout.isrHandler layout.afterCall n) (by decide)
  rw [ran] at all
  have place : entered.reg .esp = tss.esp0 - 72#32 := all.esp
  rw [← place]
  exact all.mem

/-- A user program about to trap. Its kernel stack is the one in the task state segment, with the
kernel's stack segment, and nothing written there reaches its memory. -/
structure Calling (tss : Tss) (u : Mem) (p : Slot) (s : KernelState) (m : Interrupted) : Prop where
  idle : Idle u p s
  unnested : s.cpu.ncli = 0
  mem : m.mem = s.mem
  level : rpl (m.seg .cs) ≠ 0#2
  ss0 : tss.ss0 = 0x10#16
  esp0 : tss.esp0 = (s.ptable p).kstack + KSTACKSIZE
  apart : ∀ mem, Set.EqOn mem s.mem (span (s.ptable p).kstack 4096)ᶜ → Sees u (s.ptable p).sz (s.setMem mem)

/-- The compiled `isr_handler` has returned with the kernel in state `t`: it used the stack
below the frame. -/
structure Returns (kstack : Addr) (t : KernelState) (entered exit : Core) : Prop where
  eip : exit.eip = entered.top
  esp : exit.reg .esp = entered.reg .esp + 4#32
  seg : exit.seg = entered.seg
  gdt : exit.gdt = entered.gdt
  nested : exit.eflags.getLsbD flagNt = entered.eflags.getLsbD flagNt
  mem : Set.EqOn exit.mem t.mem (span kstack 4032)ᶜ

section Trip
variable {δ : Type} {layout : Layout} {tss : Tss} {u : Mem} {p : Slot} {m : Interrupted}
  {s : KernelState}

/-- No controller hears of a system call. -/
theorem run_isrHandler_syscall (drivers : Driver → Prog δ Unit) {b : Board δ} (state : Addr) (table : b.isrTable = bootTable)
    (number : TrapField.intNo.read b.kernel.mem state = BitVec.ofNat 32 IDT_TRAP_SYSCALL) :
    (isrHandler drivers state).run b = match (syscallHandler state).run b.kernel with
      | .ok _ kernel => .ok () { b with kernel := kernel }
      | .error e kernel => .error e { b with kernel := kernel } := by
  have vector : (BitVec.ofNat 32 IDT_TRAP_SYSCALL).setWidth 8 = 64#8 := by decide
  have dispatch : (isrDispatch drivers state 64#8).run b = (onKernel (syscallHandler state)).run b := by
    unfold isrDispatch
    rw [run_bind_ok (EStateM.run_get b), table]
    rfl
  unfold isrHandler
  rw [run_bind_ok (show (intNoAt state).run b = .ok (TrapField.intNo.read b.kernel.mem state) b from rfl), number, vector]
  cases outcome : (syscallHandler state).run b.kernel with
  | ok _ kernel =>
    rw [run_bind_ok (dispatch.trans (run_zoom_ok outcome))]
    rfl
  | error e kernel => rw [run_bind_error (dispatch.trans (run_zoom_error outcome))]

theorem Calling.entered_mem (calling : Calling tss u p s m) {entered : Core}
    (ran : enter layout tss IDT_TRAP_SYSCALL 0#32 false m.toCore = some entered) :
    Set.EqOn entered.mem s.mem (span (s.ptable p).kstack 4096)ᶜ := by
  intro x outside
  have size : KSTACKSIZE = 4096#32 := rfl
  have esp0 := calling.esp0
  simp only [Set.mem_compl_iff, mem_span] at outside
  rw [← calling.mem]
  refine enter_outside (by decide) calling.level ran ?_
  simp only [Set.mem_compl_iff, mem_span, esp0, size]
  bv_omega

/-- The trap reaches `isr_handler`, with the state at the top of the kernel stack. -/
theorem Calling.enters (layout : Layout) (calling : Calling tss u p s m) :
    ∃ entered useless, enter layout tss IDT_TRAP_SYSCALL 0#32 false m.toCore = some entered ∧
      Entered layout (trapStack tss m.toCore)
        (trapFrame m.toCore IDT_TRAP_SYSCALL 0#32 false useless (m.reg .esp) ((m.seg .ss).setWidth 32)) entered ∧
      stateArg entered = (s.ptable p).kstack + 4032#32 := by
  obtain ⟨esp, ss, above, pushed⟩ := trapStack_above tss m.toCore
  obtain ⟨rfl, rfl, top⟩ := pushed calling.level
  obtain ⟨entered, useless, ran, entry⟩ := run_enter layout tss IDT_TRAP_SYSCALL 0#32 false m.toCore _ _ (by decide)
    ⟨m.table, .inr calling.ss0⟩ above
  have size : KSTACKSIZE = 4096#32 := rfl
  refine ⟨entered, useless, ran, entry, ?_⟩
  rw [entry.arg, top, calling.esp0, size]
  bv_omega

/-- The calling process again, once the call is over. -/
theorem Calling.again (calling : Calling tss u p s m) {mem : Mem} {state : Addr} {result : Word} {chars : List Word}
    {reads : List Addr} {cpu : Processor} (settled : Settled s.cpu cpu)
    (same : Set.EqOn mem s.mem (span (s.ptable p).kstack 4096)ᶜ) {next : Interrupted} (here : next.mem = mem)
    (level : rpl (next.seg .cs) ≠ 0#2) {t : KernelState} (began : t = s.setMem t.mem) :
    Calling tss u p ((handled t p state result chars reads cpu).setMem mem) next := by
  have slot : ((handled t p state result chars reads cpu).setMem mem).ptable p = { s.ptable p with tf := state } := by
    rw [began]
    simp [handled]
  constructor
  · refine ⟨⟨?_, ?_⟩, ?_, settled.quiet⟩
    · rw [slot]
      exact calling.idle.user.small
    · rw [slot, began]
      exact calling.apart mem same
    · rw [began]
      exact calling.idle.current
  · exact settled.ncli.trans calling.unnested
  · exact here
  · exact level
  · exact calling.ss0
  · rw [slot]
    exact calling.esp0
  · rw [slot, began]
    exact fun mem' other => calling.apart mem' fun x outside => (other outside).trans (same outside)

theorem Calling.idle_entered (calling : Calling tss u p s m) {mem : Mem}
    (same : Set.EqOn mem s.mem (span (s.ptable p).kstack 4096)ᶜ) : Idle u p (s.setMem mem) :=
  ⟨⟨calling.idle.user.small, calling.apart mem same⟩, calling.idle.current, calling.idle.quiet⟩

/-- What `syscall_handler` makes of the trap. -/
theorem Calling.served (calling : Calling tss u p s m) {entered : Core} {useless : Word}
    (ran : enter layout tss IDT_TRAP_SYSCALL 0#32 false m.toCore = some entered)
    (entry : Entered layout (trapStack tss m.toCore)
      (trapFrame m.toCore IDT_TRAP_SYSCALL 0#32 false useless (m.reg .esp) ((m.seg .ss).setWidth 32)) entered) :
    (answer u (s.ptable p).sz (m.reg .esp) (m.reg .eax)).elim
      (∃ status t, userArg u (s.ptable p).sz (m.reg .esp) 0#32 = some status ∧
        (syscallHandler (stateArg entered)).run (s.setMem entered.mem) = .error .spin t ∧
        Exited (s.setMem entered.mem) t p status)
      fun result => ∃ chars reads cpu, (syscallHandler (stateArg entered)).run (s.setMem entered.mem) =
          .ok () (handled (s.setMem entered.mem) p (stateArg entered) result.1 chars reads cpu) ∧
        chars.map (BitVec.setWidth 8) = result.2 ∧ Settled s.cpu cpu := by
  have handler := run_syscallHandler (calling.idle_entered (calling.entered_mem ran)) calling.unnested (stateArg entered)
  change (answer u (s.ptable p).sz (TrapField.esp.read entered.mem (stateArg entered))
    (TrapField.eax.read entered.mem (stateArg entered))).elim
    (∃ status t, userArg u (s.ptable p).sz (TrapField.esp.read entered.mem (stateArg entered)) 0#32 = _ ∧ _) _ at handler
  rw [entry.read .esp, entry.read .eax] at handler
  exact handler

/-- The frame lies above what `isr_handler` may use, so the handler changed its `eax` only. -/
theorem Returns.handles {entered exit : Core} {kstack : Addr} {result : Word} {chars : List Word} {reads : List Addr}
    {cpu : Processor} (returns : Returns kstack
      (handled (s.setMem entered.mem) p (stateArg entered) result chars reads cpu) entered exit)
    (place : stateArg entered = kstack + 4032#32) :
    Handles entered exit ∧ TrapField.eax.read exit.mem (stateArg entered) = result := by
  have eax : TrapField.eax.offset = 32#32 := rfl
  have above : span (stateArg entered) interruptStateSize ⊆ (span kstack 4032)ᶜ := by
    intro x inside
    simp only [Set.mem_compl_iff, mem_span, interruptStateSize] at inside ⊢
    bv_omega
  have outcome : (handled (s.setMem entered.mem) p (stateArg entered) result chars reads cpu).mem =
      write32 entered.mem (stateArg entered + TrapField.eax.offset) result := rfl
  have stored := returns.mem
  rw [outcome] at stored
  refine ⟨⟨returns.eip, returns.esp, returns.seg, returns.gdt, returns.nested, ?_⟩, ?_⟩
  · intro x inside
    rw [stored (above inside.1)]
    exact write32_outside _ _ _ inside.2
  · have inFrame : span (stateArg entered + TrapField.eax.offset) 4 ⊆ span (stateArg entered) interruptStateSize := by
      intro x inside
      simp only [mem_span, interruptStateSize, eax] at inside ⊢
      bv_omega
    exact (read32_congr (stored.mono (inFrame.trans above))).trans (read32_write32_self _ _ _)

/-- What the kernel wrote is on the kernel stack. -/
theorem Returns.outside {entered exit : Core} {kstack : Addr} {result : Word} {chars : List Word} {reads : List Addr}
    {cpu : Processor} (returns : Returns kstack
      (handled (s.setMem entered.mem) p (stateArg entered) result chars reads cpu) entered exit)
    (place : stateArg entered = kstack + 4032#32) : Set.EqOn exit.mem entered.mem (span kstack 4096)ᶜ := by
  have eax : TrapField.eax.offset = 32#32 := rfl
  intro x outside
  simp only [Set.mem_compl_iff, mem_span] at outside
  have below : x ∈ (span kstack 4032)ᶜ := by
    simp only [Set.mem_compl_iff, mem_span]
    omega
  refine (returns.mem below).trans (write32_outside _ _ _ ?_)
  rw [eax, place, Set.mem_compl_iff, mem_span]
  bv_omega

end Trip

/-- The caller of `hello(5, (char *)8, "hi")`, with a kernel stack. -/
def helloKernel : KernelState :=
  { helloProcess with
    ptable := fun _ => { Process.zero with kstack := 0x80004000#32, sz := 0x1000#32, state := .running } }

def helloCore : Interrupted :=
  { userCore with
    reg := fun
      | .eax => SYS_hello
      | _ => 0#32
    mem := helloKernel.mem }

def helloBoard : Board Unit where
  kernel := helloKernel
  pics := ⟨⟨noLine, noLine, 0xf8#8, 0x20#8, 4#8, .ready, true, false, false⟩,
    ⟨noLine, noLine, 0xff#8, 0x28#8, 2#8, .ready, true, false, false⟩⟩
  isrTable := bootTable
  ticks := 0#64
  cr2 := 0#32
  devices := ()

theorem helloCalling : Calling ⟨0x10#16, 0x80005000#32⟩ helloMemory ⟨0, by decide⟩ helloKernel helloCore := by
  have sees (mem : Mem) (same : Set.EqOn mem helloKernel.mem (span 0x80004000#32 4096)ᶜ) :
      Sees helloMemory 0x1000#32 (helloKernel.setMem mem) := by
    have word (a : Addr) (below : a.toNat + 4 ≤ 0x80004000) : read32 mem a = read32 helloKernel.mem a := by
      apply read32_congr
      intro x inside
      apply same
      simp only [Set.mem_compl_iff, mem_span] at inside ⊢
      bv_omega
    intro a below
    have small : a.toNat < 4096 := below
    rw [onePage_sees (s := helloKernel.setMem mem) rfl ((word _ (by decide)).trans (by decide +kernel))
      ((word _ (by decide)).trans (by decide +kernel)) a below]
    refine congrArg some (same ?_)
    simp only [Set.mem_compl_iff, mem_span]
    bv_omega
  exact ⟨⟨⟨by decide, sees _ fun _ _ => rfl⟩, rfl, boot_quiet helloProcess.mem 0#32⟩, rfl, rfl, by decide, rfl, rfl, sees⟩

end OsDev.Kernel.SyscallTrip
