import OsDev.Kernel.SyscallArgs

/-! A system call shows a process nothing of the kernel's memory: two runs from
states that differ only there print the same and return the same. -/

namespace OsDev.Kernel.SyscallLeaks
open OsDev.Machine.Memory OsDev.Machine.Program OsDev.Kernel.SpinLocks OsDev.Kernel.StringLib OsDev.Kernel.State
  OsDev.Kernel.Console OsDev.Kernel.Frames OsDev.Kernel.Proc OsDev.Kernel.Syscall OsDev.Kernel.SyscallArgs

/-- Two kernels at a system call of process `p` with the trap frame `state`. They agree
on the process, its memory, the frame, the console and the locks. Everything else in
memory may differ. -/
structure LowEqual (u : Mem) (p : Slot) (state : Addr) (s t : KernelState) : Prop where
  current : s.proc = some p
  currentOther : t.proc = some p
  size : (t.ptable p).sz = (s.ptable p).sz
  frame : ∀ field : TrapField, field.read t.mem state = field.read s.mem state
  cpu : t.cpu = s.cpu
  locking : t.consLocking = s.consLocking
  console : t.console = s.console
  user : UserProcess u p s
  userOther : UserProcess u p t

/-- What two runs have shown since they started in `s₀` and `t₀`: the same characters,
and the same reads through user addresses, all of them below `sz`. -/
structure Observed (sz : Word) (s₀ t₀ s t : KernelState) : Prop where
  console : t.console = s.console
  reads : ∃ reads, (∀ x ∈ reads, x < sz) ∧ s.accessed = reads ++ s₀.accessed ∧ t.accessed = reads ++ t₀.accessed

section Runs
variable {u : Mem} {p : Slot} {state : Addr} {s₀ t₀ s t : KernelState}

/-- Two runs of the handler for `SYS_hello`. -/
structure Related (u : Mem) (p : Slot) (state : Addr) (s₀ t₀ s t : KernelState) : Prop
    extends LowEqual u p state s t where
  size₀ : (s.ptable p).sz = (s₀.ptable p).sz
  call : TrapField.eax.read s.mem state = SYS_hello
  seen : Observed (s₀.ptable p).sz s₀ t₀ s t

/-- Two runs after the handler has noted where the frame is. -/
structure Trapped (u : Mem) (p : Slot) (state : Addr) (s₀ t₀ s t : KernelState) : Prop
    extends Related u p state s₀ t₀ s t where
  tf : (s.ptable p).tf = state
  tfOther : (t.ptable p).tf = state

/-- Code that only uses the processor cannot tell the two runs apart. -/
structure CpuStable (p : Slot) (stopped before : KernelState → KernelState → Prop) : Prop where
  current : ∀ s t, before s t → s.proc = some p
  currentOther : ∀ s t, before s t → t.proc = some p
  cpu : ∀ s t, before s t → t.cpu = s.cpu
  kept : ∀ s t cpu, before s t → before (s.setCpu cpu) (t.setCpu cpu)
  stop : ∀ s t, before s t → stopped s t

theorem LowEqual.setCpu (low : LowEqual u p state s t) (cpu : Processor) :
    LowEqual u p state (s.setCpu cpu) (t.setCpu cpu) :=
  ⟨low.current, low.currentOther, low.size, low.frame, rfl, low.locking, low.console, ⟨low.user.small, low.user.sees⟩,
    ⟨low.userOther.small, low.userOther.sees⟩⟩

theorem Related.setCpu (related : Related u p state s₀ t₀ s t) (cpu : Processor) :
    Related u p state s₀ t₀ (s.setCpu cpu) (t.setCpu cpu) :=
  ⟨related.toLowEqual.setCpu cpu, related.size₀, related.call, ⟨related.seen.console, related.seen.reads⟩⟩

theorem related_stable : CpuStable p (Observed (s₀.ptable p).sz s₀ t₀) (Related u p state s₀ t₀) where
  current _ _ related := related.current
  currentOther _ _ related := related.currentOther
  cpu _ _ related := related.cpu
  kept _ _ cpu related := related.setCpu cpu
  stop _ _ related := related.seen

theorem trapped_stable : CpuStable p (Observed (s₀.ptable p).sz s₀ t₀) (Trapped u p state s₀ t₀) where
  current _ _ trapped := trapped.current
  currentOther _ _ trapped := trapped.currentOther
  cpu _ _ trapped := trapped.cpu
  kept _ _ cpu trapped := ⟨trapped.toRelated.setCpu cpu, trapped.tf, trapped.tfOther⟩
  stop _ _ trapped := trapped.seen

section Processor
variable {stopped before : KernelState → KernelState → Prop}

theorem agrees_onCpu {α : Type} (stable : CpuStable p stopped before) (part : Prog Processor α) :
    Agrees stopped before (onCpu part) fun _ => before := by
  intro s t related
  have cpu := stable.cpu s t related
  cases ran : part.run s.cpu with
  | ok a after =>
    refine .inl ⟨a, s.setCpu after, t.setCpu after, run_onCpu_ok ran, run_onCpu_ok ?_, stable.kept s t after related⟩
    rw [cpu, ran]
  | error e after =>
    refine .inr ⟨e, s.setCpu after, t.setCpu after, run_zoom_error ran, run_zoom_error ?_, ?_⟩
    · rw [cpu, ran]
    · exact stable.stop _ _ (stable.kept s t after related)

theorem agrees_myproc (stable : CpuStable p stopped before) :
    Agrees stopped before myproc fun a s t => a = some p ∧ before s t := by
  unfold myproc
  apply (agrees_onCpu stable _).bind
  intro _
  apply (agrees_onCpu stable _).bind
  intro _
  apply agrees_get
  · intro s t related
    simp only [stable.current s t related, stable.currentOther s t related]
  · intro s t related
    apply (agrees_onCpu stable _).bind
    intro _
    apply agrees_pure
    intro s' t' after
    exact ⟨stable.current s t related, after⟩

/-- Code that starts by asking for the current process. -/
theorem agrees_current {α : Type} {next : Slot → Prog KernelState α} {after : α → KernelState → KernelState → Prop}
    (stable : CpuStable p stopped before) (rest : Agrees stopped before (next p) after) :
    Agrees stopped before (myproc >>= fun current => deref current >>= next) after := by
  apply (agrees_myproc stable).bind
  intro current
  apply agrees_of_and
  rintro rfl
  exact rest

end Processor

theorem Trapped.noted (trapped : Trapped u p state s₀ t₀ s t) {reads : List Addr} (below : ∀ x ∈ reads, x < (s.ptable p).sz) :
    Trapped u p state s₀ t₀ (s.noted reads) (t.noted reads) := by
  obtain ⟨earlier, belowEarlier, here, there⟩ := trapped.seen.reads
  have low : LowEqual u p state (s.noted reads) (t.noted reads) :=
    ⟨trapped.current, trapped.currentOther, trapped.size, trapped.frame, trapped.cpu, trapped.locking, trapped.console,
      trapped.user.noted _, trapped.userOther.noted _⟩
  refine ⟨⟨low, trapped.size₀, trapped.call, ⟨trapped.console, reads ++ earlier, ?_, ?_, ?_⟩⟩, trapped.tf, trapped.tfOther⟩
  · intro x member
    rw [← trapped.size₀]
    rcases List.mem_append.mp member with member | member
    · exact below x member
    · rw [trapped.size₀]
      exact belowEarlier x member
  · simp [here]
  · simp [there]

theorem Trapped.print (trapped : Trapped u p state s₀ t₀ s t) (chars : List Word) :
    Trapped u p state s₀ t₀ (s.print chars) (t.print chars) := by
  have console : (t.print chars).console = (s.print chars).console := by simp [trapped.console]
  have low : LowEqual u p state (s.print chars) (t.print chars) :=
    ⟨trapped.current, trapped.currentOther, trapped.size, trapped.frame, trapped.cpu, trapped.locking, console,
      ⟨trapped.user.small, trapped.user.sees⟩, ⟨trapped.userOther.small, trapped.userOther.sees⟩⟩
  exact ⟨⟨low, trapped.size₀, trapped.call, ⟨console, trapped.seen.reads⟩⟩, trapped.tf, trapped.tfOther⟩

theorem Trapped.argAddr (trapped : Trapped u p state s₀ t₀ s t) (n : Word) : argAddr t p n = argAddr s p n := by
  simp only [Syscall.argAddr, trapped.tf, trapped.tfOther, trapped.frame]

theorem Trapped.argWord (trapped : Trapped u p state s₀ t₀ s t) (n : Word) : argWord u t p n = argWord u s p n := by
  simp only [Syscall.argWord, trapped.argAddr, trapped.size]

theorem Trapped.argReads (trapped : Trapped u p state s₀ t₀ s t) (n : Word) : argReads t p n = argReads s p n := by
  simp only [Syscall.argReads, trapped.argAddr, trapped.size]

theorem Trapped.strArgReads (trapped : Trapped u p state s₀ t₀ s t) (n : Word) :
    strArgReads u t p n = strArgReads u s p n := by
  simp only [Syscall.strArgReads, trapped.argWord, trapped.argReads, trapped.size]

theorem agrees_sysargGetInt (n : Word) : Agrees (Observed (s₀.ptable p).sz s₀ t₀) (Trapped u p state s₀ t₀)
    (sysargGetInt p n) fun _ => Trapped u p state s₀ t₀ := by
  apply agrees_ok
  · intro s t trapped
    exact ⟨run_fetchint trapped.user n, run_fetchint trapped.userOther n⟩
  · intro s t trapped
    exact trapped.argWord n
  · intro s t trapped
    rw [trapped.argReads]
    exact trapped.noted (argReads_below s p n)

theorem agrees_sysargGetPtr (n size : Word) : Agrees (Observed (s₀.ptable p).sz s₀ t₀) (Trapped u p state s₀ t₀)
    (sysargGetPtr p n size) fun _ => Trapped u p state s₀ t₀ := by
  apply agrees_ok
  · intro s t trapped
    exact ⟨run_sysargGetPtr trapped.user n size, run_sysargGetPtr trapped.userOther n size⟩
  · intro s t trapped
    simp only [trapped.argWord, trapped.size]
  · intro s t trapped
    rw [trapped.argReads]
    exact trapped.noted (argReads_below s p n)

theorem strAt_printable {sz addr len a : Word} (accepted : strAt u sz addr = some (len, a)) : Printable u sz a := by
  simp only [strAt, Option.ite_none_right_eq_some] at accepted
  obtain ⟨k, found, pair⟩ := Option.map_eq_some_iff.mp accepted.2
  obtain ⟨-, rfl⟩ := Prod.mk.inj pair
  exact .inr ⟨accepted.1, by rw [found]; rfl⟩

/-- A string argument that is accepted can be printed. -/
theorem agrees_sysargGetStr (n : Word) : Agrees (Observed (s₀.ptable p).sz s₀ t₀) (Trapped u p state s₀ t₀)
    (sysargGetStr p n) fun r s t => (∀ len a, r = some (len, a) → Printable u (s₀.ptable p).sz a) ∧
      Trapped u p state s₀ t₀ s t := by
  apply agrees_ok
  · intro s t trapped
    exact ⟨run_sysargGetStr trapped.user n, run_sysargGetStr trapped.userOther n⟩
  · intro s t trapped
    simp only [trapped.argWord, trapped.size]
  · intro s t trapped
    rw [trapped.strArgReads]
    refine ⟨?_, trapped.noted (strArgReads_below u s p n)⟩
    intro len a accepted
    obtain ⟨addr, -, found⟩ := Option.bind_eq_some_iff.mp accepted
    rw [← trapped.size₀]
    exact strAt_printable found

theorem agrees_cprintf (fmt : String) (args : List Word)
    (strings : ∀ i ∈ stringArgs (cstring fmt) 0, Printable u (s₀.ptable p).sz (stackWords args i)) :
    Agrees (Observed (s₀.ptable p).sz s₀ t₀) (Trapped u p state s₀ t₀) (cprintf fmt args)
      fun _ => Trapped u p state s₀ t₀ := by
  obtain ⟨chars, reads, below, ran⟩ := run_cprintfLoop (stackWords args) (cstring fmt) 0 strings
  have loop : Agrees (Observed (s₀.ptable p).sz s₀ t₀) (Trapped u p state s₀ t₀)
      (cprintfLoop (stackWords args) (cstring fmt) 0) fun _ => Trapped u p state s₀ t₀ := by
    apply agrees_ok
    · intro s t trapped
      exact ⟨ran s (trapped.size₀ ▸ trapped.user.sees), ran t (trapped.size₀ ▸ trapped.size ▸ trapped.userOther.sees)⟩
    · intro s t trapped
      rfl
    · intro s t trapped
      apply (trapped.print chars).noted
      simpa [trapped.size₀] using below
  unfold cprintf
  apply agrees_get
  · intro s t trapped
    simp only [trapped.locking]
  · intro s t trapped
    cases s.consLocking with
    | false => exact loop.bind fun _ => agrees_pure fun s t trapped => trapped
    | true =>
      apply (agrees_onCpu trapped_stable (acquire .cons)).bind
      intro _
      exact loop.bind fun _ => agrees_onCpu trapped_stable (release .cons)

/-- The only string the greeting prints is its fourth argument. -/
theorem hello_strings {sz str : Word} (i ptr len : Word) (printable : Printable u sz str) :
    ∀ k ∈ stringArgs (cstring "Hello world! i=%d p=0x%x len=%d str=%s\n") 0,
      Printable u sz (stackWords [i, ptr, len, str] k) := by
  have only : stringArgs (cstring "Hello world! i=%d p=0x%x len=%d str=%s\n") 0 = [3] := by decide
  rw [only]
  intro k member
  obtain rfl : k = 3 := by simpa using member
  exact printable

/-- Both calls fail, or both print and return zero. -/
theorem agrees_sysHello : Agrees (Observed (s₀.ptable p).sz s₀ t₀) (Trapped u p state s₀ t₀) sysHello
    fun _ => Trapped u p state s₀ t₀ := by
  have fails : Agrees (Observed (s₀.ptable p).sz s₀ t₀) (Trapped u p state s₀ t₀) (pure SYSFAIL)
      fun _ => Trapped u p state s₀ t₀ := agrees_pure fun s t trapped => trapped
  unfold sysHello
  apply agrees_current trapped_stable
  apply (agrees_sysargGetInt 0#32).bind
  rintro (_ | i)
  · exact fails
  apply (agrees_sysargGetPtr 1#32 8#32).bind
  rintro (_ | ptr)
  · exact fails
  apply (agrees_sysargGetStr 2#32).bind
  rintro (_ | ⟨len, str⟩)
  · exact agrees_of_and fun _ => fails
  apply agrees_of_and
  intro accepted
  change Agrees _ _ (if len.msb then _ else _) _
  split
  · exact fails
  have strings := hello_strings i ptr len (accepted len str rfl)
  exact (agrees_cprintf _ _ strings).bind fun _ => agrees_pure fun s t trapped => trapped

theorem Related.enter (related : Related u p state s₀ t₀ s t) :
    Trapped u p state s₀ t₀ (setSlot s p { s.ptable p with tf := state }) (setSlot t p { t.ptable p with tf := state }) := by
  have low : LowEqual u p state (setSlot s p { s.ptable p with tf := state })
      (setSlot t p { t.ptable p with tf := state }) := by
    refine ⟨related.current, related.currentOther, ?_, related.frame, related.cpu, related.locking, related.console, ⟨?_, ?_⟩,
      ⟨?_, ?_⟩⟩
    · simpa using related.size
    · simpa using related.user.small
    · rw [setSlot_same]
      exact related.user.sees
    · simpa using related.userOther.small
    · rw [setSlot_same]
      exact related.userOther.sees
  refine ⟨⟨low, ?_, related.call, ⟨related.console, related.seen.reads⟩⟩, ?_, ?_⟩
  · simpa using related.size₀
  · simp
  · simp

theorem agrees_syscallHandler : Agrees (Observed (s₀.ptable p).sz s₀ t₀) (Related u p state s₀ t₀) (syscallHandler state)
    fun _ s t => TrapField.eax.read t.mem state = TrapField.eax.read s.mem state ∧
      Observed (s₀.ptable p).sz s₀ t₀ s t := by
  have entered : Agrees (Observed (s₀.ptable p).sz s₀ t₀) (Related u p state s₀ t₀)
      (updateSlot p ({ · with tf := state })) fun _ => Trapped u p state s₀ t₀ :=
    agrees_ok (fun s t _ => ⟨run_updateSlot p _ s, run_updateSlot p _ t⟩) (fun _ _ _ => rfl)
      fun s t related => related.enter
  have number : Agrees (Observed (s₀.ptable p).sz s₀ t₀) (Trapped u p state s₀ t₀)
      (load32 (state + TrapField.eax.offset)) fun num s t => num = SYS_hello ∧ Trapped u p state s₀ t₀ s t :=
    agrees_ok (fun s t _ => ⟨run_load32 _ s, run_load32 _ t⟩) (fun s t trapped => trapped.frame .eax)
      fun s t trapped => ⟨trapped.call, trapped⟩
  unfold syscallHandler
  apply agrees_current related_stable
  apply entered.bind
  intro _
  apply number.bind
  intro num
  apply agrees_of_and
  rintro rfl
  change Agrees _ _ (sysHello >>= fun result => store32 (state + TrapField.eax.offset) result) _
  apply agrees_sysHello.bind
  intro result
  apply agrees_ok
  · intro s t _
    exact ⟨run_store32 _ _ s, run_store32 _ _ t⟩
  · intro s t _
    rfl
  · intro s t trapped
    refine ⟨?_, ⟨trapped.seen.console, trapped.seen.reads⟩⟩
    simp only [TrapField.read, KernelState.put_mem, read32_write32_self]

end Runs

section Returns
variable {u : Mem} {p : Slot} {state : Addr} {s : KernelState}

/-- A process in the kernel that holds none of its locks. -/
structure Idle (u : Mem) (p : Slot) (s : KernelState) : Prop where
  user : UserProcess u p s
  current : s.proc = some p
  quiet : Quiet s.cpu

theorem Idle.noted (idle : Idle u p s) (reads : List Addr) : Idle u p (s.noted reads) :=
  ⟨idle.user.noted reads, idle.current, idle.quiet⟩

theorem yields_current {α : Type} {next : Slot → Prog KernelState α} {post : α → KernelState → Prop} (idle : Idle u p s)
    (rest : ∀ s, Idle u p s → Yields (fun _ => False) (next p) post s) :
    Yields (fun _ => False) (myproc >>= fun current => deref current >>= next) post s := by
  apply yields_bind_ok (run_myproc s idle.quiet.toCalm)
  rw [idle.current]
  exact rest _ ⟨⟨idle.user.small, idle.user.sees⟩, idle.current, idle.quiet.settle⟩

theorem yields_sysHello (idle : Idle u p s) : Yields (fun _ => False) sysHello (fun _ _ => True) s := by
  unfold sysHello
  apply yields_current idle
  intro s idle
  apply yields_bind_ok (run_fetchint idle.user 0#32)
  cases argWord u s p 0#32 with
  | none => exact yields_pure trivial
  | some i =>
    have idle := idle.noted (argReads s p 0#32)
    apply yields_bind_ok (run_sysargGetPtr idle.user 1#32 8#32)
    cases Option.filter _ _ with
    | none => exact yields_pure trivial
    | some ptr =>
      have idle := idle.noted (argReads (s.noted (argReads s p 0#32)) p 1#32)
      generalize (s.noted (argReads s p 0#32)).noted (argReads (s.noted (argReads s p 0#32)) p 1#32) = s at idle ⊢
      apply yields_bind_ok (run_sysargGetStr idle.user 2#32)
      cases accepted : (argWord u s p 2#32).bind (strAt u (s.ptable p).sz) with
      | none => exact yields_pure trivial
      | some pair =>
        obtain ⟨len, str⟩ := pair
        obtain ⟨addr, -, found⟩ := Option.bind_eq_some_iff.mp accepted
        change Yields _ (if len.msb then _ else _) _ _
        split
        · exact yields_pure trivial
        obtain ⟨chars, reads, -, ran⟩ := run_cprintf _ _ (hello_strings i ptr len (strAt_printable found))
        obtain ⟨cpu, -, ran⟩ := ran _ (idle.noted (strArgReads u s p 2#32)).quiet (idle.noted _).user.sees
        exact yields_bind_ok ran (yields_pure trivial)

theorem yields_syscallHandler (idle : Idle u p s) (call : TrapField.eax.read s.mem state = SYS_hello) :
    Yields (fun _ => False) (syscallHandler state) (fun _ _ => True) s := by
  have loaded (s' : KernelState) (same : s'.mem = s.mem) :
      (load32 (state + TrapField.eax.offset)).run s' = .ok SYS_hello s' := by
    rw [run_load32, same]
    exact congrArg (EStateM.Result.ok · s') call
  unfold syscallHandler
  apply yields_bind_ok (run_myproc s idle.quiet.toCalm)
  rw [idle.current]
  apply yields_bind_ok (EStateM.run_pure p _)
  apply yields_bind_ok (run_updateSlot p _ _)
  refine yields_bind_ok (loaded _ (by exact rfl)) ?_
  have entered : Idle u p (setSlot (s.setCpu (settle s.cpu)) p { s.ptable p with tf := state }) := by
    refine ⟨⟨?_, ?_⟩, idle.current, idle.quiet.settle⟩
    · simpa using idle.user.small
    · rw [setSlot_same]
      exact idle.user.sees
  apply (yields_sysHello entered).bind
  intro result s' _
  exact yields_ok (run_store32 _ _ s') trivial

end Returns

/-- The caller of `hello`, with one more byte of kernel memory set. -/
def helloOther : KernelState := { helloProcess with mem := Function.update helloProcess.mem 0x80005000#32 0xff#8 }

theorem helloOther_user : UserProcess helloMemory ⟨0, by decide⟩ helloOther := by
  refine ⟨by decide, ?_⟩
  intro a below
  have small : a.toNat < 4096 := below
  rw [onePage_sees (s := helloOther) rfl (by decide +kernel) (by decide +kernel) a below]
  simp only [helloOther, helloMemory]
  rw [Function.update_of_ne]
  bv_omega

end OsDev.Kernel.SyscallLeaks
