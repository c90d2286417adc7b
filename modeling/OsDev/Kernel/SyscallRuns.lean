import OsDev.Kernel.Fairness
import OsDev.Kernel.SyscallTrip

/-! System calls in a run of the whole system. The kernel writes to the kernel stack of
the caller and nowhere else, so that each call is a tame part of the run. -/

namespace OsDev.Kernel.SyscallRuns
open OsDev.Machine.Memory OsDev.Machine.Program OsDev.Machine.X86
open OsDev.Kernel.SpinLocks OsDev.Kernel.Mmu OsDev.Kernel.State OsDev.Kernel.Frames OsDev.Kernel.Proc OsDev.Kernel.Idt
  OsDev.Kernel.Traps OsDev.Kernel.Syscall OsDev.Kernel.SyscallTrip OsDev.Kernel.Holdings OsDev.Kernel.Newborn
  OsDev.Kernel.Scheduler OsDev.Kernel.Isolation OsDev.Kernel.Fairness
open OsDev.Kernel.SchedulerRuns (AtProc Owns Free Locked run_enterScheduler)
open OsDev.Kernel.AddressSpace (byteSeen)

/-- Writes to the kernel stack of a process leave its user memory alone. -/
theorem sees_stack {s : KernelState} {free : List Addr} {p : Slot} {u : Mem} (spaces : Spaces s free)
    (real : (s.ptable p).kstack ≠ 0#32) (mapped : (s.ptable p).pgdir ≠ 0#32) (loaded : s.cr3 = V2P (s.ptable p).pgdir)
    (user : UserProcess u p s) {mem : Mem} (same : Set.EqOn mem s.mem (span (s.ptable p).kstack 4096)ᶜ) :
    Sees u (s.ptable p).sz (s.setMem mem) := by
  have after : Spaces (s.setMem mem) free := (spaces.write (stack_data real same)).1.spaces spaces
  have kept {page : Addr} (apart : Disjoint (span page 4096) (span (s.ptable p).kstack 4096)) :
      Set.EqOn mem s.mem (span page 4096) := fun x inside => same (Set.disjoint_left.mp apart inside)
  intro a below
  have low : a.toNat / 4096 < 2 ^ 19 := by
    have small := user.small
    unfold KERNBASE at small
    bv_omega
  have walk := spaces.translation_kept after mapped rfl (fun page member => kept (stack_apart spaces real (.inl member))) a
  have seen := user.sees a below
  simp only [byteAt, KernelState.put_cr3, KernelState.put_mem, loaded, P2V_V2P, Option.map_eq_some_iff] at seen walk ⊢
  obtain ⟨t, found, byte⟩ := seen
  obtain ⟨frame, member, inside⟩ := spaces.low_frame mapped found low
  refine ⟨t, walk.trans found, ?_⟩
  rw [kept (stack_apart spaces real (.inr (.inl member))) inside]
  exact byte

/-- Some tame run has given the process the CPU, at this point and with the kernel in this state. -/
def Turn (image : Image) (main : MainPoint) (procs : Slot → ProcPoint) (p : Slot) (point : ProcPoint) (s : KernelState) : Prop :=
  Reachable (Ready image) (TameStep image) ⟨s, some p, main, Function.update procs p point, none⟩

section Turns
variable {image : Image} {main : MainPoint} {procs : Slot → ProcPoint} {p : Slot} {point next : ProcPoint} {s t : KernelState}

/-- A step that writes to the kernel stack of the process only. -/
theorem Turn.step (turn : Turn image main procs p point s) (past : procCreation point = none) (real : (s.ptable p).kstack ≠ 0#32)
    (confined : Set.EqOn t.mem s.mem (span (s.ptable p).kstack 4096)ᶜ)
    (step : Step image ⟨s, some p, main, Function.update procs p point, none⟩
      ⟨t, some p, main, Function.update (Function.update procs p point) p next, none⟩) : Turn image main procs p next t := by
  rw [Function.update_idem] at step
  have inside (q : Slot) (current : some p = some q) (x : Addr) (changed : t.mem x ≠ s.mem x) :
      (s.ptable q).kstack ≠ 0#32 ∧ x ∈ span (s.ptable q).kstack 4096 := by
    obtain rfl : p = q := Option.some.inj current
    refine ⟨real, ?_⟩
    by_contra outside
    exact changed (confined outside)
  refine Reachable.next turn ⟨step, fun q current _ x changed => .inr (inside q current x changed),
    fun q current _ x changed => .inr (.inr (inside q current x changed)), fun q creating => ?_⟩
  change procCreation (Function.update procs p point p) = _ at creating
  rw [Function.update_self, past] at creating
  cases creating

/-- A piece of the process's own code that leaves memory alone. -/
theorem Turn.code {code : Prog KernelState ProcPoint} (turn : Turn image main procs p point s) (past : procCreation point = none)
    (real : (s.ptable p).kstack ≠ 0#32) (piece : procCode image point = some code) (ran : code.run s = .ok next t)
    (same : t.mem = s.mem) : Turn image main procs p next t := by
  have here : Function.update procs p point p = point := Function.update_self ..
  have step : Step image ⟨s, some p, main, Function.update procs p point, none⟩ _ :=
    .proc p rfl rfl ((congrArg (procCode image) here).trans piece) ran
  have still : point.spawn (Function.update procs p point) = Function.update procs p point := by
    cases point with
    | creating c => cases past
    | _ => rfl
  simp only [here, still] at step
  exact turn.step past real (fun x _ => congrFun same x) step

theorem Turn.place (turn : Turn image main procs p point s) : AtProc s (Function.update procs p point) p point := by
  have place := ((run_held turn).inv.proc p rfl).1
  change AtProc s _ p (Function.update procs p point p) at place
  rwa [Function.update_self] at place

theorem Turn.trap (turn : Turn image main procs p .user s) (real : (s.ptable p).kstack ≠ 0#32) {m : Mem}
    (confined : Set.EqOn m s.mem (span (s.ptable p).kstack 4096)ᶜ) (tf : Addr) :
    Turn image main procs p (.trap tf) (s.setMem m) :=
  turn.step rfl real confined (.syscall p m tf rfl rfl (Function.update_self ..))

/-- The start of `syscall_handler`. -/
theorem Turn.begin {tf : Addr} (turn : Turn image main procs p (.trap tf) s) (real : (s.ptable p).kstack ≠ 0#32) :
    Turn image main procs p .kernel (setSlot (s.setCpu (settle s.cpu)) p { s.ptable p with tf := tf }) := by
  obtain ⟨owns, free⟩ := turn.place
  refine turn.code rfl real rfl ?_ rfl
  rw [run_bind_ok (run_myproc _ free.toCalm), owns.proc]
  rfl

theorem Turn.work (turn : Turn image main procs p .kernel s) (real : (s.ptable p).kstack ≠ 0#32) {m : Mem}
    (confined : Set.EqOn m s.mem (span (s.ptable p).kstack 4096)ᶜ) (chars : List Word) :
    Turn image main procs p .kernel ((s.print chars).setMem m) := by
  refine turn.step rfl real confined ?_
  rw [Function.update_idem]
  exact .work p m chars rfl rfl (.inl (Function.update_self ..))

theorem Turn.iret (turn : Turn image main procs p .kernel s) (real : (s.ptable p).kstack ≠ 0#32) (flag : Bool) :
    Turn image main procs p .user (s.setCpu { s.cpu with flIf := flag }) :=
  turn.step rfl real (fun _ _ => rfl) (.iret p flag rfl rfl (Function.update_self ..))

/-- `exit`, up to the switch to the scheduler. -/
theorem Turn.exit (turn : Turn image main procs p .kernel s) (real : (s.ptable p).kstack ≠ 0#32) (status : Word) :
    ∃ t intena, Turn image main procs p (.swtch intena) t ∧ Exited s t p status := by
  obtain ⟨owns, free⟩ := turn.place
  obtain ⟨chars, cpu, begun, free⟩ := run_exitBegin free
  obtain ⟨cpu', acquired, -⟩ := Free.acquire (s := (s.print chars).setCpu cpu) free
  rw [owns.proc] at begun
  have called : Turn image main procs p (.exit status) s :=
    turn.step rfl real (fun _ _ => rfl) (.exit p status rfl rfl (Function.update_self ..))
  have warned := called.code rfl real rfl ((run_bind_ok begun).trans rfl) rfl
  have locked := warned.code rfl real rfl ((run_bind_ok acquired).trans rfl) rfl
  have marked := locked.code rfl real rfl ((run_bind_ok (run_exitStatus p status _)).trans rfl) rfl
  have dead := marked.code rfl (by simpa using real) rfl ((run_bind_ok (run_setState p .zombie _)).trans rfl) rfl
  obtain ⟨-, holds, current, zombie⟩ := dead.place
  have left := dead.code rfl (by simpa using real) rfl
    ((run_bind_ok (run_enterScheduler holds current (by rw [zombie]; decide))).trans rfl) rfl
  refine ⟨_, _, left, ?_, ?_, fun q other => ?_, rfl⟩
  · simp
  · simp
  · simp [other]

/-- The process in user mode can trap. -/
theorem Turn.calling {u : Mem} {m : Interrupted} (turn : Turn image main procs p .user s) (real : (s.ptable p).kstack ≠ 0#32)
    (ss0 : s.ss0 = 0x10#16) (user : UserProcess u p s) (mem : m.mem = s.mem) (level : rpl (m.seg .cs) ≠ 0#2) :
    Calling ⟨s.ss0, s.esp0⟩ u p s m := by
  obtain ⟨owns, unlocked⟩ := turn.place
  have held := run_held turn
  obtain ⟨free, spaces⟩ := held.spaces
  have running : (s.ptable p).state = .running := (owns.only p).mpr rfl
  have mapped : (s.ptable p).pgdir ≠ 0#32 := held.mapped p ⟨by simp [running], by simp [running]⟩
  exact ⟨⟨user, owns.proc, unlocked.toQuiet⟩, unlocked.ncli, mem, level, ss0, owns.esp0,
    fun _ same => sees_stack spaces real mapped owns.cr3 user same⟩

end Turns

section Dispatch
variable {image : Image} {procs : Slot → ProcPoint} {s t : KernelState}

/-- The scan comes to the only process that can run. -/
theorem scan_next {i : Nat} {q : Slot} (run : Reachable (Ready image) (TameStep image) ⟨s, none, .scan i, procs, none⟩)
    (ahead : i ≤ q.val) (only : ∀ r, (s.ptable r).state = .runnable ↔ r = q) :
    Reachable (Ready image) (TameStep image) ⟨{ s with proc := some q }, none, .chosen q, procs, none⟩ := by
  obtain ⟨n, far⟩ := Nat.exists_eq_add_of_le ahead
  induction n generalizing i with
  | zero =>
    obtain rfl : q.val = i := far
    refine main_reachable run rfl rfl ?_
    rw [dif_pos q.isLt, run_bind_ok (EStateM.run_get _), run_ite, if_neg (not_not.mpr ((only q).mpr rfl))]
    rfl
  | succ n ih =>
    have bound : i < NPROC := by have := q.isLt; omega
    have other : (s.ptable ⟨i, bound⟩).state ≠ .runnable := by
      intro runnable
      have same := congrArg Fin.val ((only _).mp runnable)
      change i = q.val at same
      omega
    have passed : Reachable (Ready image) (TameStep image) ⟨s, none, .scan (i + 1), procs, none⟩ := by
      refine main_reachable run rfl rfl ?_
      rw [dif_pos bound, run_bind_ok (EStateM.run_get _), run_ite, if_pos other]
      rfl
    exact ih passed (by omega) (by omega)

/-- The `swtch` of the scheduler. -/
theorem dispatch_turn {q : Slot} (run : Reachable (Ready image) (TameStep image) ⟨s, none, .leave q, procs, none⟩) :
    Turn image (.away q) procs q .enter s := by
  have waits : procs q = .enter := ((run_held run).inv.main rfl).2.2
  have step : Step image ⟨s, none, .leave q, procs, none⟩ _ := .dispatch q rfl rfl rfl
  simp only [waits, ProcPoint.resume] at step
  exact .next run ⟨step, tame_boot rfl rfl⟩

/-- From the choice of the scheduler to user mode. -/
theorem chosen_turn {q : Slot} (run : Reachable (Ready image) (TameStep image) ⟨s, none, .chosen q, procs, none⟩)
    (high : KERNBASE < s.kheapStart) : (s.ptable q).kstack ≠ 0#32 ∧ ∃ c, Turn image (.away q) procs q .user
      (KernelState.setCpu (setSlot { s with
        ss0 := 0x10#16, esp0 := (s.ptable q).kstack + KSTACKSIZE, cr3 := V2P (s.ptable q).pgdir } q
        { s.ptable q with state := .running }) c) := by
  have held := run_held run
  obtain ⟨locked, -, -, runnable⟩ := held.inv.main rfl
  obtain ⟨real, mapped, -⟩ := held.inv.table q runnable
  obtain ⟨free, spaces⟩ := held.spaces
  obtain ⟨c, switched⟩ := run_switchuvm_ok locked real mapped ((spaces_switchable spaces high).runnable q runnable)
  have dressed := main_reachable run rfl rfl ((run_bind_ok switched).trans rfl)
  have given := dispatch_turn (main_reachable dressed rfl rfl ((run_bind_ok (run_setState q .running _)).trans rfl))
  obtain ⟨c', released, -⟩ := given.place.2.release
  have entered := given.code rfl (by simpa using real) rfl ((run_bind_ok released).trans rfl) rfl
  exact ⟨real, _, entered.iret (by simpa using real) true⟩

end Dispatch

/-- On the small machine the first process is in user mode. -/
theorem first_user : ∃ main procs p s u, Turn smallUser main procs p .user s ∧ (s.ptable p).kstack ≠ 0#32 ∧
    s.ss0 = 0x10#16 ∧ UserProcess u p s := by
  obtain ⟨s, t, free, free', q, k, d, procs, born, idle, only, start, looping⟩ := small_looping
  have enabled := main_reachable looping rfl rfl ((run_bind_ok (run_onCpu_ok (EStateM.run_modify _ _))).trans rfl)
  obtain ⟨c, acquired, -⟩ := Free.acquire ((run_held enabled).inv.main rfl).2
  have locked := main_reachable enabled rfl rfl ((run_bind_ok acquired).trans rfl)
  have chosen := scan_next locked (Nat.zero_le q.val) only
  obtain ⟨real, c', turn⟩ := chosen_turn chosen (by change KERNBASE < t.kheapStart; rw [start]; decide)
  have seen (a : Addr) (small : a < PGSIZE) : ∃ b, byteSeen t.mem d a = some b := by
    by_cases inside : a < smallUser.userInitSize
    · exact ⟨_, born.space.image a inside⟩
    · exact ⟨_, born.space.zero a (BitVec.not_lt.mp inside) small⟩
  refine ⟨_, _, q, _, fun a => (byteSeen t.mem d a).getD 0#8, turn, by simpa using real, rfl, ?_, fun a below => ?_⟩
  · simp only [KernelState.put_ptable, setSlot_same, born.entry]
    decide
  · simp only [KernelState.put_ptable, setSlot_same, born.entry] at below
    obtain ⟨b, shown⟩ := seen a below
    change (translation t.mem (P2V (V2P (t.ptable q).pgdir)) a).map (fun found => t.mem (P2V found.pa)) = _
    rw [P2V_V2P, born.entry]
    change byteSeen t.mem d a = _
    rw [shown]
    rfl

end OsDev.Kernel.SyscallRuns
