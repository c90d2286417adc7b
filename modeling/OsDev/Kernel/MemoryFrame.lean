import OsDev.Kernel.Paging

/-! What a call into the allocator or into the paging code can do to the rest of
the kernel: nothing. -/

namespace OsDev.Kernel.MemoryFrame
open OsDev.Machine.Memory OsDev.Machine.Program OsDev.Kernel.SpinLocks OsDev.Kernel.Mmu OsDev.Kernel.State
  OsDev.Kernel.Kalloc OsDev.Kernel.Paging

def memoryPanics : List String :=
  ["kfree", "kalloc", "remap", "mappages", "freevm: no pgdir", "inituvm: more than a page"]

/-- From a quiet processor, only memory, the free list and the saved interrupt
flag change. -/
structure Confined {α : Type} (code : Prog KernelState α) : Prop where
  returns : ∀ s a t, Quiet s.cpu → code.run s = .ok a t → ∃ m c f, t = s.put m c f ∧ Settled s.cpu c
  stops : ∀ s message t, Quiet s.cpu → code.run s = .error (.panic message) t → message ∈ memoryPanics

variable {α β : Type}

theorem confined_ok {code : Prog KernelState α}
    (ran : ∀ s, Quiet s.cpu → ∃ a m c f, code.run s = .ok a (s.put m c f) ∧ Settled s.cpu c) : Confined code where
  returns s a t quiet same := by
    obtain ⟨b, m, c, f, other, settled⟩ := ran s quiet
    rw [other] at same
    cases same
    exact ⟨m, c, f, rfl, settled⟩
  stops s message t quiet same := by
    obtain ⟨b, m, c, f, other, settled⟩ := ran s quiet
    rw [other] at same
    cases same

theorem confined_pure (a : α) : Confined (pure a) :=
  confined_ok fun s quiet => ⟨a, s.mem, s.cpu, s.freelist, rfl, quiet.settled⟩

theorem confined_get : Confined (get : Prog KernelState KernelState) :=
  confined_ok fun s quiet => ⟨s, s.mem, s.cpu, s.freelist, rfl, quiet.settled⟩

theorem confined_setMem (change : KernelState → Mem) : Confined (modify fun s => s.setMem (change s)) :=
  confined_ok fun s quiet => ⟨(), change s, s.cpu, s.freelist, rfl, quiet.settled⟩

theorem confined_load32 (a : Addr) : Confined (load32 a) :=
  confined_ok fun s quiet => ⟨_, s.mem, s.cpu, s.freelist, rfl, quiet.settled⟩

theorem confined_store32 (a : Addr) (v : Word) : Confined (store32 a v) := confined_setMem _

theorem confined_kpanic {message : String} (known : message ∈ memoryPanics) :
    Confined (kpanic message : Prog KernelState α) where
  returns s a t quiet same := by cases same
  stops s other t quiet same := by
    cases same
    exact known

theorem confined_spin : Confined (throw .spin : Prog KernelState α) where
  returns s a t quiet same := by cases same
  stops s other t quiet same := by cases same

theorem Confined.bind {first : Prog KernelState α} {next : α → Prog KernelState β} (left : Confined first)
    (right : ∀ a, Confined (next a)) : Confined (first >>= next) where
  returns s b t quiet ran := by
    obtain ⟨a, u, before, after⟩ := run_bind_eq_ok ran
    obtain ⟨m, c, f, rfl, settled⟩ := left.returns s a u quiet before
    obtain ⟨m', c', f', rfl, later⟩ := (right a).returns _ b t settled.quiet after
    exact ⟨m', c', f', rfl, settled.trans later⟩
  stops s message t quiet ran := by
    cases outcome : first.run s with
    | ok a u =>
      rw [run_bind_ok outcome] at ran
      obtain ⟨m, c, f, rfl, settled⟩ := left.returns s a u quiet outcome
      exact (right a).stops _ message t settled.quiet ran
    | error e u =>
      rw [run_bind_error outcome] at ran
      cases ran
      exact left.stops s message t quiet outcome

theorem Confined.ite {c : Prop} [Decidable c] {first second : Prog KernelState α} (left : Confined first)
    (right : Confined second) : Confined (if c then first else second) := by
  split
  · exact left
  · exact right

theorem confined_kalloc : Confined kalloc := by
  refine confined_ok fun s quiet => ?_
  obtain ⟨inside, after, settled, enter, leave⟩ := kmem_section s quiet
  by_cases empty : s.freelist = s.KMEM_SENTINEL
  · refine ⟨0#32, s.mem, after, s.freelist, ?_, settled⟩
    have back := leave s.mem s.freelist
    simp [kalloc, enter, empty, back]
  · refine ⟨s.freelist, s.mem, after, read32 s.mem s.freelist, ?_, settled⟩
    simp [kalloc, enter, empty, leave]

theorem confined_kfree (v : Addr) : Confined (kfree v) where
  returns s a t quiet ran := by
    by_cases frame : Frame s v
    · obtain ⟨cpu, settled, accepted⟩ := run_kfree_accepted quiet frame
      rw [accepted] at ran
      cases ran
      exact ⟨_, cpu, v, rfl, settled⟩
    · rw [run_kfree_refused frame] at ran
      cases ran
  stops s message t quiet ran := by
    by_cases frame : Frame s v
    · obtain ⟨cpu, settled, accepted⟩ := run_kfree_accepted quiet frame
      rw [accepted] at ran
      cases ran
    · rw [run_kfree_refused frame] at ran
      cases ran
      decide

theorem confined_freerangeLoop (vend : Addr) (fuel : Nat) (p : Addr) : Confined (freerangeLoop vend fuel p) := by
  induction fuel generalizing p with
  | zero => exact confined_spin
  | succ fuel ih => exact ((confined_kfree _).bind fun _ => ih _).ite (confined_pure _)

theorem confined_freerange (vstart vend : Addr) : Confined (freerange vstart vend) := by
  unfold freerange
  exact confined_freerangeLoop _ _ _

theorem confined_clearPage (p : Addr) : Confined (clearPage p) := confined_setMem _

theorem confined_walkpgdir (pgdir va : Addr) (alloc : Bool) : Confined (walkpgdir pgdir va alloc) := by
  refine (confined_load32 _).bind fun entry => (confined_pure _).ite ((confined_pure _).ite ?_)
  refine confined_kalloc.bind fun pgtab => (confined_pure _).ite ?_
  exact (confined_clearPage _).bind fun _ => (confined_store32 _ _).bind fun _ => confined_pure _

theorem confined_mappagesLoop (pgdir last perm : Addr) (fuel : Nat) (a pa : Addr) :
    Confined (mappagesLoop pgdir last perm fuel a pa) := by
  induction fuel generalizing a pa with
  | zero => exact confined_spin
  | succ fuel ih =>
    refine (confined_walkpgdir _ _ _).bind fun pte => (confined_pure _).ite ?_
    refine (confined_load32 _).bind fun entry => (confined_kpanic (by decide)).ite ?_
    exact (confined_store32 _ _).bind fun _ => (confined_pure _).ite (ih _ _)

theorem confined_mappages (pgdir va size pa perm : Addr) : Confined (mappages pgdir va size pa perm) := by
  unfold mappages
  exact confined_mappagesLoop _ _ _ _ _ _

theorem confined_inituvm (pgdir init sz : Addr) : Confined (inituvm pgdir init sz) := by
  refine (confined_kpanic (by decide)).ite (confined_kalloc.bind fun mem => (confined_clearPage _).bind fun _ => ?_)
  exact (confined_mappages _ _ _ _ _).bind fun _ => confined_setMem _

theorem confined_deallocuvmLoop (pgdir oldsz : Addr) (fuel : Nat) (a : Addr) :
    Confined (deallocuvmLoop pgdir oldsz fuel a) := by
  induction fuel generalizing a with
  | zero => exact confined_spin
  | succ fuel ih =>
    refine ((confined_walkpgdir _ _ _).bind fun pte => (ih _).ite ?_).ite (confined_pure _)
    refine (confined_load32 _).bind fun entry => Confined.ite ?_ (ih _)
    exact (confined_kpanic (by decide)).ite
      ((confined_kfree _).bind fun _ => (confined_store32 _ _).bind fun _ => ih _)

theorem confined_deallocuvm (pgdir oldsz newsz : Addr) : Confined (deallocuvm pgdir oldsz newsz) := by
  unfold deallocuvm
  exact (confined_pure _).ite ((confined_deallocuvmLoop _ _ _ _).bind fun _ => confined_pure _)

theorem confined_freeTables (pgdir : Addr) (left i : Nat) : Confined (freeTables pgdir left i) := by
  induction left generalizing i with
  | zero => exact confined_pure _
  | succ left ih => exact (confined_load32 _).bind fun entry => ((confined_kfree _).bind fun _ => ih _).ite (ih _)

theorem confined_freevm (pgdir : Addr) : Confined (freevm pgdir) := by
  unfold freevm
  refine (confined_kpanic (by decide)).ite ((confined_deallocuvm _ _ _).bind fun _ => ?_)
  exact (confined_freeTables _ _ _).bind fun _ => confined_kfree _

theorem confined_mapfail (pgdir : Addr) : Confined (mapfail pgdir : Prog KernelState α) :=
  (confined_freevm _).bind fun _ => confined_kpanic (by decide)

theorem confined_setupkvm : Confined setupkvm := by
  refine confined_kalloc.bind fun pgdir => (confined_kpanic (by decide)).ite ((confined_clearPage _).bind fun _ => ?_)
  refine confined_get.bind fun s => (confined_mappages _ _ _ _ _).bind fun ram => (confined_mapfail _).ite ?_
  refine (confined_mappages _ _ _ _ _).bind fun acpi => (confined_mapfail _).ite ?_
  exact (confined_mappages _ _ _ _ _).bind fun dev => (confined_mapfail _).ite (confined_pure _)

end OsDev.Kernel.MemoryFrame
