import OsDev.Kernel.Isolation

/-! The kernel half of the address spaces. It is the same in every directory and at any
time, so no change of CR3 takes the kernel's own memory away. -/

namespace OsDev.Kernel.UpperHalf
open OsDev.Machine.Memory OsDev.Machine.Program OsDev.Machine.LinkedChain
open OsDev.Kernel.Mmu OsDev.Kernel.State OsDev.Kernel.Pmem OsDev.Kernel.PageTables OsDev.Kernel.AddressSpace OsDev.Kernel.Proc
  OsDev.Kernel.Scheduler OsDev.Kernel.Holdings OsDev.Kernel.Newborn OsDev.Kernel.Startup OsDev.Kernel.Isolation
open OsDev.Kernel.SchedulerRuns (Built create_step step_kept)

/-- What a directory shows at KERNBASE and above: the memory, the ACPI tables and the devices, for the supervisor. -/
structure ShowsKernel (s : KernelState) (pgdir : Addr) : Prop where
  memory : ∀ p < s.physEnd, translation s.mem pgdir (P2V p) = some ⟨p, false, true⟩
  acpi : ∀ p, p - s.acpi < s.acpiLen → translation s.mem pgdir (P2V p) = some ⟨p, false, true⟩
  devices : ∀ x, x - DEVSPACE < 0xf00000#32 → translation s.mem pgdir x = some ⟨x, false, true⟩
  absent : ∀ x, KERNBASE ≤ x → x.toNat / 4096 ∉ kernelPages s → translation s.mem pgdir x = none

section Directories
variable {s : KernelState} {free : List Addr} {i : Owner}

theorem translation_upper (spaces : Spaces s free) (mapped : root s i ≠ 0#32) {x : Addr} (high : KERNBASE ≤ x) :
    translation s.mem (root s i) x = decode (upperEntry s (x.toNat / 4096)) x := by
  have bound := x.isLt
  have above : 2 ^ 31 ≤ x.toNat := high
  have walk := (spaces.directory idle_quiet mapped).translation_eq x
  rw [KernelState.put_mem] at walk
  rw [walk, spaces.upper i mapped _ (by omega) (by omega)]

/-- The directories of `setupkvm` have no large pages. -/
theorem walk_root (spaces : Spaces s free) (real : root s i ≠ 0#32) (a : Addr) :
    walk s.mem (V2P (root s i)) a = translation s.mem (root s i) a := by
  have bound := a.isLt
  have small : (has (pdeAt s.mem (root s i) (a.toNat / 2 ^ 22)) PTE_P &&
      has (pdeAt s.mem (root s i) (a.toNat / 2 ^ 22)) PTE_PS) = false := by
    cases present : has (pdeAt s.mem (root s i) (a.toNat / 2 ^ 22)) PTE_P with
    | false => rfl
    | true => exact (spaces.flags i real _ (by omega) present).2.2
  unfold pdeAt at small
  simp only [walk, P2V_V2P, slot_PDX, small, Bool.false_eq_true, if_false]

theorem shows_kernel (spaces : Spaces s free) (mapped : root s i ≠ 0#32) : ShowsKernel s (root s i) := by
  have dir := spaces.directory idle_quiet mapped
  have entries (n : Nat) (member : n ∈ kernelPages s) : pteAt s.mem (root s i) n = kernelEntry s n := by
    have bounds := kernelPages_high spaces.firmware member
    rw [spaces.upper i mapped n bounds.1 bounds.2, upperEntry, if_pos member]
  constructor
  · intro p below
    exact translation_memory dir spaces.firmware entries below
  · intro p inside
    exact translation_acpi dir spaces.firmware spaces.acpi entries inside
  · intro x inside
    exact translation_devices dir spaces.firmware entries inside
  · intro x high away
    rw [translation_upper spaces mapped high, upperEntry, if_neg away]
    rfl

end Directories

/-- All pages, free or not, lie below the end of the memory. -/
def Backed (s : KernelState) (free : List Addr) : Prop :=
  ∀ i, ∀ page ∈ holdings s i ++ free, KERNBASE ≤ page ∧ (V2P page).toNat + 4096 ≤ s.physEnd.toNat

theorem backed_moved {s t : KernelState} {i : Owner} {free free' : List Addr} (backed : Backed s free)
    (moved : Moved i s t free free') (spaces : Spaces s free) : Backed t free' := by
  intro j page member
  rw [moved.firmware.1]
  -- Whatever the owner that took part and the pool have now, they had before.
  by_cases same : j = i
  · subst same
    exact backed j page (moved.part.subset member)
  · rcases List.mem_append.mp member with owned | pooled
    · rw [moved.holdings_eq spaces same] at owned
      exact backed j page (List.mem_append_left _ owned)
    · exact backed i page (moved.part.subset (List.mem_append_right _ pooled))

/-- A kernel that is ready for processes, on a machine with memory behind every page of its heap. -/
structure Furnished (image : Image) (σ : System) : Prop extends Ready image σ where
  backed : ∃ free, Spaces σ.kernel free ∧ Backed σ.kernel free

/-- The directory in CR3 is that of the kernel or of a process. -/
structure Based (σ : System) : Prop where
  real : σ.kernel.kpgdir ≠ 0#32
  loaded : ∃ i, (∀ q, i = some q → Made (σ.kernel.ptable q)) ∧ σ.kernel.cr3 = V2P (root σ.kernel i)
  backed : ∃ free, Spaces σ.kernel free ∧ Backed σ.kernel free

section Steps
variable {image : Image} {σ τ : System}

/-- A directory that is in use stays the owner's. -/
theorem root_kept (pgdirs : ∀ q, Made (σ.kernel.ptable q) → (τ.kernel.ptable q).pgdir = (σ.kernel.ptable q).pgdir)
    (kernel : τ.kernel.kpgdir = σ.kernel.kpgdir) {i : Owner} (made : ∀ q, i = some q → Made (σ.kernel.ptable q)) :
    root τ.kernel i = root σ.kernel i := by
  cases i with
  | none => exact kernel
  | some q => exact pgdirs q (made q rfl)

theorem Based.step (based : Based σ) (held : Held image σ) (taken : TameStep image σ τ) : Based τ := by
  have kept := step_kept image held.inv taken.1
  obtain ⟨free, spaces, within⟩ := based.backed
  obtain ⟨free', progressed⟩ := step_progressed held taken.1 taken.2 spaces
  have backed : ∃ free, Spaces τ.kernel free ∧ Backed τ.kernel free :=
    ⟨free', progressed.moved.spaces spaces, backed_moved within progressed.moved spaces⟩
  have still {i : Owner} (made : ∀ q, i = some q → Made (σ.kernel.ptable q)) (q : Slot) (here : i = some q) :
      Made (τ.kernel.ptable q) := (made_kept (kept.moves q) (made q here)).1
  have stays (kernel : τ.kernel.kpgdir = σ.kernel.kpgdir) (cr3 : Retargeted σ.kernel τ.kernel) : Based τ := by
    refine ⟨kernel.trans_ne based.real, ?_, backed⟩
    rcases cr3 with same | ⟨i, used, cr3⟩
    · obtain ⟨i, made, loaded⟩ := based.loaded
      exact ⟨i, still made, by rw [same, loaded, root_kept progressed.pgdirs kernel made]⟩
    · have made (q : Slot) (here : i = some q) : Made (σ.kernel.ptable q) := (used q here).1
      exact ⟨i, still made, by rw [cr3, root_kept progressed.pgdirs kernel made]⟩
  cases step_change taken.1 held.inv with
  | created c here ran =>
    have built : Built σ.kernel τ.kernel _ _ := ((create_step image c (held.creating here) held.inv.table).returned ran).1
    exact stays built.kpgdir (.inl built.cr3)
  | halted kernel next => exact stays (by rw [kernel]) (.inl (by rw [kernel]))
  | unseen same cr3 before next => exact stays (root_congr same none) cr3
  | worked q m chars turn here kernel plain => exact stays (by rw [kernel]; rfl) (.inl (by rw [kernel]; rfl))

theorem run_based (run : Reachable (Furnished image) (TameStep image) σ) : Held image σ ∧ Based σ := by
  induction run with
  | start first =>
    refine ⟨first.toReady.held, first.real, ⟨none, fun q here => ?_, first.cr3⟩, first.backed⟩
    cases here
  | next before taken ih => exact ⟨ih.1.step taken.1 taken.2, ih.2.step ih.1 taken⟩

end Steps

/-- A page is at its own address in a directory that shows the kernel. -/
theorem page_shown {s : KernelState} {pgdir page x : Addr} (shows : ShowsKernel s pgdir)
    (within : KERNBASE ≤ page ∧ (V2P page).toNat + 4096 ≤ s.physEnd.toNat) (inside : x ∈ span page 4096) :
    translation s.mem pgdir x = some ⟨V2P x, false, true⟩ := by
  have below : V2P x < s.physEnd := by
    have low := within.1
    have high := within.2
    rw [mem_span] at inside
    unfold V2P KERNBASE at *
    bv_omega
  have found := shows.memory _ below
  rwa [P2V_V2P] at found

theorem kernel_always_mapped (image : Image) (σ : System) (run : Reachable (Furnished image) (TameStep image) σ) :
    ShowsKernel σ.kernel (P2V σ.kernel.cr3) ∧
    (∀ i, root σ.kernel i ≠ 0#32 → ∀ x, KERNBASE ≤ x →
      translation σ.kernel.mem (root σ.kernel i) x = translation σ.kernel.mem (P2V σ.kernel.cr3) x) ∧
    ∀ free, Chain (read32 σ.kernel.mem) σ.kernel.KMEM_SENTINEL σ.kernel.freelist free →
      ∀ i, ∀ page ∈ holdings σ.kernel i ++ free, ∀ x ∈ span page 4096,
        translation σ.kernel.mem (P2V σ.kernel.cr3) x = some ⟨V2P x, false, true⟩ := by
  obtain ⟨held, based⟩ := run_based run
  obtain ⟨pool, spaces, within⟩ := based.backed
  obtain ⟨j, made, loaded⟩ := based.loaded
  have mapped : root σ.kernel j ≠ 0#32 := by
    cases j with
    | none => exact based.real
    | some q => exact held.mapped q (made q rfl)
  rw [loaded, P2V_V2P]
  refine ⟨shows_kernel spaces mapped, fun i real x high => ?_, fun free chain i page member x inside => ?_⟩
  · rw [translation_upper spaces real high, translation_upper spaces mapped high]
  · have same : free = pool := chain_unique chain (spaces.heap idle idle_quiet).chain
    exact page_shown (shows_kernel spaces mapped) (within i page (same ▸ member)) inside

/-- With 4 MiB or more, all the pages given to the allocator are memory. -/
theorem backed_of_prepared {kEnd : Addr} {extmem entry : E820Entry} {s t : KernelState} {free : List Addr}
    (prepared : Prepared kEnd extmem entry s t free) (linked : KERNBASE ≤ PGROUNDUP kEnd)
    (enough : 0x400000 ≤ t.physEnd.toNat) : Backed t free := by
  intro i page member
  obtain ⟨above, below⟩ := prepared.pages i page member
  have bound := page.isLt
  rw [max_eq_right enough] at below
  have high : KERNBASE ≤ page := BitVec.le_trans linked above
  unfold V2P KERNBASE at *
  exact ⟨high, by bv_omega⟩

theorem kernel_always_mapped_process : ∃ (σ : System) (q : Slot), (σ.kernel.ptable q).pgdir ≠ 0#32 ∧
    translation σ.kernel.mem (σ.kernel.ptable q).pgdir 0xfee00000#32 = some ⟨0xfee00000#32, false, true⟩ ∧
    translation σ.kernel.mem (P2V σ.kernel.cr3) (σ.kernel.ptable q).pgdir = some ⟨V2P (σ.kernel.ptable q).pgdir, false, true⟩ := by
  obtain ⟨s, t, free, _, q, k, d, prepared, ready, -, -, pieces, born, -⟩ := small_born
  have enough : 0x400000 ≤ s.physEnd.toNat := by rw [prepared.map.physEnd]; decide
  have first : Furnished smallUser ⟨s, none, .boot, fun _ => .absent, none⟩ :=
    ⟨ready, free, prepared.spaces, backed_of_prepared prepared (by decide) enough⟩
  obtain ⟨procs, run⟩ := create_reachable (fun _ _ step _ => step) (.start first) rfl rfl rfl pieces
  have real : (t.ptable q).pgdir ≠ 0#32 := by rw [born.entry]; exact born.mapped
  have member : (t.ptable q).pgdir ∈ holdings t (some q) := walkPages_subset _ (by simp [walkPages, root, real])
  obtain ⟨loaded, same, pages⟩ := kernel_always_mapped smallUser _ run
  have device := loaded.devices 0xfee00000#32 (by decide)
  have chain := (born.spaces.heap idle idle_quiet).chain
  exact ⟨_, q, real, (same (some q) real _ (by decide)).trans device,
    pages _ chain (some q) _ (List.mem_append_left _ member) _ (by simp)⟩

end OsDev.Kernel.UpperHalf
