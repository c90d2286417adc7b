import OsDev.Kernel.SpaceRuns

/-! The user half of an address space. `inituvm` puts the first page there and does not look at
what its two allocations gave; `deallocuvm` takes pages away again, and jumps over missing tables. -/

namespace OsDev.Kernel.UserMemory
open OsDev.Machine.Memory OsDev.Machine.Program OsDev.Kernel.StringLib
open OsDev.Kernel.SpinLocks OsDev.Kernel.Mmu OsDev.Kernel.State OsDev.Kernel.Kalloc OsDev.Kernel.Paging
open OsDev.Kernel.KallocRuns OsDev.Kernel.PageTables OsDev.Kernel.MapPages OsDev.Kernel.AddressSpace OsDev.Kernel.FreeVm

section Load
variable {s : KernelState} {pgdir init sz : Addr} {free : List Addr}

/-- The directory in CR3 lets the kernel write the page at 0. -/
def nullWritable (s : KernelState) : Bool := (translation s.mem (P2V s.cr3) 0#32).any (·.writable)

/-- A store at `a`. The kernel half is mapped by every directory; where the page at 0 is not,
`page_fault_handler` panics. -/
def reach (a : Addr) : Prog KernelState Unit := do
  let s ← get
  if a = 0#32 ∧ nullWritable s = false then kpanic "page fault not handled!"
  else pure ()

/-- `inituvm` with the page fault that clearing a null page may raise. -/
def inituvmPaged (pgdir init sz : Addr) : Prog KernelState Unit := do
  if PGSIZE ≤ sz then kpanic "inituvm: more than a page"
  else do
    let mem ← kalloc
    reach mem
    clearPage mem
    let _ ← mappages pgdir 0#32 PGSIZE (V2P mem) (PTE_W ||| PTE_U)
    modify fun s => s.setMem (memmove s.mem mem init sz.toNat)

/-- The outcome of `inituvm` is clean: page 0 is mapped to an allocated frame with the image and
then zeros, or it panics; and only the directory, its tables and the frames `kalloc` hands out are written. -/
def CleanInit (pgdir init sz : Addr) (s : KernelState) (free : List Addr) : Prop :=
  match (inituvmPaged pgdir init sz).run s with
  | .ok _ u =>
      (∃ q ∈ free, pteAt u.mem pgdir 0 = entryFor (V2P q) (PTE_W ||| PTE_U) 0 ∧
        ∀ a : Addr, a < PGSIZE → u.mem (q + a) = if a < sz then s.mem (init + a) else 0#8) ∧
      Set.EqOn u.mem s.mem (outside (pgdir :: (tables s.mem pgdir ++ free.take 2)))
  | .error e u => (∃ message, e = .panic message) ∧
      Set.EqOn u.mem s.mem (outside (pgdir :: (tables s.mem pgdir ++ free.take 2)))

/-- There is a page for the image, and one for the table of page 0 if it is missing. -/
def Supplied (s : KernelState) (pgdir : Addr) (free : List Addr) : Prop :=
  1 ≤ free.length ∧ (tableAt s.mem pgdir 0 = none → 2 ≤ free.length)

/-- With a page at hand no fault is raised. -/
theorem run_inituvmPaged {q : Addr} {rest : List Addr} (heap : Heap s (q :: rest)) :
    (inituvmPaged pgdir init sz).run s = (inituvm pgdir init sz).run s := by
  obtain ⟨c, allocated, -⟩ := run_kalloc_cons s q rest heap
  have nonzero : q ≠ 0#32 := (heap.frames q (by simp)).ne_zero heap.sentinel
  have reached (t : KernelState) : (reach q).run t = .ok () t := by
    unfold reach
    rw [run_bind_ok (EStateM.run_get t), run_ite, if_neg fun both => nonzero both.1]
    rfl
  unfold inituvmPaged inituvm
  rw [run_ite, run_ite]
  split
  · rfl
  · rw [run_bind_ok allocated, run_bind_ok allocated, run_bind_ok (reached _)]

/-- Without a page and without a fault, `inituvm` maps page 0 to the physical page of address 0 and returns. -/
theorem run_inituvmPaged_null (init : Addr) (dir : Directory s pgdir []) (frame : Frame s pgdir) (small : sz < PGSIZE)
    (clear : has (pteAt s.mem pgdir 0) PTE_P = false) (writable : nullWritable s = true) :
    ∃ u, (inituvmPaged pgdir init sz).run s = .ok () u := by
  obtain ⟨c, allocated, heap⟩ := run_kalloc_nil s dir.heap
  have reached : (reach 0#32).run (s.setCpu c) = .ok () (s.setCpu c) := by
    have same : nullWritable (s.setCpu c) = true := writable
    unfold reach
    rw [run_bind_ok (EStateM.run_get _), run_ite, if_neg (by simp [same])]
    rfl
  have apart : 0#32 ∉ pgdir :: (tables s.mem pgdir ++ []) := by
    intro member
    rw [List.append_nil, List.mem_cons] at member
    rcases member with isDirectory | isTable
    · exact frame.ne_zero dir.heap.sentinel isDirectory.symm
    · exact (dir.frames _ isTable).ne_zero dir.heap.sentinel rfl
  obtain ⟨cleared, -, view⟩ := (dir.setCpu heap.quiet).setMem (by decide : Aligned 0#32) apart
    (fill_outside s.mem 0#32 0#8 4096)
  obtain ⟨t, free', -, -, -, ending⟩ := run_mappages_page 0#32 (V2P 0#32) (PTE_W ||| PTE_U) cleared (by decide)
    (by rw [KernelState.put_mem, view _ (by decide)]; exact clear)
  have mapped : ∃ r, (mappages pgdir 0#32 PGSIZE (V2P 0#32) (PTE_W ||| PTE_U)).run
      ((s.setCpu c).setMem (fill s.mem 0#32 0#8 4096)) = .ok r t := by
    rcases ending with ⟨ran, -⟩ | ⟨ran, -⟩
    · exact ⟨_, ran⟩
    · exact ⟨_, ran⟩
  obtain ⟨r, ran⟩ := mapped
  unfold inituvmPaged clearPage
  rw [run_ite, if_neg (by bv_omega), run_bind_ok allocated, run_bind_ok reached, run_bind_ok (EStateM.run_modify _ _),
    memset_eq_fill _ _ _ _ (by decide)]
  exact ⟨_, run_bind_ok ran⟩

/-- `inituvm` checks neither allocation: it is clean if both succeed, or if the first fails and clearing the
null page faults. -/
theorem inituvm_clean_iff (s : KernelState) (pgdir init sz : Addr) (free : List Addr) (dir : Directory s pgdir free)
    (frame : Frame s pgdir) (small : sz < PGSIZE) (clear : has (pteAt s.mem pgdir 0) PTE_P = false)
    (image : ∀ a : Addr, a < sz → init + a ∈ outside (pgdir :: (tables s.mem pgdir ++ free.take 2))) :
    CleanInit pgdir init sz s free ↔ Supplied s pgdir free ∨ free = [] ∧ nullWritable s = false := by
  unfold CleanInit Supplied
  cases free with
  | nil =>
    cases writable : nullWritable s with
    | false =>
      obtain ⟨c, allocated, -⟩ := run_kalloc_nil s dir.heap
      have faulted : (reach 0#32).run (s.setCpu c) = .error (.panic "page fault not handled!") (s.setCpu c) := by
        have same : nullWritable (s.setCpu c) = false := writable
        unfold reach
        rw [run_bind_ok (EStateM.run_get _), run_ite, if_pos ⟨rfl, same⟩]
        rfl
      have ran : (inituvmPaged pgdir init sz).run s = .error (.panic "page fault not handled!") (s.setCpu c) := by
        unfold inituvmPaged
        rw [run_ite, if_neg (by bv_omega), run_bind_ok allocated, run_bind_error faulted]
      rw [ran]
      exact ⟨fun _ => .inr ⟨rfl, rfl⟩, fun _ => ⟨⟨_, rfl⟩, fun _ _ => rfl⟩⟩
    | true =>
      obtain ⟨u, ran⟩ := run_inituvmPaged_null init dir frame small clear writable
      rw [ran]
      simp
  | cons q rest =>
    obtain ⟨u, free', ran, loaded, ending⟩ := run_inituvm_loaded init sz dir small clear image
    rw [run_inituvmPaged dir.heap, ran]
    rcases ending with ⟨mapped, spare⟩ | ⟨rfl, missing, blank⟩
    · have supplied : tableAt s.mem pgdir 0 = none → 2 ≤ (q :: rest).length := fun missing =>
        Nat.succ_le_succ (List.length_pos_of_ne_nil (spare missing))
      exact ⟨fun _ => .inl ⟨by simp, supplied⟩, fun _ => ⟨⟨q, by simp, mapped, loaded.bytes⟩, loaded.within⟩⟩
    · constructor
      · rintro ⟨⟨p, -, entry, -⟩, -⟩
        have present := has_entryFor (V2P p) (PTE_W ||| PTE_U) 0
        rw [← entry, blank, has_zero] at present
        cases present
      · intro supplied
        simp [missing] at supplied

/-- Two pages are left after `setupkvm`: the image and its table. -/
theorem inituvm_clean_two_left :
    ∃ (s t : KernelState) (pgdir : Addr) (free : List Addr), setupkvm.run s = .ok pgdir t ∧ free.length = 2 ∧
      CleanInit pgdir 0x80101000#32 100#32 t free := by
  obtain ⟨s, t, pgdir, free, ran, dir, frame, left, low, start, -⟩ :=
    exists_kernel_half 9 (by decide) (by decide) 0x8010c000#32 (by unfold rangePages; decide)
  have missing := low 0 (by decide)
  refine ⟨s, t, pgdir, free, ran, by omega, ?_⟩
  apply (inituvm_clean_iff t pgdir 0x80101000#32 100#32 free dir frame (by decide) (by rw [pteAt, missing, has_zero])
    (Directory.image_outside dir frame 2 (by rw [start]; decide))).mpr
  exact .inl ⟨by omega, fun _ => by omega⟩

/-- One page is left after `setupkvm`: there is none for the table, and `inituvm` returns all the same. -/
theorem inituvm_one_left :
    ∃ (s t u : KernelState) (pgdir q : Addr), setupkvm.run s = .ok pgdir t ∧ Heap t [q] ∧ translation t.mem pgdir 0#32 = none ∧
      (inituvmPaged pgdir 0x80101000#32 100#32).run t = .ok () u ∧ translation u.mem pgdir 0#32 = none := by
  obtain ⟨s, t, pgdir, free, ran, dir, frame, left, low, start, -⟩ :=
    exists_kernel_half 8 (by decide) (by decide) 0x8010b000#32 (by unfold rangePages; decide)
  have missing := low 0 (by decide)
  obtain ⟨q, rfl⟩ := List.length_eq_one_iff.mp (by omega : free.length = 1)
  have clear : has (pteAt t.mem pgdir 0) PTE_P = false := by rw [pteAt, missing, has_zero]
  obtain ⟨u, free', ran', loaded, ending⟩ := run_inituvm_loaded 0x80101000#32 100#32 dir (by decide) clear
    (Directory.image_outside dir frame 2 (by rw [start]; decide))
  refine ⟨s, t, u, pgdir, q, ran, dir.heap, (dir.translation_none 0#32).mpr clear, ?_, ?_⟩
  · rw [run_inituvmPaged dir.heap, ran']
  · rcases ending with ⟨-, spare⟩ | ⟨-, -, blank⟩
    · exact absurd rfl (spare missing)
    · exact (loaded.dir.translation_none 0#32).mpr (by rw [show (0#32).toNat / 4096 = 0 from rfl, blank, has_zero])

end Load

section Shrink
variable {s : KernelState} {pgdir oldsz newsz : Addr} {free : List Addr}

theorem framesIn_sublist (m : Mem) (pgdir : Addr) {low low' high' high : Nat} (above : low ≤ low') (below : high' ≤ high) :
    (framesIn m pgdir low' high').Sublist (framesIn m pgdir low high) := by
  apply List.Sublist.filterMap
  by_cases ordered : low' ≤ high'
  · have split : List.range' low (high - low) = List.range' low (low' - low) ++ List.range' low' (high - low') := by
      rw [show high - low = low' - low + (high - low') by omega, ← List.range'_append, Nat.one_mul, Nat.add_sub_cancel' above]
    rw [split]
    exact (List.range'_sublist_right.mpr (by omega)).trans (List.sublist_append_right _ _)
  · rw [Nat.sub_eq_zero_of_le (by omega)]
    exact List.nil_sublist _

theorem Private.restrict {low low' high' high : Nat} (priv : Private pgdir low high s free) (above : low ≤ low')
    (below : high' ≤ high) : Private pgdir low' high' s free := by
  have fewer := framesIn_sublist s.mem pgdir above below
  refine ⟨priv.dir, fun q member => priv.frames q (fewer.subset member), priv.distinct.sublist ?_⟩
  exact ((fewer.append_right free).append_left _).cons_cons pgdir

/-- Page `n` is present, and its address lies in `[PGROUNDUP(newsz), oldsz)`. -/
def Dropped (m : Mem) (pgdir oldsz newsz : Addr) (n : Nat) : Prop :=
  (PGROUNDUP newsz).toNat ≤ 4096 * n ∧ 4096 * n < oldsz.toNat ∧ has (pteAt m pgdir n) PTE_P = true

instance (m : Mem) (pgdir oldsz newsz : Addr) (n : Nat) : Decidable (Dropped m pgdir oldsz newsz n) :=
  inferInstanceAs (Decidable (_ ∧ _ ∧ _))

/-- After shrinking from `oldsz` to `newsz`: the dropped frames are free, each once, their entries are cleared,
and all other entries and translations are as before. -/
structure Shrunk (pgdir oldsz newsz : Addr) (s : KernelState) (free : List Addr) (t : KernelState) (free' : List Addr) :
    Prop where
  heap : Heap t free'
  freed : ∃ frames, free'.Perm (frames ++ free) ∧
    ∀ q, q ∈ frames ↔ ∃ n < 2 ^ 20, Dropped s.mem pgdir oldsz newsz n ∧ frameAt s.mem pgdir n = some q
  once : free'.Nodup
  directory : ∀ d < 1024, pdeAt t.mem pgdir d = pdeAt s.mem pgdir d
  entries : ∀ n < 2 ^ 20, pteAt t.mem pgdir n = if Dropped s.mem pgdir oldsz newsz n then 0#32 else pteAt s.mem pgdir n
  others : ∀ va : Addr, ¬ Dropped s.mem pgdir oldsz newsz (va.toNat / 4096) →
    translation t.mem pgdir va = translation s.mem pgdir va

theorem dropped_iff (shrinks : newsz < oldsz) (user : oldsz ≤ KERNBASE) {m : Mem} {n : Nat} :
    Dropped m pgdir oldsz newsz n ↔
      (newsz.toNat + 4095) / 4096 ≤ n ∧ n < (oldsz.toNat + 4095) / 4096 ∧ has (pteAt m pgdir n) PTE_P = true := by
  have limit : oldsz.toNat ≤ 2 ^ 31 := user
  have less : newsz.toNat < oldsz.toNat := shrinks
  have first : (PGROUNDUP newsz).toNat = (newsz.toNat + 4095) / 4096 * 4096 := by
    rw [PGROUNDUP_toNat, Nat.mod_eq_of_lt (by omega)]
  unfold Dropped
  rw [first]
  constructor
  · rintro ⟨low, high, present⟩
    exact ⟨by omega, by omega, present⟩
  · rintro ⟨low, high, present⟩
    exact ⟨by omega, by omega, present⟩

theorem Emptied.shrunk {t : KernelState} {free' : List Addr} (shrinks : newsz < oldsz) (user : oldsz ≤ KERNBASE)
    (before : Directory s pgdir free)
    (emptied : Emptied pgdir ((newsz.toNat + 4095) / 4096) ((oldsz.toNat + 4095) / 4096) s free t free') :
    Shrunk pgdir oldsz newsz s free t free' := by
  have limit : oldsz.toNat ≤ 2 ^ 31 := user
  have view (n : Nat) (bound : n < 2 ^ 20) : pteAt t.mem pgdir n =
      if Dropped s.mem pgdir oldsz newsz n then 0#32 else pteAt s.mem pgdir n := by
    rw [emptied.view n bound]
    exact if_congr (dropped_iff shrinks user).symm rfl rfl
  refine ⟨emptied.dir.heap, ⟨_, emptied.order, ?_⟩, emptied.dir.heap.distinct, emptied.entries, view, ?_⟩
  · intro q
    rw [mem_framesIn]
    constructor
    · rintro ⟨n, low, high, found⟩
      refine ⟨n, by omega, (dropped_iff shrinks user).mpr ⟨low, high, ?_⟩, found⟩
      by_contra absent
      rw [frameAt, if_neg absent] at found
      cases found
    · rintro ⟨n, -, dropped, found⟩
      obtain ⟨low, high, -⟩ := (dropped_iff shrinks user).mp dropped
      exact ⟨n, low, high, found⟩
  · intro va kept
    rw [emptied.dir.translation_eq, before.translation_eq, view _ (by have := va.isLt; omega), if_neg kept]

/-- `deallocuvm` ends. It does what the loop without jumps does, and drops exactly the present pages
between the two sizes. -/
theorem deallocuvm_pagewise (s : KernelState) (pgdir oldsz newsz : Addr) (free : List Addr)
    (priv : Private pgdir 0 (2 ^ 19) s free) (user : oldsz ≤ KERNBASE) :
    (oldsz ≤ newsz → (deallocuvm pgdir oldsz newsz).run s = .ok oldsz s) ∧
      (newsz < oldsz → ∃ t free', (deallocuvm pgdir oldsz newsz).run s = .ok newsz t ∧
        (pagewise pgdir ((oldsz.toNat + 4095) / 4096 - (newsz.toNat + 4095) / 4096) (PGROUNDUP newsz)).run s = .ok () t ∧
        Shrunk pgdir oldsz newsz s free t free') := by
  have limit : oldsz.toNat ≤ 2 ^ 31 := user
  constructor
  · intro grows
    unfold deallocuvm
    rw [run_ite, if_pos grows]
    rfl
  · intro shrinks
    have half : (oldsz.toNat + 4095) / 4096 ≤ 2 ^ 19 := by omega
    obtain ⟨t, free', ran, plain, emptied⟩ := run_deallocuvm oldsz newsz shrinks (half.trans (by decide))
      (Private.restrict priv (Nat.zero_le _) half)
    exact ⟨t, free', ran, plain, Emptied.shrunk shrinks user priv.dir emptied⟩

/-- Pages at 0 and at 0x800000 go when the size shrinks to 0, across two tables and one that
is missing; a size that grows changes nothing. -/
theorem deallocuvm_pagewise_two_tables : ∃ (s t : KernelState) (pgdir p q : Addr) (free free' : List Addr),
    frameAt s.mem pgdir 0 = some p ∧ tableAt s.mem pgdir 1 = none ∧ frameAt s.mem pgdir 2048 = some q ∧
      (deallocuvm pgdir 0x801000#32 0#32).run s = .ok 0#32 t ∧ Shrunk pgdir 0x801000#32 0#32 s free t free' ∧
      (deallocuvm pgdir 0x801000#32 0x900000#32).run s = .ok 0x801000#32 s := by
  obtain ⟨s, pgdir, out, free, p, q, -, owned, -, first, missing, second⟩ := SpaceRuns.exists_user_pages
  have priv : Private pgdir 0 (2 ^ 19) s free := Private.of_frames owned.dir owned.image
    (fun q member => owned.frames q (owned.user_subset member)) owned.user_distinct
  have whole := deallocuvm_pagewise s pgdir 0x801000#32 0#32 free priv (by decide)
  obtain ⟨t, free', ran, -, shrunk⟩ := whole.2 (by decide)
  exact ⟨s, t, pgdir, p, q, free, free', first, second, missing, ran, shrunk,
    (deallocuvm_pagewise s pgdir 0x801000#32 0x900000#32 free priv (by decide)).1 (by decide)⟩

end Shrink

end OsDev.Kernel.UserMemory
