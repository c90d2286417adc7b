import OsDev.Kernel.AddressSpace

/-! Taking an address space apart: `deallocuvm` frees the pages mapped for user
mode, `freevm` then frees the tables and the directory. -/

namespace OsDev.Kernel.FreeVm
open OsDev.Machine.Memory OsDev.Machine.Program
open OsDev.Kernel.SpinLocks OsDev.Kernel.Mmu OsDev.Kernel.State OsDev.Kernel.Kalloc OsDev.Kernel.Paging
open OsDev.Kernel.KallocRuns OsDev.Kernel.PageTables OsDev.Kernel.MapPages OsDev.Kernel.AddressSpace

/-- The frame mapped at a page, under its kernel address. -/
def frameAt (m : Mem) (pgdir : Addr) (n : Nat) : Option Addr :=
  if has (pteAt m pgdir n) PTE_P then some (P2V (PTE_ADDR (pteAt m pgdir n))) else none

/-- The frames mapped at the pages from `low` up to `high`, in order. -/
def framesIn (m : Mem) (pgdir : Addr) (low high : Nat) : List Addr :=
  (List.range' low (high - low)).filterMap (frameAt m pgdir)

section Lists
variable {m m' : Mem} {pgdir : Addr} {low high n : Nat}

theorem frameAt_congr (same : pteAt m' pgdir n = pteAt m pgdir n) : frameAt m' pgdir n = frameAt m pgdir n := by
  simp only [frameAt, same]

theorem frameAt_zero (zero : pteAt m pgdir n = 0#32) : frameAt m pgdir n = none := by
  rw [frameAt, zero, has_zero]
  rfl

theorem framesIn_congr (same : ∀ n, low ≤ n → n < high → pteAt m' pgdir n = pteAt m pgdir n) :
    framesIn m' pgdir low high = framesIn m pgdir low high :=
  List.filterMap_congr fun n member => by
    have range := List.mem_range'_1.mp member
    exact frameAt_congr (same n range.1 (by omega))

theorem mem_framesIn {q : Addr} : q ∈ framesIn m pgdir low high ↔
    ∃ n, low ≤ n ∧ n < high ∧ frameAt m pgdir n = some q := by
  simp only [framesIn, List.mem_filterMap, List.mem_range'_1]
  constructor
  · rintro ⟨n, range, found⟩
    exact ⟨n, range.1, by omega, found⟩
  · rintro ⟨n, above, below, found⟩
    exact ⟨n, ⟨above, by omega⟩, found⟩

theorem framesIn_empty (done : high ≤ low) : framesIn m pgdir low high = [] := by
  simp [framesIn, Nat.sub_eq_zero_of_le done]

theorem framesIn_cons (less : low < high) :
    framesIn m pgdir low high = (frameAt m pgdir low).toList ++ framesIn m pgdir (low + 1) high := by
  obtain ⟨size, width⟩ : ∃ size, high - low = size + 1 := ⟨high - low - 1, by omega⟩
  have rest : high - (low + 1) = size := by omega
  unfold framesIn
  rw [width, rest, List.range'_succ]
  cases found : frameAt m pgdir low <;> simp [found]

/-- Pages without a frame can be skipped. -/
theorem framesIn_skip {next : Nat} (ordered : low ≤ next)
    (empty : ∀ n, low ≤ n → n < next → frameAt m pgdir n = none) :
    framesIn m pgdir low high = framesIn m pgdir next high := by
  induction next, ordered using Nat.le_induction with
  | base => rfl
  | succ next ordered ih =>
    rw [ih fun n above below => empty n above (by omega)]
    by_cases less : next < high
    · rw [framesIn_cons less, empty next ordered (by omega)]
      rfl
    · rw [framesIn_empty (by omega), framesIn_empty (by omega)]

theorem framesIn_nodup
    (injective : ∀ n n' q, n < high → n' < high → frameAt m pgdir n = some q → frameAt m pgdir n' = some q → n = n') :
    (framesIn m pgdir low high).Nodup := by
  unfold framesIn List.Nodup
  rw [List.pairwise_filterMap]
  apply List.Pairwise.imp_of_mem _ List.nodup_range'
  intro n n' member member' ne q found q' found' same
  subst same
  have range := List.mem_range'_1.mp member
  have range' := List.mem_range'_1.mp member'
  exact ne (injective n n' q (by omega) (by omega) found found')

/-- An element in the middle may be moved past a part of the list. -/
theorem nodup_middle {a q : Addr} (xs : List Addr) {ys zs : List Addr} (distinct : (a :: (xs ++ q :: (ys ++ zs))).Nodup) :
    q ∉ a :: (xs ++ zs) ∧ (a :: (xs ++ (ys ++ q :: zs))).Nodup := by
  have front := ((List.perm_middle.cons a).trans (List.Perm.swap q a _)).nodup_iff.mp distinct
  refine ⟨fun member => (List.nodup_cons.mp front).1 ?_, ?_⟩
  · rcases List.mem_cons.mp member with rfl | member
    · exact List.mem_cons_self
    · rcases List.mem_append.mp member with inXs | inZs
      · exact List.mem_cons_of_mem _ (List.mem_append_left _ inXs)
      · exact List.mem_cons_of_mem _ (List.mem_append_right _ (List.mem_append_right _ inZs))
  · exact ((List.perm_middle.symm.append_left xs).cons a).nodup_iff.mp distinct

end Lists

section Loops
variable {pgdir : Addr} {s : KernelState} {free : List Addr}

/-- The start of the next 4 MiB, where the loop goes when a table is missing. -/
theorem next_table {a : Addr} (below : a.toNat / 4096 < 1023 * 1024) :
    (PGADDR (PDX a + 1#32) 0#32 0#32 - PGSIZE + PGSIZE).toNat = (a.toNat / 4096 / 1024 + 1) * 1024 * 4096 := by
  have index := PDX_toNat a
  have plain : PGADDR (PDX a + 1#32) 0#32 0#32 = (PDX a + 1#32) <<< 22 := by simp [PGADDR]
  rw [plain]
  generalize PDX a = d at *
  have shifted : ((d + 1#32) <<< 22).toNat = (d.toNat + 1) * 2 ^ 22 := by
    rw [BitVec.toNat_shiftLeft, Nat.shiftLeft_eq, BitVec.toNat_add]
    have small : d.toNat < 1023 := by omega
    rw [Nat.mod_eq_of_lt (by simp; omega), Nat.mod_eq_of_lt (by simp; omega)]
    rfl
  have back : (d + 1#32) <<< 22 - PGSIZE + PGSIZE = (d + 1#32) <<< 22 := by bv_omega
  rw [back, shifted]
  omega

/-- The frame of a page is freed and its entry cleared. -/
theorem Directory.drop_frame (dir : Directory s pgdir free) {n : Nat} {table q : Addr} (bound : n < 2 ^ 20)
    (found : tableAt s.mem pgdir (n / 1024) = some table) (frame : Frame s q)
    (apart : q ∉ pgdir :: (tables s.mem pgdir ++ free)) :
    ∃ m₁ m c, (kfree q).run s = .ok () (s.put m₁ c q) ∧
      (store32 (slot table (n % 1024)) 0#32).run (s.put m₁ c q) = .ok () (s.put m c q) ∧
      Directory (s.put m c q) pgdir (q :: free) ∧ (∀ d < 1024, pdeAt m pgdir d = pdeAt s.mem pgdir d) ∧
      ∀ j < 2 ^ 20, pteAt m pgdir j = if j = n then 0#32 else pteAt s.mem pgdir j := by
  have notFree : q ∉ free := fun member => apart (by simp [member])
  obtain ⟨m, c, ran, same, heap⟩ := run_kfree s q free dir.heap frame notFree
  obtain ⟨given, lists, view⟩ := dir.give frame.aligned apart same heap
  have range : n / 1024 < 1024 := by omega
  have away : Set.EqOn m s.mem (span pgdir 4096) := by
    apply same.mono
    rw [Set.subset_compl_iff_disjoint_right]
    exact page_disjoint dir.aligned frame.aligned (ne_of_mem_of_not_mem List.mem_cons_self apart)
  have before := pdeAt_congr dir.aligned away
  have found' : tableAt m pgdir (n / 1024) = some table := by rw [tableAt_congr (before _ range), found]
  have stored := given.grows_write bound found' 0#32
  obtain ⟨entries, updated⟩ := given.write_entry bound found' 0#32
  refine ⟨m, _, c, ran, run_store32 _ _ _, stored.directory, fun d small => (entries d small).trans (before d small), ?_⟩
  intro j small
  rw [updated j small]
  exact if_congr Iff.rfl rfl (view j small)

/-- The pages from `low` up to `high` are mapped to frames of the heap that are used for nothing else. -/
structure Private (pgdir : Addr) (low high : Nat) (s : KernelState) (free : List Addr) : Prop where
  dir : Directory s pgdir free
  frames : ∀ q ∈ framesIn s.mem pgdir low high, Frame s q ∧ V2P q ≠ 0#32
  distinct : (pgdir :: (tables s.mem pgdir ++ (framesIn s.mem pgdir low high ++ free))).Nodup

/-- The frames of these pages are free, the entries of those that were present are cleared, and all else is as before. -/
structure Emptied (pgdir : Addr) (low high : Nat) (s : KernelState) (free : List Addr) (t : KernelState) (free' : List Addr) :
    Prop where
  dir : Directory t pgdir free'
  rest : ∃ m c f, t = s.put m c f
  entries : ∀ d < 1024, pdeAt t.mem pgdir d = pdeAt s.mem pgdir d
  order : free'.Perm (framesIn s.mem pgdir low high ++ free)
  view : ∀ n < 2 ^ 20, pteAt t.mem pgdir n =
    if low ≤ n ∧ n < high ∧ has (pteAt s.mem pgdir n) PTE_P = true then 0#32 else pteAt s.mem pgdir n

section Empty
variable {low next high : Nat} {t : KernelState} {free' : List Addr}

theorem Private.done (priv : Private pgdir low high s free) (bounds : high ≤ low) : Emptied pgdir low high s free s free := by
  refine ⟨priv.dir, ⟨_, _, _, rfl⟩, fun _ _ => rfl, ?_, ?_⟩
  · rw [framesIn_empty bounds]
    exact List.Perm.refl _
  · intro n bound
    rw [if_neg (by omega)]

/-- Pages that are not present can be passed over. -/
theorem frames_blank (ordered : low ≤ next)
    (blank : ∀ n, low ≤ n → n < next → has (pteAt s.mem pgdir n) PTE_P = false) :
    framesIn s.mem pgdir low high = framesIn s.mem pgdir next high := by
  apply framesIn_skip ordered
  intro n above below
  rw [frameAt, blank n above below]
  rfl

theorem Private.skip (priv : Private pgdir low high s free) (ordered : low ≤ next)
    (blank : ∀ n, low ≤ n → n < next → has (pteAt s.mem pgdir n) PTE_P = false) : Private pgdir next high s free := by
  obtain ⟨dir, frames, distinct⟩ := priv
  rw [frames_blank ordered blank] at frames distinct
  exact ⟨dir, frames, distinct⟩

theorem Emptied.skip (emptied : Emptied pgdir next high s free t free') (ordered : low ≤ next)
    (blank : ∀ n, low ≤ n → n < next → has (pteAt s.mem pgdir n) PTE_P = false) : Emptied pgdir low high s free t free' := by
  obtain ⟨dir, rest, entries, order, view⟩ := emptied
  refine ⟨dir, rest, entries, ?_, ?_⟩
  · rw [frames_blank ordered blank]
    exact order
  · intro n bound
    rw [view n bound]
    by_cases skipped : low ≤ n ∧ n < next
    · simp [blank n skipped.1 skipped.2]
    · exact if_congr (and_congr_left fun _ => by omega) rfl rfl

/-- A present page is unmapped, and its frame goes back to the allocator. -/
theorem Private.drop (priv : Private pgdir low high s free) (less : low < high) (top : high ≤ 2 ^ 20) {table : Addr}
    (found : tableAt s.mem pgdir (low / 1024) = some table) (present : has (pteAt s.mem pgdir low) PTE_P = true) :
    ∃ m₁ m c, PTE_ADDR (pteAt s.mem pgdir low) ≠ 0#32 ∧
      (kfree (P2V (PTE_ADDR (pteAt s.mem pgdir low)))).run s = .ok () (s.put m₁ c (P2V (PTE_ADDR (pteAt s.mem pgdir low)))) ∧
      (store32 (slot table (low % 1024)) 0#32).run (s.put m₁ c (P2V (PTE_ADDR (pteAt s.mem pgdir low)))) =
        .ok () (s.put m c (P2V (PTE_ADDR (pteAt s.mem pgdir low)))) ∧
      Private pgdir (low + 1) high (s.put m c (P2V (PTE_ADDR (pteAt s.mem pgdir low))))
        (P2V (PTE_ADDR (pteAt s.mem pgdir low)) :: free) ∧
      ∀ t free', Emptied pgdir (low + 1) high (s.put m c (P2V (PTE_ADDR (pteAt s.mem pgdir low))))
        (P2V (PTE_ADDR (pteAt s.mem pgdir low)) :: free) t free' → Emptied pgdir low high s free t free' := by
  obtain ⟨dir, frames, distinct⟩ := priv
  have cons : framesIn s.mem pgdir low high =
      P2V (PTE_ADDR (pteAt s.mem pgdir low)) :: framesIn s.mem pgdir (low + 1) high := by
    rw [framesIn_cons less, frameAt, present]
    rfl
  rw [cons] at frames distinct
  have nonzero := (frames _ List.mem_cons_self).2
  rw [V2P_P2V] at nonzero
  generalize P2V (PTE_ADDR (pteAt s.mem pgdir low)) = q at *
  obtain ⟨apart, moved⟩ := nodup_middle _ distinct
  obtain ⟨m₁, m, c, ran, stored, dir', entries, updated⟩ :=
    Directory.drop_frame dir (by omega) found (frames q List.mem_cons_self).1 apart
  have later : framesIn m pgdir (low + 1) high = framesIn s.mem pgdir (low + 1) high :=
    framesIn_congr fun n above below => by rw [updated n (by omega), if_neg (by omega)]
  refine ⟨m₁, m, c, nonzero, ran, stored, ⟨dir', ?_, ?_⟩, ?_⟩
  · intro p member
    rw [KernelState.put_mem, later] at member
    exact frames p (List.mem_cons_of_mem _ member)
  · rw [KernelState.put_mem, later, tables_congr entries]
    exact moved
  · rintro t free' ⟨last, ⟨m', c', f', rest⟩, entries', order, view⟩
    refine ⟨last, ⟨m', c', f', by rw [rest]; rfl⟩, fun d small => (entries' d small).trans (entries d small), ?_, ?_⟩
    · rw [KernelState.put_mem, later] at order
      rw [cons]
      exact order.trans List.perm_middle
    · intro n small
      rw [view n small, KernelState.put_mem, updated n small]
      by_cases same : n = low
      · subst same
        simp [present, less]
      · rw [if_neg same]
        exact if_congr (and_congr_left fun _ => by omega) rfl rfl

end Empty

/-- The loop of `deallocuvm` without the jump over missing tables: one turn for each page. -/
def pagewise (pgdir : Addr) : Nat → Addr → Prog KernelState Unit
  | 0, _ => pure ()
  | left + 1, a => do
      let pte ← walkpgdir pgdir a false
      if pte = 0#32 then pagewise pgdir left (a + PGSIZE)
      else do
        let entry ← load32 pte
        if has entry PTE_P then do
          let pa := PTE_ADDR entry
          if pa = 0#32 then kpanic "kfree"
          else do
            kfree (P2V pa)
            store32 pte 0#32
            pagewise pgdir left (a + PGSIZE)
        else pagewise pgdir left (a + PGSIZE)

/-- Pages without a table are passed over one by one. -/
theorem pagewise_missing {d : Nat} (missing : tableAt s.mem pgdir d = none) (count left : Nat) (a : Addr)
    (inside : ∀ i < count, (a.toNat + 4096 * i) / 4096 / 1024 = d) (fits : a.toNat + 4096 * count < 2 ^ 32) :
    (pagewise pgdir (count + left) a).run s = (pagewise pgdir left (a + BitVec.ofNat 32 (4096 * count))).run s := by
  induction count generalizing a with
  | zero => simp
  | succ count ih =>
    have here : a.toNat / 4096 / 1024 = d := inside 0 (Nat.succ_pos count)
    have next : (a + PGSIZE).toNat = a.toNat + 4096 := by unfold PGSIZE; bv_omega
    rw [show count + 1 + left = count + left + 1 by omega, pagewise,
      run_bind_ok (run_walkpgdir_missing a (here.symm ▸ missing)), run_ite, if_pos rfl, ih (a + PGSIZE) ?_ (by omega)]
    · rw [Nat.mul_succ, Nat.add_comm (4096 * count), BitVec.ofNat_add, ← BitVec.add_assoc]
      rfl
    · intro i less
      have later := inside (i + 1) (by omega)
      rwa [Nat.mul_succ, Nat.add_comm (4096 * i), ← Nat.add_assoc, ← next] at later

/-- The pages passed over by a jump are those before the next table, or all that are left. -/
theorem pagewise_jump {a next : Addr} {high : Nat} (missing : tableAt s.mem pgdir (a.toNat / 4096 / 1024) = none)
    (aligned : Aligned a) (less : a.toNat / 4096 < high) (limit : high ≤ 1023 * 1024)
    (jump : next.toNat = (a.toNat / 4096 / 1024 + 1) * 1024 * 4096) :
    (pagewise pgdir (high - a.toNat / 4096) a).run s = (pagewise pgdir (high - next.toNat / 4096) next).run s := by
  have whole : a.toNat = a.toNat / 4096 * 4096 := by unfold Aligned at aligned; omega
  by_cases within : next.toNat / 4096 ≤ high
  · have passed := pagewise_missing missing (next.toNat / 4096 - a.toNat / 4096) (high - next.toNat / 4096) a
      (fun i small => by omega) (by omega)
    have there : a + BitVec.ofNat 32 (4096 * (next.toNat / 4096 - a.toNat / 4096)) = next := by bv_omega
    rw [there] at passed
    rwa [show high - a.toNat / 4096 = next.toNat / 4096 - a.toNat / 4096 + (high - next.toNat / 4096) by omega]
  · have passed := pagewise_missing missing (high - a.toNat / 4096) 0 a (fun i small => by omega) (by omega)
    rw [Nat.add_zero] at passed
    rw [show high - next.toNat / 4096 = 0 by omega]
    exact passed

/-- The loop ends; it does what the loop without the jump does. -/
theorem run_deallocuvmLoop {oldsz a : Addr} (fuel : Nat) (aligned : Aligned a)
    (limit : (oldsz.toNat + 4095) / 4096 ≤ 1023 * 1024) (fueled : 0 < fuel)
    (turns : (oldsz.toNat + 4095) / 4096 < a.toNat / 4096 + fuel)
    (priv : Private pgdir (a.toNat / 4096) ((oldsz.toNat + 4095) / 4096) s free) :
    ∃ t free', (deallocuvmLoop pgdir oldsz fuel a).run s = .ok () t ∧
      (pagewise pgdir ((oldsz.toNat + 4095) / 4096 - a.toNat / 4096) a).run s = .ok () t ∧
      Emptied pgdir (a.toNat / 4096) ((oldsz.toNat + 4095) / 4096) s free t free' := by
  generalize top : (oldsz.toNat + 4095) / 4096 = high at *
  induction fuel generalizing a s free with
  | zero => omega
  | succ fuel ih =>
    unfold deallocuvmLoop
    have whole : a.toNat = a.toNat / 4096 * 4096 := by unfold Aligned at aligned; omega
    by_cases more : a < oldsz
    case neg =>
      have done : high ≤ a.toNat / 4096 := by bv_omega
      rw [if_neg more, Nat.sub_eq_zero_of_le done]
      exact ⟨s, free, rfl, rfl, priv.done done⟩
    case pos =>
    have less : a.toNat / 4096 < high := by bv_omega
    rw [if_pos more]
    cases found : tableAt s.mem pgdir (a.toNat / 4096 / 1024) with
    | none =>
      have jump := next_table (a := a) (by omega)
      rw [run_bind_ok (run_walkpgdir_missing a found), run_ite, if_pos rfl]
      generalize PGADDR (PDX a + 1#32) 0#32 0#32 - PGSIZE + PGSIZE = next at jump ⊢
      have number : next.toNat / 4096 = (a.toNat / 4096 / 1024 + 1) * 1024 := by omega
      have blank (n : Nat) (above : a.toNat / 4096 ≤ n) (below : n < next.toNat / 4096) :
          has (pteAt s.mem pgdir n) PTE_P = false := by
        have level : n / 1024 = a.toNat / 4096 / 1024 := by omega
        rw [pteAt, level, found, has_zero]
      obtain ⟨t, free', ran, plain, emptied⟩ := ih (by unfold Aligned; omega) (by omega) (by omega)
        (priv.skip (by omega) blank)
      refine ⟨t, free', ran, ?_, emptied.skip (by omega) blank⟩
      rw [pagewise_jump found aligned less limit (by omega), plain]
    | some table =>
      have nonzero := priv.dir.slot_ne_zero (by omega) found
      have entry := read32_slot found
      have next : (a + PGSIZE).toNat / 4096 = a.toNat / 4096 + 1 := by unfold PGSIZE; bv_omega
      have left : high - a.toNat / 4096 = high - (a + PGSIZE).toNat / 4096 + 1 := by omega
      rw [left, pagewise, run_bind_ok (run_walkpgdir_found a table false found), run_ite, if_neg nonzero,
        run_bind_ok (run_load32 _ _), run_ite, entry]
      rw [run_bind_ok (run_walkpgdir_found a table false found), run_ite, if_neg nonzero,
        run_bind_ok (run_load32 _ _), run_ite, entry]
      cases present : has (pteAt s.mem pgdir (a.toNat / 4096)) PTE_P with
      | false =>
        have blank (n : Nat) (above : a.toNat / 4096 ≤ n) (below : n < (a + PGSIZE).toNat / 4096) :
            has (pteAt s.mem pgdir n) PTE_P = false := by
          rwa [show n = a.toNat / 4096 by omega]
        rw [if_neg (by decide), if_neg (by decide)]
        obtain ⟨t, free', ran, plain, emptied⟩ := ih (aligned_next aligned) (by omega) (by omega)
          (priv.skip (by omega) blank)
        exact ⟨t, free', ran, plain, emptied.skip (by omega) blank⟩
      | true =>
        obtain ⟨_, m, c, nonnull, ran, stored, later, whole⟩ := priv.drop less (by omega) found present
        rw [if_pos rfl, if_pos rfl, run_ite, if_neg nonnull, if_neg nonnull, run_bind_ok ran, run_bind_ok ran,
          run_bind_ok stored, run_bind_ok stored]
        rw [← next] at later whole
        obtain ⟨t, free', ran', plain, emptied⟩ := ih (aligned_next aligned) (by omega) (by omega) later
        exact ⟨t, free', ran', plain, whole t free' emptied⟩

/-- `deallocuvm` gives back exactly the frames mapped between the two sizes. -/
theorem run_deallocuvm (oldsz newsz : Addr) (shrinks : newsz < oldsz) (limit : (oldsz.toNat + 4095) / 4096 ≤ 1023 * 1024)
    (priv : Private pgdir ((newsz.toNat + 4095) / 4096) ((oldsz.toNat + 4095) / 4096) s free) :
    ∃ t free', (deallocuvm pgdir oldsz newsz).run s = .ok newsz t ∧
      (pagewise pgdir ((oldsz.toNat + 4095) / 4096 - (newsz.toNat + 4095) / 4096) (PGROUNDUP newsz)).run s = .ok () t ∧
      Emptied pgdir ((newsz.toNat + 4095) / 4096) ((oldsz.toNat + 4095) / 4096) s free t free' := by
  have rounded := PGROUNDUP_toNat newsz
  have first : (PGROUNDUP newsz).toNat / 4096 = (newsz.toNat + 4095) / 4096 := by bv_omega
  rw [← first] at priv ⊢
  obtain ⟨t, free', ran, plain, emptied⟩ := run_deallocuvmLoop (2 ^ 21 + 1) (aligned_PGROUNDUP newsz) limit
    (by omega) (by omega) priv
  refine ⟨t, free', ?_, plain, emptied⟩
  unfold deallocuvm
  rw [run_ite, if_neg (by bv_omega), run_bind_ok ran]
  rfl

/-- The tables of the directory entries from `i` on. -/
def tablesFrom (m : Mem) (pgdir : Addr) (i : Nat) : List Addr := (List.range' i (1024 - i)).filterMap (tableAt m pgdir)

theorem tablesFrom_cons {m : Mem} {i : Nat} (less : i < 1024) :
    tablesFrom m pgdir i = (tableAt m pgdir i).toList ++ tablesFrom m pgdir (i + 1) := by
  obtain ⟨size, width⟩ : ∃ size, 1024 - i = size + 1 := ⟨1024 - i - 1, by omega⟩
  have rest : 1024 - (i + 1) = size := by omega
  unfold tablesFrom
  rw [width, rest, List.range'_succ]
  cases found : tableAt m pgdir i <;> simp [found]

theorem tablesFrom_congr {m m' : Mem} {i : Nat} (same : ∀ d < 1024, pdeAt m' pgdir d = pdeAt m pgdir d) :
    tablesFrom m' pgdir i = tablesFrom m pgdir i :=
  List.filterMap_congr fun d member => by
    have range := List.mem_range'_1.mp member
    exact tableAt_congr (same d (by omega))

/-- The second loop of `freevm` gives back the tables; the directory itself stays readable. -/
theorem run_freeTables (left i : Nat) (sum : i + left = 1024) (heap : Heap s free) (aligned : Aligned pgdir)
    (frames : ∀ q ∈ tablesFrom s.mem pgdir i, Frame s q)
    (distinct : (pgdir :: (tablesFrom s.mem pgdir i ++ free)).Nodup) :
    ∃ t free', (freeTables pgdir left i).run s = .ok () t ∧ Heap t free' ∧ (∃ m c f, t = s.put m c f) ∧
      free'.Perm (tablesFrom s.mem pgdir i ++ free) := by
  induction left generalizing i s free with
  | zero =>
    have noTables : tablesFrom s.mem pgdir i = [] := by simp [tablesFrom, show 1024 - i = 0 by omega]
    exact ⟨s, free, rfl, heap, ⟨_, _, _, rfl⟩, by simp [noTables]⟩
  | succ left ih =>
    have less : i < 1024 := by omega
    unfold freeTables
    have entry : read32 s.mem (slot pgdir i) = pdeAt s.mem pgdir i := rfl
    rw [run_bind_ok (run_load32 _ _), run_ite, entry]
    rw [tablesFrom_cons less] at frames distinct ⊢
    cases present : has (pdeAt s.mem pgdir i) PTE_P with
    | false =>
      have noTable : tableAt s.mem pgdir i = none := by rw [tableAt, present]; rfl
      rw [noTable, Option.toList_none, List.nil_append] at frames distinct ⊢
      exact ih (i + 1) (by omega) heap frames distinct
    | true =>
      have found : tableAt s.mem pgdir i = some (P2V (PTE_ADDR (pdeAt s.mem pgdir i))) := by
        rw [tableAt, present]
        rfl
      rw [found] at frames distinct ⊢
      rw [if_pos rfl]
      generalize P2V (PTE_ADDR (pdeAt s.mem pgdir i)) = q at frames distinct ⊢
      simp only [Option.toList_some, List.cons_append, List.nil_append] at frames distinct ⊢
      obtain ⟨apart, moved⟩ := nodup_middle [] (by simpa only [List.nil_append] using distinct)
      rw [List.nil_append] at apart moved
      have frame := frames q (by simp)
      obtain ⟨m, c, ran, same, heap'⟩ := run_kfree s q free heap frame fun member => apart (by simp [member])
      have away : Set.EqOn m s.mem (span pgdir 4096) := by
        apply same.mono
        rw [Set.subset_compl_iff_disjoint_right]
        exact page_disjoint aligned frame.aligned (ne_of_mem_of_not_mem List.mem_cons_self apart)
      have later : tablesFrom m pgdir (i + 1) = tablesFrom s.mem pgdir (i + 1) :=
        tablesFrom_congr (pdeAt_congr aligned away)
      rw [← later] at frames moved
      obtain ⟨t, free', ran', heap'', ⟨m', c', f, rest⟩, order⟩ := ih (s := s.put m c q) (i + 1) (by omega)
        heap' (fun p member => frames p (List.mem_cons_of_mem _ member)) moved
      refine ⟨t, free', by rw [run_bind_ok ran, ran'], heap'', ⟨m', c', f, by rw [rest]; rfl⟩, order.trans ?_⟩
      rw [KernelState.put_mem, later]
      exact List.perm_middle

/-- The frames a directory maps for user mode. -/
def userFrames (m : Mem) (pgdir : Addr) : List Addr := framesIn m pgdir 0 (2 ^ 19)

/-- Frames of the heap lie above the kernel image, so none of them is frame 0. -/
theorem Private.of_frames (dir : Directory s pgdir free) (image : KERNBASE < s.kheapStart)
    (frames : ∀ q ∈ userFrames s.mem pgdir, Frame s q)
    (distinct : (pgdir :: (tables s.mem pgdir ++ (userFrames s.mem pgdir ++ free))).Nodup) :
    Private pgdir 0 (2 ^ 19) s free := by
  refine ⟨dir, fun q member => ⟨frames q member, ?_⟩, distinct⟩
  have above := (frames q member).above
  unfold V2P
  bv_omega

/-- `freevm` gives back the directory, its tables and the frames mapped for user mode. -/
theorem run_freevm (dir : Directory s pgdir free) (frame : Frame s pgdir) (image : KERNBASE < s.kheapStart)
    (frames : ∀ q ∈ userFrames s.mem pgdir, Frame s q)
    (distinct : (pgdir :: (tables s.mem pgdir ++ (userFrames s.mem pgdir ++ free))).Nodup) :
    ∃ t free', (freevm pgdir).run s = .ok () t ∧ Heap t free' ∧ (∃ m c f, t = s.put m c f) ∧
      free'.Perm (pgdir :: (tables s.mem pgdir ++ (userFrames s.mem pgdir ++ free))) := by
  have low : ((0#32).toNat + 4095) / 4096 = 0 := by decide
  have high : (KERNBASE.toNat + 4095) / 4096 = 2 ^ 19 := by decide
  have priv := Private.of_frames dir image frames distinct
  have emptied := @run_deallocuvm pgdir s free KERNBASE 0#32 (by decide) (by decide)
  rw [low, high] at emptied
  obtain ⟨t, free₁, ran, -, dir₁, ⟨m, c, f, rest⟩, entries, order, -⟩ := emptied priv
  have lists := tables_congr entries
  have all (m : Mem) : tablesFrom m pgdir 0 = tables m pgdir := by
    rw [tablesFrom, tables, List.range_eq_range']
  obtain ⟨u, free₂, ran₂, heap₂, ⟨m', c', f', rest₂⟩, order₂⟩ := run_freeTables 1024 0 (by decide) dir₁.heap
    dir₁.aligned (by rw [all]; exact dir₁.frames) (by rw [all]; exact dir₁.distinct)
  rw [all, lists] at order₂
  have collected : free₂.Perm (tables s.mem pgdir ++ (userFrames s.mem pgdir ++ free)) :=
    order₂.trans (order.append_left _)
  have frame' : Frame u pgdir := by rw [rest₂, rest]; exact frame
  have fresh : pgdir ∉ free₂ := fun member => (List.nodup_cons.mp distinct).1 (collected.subset member)
  obtain ⟨m'', c'', ran₃, -, heap₃⟩ := run_kfree u pgdir free₂ heap₂ frame' fresh
  refine ⟨_, _, ?_, heap₃, ⟨_, _, _, by rw [rest₂, rest]; rfl⟩, collected.cons pgdir⟩
  unfold freevm NPDENTRIES
  rw [run_ite, if_neg (frame.ne_zero dir.heap.sentinel), run_bind_ok ran, run_bind_ok ran₂, ran₃]

end Loops

end OsDev.Kernel.FreeVm
