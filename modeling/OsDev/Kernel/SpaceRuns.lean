import OsDev.Kernel.FreeVm

/-! The life of an address space: `setupkvm`, then pages from `kalloc` mapped below
KERNBASE, then `freevm`. What an address space owns is told apart from what it only
shows by the half in which it is mapped. -/

namespace OsDev.Kernel.SpaceRuns
open OsDev.Machine.Memory OsDev.Machine.Program OsDev.Machine.LinkedChain
open OsDev.Kernel.SpinLocks OsDev.Kernel.Mmu OsDev.Kernel.State OsDev.Kernel.Kalloc OsDev.Kernel.Paging
open OsDev.Kernel.KallocRuns OsDev.Kernel.PageTables OsDev.Kernel.MapPages OsDev.Kernel.AddressSpace
open OsDev.Kernel.FreeVm

theorem userFrames_blank {m : Mem} {pgdir : Addr} (blank : ∀ n < 2 ^ 19, pteAt m pgdir n = 0#32) :
    userFrames m pgdir = [] := by
  rw [userFrames, framesIn_skip (Nat.zero_le (2 ^ 19)) fun n _ below => frameAt_zero (blank n below),
    framesIn_empty (Nat.le_refl _)]

/-- However far `setupkvm` gets before the pages run out, all of them are free again
when it stops. -/
theorem run_setupkvm_restores {s : KernelState} {p : Addr} {rest : List Addr} (heap : Heap s (p :: rest))
    (firmware : Firmware s) (memory : 1 ≤ s.physEnd.toNat) (image : KERNBASE < s.kheapStart) :
    (∃ t, setupkvm.run s = .ok p t) ∨
      ∃ t free', setupkvm.run s = .error (.panic "mappages") t ∧ Heap t free' ∧ free'.Perm (p :: rest) := by
  obtain ⟨c, t, free', fresh, built, noTables, ending⟩ := run_setupkvm heap firmware memory
  rcases ending with ⟨ran, -⟩ | ⟨ran, rfl, -⟩
  · exact Or.inl ⟨t, ran⟩
  · have frame : Frame s p := heap.frames p (by simp)
    obtain ⟨m, c', f, rest'⟩ := built.grows.rest
    have empty : userFrames t.mem p = [] := userFrames_blank fun n below => by
      apply built.blank n (by omega)
      intro member
      have := (kernelPages_high firmware member).1
      omega
    have dir := built.grows.directory
    obtain ⟨u, freed, ran', heap', -, order⟩ := run_freevm dir (by rw [rest']; exact frame)
      (by rw [rest']; exact image) (by simp [empty]) (by rw [empty]; exact dir.distinct)
    refine Or.inr ⟨u, freed, ?_, heap', order.trans ?_⟩
    · rw [ran, mapfail, run_bind_ok ran']
      rfl
    · have conserved := built.grows.conserved
      rw [noTables] at conserved
      rw [empty]
      exact conserved.cons p

/-- An address space in use: the kernel, its directory and the pages `kalloc` has handed
out for anything else, be it user memory, kernel stacks or other processes. -/
structure SpaceRun where
  kernel : KernelState
  pgdir : Addr
  out : List Addr

def Initial (r : SpaceRun) : Prop :=
  ∃ s free, Heap s free ∧ Firmware s ∧ 1 ≤ s.physEnd.toNat ∧ KERNBASE < s.kheapStart ∧ (free ++ r.out).Nodup ∧
    (∀ p ∈ r.out, Frame s p) ∧ setupkvm.run s = .ok r.pgdir r.kernel

inductive Step : SpaceRun → SpaceRun → Prop where
  | kalloc {s t : KernelState} {pgdir : Addr} {out : List Addr} (v : Addr) (ran : kalloc.run s = .ok v t) :
      Step ⟨s, pgdir, out⟩ ⟨t, pgdir, if v = 0#32 then out else v :: out⟩
  | kfree {s t : KernelState} {pgdir : Addr} {out : List Addr} (v : Addr) (owned : v ∈ out)
      (unmapped : v ∉ userFrames s.mem pgdir) (ran : (kfree v).run s = .ok () t) :
      Step ⟨s, pgdir, out⟩ ⟨t, pgdir, out.erase v⟩
  | write {s : KernelState} {pgdir : Addr} {out : List Addr} (p a : Addr) (b : Byte) (owned : p ∈ out)
      (inside : a ∈ span p 4096) : Step ⟨s, pgdir, out⟩ ⟨s.setMem (store8 s.mem a b), pgdir, out⟩
  | mappages {s t : KernelState} {pgdir : Addr} {out : List Addr} (va size pa perm : Addr) (result : Int)
      (positive : 1 ≤ size.toNat) (below : va.toNat + size.toNat ≤ KERNBASE.toNat) (aligned : Aligned pa)
      (perms : perm ∈ [0#32, PTE_W, PTE_U, PTE_W ||| PTE_U])
      (owned : ∀ n ∈ pagesOf va size, P2V (pageAfter pa (n - va.toNat / 4096)) ∈ out ∧
        P2V (pageAfter pa (n - va.toNat / 4096)) ∉ userFrames s.mem pgdir)
      (ran : (mappages pgdir va size pa perm).run s = .ok result t) : Step ⟨s, pgdir, out⟩ ⟨t, pgdir, out⟩

/-- The directory, its tables, the free pages and the pages handed out are all
different, and user mode sees pages handed out, each at one address. -/
structure Owned (r : SpaceRun) (free : List Addr) : Prop where
  dir : Directory r.kernel r.pgdir free
  frame : Frame r.kernel r.pgdir
  image : KERNBASE < r.kernel.kheapStart
  distinct : (r.pgdir :: (tables r.kernel.mem r.pgdir ++ (r.out ++ free))).Nodup
  frames : ∀ q ∈ r.out, Frame r.kernel q
  mapped : ∀ n < 2 ^ 19, ∀ q, frameAt r.kernel.mem r.pgdir n = some q → q ∈ r.out
  injective : ∀ n n' q, n < 2 ^ 19 → n' < 2 ^ 19 → frameAt r.kernel.mem r.pgdir n = some q →
    frameAt r.kernel.mem r.pgdir n' = some q → n = n'

theorem Initial.owned {r : SpaceRun} (first : Initial r) : ∃ free, Owned r free := by
  obtain ⟨s, free, heap, firmware, memory, image, apart, frames, ran⟩ := first
  obtain ⟨kernel, pgdir, out⟩ := r
  cases free with
  | nil =>
    obtain ⟨c, ran', -⟩ := run_kalloc_nil s heap
    rw [setupkvm, run_bind_ok ran', run_ite, if_pos rfl] at ran
    cases ran
  | cons p rest =>
    obtain ⟨c, t, free', fresh, built, noTables, ⟨ran', -⟩ | ⟨ran', -⟩⟩ := run_setupkvm heap firmware memory
    case inr => exact absurd (ran'.symm.trans ran) (mapfail_not_ok pgdir)
    rw [ran'] at ran
    injection ran with samePgdir sameT
    subst samePgdir sameT
    obtain ⟨m, c', f, rfl⟩ := built.grows.rest
    have conserved := built.grows.conserved
    rw [noTables, List.nil_append] at conserved
    have blank (n : Nat) (below : n < 2 ^ 19) : frameAt m p n = none := by
      apply frameAt_zero
      apply built.blank n (by omega)
      intro member
      have := (kernelPages_high firmware member).1
      omega
    refine ⟨free', built.grows.directory, heap.frames p (by simp), image, ?_, frames, ?_, ?_⟩
    · have order : (p :: (tables m p ++ (out ++ free'))).Perm (p :: (rest ++ out)) := by
        refine List.Perm.cons p ?_
        refine (List.perm_append_comm_assoc _ _ _).trans ?_
        exact (conserved.append_left out).trans List.perm_append_comm
      exact order.nodup_iff.mpr apart
    · intro n below q found
      cases (blank n below).symm.trans found
    · intro n n' q below _ found
      cases (blank n below).symm.trans found

section Steps
variable {s t : KernelState} {pgdir : Addr} {out free : List Addr}

theorem Owned.apart (owned : Owned ⟨s, pgdir, out⟩ free) {q : Addr} (member : q ∈ out) :
    q ∉ pgdir :: (tables s.mem pgdir ++ free) := by
  obtain ⟨first, rest⟩ := List.nodup_cons.mp owned.distinct
  obtain ⟨-, others, notTable⟩ := List.nodup_append.mp rest
  obtain ⟨-, -, notFree⟩ := List.nodup_append.mp others
  have later : q ∈ out ++ free := List.mem_append_left _ member
  rw [List.mem_cons, List.mem_append]
  rintro (rfl | isTable | isFree)
  · exact first (List.mem_append_right _ later)
  · exact notTable q isTable q later rfl
  · exact notFree q member q isFree rfl

theorem Owned.setCpu (owned : Owned ⟨s, pgdir, out⟩ free) {c : Processor} (quiet : Quiet c) :
    Owned ⟨s.setCpu c, pgdir, out⟩ free :=
  ⟨owned.dir.setCpu quiet, owned.frame, owned.image, owned.distinct, owned.frames, owned.mapped, owned.injective⟩

theorem Owned.kalloc (owned : Owned ⟨s, pgdir, out⟩ free) {v : Addr} (ran : kalloc.run s = .ok v t) :
    ∃ free', Owned ⟨t, pgdir, if v = 0#32 then out else v :: out⟩ free' := by
  cases free with
  | nil =>
    obtain ⟨c, ran', heap⟩ := run_kalloc_nil s owned.dir.heap
    rw [ran'] at ran
    injection ran with value same
    subst value same
    exact ⟨[], owned.setCpu heap.quiet⟩
  | cons p rest =>
    obtain ⟨c, ran', heap⟩ := run_kalloc_cons s p rest owned.dir.heap
    rw [ran'] at ran
    injection ran with value same
    subst value same
    have frame : Frame s p := owned.dir.heap.frames p (by simp)
    rw [if_neg (frame.ne_zero owned.dir.heap.sentinel)]
    refine ⟨rest, (owned.dir.take heap).1, owned.frame, owned.image, ?_, ?_, ?_, owned.injective⟩
    · have order : (pgdir :: (tables s.mem pgdir ++ (out ++ p :: rest))).Perm
          (pgdir :: (tables s.mem pgdir ++ (p :: out ++ rest))) := (List.perm_middle.append_left _).cons _
      exact order.nodup_iff.mp owned.distinct
    · intro q member
      rcases List.mem_cons.mp member with rfl | member
      · exact frame
      · exact owned.frames q member
    · intro n below q found
      exact List.mem_cons_of_mem _ (owned.mapped n below q found)

/-- Memory changed in a page handed out, which no table and no link of the free list uses. -/
theorem Owned.write (owned : Owned ⟨s, pgdir, out⟩ free) {p : Addr} {m : Mem} (member : p ∈ out)
    (same : Set.EqOn m s.mem (span p 4096)ᶜ) : Owned ⟨s.setMem m, pgdir, out⟩ free := by
  obtain ⟨dir, lists, view⟩ := owned.dir.setMem (owned.frames p member).aligned (owned.apart member) same
  have sameFrame (n : Nat) (below : n < 2 ^ 19) : frameAt m pgdir n = frameAt s.mem pgdir n :=
    frameAt_congr (view n (by omega))
  refine ⟨dir, owned.frame, owned.image, ?_, owned.frames, ?_, ?_⟩
  · simp only [KernelState.put_mem, lists]
    exact owned.distinct
  · intro n below q found
    exact owned.mapped n below q ((sameFrame n below).symm.trans found)
  · intro n n' q below below' found found'
    exact owned.injective n n' q below below' ((sameFrame n below).symm.trans found)
      ((sameFrame n' below').symm.trans found')

theorem Owned.kfree (owned : Owned ⟨s, pgdir, out⟩ free) {v : Addr} (member : v ∈ out)
    (unmapped : v ∉ userFrames s.mem pgdir) (ran : (kfree v).run s = .ok () t) :
    ∃ free', Owned ⟨t, pgdir, out.erase v⟩ free' := by
  have frame := owned.frames v member
  have apart := owned.apart member
  obtain ⟨m, c, ran', same, heap⟩ := run_kfree s v free owned.dir.heap frame fun isFree => apart (by simp [isFree])
  rw [ran'] at ran
  injection ran with _ state
  subst state
  obtain ⟨dir, lists, view⟩ := owned.dir.give frame.aligned apart same heap
  have sameFrame (n : Nat) (below : n < 2 ^ 19) : frameAt m pgdir n = frameAt s.mem pgdir n :=
    frameAt_congr (view n (by omega))
  refine ⟨v :: free, dir, owned.frame, owned.image, ?_, fun q inside => owned.frames q (List.mem_of_mem_erase inside),
    ?_, ?_⟩
  · have order : (pgdir :: (tables m pgdir ++ (out.erase v ++ v :: free))).Perm
        (pgdir :: (tables s.mem pgdir ++ (out ++ free))) := by
      rw [lists]
      refine List.Perm.cons pgdir (List.Perm.append_left _ ?_)
      exact List.perm_middle.trans ((List.perm_cons_erase member).symm.append_right free)
    exact order.nodup_iff.mpr owned.distinct
  · intro n below q found
    have before := (sameFrame n below).symm.trans found
    refine (List.mem_erase_of_ne ?_).mpr (owned.mapped n below q before)
    rintro rfl
    exact unmapped (mem_framesIn.mpr ⟨n, Nat.zero_le n, below, before⟩)
  · intro n n' q below below' found found'
    exact owned.injective n n' q below below' ((sameFrame n below).symm.trans found)
      ((sameFrame n' below').symm.trans found')

theorem P2V_injective {p q : Addr} (same : P2V p = P2V q) : p = q := by
  rw [← V2P_P2V p, same, V2P_P2V]

/-- Whether or not the call gets through its whole range, each page it has mapped is a
page handed out that was mapped nowhere before. -/
theorem Owned.mappages (owned : Owned ⟨s, pgdir, out⟩ free) {va size pa perm : Addr} {result : Int}
    (positive : 1 ≤ size.toNat) (below : va.toNat + size.toNat ≤ KERNBASE.toNat) (aligned : Aligned pa)
    (perms : perm ∈ [0#32, PTE_W, PTE_U, PTE_W ||| PTE_U])
    (fresh : ∀ n ∈ pagesOf va size, P2V (pageAfter pa (n - va.toNat / 4096)) ∈ out ∧
      P2V (pageAfter pa (n - va.toNat / 4096)) ∉ userFrames s.mem pgdir)
    (ran : (mappages pgdir va size pa perm).run s = .ok result t) : ∃ free', Owned ⟨t, pgdir, out⟩ free' := by
  have base : KERNBASE.toNat = 2 ^ 31 := rfl
  have fits : va.toNat + size.toNat - 1 < 2 ^ 32 := by omega
  obtain ⟨done, u, free', mapped, upto, ending⟩ :=
    run_mappages_straight positive fits pa perm owned.dir
  have state : u = t := by
    rcases ending with ⟨-, ran'⟩ | ⟨_, -, -, -, ran'⟩ | ⟨_, -, -, -, ran'⟩ <;> rw [ran'] at ran <;> cases ran <;> rfl
  subst state
  obtain ⟨m, c, f, rfl⟩ := mapped.grows.rest
  -- a frame seen below KERNBASE is one just mapped, or was seen there before
  have seen (n : Nat) (low : n < 2 ^ 19) (q : Addr) (found : frameAt m pgdir n = some q) :
      (n ∈ pagesOf va size ∧ q = P2V (pageAfter pa (n - va.toNat / 4096))) ∨ frameAt s.mem pgdir n = some q := by
    have entry := mapped.view fits upto (n := n) (by omega)
    by_cases inside : va.toNat / 4096 ≤ n ∧ n < va.toNat / 4096 + done
    · rw [if_pos inside, KernelState.put_mem] at entry
      rw [frameAt, entry, has_entryFor, if_pos rfl, PTE_ADDR_entryFor _ aligned perms] at found
      exact Or.inl ⟨Finset.mem_Icc.mpr (by omega), (Option.some.inj found).symm⟩
    · rw [if_neg inside, KernelState.put_mem] at entry
      exact Or.inr ((frameAt_congr entry).symm.trans found)
  have known {n : Nat} (low : n < 2 ^ 19) {q : Addr} (found : frameAt s.mem pgdir n = some q) :
      q ∈ userFrames s.mem pgdir := mem_framesIn.mpr ⟨n, Nat.zero_le n, low, found⟩
  refine ⟨free', mapped.grows.directory, owned.frame, owned.image, ?_, owned.frames, ?_, ?_⟩
  · have order : (pgdir :: (tables m pgdir ++ (out ++ free'))).Perm
        (pgdir :: (tables s.mem pgdir ++ (out ++ free))) := by
      refine List.Perm.cons pgdir ((List.perm_append_comm_assoc _ _ _).trans ?_)
      exact (mapped.grows.conserved.append_left out).trans (List.perm_append_comm_assoc _ _ _)
    exact order.nodup_iff.mpr owned.distinct
  · intro n low q found
    rcases seen n low q found with ⟨inside, rfl⟩ | old
    · exact (fresh n inside).1
    · exact owned.mapped n low q old
  · intro n n' q low low' found found'
    rcases seen n low q found with ⟨inside, value⟩ | old <;> rcases seen n' low' q found' with ⟨inside', value'⟩ | old'
    · have ends := Finset.mem_Icc.mp inside
      have ends' := Finset.mem_Icc.mp inside'
      have distance := pageAfter_injective (by omega) (by omega) (P2V_injective (value.symm.trans value'))
      omega
    · exact absurd (known low' old') (value ▸ (fresh n inside).2)
    · exact absurd (known low old) (value' ▸ (fresh n' inside').2)
    · exact owned.injective n n' q low low' old old'

theorem step_owned (r r' : SpaceRun) (inv : ∃ free, Owned r free) (taken : Step r r') : ∃ free, Owned r' free := by
  obtain ⟨free, owned⟩ := inv
  cases taken with
  | kalloc v ran => exact owned.kalloc ran
  | kfree v member unmapped ran => exact owned.kfree member unmapped ran
  | write p a b member inside =>
    refine ⟨free, owned.write member ?_⟩
    intro x away
    apply store8_of_ne
    rintro rfl
    exact away inside
  | mappages va size pa perm result positive below aligned perms fresh ran =>
    exact owned.mappages positive below aligned perms fresh ran

theorem run_owned {r : SpaceRun} (run : Reachable Initial Step r) : ∃ free, Owned r free :=
  run.invariant (fun _ first => first.owned) step_owned

end Steps

theorem Owned.user_subset {r : SpaceRun} {free : List Addr} (owned : Owned r free) :
    userFrames r.kernel.mem r.pgdir ⊆ r.out := by
  intro q member
  obtain ⟨n, -, below, found⟩ := mem_framesIn.mp member
  exact owned.mapped n below q found

theorem Owned.user_distinct {r : SpaceRun} {free : List Addr} (owned : Owned r free) :
    (r.pgdir :: (tables r.kernel.mem r.pgdir ++ (userFrames r.kernel.mem r.pgdir ++ free))).Nodup := by
  have nodup : (userFrames r.kernel.mem r.pgdir).Nodup := framesIn_nodup owned.injective
  have smaller : (r.pgdir :: (tables r.kernel.mem r.pgdir ++ (userFrames r.kernel.mem r.pgdir ++ free))).Subperm
      (r.pgdir :: (tables r.kernel.mem r.pgdir ++ (r.out ++ free))) := by
    rw [List.subperm_cons, List.subperm_append_left, List.subperm_append_right]
    exact nodup.subperm (owned.user_subset)
  obtain ⟨ordered, same, sublist⟩ := smaller
  exact same.nodup_iff.mp (owned.distinct.sublist sublist)

/-- A single page leaves none for the table of KERNBASE. -/
theorem setupkvm_single_page {s t : KernelState} {p : Addr} (heap : Heap s [p]) (firmware : Firmware s)
    (memory : 1 ≤ s.physEnd.toNat) (a : Addr) : setupkvm.run s ≠ .ok a t := by
  intro ran
  obtain ⟨c, u, free', -, built, blank, ⟨ran', entries⟩ | ⟨ran', -⟩⟩ := run_setupkvm heap firmware memory
  case inr => exact absurd (ran'.symm.trans ran) (mapfail_not_ok a)
  have first : 2 ^ 19 ∈ pagesOf KERNBASE s.physEnd := by
    have base : KERNBASE.toNat = 2 ^ 31 := rfl
    rw [pagesOf, Finset.mem_Icc]
    omega
  have entry := entries _ (Finset.mem_union_left _ (Finset.mem_union_left _ first))
  rw [kernelEntry, if_pos first] at entry
  have there : tableAt u.mem p (2 ^ 19 / 1024) ≠ none :=
    table_of_present (by rw [entry]; exact has_entryFor _ _ _)
  obtain ⟨table, found⟩ := Option.ne_none_iff_exists'.mp there
  have listed : table ∈ tables u.mem p := mem_tables.mpr ⟨_, by decide, found⟩
  have conserved := built.grows.conserved
  rw [blank, List.nil_append] at conserved
  cases conserved.subset (List.mem_append_left _ listed)

/-- `freevm` undoes what built the address space: a `setupkvm` that runs out of pages leaves
the free pages as it found them, and freeing an address space in use gives back its directory,
its tables and the frames below KERNBASE, each once, and nothing else. -/
theorem freevm_undoes_construction :
    (∀ (s : KernelState) (free : List Addr), Heap s free → Firmware s → 1 ≤ s.physEnd.toNat →
      KERNBASE < s.kheapStart →
      (∃ pgdir t, setupkvm.run s = .ok pgdir t) ∨
      (free = [] ∧ ∃ t, setupkvm.run s = .error (.panic "kalloc") t) ∨
      ∃ t free', setupkvm.run s = .error (.panic "mappages") t ∧ Heap t free' ∧ free'.Perm free) ∧
    ∀ r : SpaceRun, Reachable Initial Step r →
      ∃ free t free', Heap r.kernel free ∧ (freevm r.pgdir).run r.kernel = .ok () t ∧ Heap t free' ∧
        free'.Perm (r.pgdir :: (tables r.kernel.mem r.pgdir ++ (userFrames r.kernel.mem r.pgdir ++ free))) ∧
        (∀ q ∈ userFrames r.kernel.mem r.pgdir, q ∈ r.out) ∧
        ∀ q ∈ r.out, q ∉ userFrames r.kernel.mem r.pgdir → q ∉ free' := by
  refine ⟨?_, ?_⟩
  · intro s free heap firmware memory image
    cases free with
    | nil =>
      obtain ⟨c, ran, -⟩ := run_kalloc_nil s heap
      refine Or.inr (Or.inl ⟨rfl, s.setCpu c, ?_⟩)
      rw [setupkvm, run_bind_ok ran, run_ite, if_pos rfl]
      rfl
    | cons p rest =>
      rcases run_setupkvm_restores heap firmware memory image with ⟨t, ran⟩ | failed
      · exact Or.inl ⟨p, t, ran⟩
      · exact Or.inr (Or.inr failed)
  · intro r run
    obtain ⟨free, owned⟩ := run_owned run
    obtain ⟨t, free', ran, heap, -, order⟩ := run_freevm owned.dir owned.frame owned.image
      (fun q member => owned.frames q (owned.user_subset member)) owned.user_distinct
    refine ⟨free, t, free', owned.dir.heap, ran, heap, order, owned.user_subset, ?_⟩
    intro q member unmapped freed
    have apart := owned.apart member
    have inside := order.subset freed
    rw [List.mem_cons, List.mem_append, List.mem_append] at inside
    rw [List.mem_cons, List.mem_append] at apart
    rcases inside with same | isTable | isUser | isFree
    · exact apart (Or.inl same)
    · exact apart (Or.inr (Or.inl isTable))
    · exact unmapped isUser
    · exact apart (Or.inr (Or.inr isFree))

section UserPage
variable {s : KernelState} {pgdir : Addr} {out free : List Addr} {n : Nat}

/-- The address of a user page. -/
def userPage (n : Nat) : Addr := BitVec.ofNat 32 (4096 * n)

theorem userPage_toNat (user : n < 2 ^ 19) : (userPage n).toNat = 4096 * n := by
  rw [userPage, BitVec.toNat_ofNat]
  omega

theorem mem_pagesOf_userPage (user : n < 2 ^ 19) {k : Nat} : k ∈ pagesOf (userPage n) PGSIZE ↔ k = n := by
  have size : PGSIZE.toNat = 4096 := rfl
  rw [pagesOf, Finset.mem_Icc, userPage_toNat user]
  omega

/-- With a free page for its table a user page is mapped, and nothing else changes. -/
theorem run_mappages_userPage (dir : Directory s pgdir free) (user : n < 2 ^ 19) (clear : pteAt s.mem pgdir n = 0#32)
    (room : 1 ≤ free.length) (pa perm : Addr) :
    ∃ t free', (mappages pgdir (userPage n) PGSIZE pa perm).run s = .ok 0 t ∧ Directory t pgdir free' ∧
      free.length ≤ free'.length + 1 ∧
      (∀ k < 2 ^ 20, pteAt t.mem pgdir k = if k = n then entryFor pa perm 0 else pteAt s.mem pgdir k) ∧
      ∀ d, tableAt t.mem pgdir d ≠ none → d < 1024 → tableAt s.mem pgdir d ≠ none ∨ d = n / 1024 := by
  have size : PGSIZE.toNat = 4096 := rfl
  have place := userPage_toNat user
  have positive : 1 ≤ PGSIZE.toNat := by decide
  have fits : (userPage n).toNat + PGSIZE.toNat - 1 < 2 ^ 32 := by omega
  obtain ⟨done, t, free', mapped, upto, ending⟩ := run_mappages_straight positive fits pa perm dir
  have inside : present t.mem pgdir ⊆ present s.mem pgdir ∪ {n / 1024} := by
    refine (mapped.present_subset positive fits upto).trans (Finset.union_subset_union_right fun d member => ?_)
    obtain ⟨k, range, rfl⟩ := Finset.mem_image.mp member
    rw [(mem_pagesOf_userPage user).mp range, Finset.mem_singleton]
  have few := Finset.card_union_le (present s.mem pgdir) {n / 1024}
  rw [card_present, Finset.card_singleton] at few
  rcases ending with ⟨all, ran⟩ | ⟨k, range, rfl, missing, -⟩ | ⟨k, range, -, there, -⟩
  · refine ⟨t, free', ran, mapped.grows.directory, ?_, fun k bound => ?_, fun d there bound => ?_⟩
    · have made := mapped.grows.conserved.length_eq
      have used := (Finset.card_le_card inside).trans few
      rw [card_present] at used
      rw [List.length_append, List.length_append] at made
      omega
    · rw [mapped.view fits upto bound]
      by_cases same : k = n
      · rw [if_pos (by omega), if_pos same, same, place, Nat.mul_div_cancel_left n (by decide), Nat.sub_self]
      · rw [if_neg (by omega), if_neg same]
    · rcases Finset.mem_union.mp (inside (mem_present.mpr ⟨bound, there⟩)) with old | new
      · exact .inl (mem_present.mp old).2
      · exact .inr (Finset.mem_singleton.mp new)
  · refine (not_exhausted mapped.grows _ inside (Finset.mem_union_right _ ?_) missing (by omega)).elim
    rw [(mem_pagesOf_userPage user).mp range, Finset.mem_singleton]
  · rw [(mem_pagesOf_userPage user).mp range, clear, has_zero] at there
    cases there

/-- A page more for user mode: `kalloc`, then `mappages`. -/
theorem map_userPage (run : Reachable Initial Step ⟨s, pgdir, out⟩) (owned : Owned ⟨s, pgdir, out⟩ free) (user : n < 2 ^ 19)
    (clear : pteAt s.mem pgdir n = 0#32) (room : 2 ≤ free.length) :
    ∃ t free' q, Reachable Initial Step ⟨t, pgdir, q :: out⟩ ∧ Owned ⟨t, pgdir, q :: out⟩ free' ∧
      free.length ≤ free'.length + 2 ∧
      (∀ k < 2 ^ 20, pteAt t.mem pgdir k = if k = n then entryFor (V2P q) (PTE_W ||| PTE_U) 0 else pteAt s.mem pgdir k) ∧
      frameAt t.mem pgdir n = some q ∧
      ∀ d, tableAt t.mem pgdir d ≠ none → d < 1024 → tableAt s.mem pgdir d ≠ none ∨ d = n / 1024 := by
  obtain ⟨q, rest, rfl⟩ := List.exists_cons_of_length_pos (by omega : 0 < free.length)
  rw [List.length_cons] at room
  have frame : Frame s q := owned.dir.heap.frames q List.mem_cons_self
  have fresh : q ∉ out := fun member => owned.apart member (by simp)
  obtain ⟨c, allocated, heap⟩ := run_kalloc_cons s q rest owned.dir.heap
  have taken := run.next (.kalloc q allocated)
  rw [if_neg (frame.ne_zero owned.dir.heap.sentinel)] at taken
  obtain ⟨t, free', ran, dir, left, view, touched⟩ :=
    run_mappages_userPage (owned.dir.take heap).1 user clear (by omega) (V2P q) (PTE_W ||| PTE_U)
  have page : P2V (pageAfter (V2P q) 0) = q := by simp [pageAfter, P2V, V2P]
  have alone (k : Nat) (range : k ∈ pagesOf (userPage n) PGSIZE) :
      P2V (pageAfter (V2P q) (k - (userPage n).toNat / 4096)) = q := by
    rw [(mem_pagesOf_userPage user).mp range, userPage_toNat user, Nat.mul_div_cancel_left n (by decide), Nat.sub_self, page]
  have below : (userPage n).toNat + PGSIZE.toNat ≤ KERNBASE.toNat := by
    rw [userPage_toNat user]
    change 4096 * n + 4096 ≤ 2 ^ 31
    omega
  have step := taken.next (.mappages _ _ _ _ 0 (by decide) below (aligned_V2P frame.aligned) (by simp)
    (fun k range => by rw [alone k range]; exact ⟨List.mem_cons_self, fun seen => fresh (owned.user_subset seen)⟩) ran)
  obtain ⟨free'', owned'⟩ := run_owned step
  obtain rfl : free' = free'' := chain_unique dir.heap.chain owned'.dir.heap.chain
  refine ⟨t, free', q, step, owned', by rw [List.length_cons]; omega, view, ?_, touched⟩
  rw [frameAt, view n (by omega), if_pos rfl, has_entryFor, if_pos rfl,
    PTE_ADDR_entryFor 0 (aligned_V2P frame.aligned) (by simp), page]

end UserPage

/-- An address space of the small machine with user pages at 0 and at 0x800000, and no
table for the addresses between them. -/
theorem exists_user_pages : ∃ s pgdir out free p q, Reachable Initial Step ⟨s, pgdir, out⟩ ∧ Owned ⟨s, pgdir, out⟩ free ∧
    userFrames s.mem pgdir = [p, q] ∧ frameAt s.mem pgdir 0 = some p ∧ frameAt s.mem pgdir 2048 = some q ∧
    tableAt s.mem pgdir 1 = none := by
  obtain ⟨s, t, pgdir, free, ran, dir, -, left, low, -, machine, heap, -⟩ :=
    exists_kernel_half 11 (by decide) (by decide) 0x8010e000#32 (by unfold rangePages; decide)
  have start : KERNBASE < s.kheapStart := by rw [machine.kheapStart]; decide
  have first : Reachable Initial Step ⟨t, pgdir, []⟩ := .start
    ⟨s, _, heap, machine.firmware, by rw [machine.physEnd]; decide, start, by simpa using heap.distinct, by simp, ran⟩
  obtain ⟨free₀, owned⟩ := run_owned first
  obtain rfl : free = free₀ := chain_unique dir.heap.chain owned.dir.heap.chain
  have blank (n : Nat) (user : n < 2 ^ 19) : pteAt t.mem pgdir n = 0#32 := by rw [pteAt, low (n / 1024) (by omega)]
  obtain ⟨t₁, free₁, p, run₁, owned₁, left₁, view₁, page₁, touched₁⟩ :=
    map_userPage first owned (n := 0) (by decide) (blank 0 (by decide)) (by omega)
  obtain ⟨t₂, free₂, q, run₂, owned₂, -, view₂, page₂, touched₂⟩ :=
    map_userPage run₁ owned₁ (n := 2048) (by decide) ((view₁ 2048 (by decide)).trans (blank 2048 (by decide))) (by omega)
  have kept : frameAt t₂.mem pgdir 0 = some p := (frameAt_congr (view₂ 0 (by decide))).trans page₁
  have empty (n : Nat) (user : n < 2 ^ 19) (zero : n ≠ 0) (other : n ≠ 2048) : frameAt t₂.mem pgdir n = none := by
    apply frameAt_zero
    rw [view₂ n (by omega), if_neg other, view₁ n (by omega), if_neg zero, blank n user]
  refine ⟨t₂, pgdir, _, free₂, p, q, run₂, owned₂, ?_, kept, page₂, ?_⟩
  · rw [userFrames, framesIn_cons (by decide), kept, framesIn_skip (by decide : 0 + 1 ≤ 2048) fun n low high =>
        empty n (by omega) (by omega) (by omega),
      framesIn_cons (by decide), page₂, framesIn_skip (by decide : 2048 + 1 ≤ 2 ^ 19) fun n low high =>
        empty n high (by omega) (by omega), framesIn_empty (Nat.le_refl _)]
    rfl
  · by_contra there
    rcases touched₂ 1 there (by decide) with old | same
    · rcases touched₁ 1 old (by decide) with older | same
      · exact older (low 1 (by decide))
      · cases same
    · cases same

/-- With a single page `setupkvm` stops and the page is free again; an address space with
two user pages is freed with both of them. -/
theorem freevm_undoes_small_machine :
    (∃ (s t : KernelState) (free' : List Addr), Heap s [0x80103000#32] ∧
      setupkvm.run s = .error (.panic "mappages") t ∧ Heap t free' ∧ free'.Perm [0x80103000#32]) ∧
    ∃ (r : SpaceRun) (t : KernelState) (free' : List Addr) (p q : Addr), Reachable Initial Step r ∧
      userFrames r.kernel.mem r.pgdir = [p, q] ∧ (freevm r.pgdir).run r.kernel = .ok () t ∧ Heap t free' ∧
      p ∈ free' ∧ q ∈ free' := by
  refine ⟨?_, ?_⟩
  · obtain ⟨s, heap, firmware, -, -, memory, start⟩ :=
      exists_small_firmware 1 (by decide) 0x80104000#32 (by unfold rangePages; decide)
    rcases freevm_undoes_construction.1 s [0x80103000#32] heap firmware memory (by rw [start]; decide) with
      ⟨pgdir, t, ran⟩ | ⟨refused, -⟩ | ⟨t, free', ran, heap', order⟩
    · exact absurd ran (setupkvm_single_page heap firmware memory pgdir)
    · cases refused
    · exact ⟨s, t, free', heap, ran, heap', order⟩
  · obtain ⟨s, pgdir, out, -, p, q, run, -, pages, -⟩ := exists_user_pages
    obtain ⟨free, t, free', -, freed, heap, order, -⟩ := freevm_undoes_construction.2 _ run
    rw [pages] at order
    exact ⟨_, t, free', p, q, run, pages, freed, heap, order.mem_iff.mpr (by simp), order.mem_iff.mpr (by simp)⟩

end OsDev.Kernel.SpaceRuns
