import OsDev.Kernel.UpperHalf

/-! From the page directory of kernel_entry.asm, which shows the first 4 MiB of physical
memory at 0 and at KERNBASE, to that of `setupkvm`: what the kernel uses stays where it is. -/

namespace OsDev.Kernel.EntryPaging
open OsDev.Machine.Memory OsDev.Machine.Program
open OsDev.Kernel.SpinLocks OsDev.Kernel.Mmu OsDev.Kernel.State OsDev.Kernel.Console OsDev.Kernel.Kalloc OsDev.Kernel.KallocRuns
  OsDev.Kernel.Paging OsDev.Kernel.Pmem OsDev.Kernel.PageTables OsDev.Kernel.AddressSpace OsDev.Kernel.FreeVm
  OsDev.Kernel.HeapRam OsDev.Kernel.Proc OsDev.Kernel.Holdings OsDev.Kernel.Startup OsDev.Kernel.UpperHalf
open OsDev.Kernel.KernelHalf (smallMap)

def NKERNPG : Nat := (KERNBASE >>> 22).toNat

/-- `entrypgdir`: two entries for the first 4 MiB, present, writable and large. -/
def entrypgdir (d : Nat) : Word := if d = 0 ∨ d = NKERNPG then 0x83#32 else 0#32

/-- What `entrypgdir` maps. -/
def entryMap (a : Addr) : Option Mapping :=
  if a < 0x400000#32 then some ⟨a, false, true⟩
  else if a - KERNBASE < 0x400000#32 then some ⟨V2P a, false, true⟩
  else none

section Walks
variable {m : Mem} {L a : Addr}

theorem walk_large (found : pdeAt m L (a.toNat / 2 ^ 22) = 0x83#32) :
    walk m (V2P L) a = some ⟨a &&& 0x3FFFFF#32, false, true⟩ := by
  unfold pdeAt at found
  have base : 0x83#32 &&& 0xFFC00000#32 = 0#32 := by decide
  simp only [walk, P2V_V2P, slot_PDX, found, base, BitVec.zero_or]
  rfl

theorem walk_blank (found : pdeAt m L (a.toNat / 2 ^ 22) = 0#32) : walk m (V2P L) a = none := by
  unfold pdeAt at found
  simp only [walk, translation, P2V_V2P, slot_PDX, found, has_zero, Bool.false_and, Bool.false_eq_true, if_false]

/-- The offset in a page of 4 MiB. -/
theorem mask_large (a : Addr) : (a &&& 0x3FFFFF#32).toNat = a.toNat % 2 ^ 22 := by
  rw [BitVec.toNat_and]
  exact Nat.and_two_pow_sub_one_eq_mod a.toNat 22

theorem walk_entry (linked : ∀ d < 1024, pdeAt m L d = entrypgdir d) (a : Addr) : walk m (V2P L) a = entryMap a := by
  have bound := a.isLt
  have entry := linked (a.toNat / 2 ^ 22) (by omega)
  have offset := mask_large a
  have first : a < 0x400000#32 ↔ a.toNat / 2 ^ 22 = 0 := by bv_omega
  have second : a - KERNBASE < 0x400000#32 ↔ a.toNat / 2 ^ 22 = NKERNPG := by
    have index : NKERNPG = 512 := rfl
    unfold KERNBASE
    rw [index]
    bv_omega
  unfold entryMap
  unfold entrypgdir at entry
  by_cases low : a.toNat / 2 ^ 22 = 0
  · have same : a &&& 0x3FFFFF#32 = a := by bv_omega
    rw [if_pos (.inl low)] at entry
    rw [if_pos (first.mpr low), walk_large entry, same]
  · rw [if_neg (mt first.mp low)]
    by_cases high : a.toNat / 2 ^ 22 = NKERNPG
    · have same : a &&& 0x3FFFFF#32 = V2P a := by
        have index : a.toNat / 2 ^ 22 = 512 := high
        unfold V2P KERNBASE
        bv_omega
      rw [if_pos (.inr high)] at entry
      rw [if_pos (second.mpr high), walk_large entry, same]
    · rw [if_neg (not_or.mpr ⟨low, high⟩)] at entry
      rw [if_neg (mt second.mp high), walk_blank entry]

/-- A directory shows no memory below KERNBASE when its owner has no pages but those it is made of. -/
theorem translation_lower {s : KernelState} {free : List Addr} {i : Owner} (spaces : Spaces s free) (real : root s i ≠ 0#32)
    (owned : ∀ p ∈ holdings s i, p ∈ walkPages s.mem (root s i)) {x : Addr} (low : x < KERNBASE) :
    translation s.mem (root s i) x = none := by
  have below : x.toNat / 4096 < 2 ^ 19 := by
    unfold KERNBASE at low
    bv_omega
  have walk := (spaces.directory idle_quiet real).translation_eq x
  rw [KernelState.put_mem] at walk
  have absent : has (pteAt s.mem (root s i) (x.toNat / 4096)) PTE_P = false := by
    by_contra present
    rw [Bool.not_eq_false] at present
    have shown : P2V (PTE_ADDR (pteAt s.mem (root s i) (x.toNat / 4096))) ∈ framePages s.mem (root s i) := by
      rw [framePages, if_neg real, userFrames, mem_framesIn]
      exact ⟨_, Nat.zero_le _, below, by rw [frameAt, if_pos present]⟩
    have once := (List.nodup_append'.mp (spaces.divided.each i)).2.1
    have member := owned _ ((mem_holdings i _).mpr (.inr (.inr shown)))
    exact (List.nodup_append'.mp once).2.2 member shown
  rw [walk, decode, if_neg (by rw [absent]; decide)]

end Walks

/-- The directory of the entry code as it is linked: a page of the image, away from what the test of the A20 line writes. -/
structure Linked (kEnd L : Addr) (m : Mem) : Prop where
  aligned : Aligned L
  image : L.toNat + 4096 ≤ (PGROUNDUP kEnd).toNat
  untested : Disjoint (span L 4096) tested
  entries : ∀ d < 1024, pdeAt m L d = entrypgdir d

section Handover
variable {map : List E820Entry} {kEnd L : Addr} {extmem entry : E820Entry} {s u : KernelState}

theorem Linked.intact (linked : Linked kEnd L s.mem) (allocating : Allocating kEnd extmem entry s u) (d : Nat) (bound : d < 1024) :
    pdeAt u.mem L d = entrypgdir d := by
  rw [← linked.entries d bound]
  refine pdeAt_congr linked.aligned (fun x inside => allocating.image x ?_ ?_) d bound
  · have image := linked.image
    rw [mem_span] at inside
    bv_omega
  · exact Set.disjoint_left.mp linked.untested inside

theorem entryMap_firstPages (loaded : Loaded map kEnd) {page x : Addr} (member : page ∈ rangePages (PGROUNDUP kEnd) phaseEnd)
    (inside : x ∈ span page 4096) : entryMap x = some ⟨V2P x, false, true⟩ := by
  obtain ⟨-, after, before⟩ := loaded.mem_firstPages.mp member
  have bounds := loaded.bounds
  rw [mem_span] at inside
  unfold entryMap
  rw [if_neg, if_pos]
  · unfold KERNBASE
    bv_omega
  · bv_omega

end Handover

theorem paging_handover (map : List E820Entry) (kEnd L : Addr) (extmem entry : E820Entry) (s : KernelState)
    (suitable : Suitable map kEnd extmem entry) (quiet : Quiet s.cpu) (stop : s.kheapEnd = 0x07fe0000#32)
    (low : s.KMEM_SENTINEL < PGROUNDUP kEnd) (unused : ∀ q, s.ptable q = Process.zero)
    (room : (neededTables (mapped s extmem entry)).card + 1 ≤ (rangePages (PGROUNDUP kEnd) phaseEnd).length)
    (linked : Linked kEnd L s.mem) :
    ∃ u t, (startPaging true (some map) kEnd).run s = EStateM.run (do pagingInit; print "Pagination enabled\n") u ∧
      (startPaging true (some map) kEnd).run s = .ok () t ∧
      (∀ a, walk u.mem (V2P L) a = entryMap a) ∧
      (∀ page ∈ rangePages (PGROUNDUP kEnd) phaseEnd, ∀ x ∈ span page 4096, walk u.mem (V2P L) x = some ⟨V2P x, false, true⟩) ∧
      (∀ a, a - KERNBASE < 0x400000#32 → walk t.mem t.cr3 a = walk u.mem (V2P L) a) ∧
      ∀ a < KERNBASE, walk t.mem t.cr3 a = none := by
  obtain ⟨u, allocating, code⟩ := run_beforePaging suitable quiet stop low
  obtain ⟨t, free, ran, switched⟩ := run_paging suitable quiet stop low unused room
  have before := walk_entry (linked.intact allocating)
  have real : root t none ≠ 0#32 := switched.real
  have after (a : Addr) : walk t.mem t.cr3 a = translation t.mem (root t none) a := by
    rw [switched.cr3]
    exact walk_root switched.spaces real a
  refine ⟨u, t, code, ran, before, fun page member x inside => ?_, fun a window => ?_, fun a below => ?_⟩
  · rw [before, entryMap_firstPages suitable.loaded member inside]
  · have memory : V2P a < t.physEnd := by
      rw [switched.map.physEnd]
      exact Nat.lt_of_lt_of_le window suitable.enough
    have shown := (shows_kernel switched.spaces real).memory _ memory
    rw [P2V_V2P] at shown
    rw [after, before, entryMap, shown, if_neg, if_pos window]
    unfold KERNBASE at window
    bv_omega
  · have owned (p : Addr) (member : p ∈ holdings t none) : p ∈ walkPages t.mem (root t none) := by
      rw [walkPages, if_neg real]
      exact switched.owned none p member
    rw [after, translation_lower switched.spaces real owned below]

/-- An image that holds nothing but the directory, in its last page. -/
def smallImage : Mem :=
  write32 (write32 (fun _ => 0#8) (slot 0x80102000#32 0) 0x83#32) (slot 0x80102000#32 NKERNPG) 0x83#32

theorem small_linked : Linked 0x80103000#32 0x80102000#32 smallImage where
  aligned := by decide
  image := by decide
  untested := by
    rw [tested, Set.disjoint_union_right]
    exact ⟨(span_disjoint _ _ _ _ (by decide) (by decide)).symm, span_disjoint _ _ _ _ (by decide) (by decide)⟩
  entries d bound := by
    have aligned : Aligned 0x80102000#32 := by decide
    have kernel : NKERNPG < 1024 := by decide
    unfold pdeAt smallImage entrypgdir
    by_cases second : d = NKERNPG
    · rw [second, read32_write32_self, if_pos (.inr rfl)]
    · rw [read32_write32_disjoint _ _ _ _ (slot_disjoint aligned kernel bound (Ne.symm second))]
      by_cases first : d = 0
      · rw [first, read32_write32_self, if_pos (.inl rfl)]
      · rw [read32_write32_disjoint _ _ _ _ (slot_disjoint aligned (by decide) bound (Ne.symm first)),
          if_neg (not_or.mpr ⟨first, second⟩)]
        rfl

theorem paging_handover_small : ∃ u t,
    (startPaging true (some smallMap) 0x80103000#32).run (boot smallImage 0x80000000#32) =
      EStateM.run (do pagingInit; print "Pagination enabled\n") u ∧
    (startPaging true (some smallMap) 0x80103000#32).run (boot smallImage 0x80000000#32) = .ok () t ∧
    walk u.mem 0x00102000#32 0x00100000#32 = some ⟨0x00100000#32, false, true⟩ ∧ walk t.mem t.cr3 0x00100000#32 = none ∧
    walk t.mem t.cr3 0x80100000#32 = some ⟨0x00100000#32, false, true⟩ := by
  have few : (neededTables (mapped (boot smallImage 0x80000000#32) ⟨0x100000#64, 0x300000#64, E820_TYPE_RAM⟩
      ⟨0x7fe0000#64, 0x20000#64, E820_TYPE_ACPI⟩)).card ≤ 7 := small_tables rfl rfl rfl
  have many := small_pages
  obtain ⟨u, t, code, ran, before, -, same, lower⟩ := paging_handover smallMap 0x80103000#32 0x80102000#32 _ _
    (boot smallImage 0x80000000#32) small_suitable (boot_quiet _ _) rfl (by decide) (fun _ => rfl) (by omega) small_linked
  exact ⟨u, t, code, ran, before _, lower _ (by decide), (same _ (by decide)).trans (before _)⟩

end OsDev.Kernel.EntryPaging
