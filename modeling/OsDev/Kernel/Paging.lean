import OsDev.Kernel.Kalloc

/-! Page directories and page tables as kernel/paging.c builds, searches and
frees them. Both live in pages of the kernel heap. -/

namespace OsDev.Kernel.Paging
open OsDev.Machine.Memory OsDev.Machine.Program
open OsDev.Kernel.Mmu OsDev.Kernel.State OsDev.Kernel.StringLib OsDev.Kernel.Console OsDev.Kernel.Kalloc

def clearPage (p : Addr) : Prog KernelState Unit := modify fun s => s.setMem (memset s.mem p 0#8 4096)

def walkpgdir (pgdir va : Addr) (alloc : Bool) : Prog KernelState Addr := do
  let pde := pgdir + 4#32 * PDX va
  let entry ← load32 pde
  if has entry PTE_P then return P2V (PTE_ADDR entry) + 4#32 * PTX va
  else if !alloc then return 0#32
  else do
    let pgtab ← kalloc
    if pgtab = 0#32 then return 0#32
    else do
      clearPage pgtab
      store32 pde (V2P pgtab ||| PTE_P ||| PTE_W ||| PTE_U)
      return pgtab + 4#32 * PTX va

def pagingGetPaddr (vaddr : Addr) : Prog KernelState Addr := do
  let pte ← walkpgdir (← get).kpgdir vaddr false
  if pte = 0#32 then assertFail "paging_get_paddr" "kernel/paging.c" 48
  else do
    let entry ← load32 pte
    return entry + ADDR_PAGE_OFFSET vaddr

/-- `last` is a page, so the loop meets it within one turn of the address space. -/
def mappagesLoop (pgdir last perm : Addr) : Nat → Addr → Addr → Prog KernelState Int
  | 0, _, _ => throw .spin
  | fuel + 1, a, pa => do
      let pte ← walkpgdir pgdir a true
      if pte = 0#32 then return -1
      else do
        let entry ← load32 pte
        if has entry PTE_P then kpanic "remap"
        else do
          store32 pte (pa ||| perm ||| PTE_P)
          if a = last then return 0
          else mappagesLoop pgdir last perm fuel (a + PGSIZE) (pa + PGSIZE)

@[irreducible] def mappages (pgdir va size pa perm : Addr) : Prog KernelState Int :=
  mappagesLoop pgdir (PGROUNDDOWN (va + size - 1#32)) perm (2 ^ 20) (PGROUNDDOWN va) pa

/-- `kalloc` failing is not noticed here, nor is `mappages` failing. -/
def inituvm (pgdir init sz : Addr) : Prog KernelState Unit := do
  if PGSIZE ≤ sz then kpanic "inituvm: more than a page"
  else do
    let mem ← kalloc
    clearPage mem
    let _ ← mappages pgdir 0#32 PGSIZE (V2P mem) (PTE_W ||| PTE_U)
    modify fun s => s.setMem (memmove s.mem mem init sz.toNat)

/-- A size near the top of the address space makes `a` start again at 0; after a
second turn nothing is left to free and the loop never ends. -/
def deallocuvmLoop (pgdir oldsz : Addr) : Nat → Addr → Prog KernelState Unit
  | 0, _ => throw .spin
  | fuel + 1, a =>
      if a < oldsz then do
        let pte ← walkpgdir pgdir a false
        if pte = 0#32 then deallocuvmLoop pgdir oldsz fuel (PGADDR (PDX a + 1#32) 0#32 0#32 - PGSIZE + PGSIZE)
        else do
          let entry ← load32 pte
          if has entry PTE_P then do
            let pa := PTE_ADDR entry
            if pa = 0#32 then kpanic "kfree"
            else do
              kfree (P2V pa)
              store32 pte 0#32
              deallocuvmLoop pgdir oldsz fuel (a + PGSIZE)
          else deallocuvmLoop pgdir oldsz fuel (a + PGSIZE)
      else pure ()

@[irreducible] def deallocuvm (pgdir oldsz newsz : Addr) : Prog KernelState Addr := do
  if oldsz ≤ newsz then return oldsz
  else do
    deallocuvmLoop pgdir oldsz (2 ^ 21 + 1) (PGROUNDUP newsz)
    return newsz

/-- The loop of `freevm` over the entries from `i` on; `left` of them are still to come. -/
def freeTables (pgdir : Addr) : Nat → Nat → Prog KernelState Unit
  | 0, _ => pure ()
  | left + 1, i => do
      let entry ← load32 (slot pgdir i)
      if has entry PTE_P then do
        kfree (P2V (PTE_ADDR entry))
        freeTables pgdir left (i + 1)
      else freeTables pgdir left (i + 1)

@[irreducible] def freevm (pgdir : Addr) : Prog KernelState Unit := do
  if pgdir = 0#32 then kpanic "freevm: no pgdir"
  else do
    let _ ← deallocuvm pgdir KERNBASE 0#32
    freeTables pgdir NPDENTRIES 0
    kfree pgdir

def mapfail {α : Type} (pgdir : Addr) : Prog KernelState α := do
  freevm pgdir
  kpanic "mappages"

def setupkvm : Prog KernelState Addr := do
  let pgdir ← kalloc
  if pgdir = 0#32 then kpanic "kalloc"
  else do
    clearPage pgdir
    let s ← get
    if (← mappages pgdir KERNBASE (s.physEnd - 0#32) 0#32 PTE_W) < 0 then mapfail pgdir
    else if (← mappages pgdir (P2V s.acpi) s.acpiLen s.acpi PTE_W) < 0 then mapfail pgdir
    else if (← mappages pgdir DEVSPACE 0xf00000#32 DEVSPACE PTE_W) < 0 then mapfail pgdir
    else return pgdir

def pagingSwitchPgdir (pgdir : Addr) : Prog KernelState Unit := do
  if pgdir = 0#32 then assertFail "paging_switch_pgdir" "kernel/paging.c" 113 else modify fun s => { s with cr3 := pgdir }

def pagingInit : Prog KernelState Unit := do
  let kpgdir ← setupkvm
  modify fun s => { s with kpgdir := kpgdir }
  pagingSwitchPgdir (V2P kpgdir)

section Switch
variable {pgdir : Addr} {s t : KernelState}

theorem run_pagingSwitchPgdir (nonzero : pgdir ≠ 0#32) (s : KernelState) :
    (pagingSwitchPgdir pgdir).run s = .ok () { s with cr3 := pgdir } := by
  rw [pagingSwitchPgdir, if_neg nonzero, EStateM.run_modify]

theorem pagingSwitchPgdir_eq_ok (ran : (pagingSwitchPgdir pgdir).run s = .ok () t) : t = { s with cr3 := pgdir } := by
  rw [pagingSwitchPgdir, run_ite] at ran
  split at ran
  · exact absurd ran assertFail_ne_ok
  · cases ran
    rfl

end Switch

end OsDev.Kernel.Paging
