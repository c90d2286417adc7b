import OsDev.Machine.Memory

/-! Address arithmetic of kernel/paging.h and the two-level translation the
processor performs. Physical memory is kept under its kernel virtual address:
physical byte `p` is the byte of the memory at `P2V p`. -/

namespace OsDev.Kernel.Mmu
open OsDev.Machine.Memory

def PGSIZE : Addr := 4096#32
def KERNBASE : Addr := 0x80000000#32
def DEVSPACE : Addr := 0xFE000000#32
def NPDENTRIES : Nat := 1024

def PTE_P : Word := 0x001#32
def PTE_W : Word := 0x002#32
def PTE_U : Word := 0x004#32
def PTE_PS : Word := 0x080#32

def PDX (va : Addr) : Addr := (va >>> 22) &&& 0x3FF#32
def PTX (va : Addr) : Addr := (va >>> 12) &&& 0x3FF#32
def PGADDR (d t o : Addr) : Addr := (d <<< 22) ||| (t <<< 12) ||| o
def PGROUNDUP (sz : Addr) : Addr := (sz + PGSIZE - 1#32) &&& ~~~(PGSIZE - 1#32)
def PGROUNDDOWN (a : Addr) : Addr := a &&& ~~~(PGSIZE - 1#32)
def PTE_ADDR (pte : Word) : Addr := pte &&& ~~~0xFFF#32
def ADDR_PAGE_OFFSET (addr : Addr) : Addr := addr &&& 0x0FFF#32
def V2P (a : Addr) : Addr := a - KERNBASE
def P2V (a : Addr) : Addr := a + KERNBASE

/-- A flag is tested by masking. -/
def has (entry flag : Word) : Bool := decide (entry &&& flag ≠ 0#32)

theorem mask_low (x : Addr) : (x &&& 0xFFF#32).toNat = x.toNat % 4096 := by
  rw [BitVec.toNat_and]
  exact Nat.and_two_pow_sub_one_eq_mod x.toNat 12

theorem mask_high (x : Addr) : (x &&& ~~~0xFFF#32).toNat = x.toNat / 4096 * 4096 := by
  have shifted : x &&& ~~~0xFFF#32 = (x >>> 12) <<< 12 := by
    ext i small
    have bit : (~~~0xFFF#32 : Addr)[i] = decide (12 ≤ i) := by revert i; decide
    rw [BitVec.getElem_and, bit]
    by_cases high : 12 ≤ i
    · have back : 12 + (i - 12) = i := by omega
      simp [high, back, BitVec.getLsbD_eq_getElem small]
    · simp [high, Nat.lt_of_not_le high]
  rw [shifted]
  have bound := x.isLt
  simp only [BitVec.toNat_shiftLeft, BitVec.toNat_ushiftRight]
  omega

theorem PDX_toNat (va : Addr) : (PDX va).toNat = va.toNat / 2 ^ 22 := by
  have bound := va.isLt
  simp only [PDX, BitVec.toNat_and, BitVec.toNat_ushiftRight]
  have masked := Nat.and_two_pow_sub_one_eq_mod (va.toNat >>> 22) 10
  change va.toNat >>> 22 &&& 1023 = _ at masked
  change va.toNat >>> 22 &&& 1023 = _
  omega

theorem PTX_toNat (va : Addr) : (PTX va).toNat = va.toNat / 4096 % 1024 := by
  simp only [PTX, BitVec.toNat_and, BitVec.toNat_ushiftRight]
  have masked := Nat.and_two_pow_sub_one_eq_mod (va.toNat >>> 12) 10
  change va.toNat >>> 12 &&& 1023 = _ at masked
  change va.toNat >>> 12 &&& 1023 = _
  omega

theorem PTE_ADDR_toNat (pte : Word) : (PTE_ADDR pte).toNat = pte.toNat / 4096 * 4096 := mask_high pte

theorem PGROUNDDOWN_toNat (a : Addr) : (PGROUNDDOWN a).toNat = a.toNat / 4096 * 4096 := mask_high a

theorem PGROUNDUP_toNat (sz : Addr) :
    (PGROUNDUP sz).toNat = (sz.toNat + 4095) % 2 ^ 32 / 4096 * 4096 := by
  have rounded := mask_high (sz + PGSIZE - 1#32)
  have sum : (sz + PGSIZE - 1#32).toNat = (sz.toNat + 4095) % 2 ^ 32 := by
    unfold PGSIZE
    bv_omega
  rw [sum] at rounded
  exact rounded

theorem ADDR_PAGE_OFFSET_toNat (addr : Addr) : (ADDR_PAGE_OFFSET addr).toNat = addr.toNat % 4096 := mask_low addr

@[simp] theorem P2V_V2P (a : Addr) : P2V (V2P a) = a := by
  unfold P2V V2P
  bv_omega

@[simp] theorem V2P_P2V (a : Addr) : V2P (P2V a) = a := by
  unfold P2V V2P
  bv_omega

/-- Page-aligned addresses; the page of one is `span p 4096`. -/
def Aligned (p : Addr) : Prop := p.toNat % 4096 = 0

instance (p : Addr) : Decidable (Aligned p) := inferInstanceAs (Decidable (p.toNat % 4096 = 0))

theorem aligned_PGROUNDDOWN (a : Addr) : Aligned (PGROUNDDOWN a) := by
  have rounded := PGROUNDDOWN_toNat a
  unfold Aligned
  omega

theorem aligned_P2V {p : Addr} (aligned : Aligned p) : Aligned (P2V p) := by
  unfold Aligned P2V KERNBASE at *
  bv_omega

theorem aligned_V2P {p : Addr} (aligned : Aligned p) : Aligned (V2P p) := by
  unfold Aligned V2P KERNBASE at *
  bv_omega

theorem mem_page {p : Addr} (aligned : Aligned p) (x : Addr) :
    x ∈ span p 4096 ↔ x.toNat / 4096 = p.toNat / 4096 := by
  unfold Aligned at aligned
  simp only [mem_span]
  bv_omega

theorem page_disjoint {p q : Addr} (alignedP : Aligned p) (alignedQ : Aligned q) (ne : p ≠ q) :
    Disjoint (span p 4096) (span q 4096) := by
  rw [Set.disjoint_left]
  intro x insideP insideQ
  rw [mem_page alignedP] at insideP
  rw [mem_page alignedQ] at insideQ
  apply ne
  apply BitVec.eq_of_toNat_eq
  unfold Aligned at alignedP alignedQ
  omega

/-- Entry `i` of the table that fills the page at `p`. -/
def slot (p : Addr) (i : Nat) : Addr := p + 4#32 * BitVec.ofNat 32 i

theorem slot_toNat {p : Addr} (aligned : Aligned p) {i : Nat} (bound : i < 1024) :
    (slot p i).toNat = p.toNat + 4 * i := by
  unfold Aligned at aligned
  unfold slot
  bv_omega

theorem slot_subset {p : Addr} (aligned : Aligned p) {i : Nat} (bound : i < 1024) :
    span (slot p i) 4 ⊆ span p 4096 := by
  apply span_subset
  have value := slot_toNat aligned bound
  bv_omega

theorem slot_disjoint {p : Addr} (aligned : Aligned p) {i j : Nat} (boundI : i < 1024) (boundJ : j < 1024)
    (ne : i ≠ j) : Disjoint (span (slot p i) 4) (span (slot p j) 4) := by
  have valueI := slot_toNat aligned boundI
  have valueJ := slot_toNat aligned boundJ
  unfold Aligned at aligned
  apply aligned_disjoint
  · omega
  · omega
  · intro same
    rw [same] at valueI
    omega

theorem slot_PDX (p va : Addr) : p + 4#32 * PDX va = slot p (va.toNat / 2 ^ 22) := by
  have value := PDX_toNat va
  unfold slot
  rw [← value, BitVec.ofNat_toNat, BitVec.setWidth_eq]

theorem slot_PTX (p va : Addr) : p + 4#32 * PTX va = slot p (va.toNat / 4096 % 1024) := by
  have value := PTX_toNat va
  unfold slot
  rw [← value, BitVec.ofNat_toNat, BitVec.setWidth_eq]

/-- What the processor learns about an address. -/
structure Mapping where
  pa : Addr
  user : Bool
  writable : Bool
  deriving DecidableEq, Repr

/-- The walk of the processor: directory entry, then table entry, both present;
user access and writes need the permission in both. -/
def translation (m : Mem) (pgdir va : Addr) : Option Mapping :=
  let pde := read32 m (pgdir + 4#32 * PDX va)
  if has pde PTE_P then
    let pte := read32 m (P2V (PTE_ADDR pde) + 4#32 * PTX va)
    if has pte PTE_P then
      some ⟨PTE_ADDR pte + ADDR_PAGE_OFFSET va, has pde PTE_U && has pte PTE_U, has pde PTE_W && has pte PTE_W⟩
    else none
  else none

/-- The walk of a processor with CR4.PSE set: an entry of the directory that has the PS bit maps 4 MiB. -/
def walk (m : Mem) (cr3 va : Addr) : Option Mapping :=
  let pde := read32 m (P2V cr3 + 4#32 * PDX va)
  if has pde PTE_P && has pde PTE_PS then
    some ⟨(pde &&& 0xFFC00000#32) ||| (va &&& 0x3FFFFF#32), has pde PTE_U, has pde PTE_W⟩
  else translation m (P2V cr3) va

theorem PTE_ADDR_aligned {p : Addr} (aligned : Aligned p) : PTE_ADDR p = p := by
  apply BitVec.eq_of_toNat_eq
  unfold Aligned at aligned
  rw [PTE_ADDR_toNat]
  omega

theorem aligned_and {p : Addr} (aligned : Aligned p) : p &&& 0xFFF#32 = 0#32 := by
  apply BitVec.eq_of_toNat_eq
  rw [mask_low]
  exact aligned

/-- An entry is an aligned frame and flags below it. -/
theorem PTE_ADDR_or {p flags : Addr} (aligned : Aligned p) (low : flags &&& ~~~0xFFF#32 = 0#32) :
    PTE_ADDR (p ||| flags) = p := by
  have base := PTE_ADDR_aligned aligned
  unfold PTE_ADDR at base ⊢
  rw [BitVec.and_or_distrib_right, base, low, BitVec.or_zero]

theorem has_or {p flags flag : Addr} (aligned : Aligned p) (low : 0xFFF#32 &&& flag = flag) :
    has (p ||| flags) flag = has flags flag := by
  have vanish : p &&& flag = 0#32 := by
    rw [← low, ← BitVec.and_assoc, aligned_and aligned, BitVec.zero_and]
  unfold has
  rw [BitVec.and_or_distrib_right, vanish, BitVec.zero_or]

end OsDev.Kernel.Mmu
