import OsDev.Machine.Memory
import OsDev.Machine.Program

/-! The scan of the memory map (boot/e820.asm, called from boot/stage2.asm): the firmware answers one request after
the other, each answer into the slot behind the entries kept so far, and the count goes in front of them. -/

namespace OsDev.Boot.E820
open OsDev.Machine.Memory OsDev.Machine.Program

def MEM_MAP : BitVec 16 := 0xa000#16
def E820_MAP : BitVec 16 := 0xa000#16

def SMAP : Word := 0x534d4150#32

/-- What the firmware leaves in registers and at `es:di` when INT 15h returns. -/
structure Response where
  carry : Bool
  eax : Word
  ebx : Word
  ecx : Word
  edx : Word
  bytes : List Byte
  deriving DecidableEq

/-- The registers the code uses, memory, and the answers the firmware has still to give. -/
structure RealMode where
  eax : Word
  ebx : Word
  ecx : Word
  edx : Word
  di : BitVec 16
  bp : BitVec 16
  es : BitVec 16
  ds : BitVec 16
  cf : Bool
  mem : Mem
  bios : List Response

/-- Sixteen-bit addressing: an offset in a segment. -/
def linear (segment offset : BitVec 16) : Addr := (segment.setWidth 32 <<< 4) + offset.setWidth 32

def int15 : Prog RealMode Unit := do
  let s ← get
  match s.bios with
  | [] => throw .spin
  | r :: rest => set { s with
      eax := r.eax, ebx := r.ebx, ecx := r.ecx, edx := r.edx, cf := r.carry
      mem := writeBytes s.mem (linear s.es s.di) r.bytes
      bios := rest }

/-- The three moves before each INT 15h, and the interrupt. -/
def ask : Prog RealMode Unit := do
  modify fun s => { s with eax := 0xe820#32, mem := write32 s.mem (linear s.es (s.di + 20#16)) 1#32, ecx := 24#32 }
  int15

/-- From `e820_notext` to `e820_skipent`. -/
def e820Notext : Prog RealMode Unit := do
  modify fun s => { s with ecx := read32 s.mem (linear s.es (s.di + 8#16)) }
  modify fun s => { s with ecx := s.ecx ||| read32 s.mem (linear s.es (s.di + 12#16)) }
  let s ← get
  if s.ecx = 0#32 then pure ()
  else modify fun s => { s with bp := s.bp + 1#16, di := s.di + 24#16 }

/-- From `e820_jmpin` to `e820_skipent`. -/
def e820Entry : Prog RealMode Unit := do
  let s ← get
  if s.ecx.setWidth 16 = 0#16 then pure ()
  else if s.ecx.setWidth 8 ≤ 20#8 then e820Notext
  else if s.mem (linear s.es (s.di + 20#16)) &&& 1#8 = 0#8 then pure ()
  else e820Notext

/-- From `e820_jmpin` on, with the loop to go back to. -/
def e820Jmpin (loop : Prog RealMode Unit) : Prog RealMode Unit := do
  e820Entry
  let s ← get
  if s.ebx ≠ 0#32 then loop else pure ()

def e820Lp : Nat → Prog RealMode Unit
  | 0 => throw .spin
  | fuel + 1 => do
      ask
      let s ← get
      if s.cf then pure ()
      else do
        modify fun s => { s with edx := SMAP }
        e820Jmpin (e820Lp fuel)

/-- `e820_f` -/
def e820F : Prog RealMode Unit := modify fun s =>
  { s with mem := writeBytes s.mem (linear s.ds MEM_MAP) [s.bp.setWidth 8, (s.bp >>> 8).setWidth 8], cf := false }

def e820Failed : Prog RealMode Unit := modify fun s => { s with cf := true }

/-- `e820_start` once the first response is there. -/
def e820First (fuel : Nat) : Prog RealMode Unit := do
  let s ← get
  if s.cf then e820Failed
  else do
    modify fun s => { s with edx := SMAP }
    let s ← get
    if s.eax ≠ s.edx then e820Failed
    else if s.ebx = 0#32 then e820Failed
    else do
      e820Jmpin (e820Lp fuel)
      e820F

def e820Start (fuel : Nat) : Prog RealMode Unit := do
  modify fun s => { s with di := MEM_MAP + 4#16, ebx := 0#32, bp := 0#16, edx := SMAP }
  ask
  e820First fuel

/-- The part of `start16` that makes the map. -/
def start16 (fuel : Nat) : Prog RealMode Unit := do
  modify fun s => { s with mem := write32 s.mem (linear s.ds E820_MAP) 0#32 }
  e820Start fuel

section Purpose

/-- The number stored in the bytes, lowest first. -/
def littleEndian : List Byte → Nat
  | [] => 0
  | b :: rest => b.toNat + 2 ^ 8 * littleEndian rest

def Response.cx (r : Response) : BitVec 16 := r.ecx.setWidth 16
def Response.cl (r : Response) : Byte := r.ecx.setWidth 8

/-- The length field of the entry. -/
def Response.length (r : Response) : Nat := littleEndian ((r.bytes.drop 8).take 8)

/-- The first byte of the extended attributes, which is 1 unless the firmware writes it. -/
def Response.attributes (r : Response) : Byte := r.bytes.getD 20 1#8

def Response.Accepted (r : Response) : Prop :=
  r.carry = false ∧ r.cx ≠ 0#16 ∧ r.length ≠ 0 ∧ (r.cl ≤ 20#8 ∨ r.attributes &&& 1#8 = 1#8)

instance (r : Response) : Decidable r.Accepted :=
  inferInstanceAs (Decidable (r.carry = false ∧ r.cx ≠ 0#16 ∧ r.length ≠ 0 ∧ (r.cl ≤ 20#8 ∨ r.attributes &&& 1#8 = 1#8)))

/-- The 24 bytes of an entry; a short one gets 1 for its last word. -/
def Response.record (r : Response) : List Byte :=
  if r.bytes.length = 20 then r.bytes ++ [1#8, 0#8, 0#8, 0#8] else r.bytes

/-- At most an entry is written. An accepted response writes all of it, with or without the last word, and one with
carry clear and a byte count at least its length field. -/
structure Response.Proper (r : Response) : Prop where
  bounded : r.bytes.length ≤ 24
  measured : r.carry = false → r.cx ≠ 0#16 → 16 ≤ r.bytes.length
  whole : r.Accepted → r.bytes.length = 20 ∨ r.bytes.length = 24

/-- What the first response must be for the scan to go on. -/
def Response.Qualifies (r : Response) : Prop := r.carry = false ∧ r.eax = SMAP ∧ r.ebx ≠ 0#32

instance (r : Response) : Decidable r.Qualifies :=
  inferInstanceAs (Decidable (r.carry = false ∧ r.eax = SMAP ∧ r.ebx ≠ 0#32))

/-- The responses up to the end of the list and those left over, unless the list never ends. -/
def untilEnd : List Response → Option (List Response × List Response)
  | [] => none
  | r :: rest =>
      if r.carry then some ([], rest)
      else if r.ebx = 0#32 then some ([r], rest)
      else (untilEnd rest).map fun (seen, unread) => (r :: seen, unread)

def scan : List Response → Option (List Response × List Response)
  | [] => none
  | first :: rest =>
      if first.Qualifies then (untilEnd rest).map fun (seen, unread) => (first :: seen, unread) else some ([], rest)

def accepted (seen : List Response) : List Response := seen.filter fun r => r.Accepted

/-- `cnt` of the `struct pmem_info` at `MEM_MAP`. -/
def cnt (m : Mem) : Nat := (read32 m 0xa000#32).toNat

/-- The address of `entries[i]`. -/
def slot (i : Nat) : Addr := BitVec.ofNat 32 (0xa004 + 24 * i)

/-- The bytes of `entries[i]`. -/
def entryBytes (m : Mem) (i : Nat) : List Byte := (List.range 24).map fun k => m (slot i + BitVec.ofNat 32 k)

end Purpose

section Memory

theorem littleEndian_eq_zero (bytes : List Byte) : littleEndian bytes = 0 ↔ ∀ b ∈ bytes, b = 0#8 := by
  induction bytes with
  | nil => simp [littleEndian]
  | cons b rest ih =>
    simp only [littleEndian, List.forall_mem_cons, ← ih]
    bv_omega

/-- Whether the length of an entry is zero, byte by byte. -/
theorem Response.length_eq_zero {r : Response} (measured : 16 ≤ r.bytes.length) :
    r.length = 0 ↔ ∀ k < 8, r.bytes.getD (8 + k) 0#8 = 0#8 := by
  have size : ((r.bytes.drop 8).take 8).length = 8 := by simp; omega
  unfold Response.length
  rw [littleEndian_eq_zero]
  constructor
  · intro zero k small
    apply zero
    rw [List.getD_eq_getElem _ _ (by omega), List.mem_iff_getElem]
    exact ⟨k, by omega, by simp⟩
  · intro zero b member
    obtain ⟨k, small, rfl⟩ := List.mem_iff_getElem.mp member
    rw [size] at small
    rw [← zero k small, List.getD_eq_getElem _ _ (by omega)]
    simp

theorem linear_zero (offset : BitVec 16) : linear 0#16 offset = BitVec.ofNat 32 offset.toNat := by
  unfold linear
  apply BitVec.eq_of_toNat_eq
  simp

theorem linear_slot {i k : Nat} (few : i ≤ 1000) (inside : k ≤ 24) :
    linear 0#16 (BitVec.ofNat 16 (0xa004 + 24 * i) + BitVec.ofNat 16 k) = slot i + BitVec.ofNat 32 k := by
  rw [linear_zero]
  unfold slot
  apply BitVec.eq_of_toNat_eq
  simp (disch := omega) only [BitVec.toNat_add, BitVec.toNat_ofNat, Nat.mod_eq_of_lt]

theorem slot_toNat {i : Nat} (few : i ≤ 1000) : (slot i).toNat = 0xa004 + 24 * i := by
  unfold slot
  rw [BitVec.toNat_ofNat, Nat.mod_eq_of_lt (by omega)]

theorem slot_disjoint {i j : Nat} (before : i < j) (few : j ≤ 1000) : Disjoint (span (slot i) 24) (span (slot j) 24) := by
  apply span_disjoint
  · rw [slot_toNat few, slot_toNat (by omega)]
    omega
  · rw [slot_toNat few]
    omega

theorem cnt_disjoint {i : Nat} (few : i ≤ 1000) : Disjoint (span 0xa000#32 4) (span (slot i) 24) := by
  apply span_disjoint
  · rw [slot_toNat few]
    simp only [BitVec.toNat_ofNat]
    omega
  · rw [slot_toNat few]
    omega

/-- Memory once a response has been put into slot `i`. -/
def answered (m : Mem) (i : Nat) (bytes : List Byte) : Mem := writeBytes (write32 m (slot i + 20#32) 1#32) (slot i) bytes

variable {m : Mem} {i : Nat} {bytes : List Byte}

theorem answered_outside (bounded : bytes.length ≤ 24) : Set.EqOn (answered m i bytes) m (span (slot i) 24)ᶜ := by
  intro x outside
  simp only [Set.mem_compl_iff, mem_span, Nat.not_lt] at outside
  calc answered m i bytes x = write32 m (slot i + 20#32) 1#32 x := by
        apply writeBytes_outside
        simp only [Set.mem_compl_iff, mem_span]
        omega
    _ = m x := by
        apply write32_outside
        simp only [Set.mem_compl_iff, mem_span]
        bv_omega

theorem answered_at {k : Nat} (inside : k < bytes.length) (bounded : bytes.length ≤ 24) (b : Byte) :
    answered m i bytes (slot i + BitVec.ofNat 32 k) = bytes.getD k b := by
  unfold answered
  rw [writeBytes_at _ _ _ (by omega), List.getD_eq_getElem _ _ inside, List.getD_eq_getElem _ _ inside]

/-- The last word is there beforehand. -/
theorem answered_attributes (k : Nat) (small : k < 4) : answered m i bytes (slot i + BitVec.ofNat 32 (20 + k)) =
    bytes.getD (20 + k) (if k = 0 then 1#8 else 0#8) := by
  unfold answered
  rw [writeBytes_at _ _ _ (by omega)]
  have distance : (slot i + BitVec.ofNat 32 (20 + k) - (slot i + 20#32)).toNat = k := by
    generalize slot i = a
    bv_omega
  congr 1
  simp only [write32, distance, if_pos small]
  clear distance
  revert k
  decide

theorem entryBytes_congr {m' : Mem} (same : Set.EqOn m' m (span (slot i) 24)) : entryBytes m' i = entryBytes m i := by
  unfold entryBytes
  apply List.map_congr_left
  intro k member
  apply same
  have small := List.mem_range.mp member
  simp only [mem_span]
  bv_omega

theorem entryBytes_answered {r : Response} (whole : r.bytes.length = 20 ∨ r.bytes.length = 24) :
    entryBytes (answered m i r.bytes) i = r.record := by
  have size : r.record.length = 24 := by
    unfold Response.record
    split
    · rename_i short
      rw [List.length_append, short]
      rfl
    · omega
  apply List.ext_getElem
  · rw [size]
    simp [entryBytes]
  · intro k inside inside'
    rw [size] at inside'
    simp only [entryBytes, List.getElem_map, List.getElem_range]
    by_cases early : k < r.bytes.length
    · rw [answered_at early (by omega) 0#8, List.getD_eq_getElem _ _ early]
      unfold Response.record
      split
      · rw [List.getElem_append_left early]
      · rfl
    · have short : r.bytes.length = 20 := by omega
      obtain ⟨j, rfl⟩ : ∃ j, k = 20 + j := ⟨k - 20, by omega⟩
      rw [answered_attributes j (by omega), List.getD_eq_default _ _ (by omega)]
      simp only [Response.record, if_pos short]
      rw [List.getElem_append_right (by omega)]
      simp only [short, Nat.add_sub_cancel_left]
      have last : ∀ (j : Nat) (small : j < 4), (if j = 0 then 1#8 else 0#8) = [1#8, 0#8, 0#8, 0#8][j] := by decide
      exact last j (by omega)

end Memory

section Scanning
variable {found seen unread : List Response} {r : Response} {s : RealMode}

theorem run_int15 {rest : List Response} (pending : s.bios = r :: rest) : int15.run s = .ok () { s with
    eax := r.eax, ebx := r.ebx, ecx := r.ecx, edx := r.edx, cf := r.carry
    mem := writeBytes s.mem (linear s.es s.di) r.bytes
    bios := rest } := by
  unfold int15
  rw [run_bind_ok (EStateM.run_get s), pending]
  rfl

theorem run_e820Notext (s : RealMode) : ∃ ecx, e820Notext.run s =
    .ok () (if read32 s.mem (linear s.es (s.di + 8#16)) ||| read32 s.mem (linear s.es (s.di + 12#16)) = 0#32
      then { s with ecx := ecx } else { s with ecx := ecx, bp := s.bp + 1#16, di := s.di + 24#16 }) := by
  refine ⟨read32 s.mem (linear s.es (s.di + 8#16)) ||| read32 s.mem (linear s.es (s.di + 12#16)), ?_⟩
  unfold e820Notext
  rw [run_bind_ok (EStateM.run_modify _ s), run_bind_ok (EStateM.run_modify _ _), run_bind_ok (EStateM.run_get _), run_ite]
  split
  · rfl
  · rfl

/-- The entries kept so far, with the registers that say where the next one goes. -/
structure Progress (found : List Response) (s : RealMode) : Prop where
  es : s.es = 0#16
  ds : s.ds = 0#16
  di : s.di = BitVec.ofNat 16 (0xa004 + 24 * found.length)
  bp : s.bp = BitVec.ofNat 16 found.length
  cleared : ∀ k < 4, s.mem (0xa000#32 + BitVec.ofNat 32 k) = 0#8
  stored : ∀ i r, found[i]? = some r → entryBytes s.mem i = r.record

/-- The memory that holds the count and the entries kept so far. -/
theorem Progress.of_mem {t : RealMode} (progress : Progress found s) (few : found.length ≤ 1000)
    (es : t.es = s.es) (ds : t.ds = s.ds) (di : t.di = s.di) (bp : t.bp = s.bp)
    (same : Set.EqOn t.mem s.mem (span (slot found.length) 24)ᶜ) : Progress found t := by
  refine ⟨by rw [es, progress.es], by rw [ds, progress.ds], by rw [di, progress.di], by rw [bp, progress.bp], ?_, ?_⟩
  · intro k small
    rw [← progress.cleared k small]
    apply same.mono (cnt_disjoint few).subset_compl_right
    simp only [mem_span]
    bv_omega
  · intro i r kept
    have before : i < found.length := (List.getElem?_eq_some_iff.mp kept).1
    rw [← progress.stored i r kept]
    apply entryBytes_congr
    exact same.mono (slot_disjoint before few).subset_compl_right

theorem Progress.linear_slot (progress : Progress found s) (few : found.length ≤ 1000) {k : Nat} (inside : k ≤ 24) :
    linear s.es (s.di + BitVec.ofNat 16 k) = slot found.length + BitVec.ofNat 32 k := by
  rw [progress.es, progress.di]
  exact E820.linear_slot few inside

theorem run_ask (progress : Progress found s) (few : found.length ≤ 1000) (proper : r.Proper) {rest : List Response}
    (pending : s.bios = r :: rest) : ∃ t, ask.run s = .ok () t ∧ Progress found t ∧
      t.mem = answered s.mem found.length r.bytes ∧ t.bios = rest ∧
      t.eax = r.eax ∧ t.ebx = r.ebx ∧ t.ecx = r.ecx ∧ t.cf = r.carry := by
  have base : linear s.es s.di = slot found.length := by
    simpa using progress.linear_slot few (Nat.zero_le 24)
  have preset : linear s.es (s.di + 20#16) = slot found.length + 20#32 := progress.linear_slot few (by decide)
  let t : RealMode := { s with
    eax := r.eax, ebx := r.ebx, ecx := r.ecx, edx := r.edx, cf := r.carry
    mem := answered s.mem found.length r.bytes
    bios := rest }
  have kept : Progress found t := progress.of_mem few rfl rfl rfl rfl (answered_outside proper.bounded)
  refine ⟨t, ?_, kept, rfl, rfl, rfl, rfl, rfl, rfl⟩
  unfold ask
  rw [run_bind_ok (EStateM.run_modify _ s), run_int15 (r := r) (s := { s with
    eax := 0xe820#32, mem := write32 s.mem (linear s.es (s.di + 20#16)) 1#32, ecx := 24#32 }) pending]
  simp only [base, preset]
  rfl

/-- The length that the code tests is the one the response wrote. -/
theorem length_tested (progress : Progress found s) (few : found.length ≤ 1000) {m : Mem}
    (written : s.mem = answered m found.length r.bytes) (measured : 16 ≤ r.bytes.length) (bounded : r.bytes.length ≤ 24) :
    read32 s.mem (linear s.es (s.di + 8#16)) ||| read32 s.mem (linear s.es (s.di + 12#16)) = 0#32 ↔ r.length = 0 := by
  have low : linear s.es (s.di + 8#16) = slot found.length + 8#32 := progress.linear_slot few (by decide)
  have high : linear s.es (s.di + 12#16) = slot found.length + 12#32 := progress.linear_slot few (by decide)
  have lane (k : Nat) (small : k < 8) : s.mem (slot found.length + BitVec.ofNat 32 (8 + k)) = r.bytes.getD (8 + k) 0#8 := by
    rw [written]
    exact answered_at (by omega) bounded 0#8
  have wrote : (∀ k < 8, r.bytes.getD (8 + k) 0#8 = 0#8) ↔
      ∀ k < 8, s.mem (slot found.length + BitVec.ofNat 32 (8 + k)) = 0#8 :=
    forall₂_congr fun k small => by rw [lane k small]
  rw [low, high, BitVec.or_eq_zero_iff, read32_eq_zero, read32_eq_zero, Response.length_eq_zero measured, wrote]
  simp only [Nat.forall_lt_succ_right, Nat.not_lt_zero, false_imp_iff, implies_true, true_and, and_assoc,
    BitVec.add_assoc, BitVec.reduceAdd, Nat.reduceAdd, Nat.add_zero]

/-- One more entry, with the registers moved on. -/
theorem Progress.keep (progress : Progress found s) {m : Mem} {t : RealMode}
    (written : s.mem = answered m found.length r.bytes) (whole : r.bytes.length = 20 ∨ r.bytes.length = 24)
    (es : t.es = s.es) (ds : t.ds = s.ds) (di : t.di = s.di + 24#16) (bp : t.bp = s.bp + 1#16) (mem : t.mem = s.mem) :
    Progress (found ++ [r]) t := by
  refine ⟨by rw [es, progress.es], by rw [ds, progress.ds], ?_, ?_, by rw [mem]; exact progress.cleared, ?_⟩
  · rw [di, progress.di, List.length_append, List.length_singleton]
    bv_omega
  · rw [bp, progress.bp, List.length_append, List.length_singleton]
    bv_omega
  · intro i q kept
    rw [mem]
    by_cases old : i < found.length
    · apply progress.stored
      rwa [List.getElem?_append_left old] at kept
    · have size := (List.getElem?_eq_some_iff.mp kept).1
      rw [List.length_append, List.length_singleton] at size
      obtain rfl : i = found.length := by omega
      obtain rfl : r = q := by simpa using kept
      rw [written]
      exact entryBytes_answered whole

/-- The tests before the length. -/
theorem run_e820Entry (progress : Progress found s) (few : found.length ≤ 1000) {m : Mem} (ecx : s.ecx = r.ecx)
    (written : s.mem = answered m found.length r.bytes) :
    e820Entry.run s = if r.cx ≠ 0#16 ∧ (r.cl ≤ 20#8 ∨ r.attributes &&& 1#8 = 1#8) then e820Notext.run s else .ok () s := by
  have flag : s.mem (linear s.es (s.di + 20#16)) = r.attributes := by
    rw [progress.linear_slot few (k := 20) (by decide), written]
    exact answered_attributes 0 (by decide)
  have bit : r.attributes &&& 1#8 = 0#8 ↔ ¬ r.attributes &&& 1#8 = 1#8 := by
    have either : ∀ b : Byte, b &&& 1#8 = 0#8 ↔ ¬ b &&& 1#8 = 1#8 := by decide
    exact either r.attributes
  unfold e820Entry
  rw [run_bind_ok (EStateM.run_get s)]
  simp only [run_ite, flag, ecx, bit]
  change (if r.cx = 0#16 then _ else if r.cl ≤ 20#8 then _ else _) = _
  by_cases empty : r.cx = 0#16
  · simp only [empty, if_true, ne_eq, not_true_eq_false, false_and, if_false]
    rfl
  · by_cases short : r.cl ≤ 20#8
    · simp only [empty, short, if_true, if_false, ne_eq, not_false_eq_true, true_or, and_self]
    · by_cases valid : r.attributes &&& 1#8 = 1#8
      · simp only [empty, short, valid, if_true, if_false, ne_eq, not_false_eq_true, not_true_eq_false, or_true, and_self]
      · simp only [empty, short, valid, if_true, if_false, ne_eq, not_false_eq_true, or_self, and_false]
        rfl

theorem accepted_cons (r : Response) (seen : List Response) : accepted (r :: seen) = accepted [r] ++ accepted seen :=
  List.filter_append [r] seen

/-- A response is counted and its slot kept exactly when it is accepted. -/
theorem run_e820Entry_accepted (progress : Progress found s) (few : found.length ≤ 1000) (proper : r.Proper) {m : Mem}
    (clear : r.carry = false) (ecx : s.ecx = r.ecx) (written : s.mem = answered m found.length r.bytes) :
    ∃ t, e820Entry.run s = .ok () t ∧ Progress (found ++ accepted [r]) t ∧ t.ebx = s.ebx ∧ t.bios = s.bios := by
  rw [run_e820Entry progress few ecx written]
  have skipped (rejected : ¬ r.Accepted) (t : RealMode) (es : t.es = s.es) (ds : t.ds = s.ds) (di : t.di = s.di)
      (bp : t.bp = s.bp) (mem : t.mem = s.mem) : Progress (found ++ accepted [r]) t := by
    have unchanged : found ++ accepted [r] = found := by simp [accepted, rejected]
    rw [unchanged]
    exact progress.of_mem few es ds di bp (mem ▸ Set.eqOn_refl _ _)
  split
  · rename_i passed
    obtain ⟨ecx, ran⟩ := run_e820Notext s
    rw [ran]
    have tested := length_tested progress few written (proper.measured clear passed.1) proper.bounded
    by_cases zero : r.length = 0
    · rw [if_pos (tested.mpr zero)]
      exact ⟨_, rfl, skipped (fun is => is.2.2.1 zero) _ rfl rfl rfl rfl rfl, rfl, rfl⟩
    · have is : r.Accepted := ⟨clear, passed.1, zero, passed.2⟩
      have one : accepted [r] = [r] := by simp [accepted, is]
      rw [if_neg (mt tested.mp zero), one]
      exact ⟨_, rfl, progress.keep written (proper.whole is) rfl rfl rfl rfl rfl, rfl, rfl⟩
  · rename_i failed
    exact ⟨s, rfl, skipped (fun is => failed ⟨is.2.1, is.2.2.2⟩) s rfl rfl rfl rfl rfl, rfl, rfl⟩

theorem run_e820Jmpin (loop : Prog RealMode Unit) (progress : Progress found s) (few : found.length ≤ 1000)
    (proper : r.Proper) {m : Mem} (clear : r.carry = false) (ebx : s.ebx = r.ebx) (ecx : s.ecx = r.ecx)
    (written : s.mem = answered m found.length r.bytes) :
    ∃ t, (e820Jmpin loop).run s = (if r.ebx = 0#32 then .ok () t else loop.run t) ∧
      Progress (found ++ accepted [r]) t ∧ t.bios = s.bios := by
  obtain ⟨t, ran, next, same, bios⟩ := run_e820Entry_accepted progress few proper clear ecx written
  refine ⟨t, ?_, next, bios⟩
  rw [e820Jmpin, run_bind_ok ran, run_bind_ok (EStateM.run_get t), run_ite, same, ebx, ite_not]
  rfl

theorem run_e820Lp {rest : List Response} {fuel : Nat} (progress : Progress found s) (pending : s.bios = rest)
    (proper : ∀ r ∈ rest, r.Proper) (ends : untilEnd rest = some (seen, unread)) (fits : rest.length ≤ fuel)
    (few : (found ++ accepted seen).length ≤ 1000) :
    ∃ t, (e820Lp fuel).run s = .ok () t ∧ Progress (found ++ accepted seen) t ∧ t.bios = unread := by
  induction rest generalizing found seen s fuel with
  | nil => cases ends
  | cons r rest ih =>
    obtain ⟨fuel, rfl⟩ : ∃ smaller, fuel = smaller + 1 := ⟨fuel - 1, by rw [List.length_cons] at fits; omega⟩
    have properNow := proper r List.mem_cons_self
    have fewNow : found.length ≤ 1000 := by rw [List.length_append] at few; omega
    obtain ⟨t, ran, kept, mem, bios, eax, ebx, ecx, cf⟩ := run_ask progress fewNow properNow pending
    rw [e820Lp, run_bind_ok ran, run_bind_ok (EStateM.run_get t), cf]
    unfold untilEnd at ends
    cases clear : r.carry with
    | true =>
      simp only [clear, if_true, Option.some.injEq, Prod.mk.injEq] at ends
      obtain ⟨rfl, rfl⟩ := ends
      refine ⟨t, rfl, ?_, bios⟩
      simpa [accepted] using kept
    | false =>
      simp only [clear, Bool.false_eq_true, if_false] at ends ⊢
      rw [run_bind_ok (EStateM.run_modify _ t)]
      have kept' : Progress found { t with edx := SMAP } :=
        kept.of_mem fewNow rfl rfl rfl rfl (Set.eqOn_refl _ _)
      obtain ⟨u, entered, next, bios'⟩ := run_e820Jmpin (e820Lp fuel) kept' fewNow properNow clear ebx ecx mem
      rw [entered]
      by_cases last : r.ebx = 0#32
      · simp only [last, if_true, Option.some.injEq, Prod.mk.injEq] at ends ⊢
        obtain ⟨rfl, rfl⟩ := ends
        exact ⟨u, rfl, next, bios'.trans bios⟩
      · simp only [last, if_false, Option.map_eq_some_iff] at ends ⊢
        obtain ⟨⟨later, left⟩, ends', same⟩ := ends
        obtain ⟨rfl, rfl⟩ := Prod.mk.inj same
        rw [accepted_cons, ← List.append_assoc] at few ⊢
        apply ih next (bios'.trans bios) (fun q member => proper q (List.mem_cons_of_mem r member)) ends' _ few
        simpa using fits

/-- The count goes over the two low bytes of what `start16` cleared. -/
theorem run_e820F (progress : Progress found s) (few : found.length ≤ 1000) : ∃ t, e820F.run s = .ok () t ∧
    cnt t.mem = found.length ∧ (∀ i r, found[i]? = some r → entryBytes t.mem i = r.record) ∧ t.bios = s.bios := by
  have base : linear s.ds MEM_MAP = 0xa000#32 := by
    rw [progress.ds]
    decide
  have count : s.bp.toNat = found.length := by
    rw [progress.bp, BitVec.toNat_ofNat, Nat.mod_eq_of_lt (by omega)]
  let bytes : List Byte := [s.bp.setWidth 8, (s.bp >>> 8).setWidth 8]
  let t : RealMode := { s with mem := writeBytes s.mem 0xa000#32 bytes, cf := false }
  have ran : e820F.run s = .ok () t := by
    unfold e820F
    rw [EStateM.run_modify, base]
  refine ⟨t, ran, ?_, ?_, rfl⟩
  · have lane (k : Nat) (small : k < 4) : t.mem (0xa000#32 + BitVec.ofNat 32 k) = bytes.getD k 0#8 := by
      rw [← progress.cleared k small]
      exact writeBytes_at s.mem _ bytes (by omega)
    have l0 := lane 0 (by decide)
    rw [BitVec.add_zero] at l0
    simp only [cnt, read32, l0, lane 1 (by decide), lane 2 (by decide), lane 3 (by decide)]
    simp only [bytes, List.getD_cons_zero, List.getD_cons_succ, List.getD_nil, BitVec.toNat_ofNat, BitVec.toNat_setWidth,
      BitVec.toNat_ushiftRight, count, Nat.shiftRight_eq_div_pow]
    omega
  · intro i r kept
    have before := (List.getElem?_eq_some_iff.mp kept).1
    rw [← progress.stored i r kept]
    apply entryBytes_congr
    apply (writeBytes_outside s.mem _ bytes).mono
    apply Disjoint.subset_compl_left
    exact (cnt_disjoint (by omega)).mono_left (span_mono _ 2 4 (by decide))

/-- The registers and the count when the first request is made. -/
theorem Progress.start (segments : s.es = 0#16 ∧ s.ds = 0#16) : Progress [] { s with
    di := MEM_MAP + 4#16, ebx := 0#32, bp := 0#16, edx := SMAP, mem := write32 s.mem 0xa000#32 0#32 } := by
  refine ⟨segments.1, segments.2, rfl, rfl, ?_, by simp⟩
  intro k small
  have distance : (0xa000#32 + BitVec.ofNat 32 k - 0xa000#32).toNat = k := by bv_omega
  simp only [write32, distance, if_pos small]
  simp

theorem Progress.cnt_eq_zero (progress : Progress found s) : cnt s.mem = 0 := by
  have zero : read32 s.mem 0xa000#32 = 0#32 := (read32_eq_zero _ _).mpr
    ⟨progress.cleared 0 (by decide), progress.cleared 1 (by decide), progress.cleared 2 (by decide),
      progress.cleared 3 (by decide)⟩
  unfold cnt
  rw [zero]
  rfl

theorem run_start16 (fuel : Nat) (segments : s.es = 0#16 ∧ s.ds = 0#16) (proper : r.Proper) {rest : List Response}
    (pending : s.bios = r :: rest) : ∃ t, (start16 fuel).run s = (e820First fuel).run t ∧ Progress [] t ∧
      t.mem = answered (write32 s.mem 0xa000#32 0#32) 0 r.bytes ∧ t.bios = rest ∧
      t.eax = r.eax ∧ t.ebx = r.ebx ∧ t.ecx = r.ecx ∧ t.cf = r.carry := by
  have base : linear s.ds E820_MAP = 0xa000#32 := by
    rw [segments.2]
    decide
  obtain ⟨t, ran, facts⟩ := run_ask (Progress.start segments) (Nat.zero_le 1000) proper pending
  refine ⟨t, ?_, facts⟩
  rw [start16, run_bind_ok (EStateM.run_modify _ s), e820Start, run_bind_ok (EStateM.run_modify _ _)]
  simp only [base]
  rw [run_bind_ok ran]

theorem run_e820First_failed (fuel : Nat) (other : ¬ r.Qualifies) (eax : s.eax = r.eax) (ebx : s.ebx = r.ebx)
    (cf : s.cf = r.carry) : ∃ t, (e820First fuel).run s = .ok () t ∧ t.mem = s.mem ∧ t.bios = s.bios := by
  rw [e820First, run_bind_ok (EStateM.run_get s), run_ite]
  split
  · exact ⟨{ s with cf := true }, rfl, rfl, rfl⟩
  · rename_i clear
    rw [run_bind_ok (EStateM.run_modify _ s), run_bind_ok (EStateM.run_get _), run_ite]
    split
    · exact ⟨{ s with cf := true, edx := SMAP }, rfl, rfl, rfl⟩
    · rename_i signature
      rw [run_ite]
      split
      · exact ⟨{ s with cf := true, edx := SMAP }, rfl, rfl, rfl⟩
      · rename_i more
        refine absurd ⟨?_, ?_, ?_⟩ other
        · rw [← cf]
          simpa using clear
        · rw [← eax]
          simpa using signature
        · rw [← ebx]
          exact more

theorem run_e820First_jmpin (fuel : Nat) (first : r.Qualifies) (eax : s.eax = r.eax) (ebx : s.ebx = r.ebx)
    (cf : s.cf = r.carry) :
    (e820First fuel).run s = (do e820Jmpin (e820Lp fuel); e820F : Prog RealMode Unit).run { s with edx := SMAP } := by
  have clear : ¬ s.cf = true := by simp [cf, first.1]
  rw [e820First, run_bind_ok (EStateM.run_get s), if_neg clear]
  rw [run_bind_ok (EStateM.run_modify _ s), run_bind_ok (EStateM.run_get _)]
  simp only [eax, ebx, first.2.1, first.2.2, ne_eq, not_true_eq_false, if_false]

/-- The map holds exactly the accepted responses. -/
theorem start16_pmem_info (s : RealMode) (seen unread : List Response) (fuel : Nat) (segments : s.es = 0#16 ∧ s.ds = 0#16)
    (proper : ∀ r ∈ s.bios, r.Proper) (ends : scan s.bios = some (seen, unread)) (few : (accepted seen).length ≤ 1000)
    (fits : s.bios.length ≤ fuel) : ∃ t, (start16 fuel).run s = .ok () t ∧
      cnt t.mem = (accepted seen).length ∧
      (∀ i r, (accepted seen)[i]? = some r → entryBytes t.mem i = r.record) ∧
      t.bios = unread := by
  cases pending : s.bios with
  | nil =>
    rw [pending] at ends
    cases ends
  | cons first rest =>
    rw [pending] at ends proper fits
    have properNow := proper first List.mem_cons_self
    obtain ⟨t, ran, kept, mem, bios, eax, ebx, ecx, cf⟩ := run_start16 fuel segments properNow pending
    rw [ran]
    by_cases good : first.Qualifies
    · simp only [scan, if_pos good, Option.map_eq_some_iff] at ends
      obtain ⟨⟨later, left⟩, ends', same⟩ := ends
      obtain ⟨rfl, rfl⟩ := Prod.mk.inj same
      have kept' : Progress [] { t with edx := SMAP } := kept.of_mem (Nat.zero_le 1000) rfl rfl rfl rfl (Set.eqOn_refl _ _)
      obtain ⟨u, entered, next, bios'⟩ :=
        run_e820Jmpin (e820Lp fuel) kept' (Nat.zero_le 1000) properNow good.1 ebx ecx mem
      rw [if_neg good.2.2] at entered
      rw [List.nil_append] at next
      rw [accepted_cons] at few ⊢
      have room : rest.length ≤ fuel := by
        rw [List.length_cons] at fits
        omega
      obtain ⟨v, looped, done, bios''⟩ := run_e820Lp next (bios'.trans bios)
        (fun q member => proper q (List.mem_cons_of_mem first member)) ends' room few
      obtain ⟨w, stored, count, entries, last⟩ := run_e820F done few
      refine ⟨w, ?_, count, entries, last.trans bios''⟩
      rw [run_e820First_jmpin fuel good eax ebx cf, run_bind_ok (entered.trans looped)]
      exact stored
    · simp only [scan, if_neg good, Option.some.injEq, Prod.mk.injEq] at ends
      obtain ⟨rfl, rfl⟩ := ends
      obtain ⟨u, failed, sameMem, sameBios⟩ := run_e820First_failed fuel good eax ebx cf
      refine ⟨u, failed, ?_, by simp [accepted], sameBios.trans bios⟩
      rw [sameMem]
      exact kept.cnt_eq_zero

/-- Low memory, then an entry marked to be ignored, then extended memory in a short entry, then the end of the list. -/
def lowMemory : Response := ⟨false, SMAP, 1#32, 24#32, SMAP,
  [0x00#8, 0x00#8, 0x00#8, 0x00#8, 0#8, 0#8, 0#8, 0#8, 0x00#8, 0xfc#8, 0x09#8, 0x00#8, 0#8, 0#8, 0#8, 0#8,
    1#8, 0#8, 0#8, 0#8, 1#8, 0#8, 0#8, 0#8]⟩

def ignored : Response := ⟨false, SMAP, 2#32, 24#32, SMAP,
  [0x00#8, 0x00#8, 0x0f#8, 0x00#8, 0#8, 0#8, 0#8, 0#8, 0x00#8, 0x00#8, 0x01#8, 0x00#8, 0#8, 0#8, 0#8, 0#8,
    2#8, 0#8, 0#8, 0#8, 0#8, 0#8, 0#8, 0#8]⟩

def extendedMemory : Response := ⟨false, SMAP, 3#32, 20#32, SMAP,
  [0x00#8, 0x00#8, 0x10#8, 0x00#8, 0#8, 0#8, 0#8, 0#8, 0x00#8, 0x00#8, 0xf0#8, 0x07#8, 0#8, 0#8, 0#8, 0#8,
    1#8, 0#8, 0#8, 0#8]⟩

def endOfList : Response := ⟨true, 0#32, 0#32, 0#32, 0#32, []⟩

def booting : RealMode where
  eax := 0#32
  ebx := 0#32
  ecx := 0#32
  edx := 0#32
  di := 0#16
  bp := 0#16
  es := 0#16
  ds := 0#16
  cf := false
  mem := fun _ => 0xff#8
  bios := [lowMemory, ignored, extendedMemory, endOfList]

theorem start16_pmem_info_two_entries : ∃ t, (start16 4).run booting = .ok () t ∧ cnt t.mem = 2 ∧
    entryBytes t.mem 0 = lowMemory.bytes ∧
    entryBytes t.mem 1 = extendedMemory.bytes ++ [1#8, 0#8, 0#8, 0#8] ∧ t.bios = [] := by
  have proper : ∀ r ∈ booting.bios, r.Proper := by
    intro r member
    simp only [booting, List.mem_cons, List.not_mem_nil, or_false] at member
    rcases member with rfl | rfl | rfl | rfl
    · exact ⟨by decide, by decide, by decide⟩
    · exact ⟨by decide, by decide, by decide⟩
    · exact ⟨by decide, by decide, by decide⟩
    · exact ⟨by decide, by decide, by decide⟩
  have kept : accepted [lowMemory, ignored, extendedMemory] = [lowMemory, extendedMemory] := by decide
  obtain ⟨t, ran, count, entries, unread⟩ := start16_pmem_info booting [lowMemory, ignored, extendedMemory] [] 4
    ⟨rfl, rfl⟩ proper (by decide) (by decide) (by decide)
  rw [kept] at count entries
  exact ⟨t, ran, count, entries 0 lowMemory rfl, entries 1 extendedMemory rfl, unread⟩

end Scanning

end OsDev.Boot.E820
