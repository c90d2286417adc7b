import OsDev.Machine.Memory

/-! Segment descriptors (kernel/gdt.c): how `gdt_set_entry` scatters a base and a
limit over the eight bytes of a descriptor, and what the processor makes of them. -/

namespace OsDev.Kernel.Gdt
open OsDev.Machine.Memory

def SEG_KCODE : Nat := 1
def SEG_KDATA : Nat := 2
def SEG_UCODE : Nat := 3
def SEG_UDATA : Nat := 4
def SEG_TSS : Nat := 5
def NSEGS : Nat := 6

def SEG_PRESENT : Byte := 0b10000000#8
def SEG_RING0 : Byte := 0b00000000#8
def SEG_RING3 : Byte := 0b01100000#8
def SEG_APP : Byte := 0b00010000#8
def SEG_CODE : Byte := 0b00001000#8
def SEG_RW : Byte := 0b00000010#8
def SEG_TSS32_AVAIL : Byte := 0b00001001#8

def SEG_32BIT : Byte := 0b01000000#8
def SEG_4K : Byte := 0b10000000#8

structure Segdesc where
  limitLo : BitVec 16
  baseLo : BitVec 16
  baseMi : Byte
  access : Byte
  flags : Byte
  baseHi : Byte
  deriving DecidableEq, Repr

/-- The packed layout, least significant byte first. -/
def Segdesc.bytes (seg : Segdesc) : List Byte :=
  [seg.limitLo.setWidth 8, (seg.limitLo >>> 8).setWidth 8, seg.baseLo.setWidth 8, (seg.baseLo >>> 8).setWidth 8,
    seg.baseMi, seg.access, seg.flags, seg.baseHi]

def segdesc (base limit : Word) (access flags : Byte) : Segdesc where
  limitLo := ((if flags &&& SEG_4K ≠ 0#8 then limit >>> 12 else limit) &&& 0xffff#32).setWidth 16
  baseLo := (base &&& 0xffff#32).setWidth 16
  baseMi := ((base >>> 16) &&& 0xff#32).setWidth 8
  access := access
  flags := ((if flags &&& SEG_4K ≠ 0#8 then limit >>> 28 else limit >>> 16) ||| (flags &&& 0xf0#8).setWidth 32).setWidth 8
  baseHi := (base >>> 24).setWidth 8

/-- The address of `gdt[i]`. -/
def slot (gdt : Addr) (i : Nat) : Addr := gdt + BitVec.ofNat 32 (8 * i)

def gdtSetEntry (m : Mem) (seg : Addr) (base limit : Word) (access flags : Byte) : Mem :=
  writeBytes m seg (segdesc base limit access flags).bytes

/-- The four segments that `gdt_init` sets up: all of the address space, for the kernel and for processes. -/
def gdtInit (m : Mem) (gdt : Addr) : Mem :=
  let m := gdtSetEntry m (slot gdt SEG_KCODE) 0#32 0xffffffff#32
    (SEG_APP ||| SEG_CODE ||| SEG_RING0 ||| SEG_RW ||| SEG_PRESENT) (SEG_32BIT ||| SEG_4K)
  let m := gdtSetEntry m (slot gdt SEG_KDATA) 0#32 0xffffffff#32
    (SEG_APP ||| SEG_RING0 ||| SEG_RW ||| SEG_PRESENT) (SEG_32BIT ||| SEG_4K)
  let m := gdtSetEntry m (slot gdt SEG_UCODE) 0#32 0xffffffff#32
    (SEG_APP ||| SEG_CODE ||| SEG_RING3 ||| SEG_RW ||| SEG_PRESENT) (SEG_32BIT ||| SEG_4K)
  gdtSetEntry m (slot gdt SEG_UDATA) 0#32 0xffffffff#32
    (SEG_APP ||| SEG_RING3 ||| SEG_RW ||| SEG_PRESENT) (SEG_32BIT ||| SEG_4K)

/-- `sizeof(struct taskstate)`. -/
def TASKSTATE_SIZE : Word := 104#32

/-- The entry that `switchuvm` makes for the task state at `ts`. -/
def switchuvmEntry (m : Mem) (gdt ts : Addr) : Mem :=
  gdtSetEntry m (slot gdt SEG_TSS) ts (TASKSTATE_SIZE - 1#32) (SEG_PRESENT ||| SEG_RING0 ||| SEG_TSS32_AVAIL) 0#8

/-- A segment as the processor loads it. -/
@[ext] structure Segment where
  base : Word
  limit : Word
  access : Byte
  flags : Byte
  deriving DecidableEq, Repr

/-- The twenty bits of the limit field. -/
def limitField (b : Nat → Byte) : BitVec 20 := (b 6).setWidth 4 ++ b 1 ++ b 0

/-- The descriptor's bytes put together. With the granularity bit the limit counts pages, up to the end of the last one. -/
def decode (b : Nat → Byte) : Segment where
  base := b 7 ++ b 4 ++ b 3 ++ b 2
  limit :=
    if (b 6).msb then (limitField b).setWidth 32 <<< 12 ||| 0xfff#32 else (limitField b).setWidth 32
  access := b 5
  flags := b 6 &&& 0xf0#8

def segmentAt (m : Mem) (seg : Addr) : Segment := decode fun k => m (seg + BitVec.ofNat 32 k)

/-- The processor looks at the eight bytes and nothing else. -/
theorem decode_congr {b b' : Nat → Byte} (same : ∀ k < 8, b k = b' k) : decode b = decode b' := by
  rw [decode, decode, limitField, limitField, same 0 (by decide), same 1 (by decide), same 2 (by decide), same 3 (by decide),
    same 4 (by decide), same 5 (by decide), same 6 (by decide), same 7 (by decide)]

theorem mask_low_word (w : Word) : (w &&& 0xffff#32).setWidth 16 = w.setWidth 16 := by
  apply BitVec.eq_of_toNat_eq
  rw [BitVec.toNat_setWidth, BitVec.toNat_setWidth, BitVec.toNat_and]
  exact congrArg (· % 2 ^ 16) (Nat.and_two_pow_sub_one_eq_mod w.toNat 16) |>.trans (Nat.mod_mod _ _)

theorem mask_low_byte (w : Word) : (w &&& 0xff#32).setWidth 8 = w.setWidth 8 := by
  apply BitVec.eq_of_toNat_eq
  rw [BitVec.toNat_setWidth, BitVec.toNat_setWidth, BitVec.toNat_and]
  exact congrArg (· % 2 ^ 8) (Nat.and_two_pow_sub_one_eq_mod w.toNat 8) |>.trans (Nat.mod_mod _ _)

/-- The four bytes of a word put together again. -/
theorem join_bytes (w : Word) :
    (w >>> 24).setWidth 8 ++ (w >>> 16).setWidth 8 ++ ((w.setWidth 16) >>> 8).setWidth 8 ++ (w.setWidth 16).setWidth 8 = w := by
  apply BitVec.eq_of_getLsbD_eq
  intro i inside
  simp only [BitVec.getLsbD_append, BitVec.getLsbD_setWidth, BitVec.getLsbD_ushiftRight]
  grind

theorem seg_4k_msb (flags : Byte) : flags &&& SEG_4K ≠ 0#8 ↔ flags.msb = true := by
  revert flags
  decide +kernel

theorem page_bits : ∀ i < 32, (0xfff#32).getLsbD i = decide (i < 12) := by decide

theorem high_nibble : ∀ i < 8, (0xf0#8).getLsbD i = decide (4 ≤ i) := by decide

section Field
variable {v : Word} (small : v.toNat < 2 ^ 20) (flags : Byte)
include small

theorem bit_past_twenty (i : Nat) (past : 20 ≤ i) : v.getLsbD i = false := by
  apply Nat.testBit_lt_two_pow
  exact lt_of_lt_of_le small (Nat.pow_le_pow_right (by decide) past)

/-- The flags byte holds the top of the limit in its low nibble and the flags in its high one. -/
theorem flags_bit (i : Nat) (inside : i < 8) :
    ((v >>> 16 ||| (flags &&& 0xf0#8).setWidth 32).setWidth 8).getLsbD i =
      if i < 4 then v.getLsbD (16 + i) else flags.getLsbD i := by
  simp only [BitVec.getLsbD_setWidth, BitVec.getLsbD_or, BitVec.getLsbD_ushiftRight, BitVec.getLsbD_and, high_nibble i inside]
  split
  next low => simp [inside, Nat.not_le.mpr low]
  next high => simp [inside, Nat.not_lt.mp high, bit_past_twenty small (16 + i) (by omega), show i < 32 by omega]

theorem flags_nibble : (v >>> 16 ||| (flags &&& 0xf0#8).setWidth 32).setWidth 8 &&& 0xf0#8 = flags &&& 0xf0#8 := by
  apply BitVec.eq_of_getLsbD_eq
  intro i inside
  rw [BitVec.getLsbD_and, BitVec.getLsbD_and, flags_bit small flags i inside, high_nibble i inside]
  split
  next low => simp [Nat.not_le.mpr low]
  next => rfl

theorem flags_msb : ((v >>> 16 ||| (flags &&& 0xf0#8).setWidth 32).setWidth 8).msb = flags.msb := by
  rw [BitVec.msb_eq_getLsbD_last, BitVec.msb_eq_getLsbD_last, flags_bit small flags _ (by decide)]
  rfl

/-- Its low nibble and the two low bytes make up the field again. -/
theorem join_field :
    BitVec.setWidth 32 (((v >>> 16 ||| (flags &&& 0xf0#8).setWidth 32).setWidth 8).setWidth 4 ++
      ((v.setWidth 16) >>> 8).setWidth 8 ++ (v.setWidth 16).setWidth 8) = v := by
  have past := bit_past_twenty small
  have bits := flags_bit small flags
  generalize (v >>> 16 ||| (flags &&& 0xf0#8).setWidth 32).setWidth 8 = b at bits ⊢
  apply BitVec.eq_of_getLsbD_eq
  intro i inside
  simp only [BitVec.getLsbD_append, BitVec.getLsbD_setWidth, BitVec.getLsbD_ushiftRight]
  grind

end Field

/-- Counting in pages and back sets the bits below a page. -/
theorem pages_limit (limit : Word) : limit >>> 12 <<< 12 ||| 0xfff#32 = limit ||| 0xfff#32 := by
  apply BitVec.eq_of_getLsbD_eq
  intro i inside
  simp only [BitVec.getLsbD_or, BitVec.getLsbD_shiftLeft, BitVec.getLsbD_ushiftRight, page_bits i inside]
  by_cases low : i < 12
  · simp [low]
  · simp [low, inside, show 12 + (i - 12) = i by omega]

/-- The number that goes into the limit field. -/
def units (limit : Word) (flags : Byte) : Word := if flags &&& SEG_4K ≠ 0#8 then limit >>> 12 else limit

theorem units_small {limit : Word} {flags : Byte} (bytes : flags &&& SEG_4K = 0#8 → limit.toNat < 2 ^ 20) :
    (units limit flags).toNat < 2 ^ 20 := by
  rw [units]
  split
  next =>
    rw [BitVec.toNat_ushiftRight, Nat.shiftRight_eq_div_pow]
    have size := limit.isLt
    omega
  next clear => exact bytes (not_not.mp clear)

theorem segdesc_flags (base limit : Word) (access flags : Byte) :
    (segdesc base limit access flags).flags =
      (units limit flags >>> 16 ||| (flags &&& 0xf0#8).setWidth 32).setWidth 8 := by
  rw [segdesc, units]
  split
  next => rw [← BitVec.shiftRight_add]
  next => rfl

section Entries
variable (m : Mem) (seg : Addr) (base limit : Word) (access flags : Byte)

theorem segmentAt_gdtSetEntry :
    segmentAt (gdtSetEntry m seg base limit access flags) seg =
      decode fun k => (segdesc base limit access flags).bytes.getD k 0#8 := by
  apply decode_congr
  intro k inside
  have length : (segdesc base limit access flags).bytes.length = 8 := rfl
  rw [gdtSetEntry, writeBytes_at _ _ _ (by omega), List.getD_eq_getElem _ _ (by omega), List.getD_eq_getElem _ _ (by omega)]

theorem decode_base : (decode fun k => (segdesc base limit access flags).bytes.getD k 0#8).base = base := by
  have joined := join_bytes base
  rw [← mask_low_word, ← mask_low_byte (base >>> 16)] at joined
  exact joined

variable (bytes : flags &&& SEG_4K = 0#8 → limit.toNat < 2 ^ 20)
include bytes

theorem decode_flags :
    (decode fun k => (segdesc base limit access flags).bytes.getD k 0#8).flags = flags &&& 0xf0#8 := by
  have nibble := flags_nibble (units_small bytes) flags
  rw [← segdesc_flags base limit access flags] at nibble
  exact nibble

theorem decode_limitField :
    (limitField fun k => (segdesc base limit access flags).bytes.getD k 0#8).setWidth 32 = units limit flags := by
  have joined := join_field (units_small bytes) flags
  rw [← segdesc_flags base limit access flags, ← mask_low_word] at joined
  exact joined

theorem decode_limit :
    (decode fun k => (segdesc base limit access flags).bytes.getD k 0#8).limit =
      if flags &&& SEG_4K = 0#8 then limit else limit ||| 0xfff#32 := by
  have granular : (segdesc base limit access flags).flags.msb = flags.msb := by
    rw [segdesc_flags]
    exact flags_msb (units_small bytes) flags
  have field := decode_limitField base limit access flags bytes
  simp only [decode, field]
  change (if (segdesc base limit access flags).flags.msb = true then _ else _) = _
  rw [granular]
  by_cases pages : flags &&& SEG_4K = 0#8
  · have clear : ¬ flags.msb = true := by
      rw [← seg_4k_msb]
      exact not_not.mpr pages
    rw [if_neg clear, if_pos pages, units, if_neg (not_not.mpr pages)]
  · rw [if_pos ((seg_4k_msb flags).mp pages), if_neg pages, units, if_pos pages]
    exact pages_limit limit

/-- What the processor reads back is what was asked for. -/
theorem segmentAt_self :
    segmentAt (gdtSetEntry m seg base limit access flags) seg =
      ⟨base, if flags &&& SEG_4K = 0#8 then limit else limit ||| 0xfff#32, access, flags &&& 0xf0#8⟩ := by
  rw [segmentAt_gdtSetEntry]
  apply Segment.ext
  · exact decode_base base limit access flags
  · exact decode_limit base limit access flags bytes
  · rfl
  · exact decode_flags base limit access flags bytes

end Entries

/-- Base, access, flags and limit of the descriptor that `gdt_set_entry` wrote, as the processor decodes it. -/
theorem gdt_set_entry_decodes (m : Mem) (seg : Addr) (base limit : Word) (access flags : Byte)
    (bytes : flags &&& SEG_4K = 0#8 → limit.toNat < 2 ^ 20) :
    let segment := segmentAt (gdtSetEntry m seg base limit access flags) seg
    segment.base = base ∧ segment.access = access ∧ segment.flags = flags &&& 0xf0#8 ∧
      segment.limit = if flags &&& SEG_4K = 0#8 then limit else limit ||| 0xfff#32 := by
  intro segment
  have read : segment = _ := segmentAt_self m seg base limit access flags bytes
  rw [read]
  exact ⟨rfl, rfl, rfl, rfl⟩

theorem gdt_set_entry_decodes_tss :
    (TASKSTATE_SIZE - 1#32).toNat < 2 ^ 20 ∧
      let segment := segmentAt (switchuvmEntry (fun _ => 0#8) 0x80105000#32 0x80104abc#32) (slot 0x80105000#32 SEG_TSS)
      segment.base = 0x80104abc#32 ∧ segment.access = 0x89#8 ∧ segment.flags = 0#8 ∧ segment.limit = 103#32 := by
  have small : (TASKSTATE_SIZE - 1#32).toNat < 2 ^ 20 := by decide
  have decoded := gdt_set_entry_decodes (fun _ => 0#8) (slot 0x80105000#32 SEG_TSS) 0x80104abc#32
    (TASKSTATE_SIZE - 1#32) (SEG_PRESENT ||| SEG_RING0 ||| SEG_TSS32_AVAIL) 0#8 fun _ => small
  exact ⟨small, decoded⟩

section Table
variable {m : Mem} {gdt : Addr}

theorem slot_byte (i k : Nat) : slot gdt i + BitVec.ofNat 32 k = gdt + BitVec.ofNat 32 (8 * i + k) := by
  rw [slot, BitVec.add_assoc, ← BitVec.ofNat_add]

/-- Entries do not overlap. -/
theorem segmentAt_other {i j : Nat} (ne : i ≠ j) (insideI : i < 6) (insideJ : j < 6) (base limit : Word) (access flags : Byte) :
    segmentAt (gdtSetEntry m (slot gdt i) base limit access flags) (slot gdt j) = segmentAt m (slot gdt j) := by
  apply decode_congr
  intro k small
  apply writeBytes_outside
  rw [Set.mem_compl_iff, mem_span, slot_byte, slot]
  change ¬ _ < 8
  bv_omega

/-- All of the address space, in units of a page. -/
def flat (access : Byte) : Segment := ⟨0#32, 0xffffffff#32, access, SEG_32BIT ||| SEG_4K⟩

theorem segmentAt_flat (seg : Addr) (access : Byte) :
    segmentAt (gdtSetEntry m seg 0#32 0xffffffff#32 access (SEG_32BIT ||| SEG_4K)) seg = flat access := by
  rw [segmentAt_self _ _ _ _ _ _ fun clear => absurd clear (by decide)]
  rfl

/-- The table the processor works with once a process has been switched to: four flat segments, and the task state in one of
104 bytes. Both callers keep to limits that the descriptor can hold. -/
theorem gdt_segments (m : Mem) (gdt ts : Addr) :
    let table := switchuvmEntry (gdtInit m gdt) gdt ts
    segmentAt table (slot gdt SEG_KCODE) = flat 0x9a#8 ∧ segmentAt table (slot gdt SEG_KDATA) = flat 0x92#8 ∧
      segmentAt table (slot gdt SEG_UCODE) = flat 0xfa#8 ∧ segmentAt table (slot gdt SEG_UDATA) = flat 0xf2#8 ∧
      segmentAt table (slot gdt SEG_TSS) = ⟨ts, 103#32, 0x89#8, 0#8⟩ := by
  intro table
  have other (i : Nat) (ne : SEG_TSS ≠ i) (inside : i < 6) :
      segmentAt table (slot gdt i) = segmentAt (gdtInit m gdt) (slot gdt i) :=
    segmentAt_other ne (by decide) inside _ _ _ _
  rw [other SEG_KCODE (by decide) (by decide), other SEG_KDATA (by decide) (by decide),
    other SEG_UCODE (by decide) (by decide), other SEG_UDATA (by decide) (by decide)]
  refine ⟨?_, ?_, ?_, ?_, ?_⟩
  · rw [gdtInit, segmentAt_other (by decide) (by decide) (by decide), segmentAt_other (by decide) (by decide) (by decide),
      segmentAt_other (by decide) (by decide) (by decide), segmentAt_flat]
    rfl
  · rw [gdtInit, segmentAt_other (by decide) (by decide) (by decide), segmentAt_other (by decide) (by decide) (by decide),
      segmentAt_flat]
    rfl
  · rw [gdtInit, segmentAt_other (by decide) (by decide) (by decide), segmentAt_flat]
    rfl
  · rw [gdtInit, segmentAt_flat]
    rfl
  · exact segmentAt_self _ _ _ _ _ _ fun _ => by decide

/-- The access bytes of the table at an address, up to its limit. -/
def accessTable (m : Mem) (gdt : Addr) (i : BitVec 13) : Option Byte :=
  if i.toNat < NSEGS then some (segmentAt m (slot gdt i.toNat)).access else none

/-- The segments of the kernel and of processes. The processor sets the low bit of an access byte when it loads the segment. -/
structure KernelTable (table : BitVec 13 → Option Byte) : Prop where
  kcode : table 1#13 = some 0x9a#8 ∨ table 1#13 = some 0x9b#8
  kdata : table 2#13 = some 0x92#8 ∨ table 2#13 = some 0x93#8
  ucode : table 3#13 = some 0xfa#8 ∨ table 3#13 = some 0xfb#8
  udata : table 4#13 = some 0xf2#8 ∨ table 4#13 = some 0xf3#8

theorem kernelTable_switchuvm (m : Mem) (gdt ts : Addr) :
    KernelTable (accessTable (switchuvmEntry (gdtInit m gdt) gdt ts) gdt) := by
  obtain ⟨kcode, kdata, ucode, udata, -⟩ := gdt_segments m gdt ts
  have entry (i : BitVec 13) (inside : i.toNat < NSEGS) {access : Byte}
      (segment : segmentAt (switchuvmEntry (gdtInit m gdt) gdt ts) (slot gdt i.toNat) = flat access) :
      accessTable (switchuvmEntry (gdtInit m gdt) gdt ts) gdt i = some access := by
    rw [accessTable, if_pos inside, segment]
    rfl
  exact ⟨.inl (entry 1#13 (by decide) kcode), .inl (entry 2#13 (by decide) kdata), .inl (entry 3#13 (by decide) ucode),
    .inl (entry 4#13 (by decide) udata)⟩

end Table

end OsDev.Kernel.Gdt
