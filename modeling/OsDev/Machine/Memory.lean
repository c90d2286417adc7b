import Mathlib.Data.BitVec
import Mathlib.Data.List.GetD
import Mathlib.Data.Set.Function
import Mathlib.Data.Set.Lattice
import Mathlib.Order.CompletePartialOrder
import Mathlib.Tactic.Common

/-! Byte-addressed memory of a 32-bit machine. Address arithmetic wraps modulo
2^32, so a block of memory is described by distance from its base: the block
never needs a side condition saying that it does not wrap. -/

namespace OsDev.Machine.Memory

abbrev Addr := BitVec 32
abbrev Word := BitVec 32
abbrev Byte := BitVec 8

abbrev Mem := Addr → Byte

/-- The `size` bytes from `base` on, modulo 2^32. -/
def span (base : Addr) (size : Nat) : Set Addr := {x | (x - base).toNat < size}

@[simp] theorem mem_span (base x : Addr) (size : Nat) : x ∈ span base size ↔ (x - base).toNat < size := Iff.rfl

instance (base x : Addr) (size : Nat) : Decidable (x ∈ span base size) :=
  inferInstanceAs (Decidable ((x - base).toNat < size))

/-- A block inside another one, given by its offset from the base. -/
theorem span_subset (base inner : Addr) (size innerSize : Nat)
    (fits : (inner - base).toNat + innerSize ≤ size) : span inner innerSize ⊆ span base size := by
  intro x inside
  simp only [mem_span] at inside ⊢
  bv_omega

theorem offset_toNat (base : Addr) {k : Nat} (small : k < 2 ^ 32) : (base + BitVec.ofNat 32 k - base).toNat = k := by
  bv_omega

/-- An index past the whole memory names a byte already seen. -/
theorem ofNat_wraps {n : Nat} (large : 2 ^ 32 ≤ n) : BitVec.ofNat 32 (n - 2 ^ 32) = BitVec.ofNat 32 n := by
  apply BitVec.eq_of_toNat_eq
  rw [BitVec.toNat_ofNat, BitVec.toNat_ofNat, ← Nat.mod_eq_sub_mod large]

theorem span_mono (base : Addr) (small large : Nat) (le : small ≤ large) : span base small ⊆ span base large := by
  intro x inside
  simp only [mem_span] at inside ⊢
  omega

theorem span_disjoint (a b : Addr) (sizeA sizeB : Nat) (below : a.toNat + sizeA ≤ b.toNat)
    (fits : b.toNat + sizeB ≤ 2 ^ 32) : Disjoint (span a sizeA) (span b sizeB) := by
  rw [Set.disjoint_left]
  intro x first second
  simp only [mem_span] at first second
  bv_omega

def store8 (m : Mem) (a : Addr) (b : Byte) : Mem := fun x => if x = a then b else m x

/-- Little-endian word at `a`. -/
def read32 (m : Mem) (a : Addr) : Word :=
  BitVec.ofNat 32 ((m a).toNat + 2 ^ 8 * (m (a + 1#32)).toNat + 2 ^ 16 * (m (a + 2#32)).toNat +
    2 ^ 24 * (m (a + 3#32)).toNat)

def write32 (m : Mem) (a : Addr) (v : Word) : Mem := fun x =>
  if (x - a).toNat < 4 then BitVec.ofNat 8 (v.toNat / 2 ^ (8 * (x - a).toNat)) else m x

theorem store8_self (m : Mem) (a : Addr) (b : Byte) : store8 m a b a = b := by simp [store8]

theorem store8_of_ne (m : Mem) (a x : Addr) (b : Byte) (ne : x ≠ a) : store8 m a b x = m x := by
  simp [store8, ne]

theorem write32_outside (m : Mem) (a : Addr) (v : Word) : Set.EqOn (write32 m a v) m (span a 4)ᶜ := by
  intro x outside
  simp only [Set.mem_compl_iff, mem_span] at outside
  simp only [write32, if_neg outside]

theorem read32_congr {m m' : Mem} {a : Addr} (same : Set.EqOn m m' (span a 4)) : read32 m a = read32 m' a := by
  have lane (i : Addr) (small : i.toNat < 4) : m (a + i) = m' (a + i) := by
    apply same
    simp only [mem_span]
    bv_omega
  have first := lane 0#32 (by decide)
  simp only [BitVec.add_zero] at first
  simp only [read32, first, lane 1#32 (by decide), lane 2#32 (by decide), lane 3#32 (by decide)]

theorem read32_write32_self (m : Mem) (a : Addr) (v : Word) : read32 (write32 m a v) a = v := by
  have lane (i : Nat) (small : i < 4) :
      write32 m a v (a + BitVec.ofNat 32 i) = BitVec.ofNat 8 (v.toNat / 2 ^ (8 * i)) := by
    simp only [write32, offset_toNat a (Nat.lt_trans small (by decide)), if_pos small]
  have l0 := lane 0 (by decide)
  have l1 := lane 1 (by decide)
  have l2 := lane 2 (by decide)
  have l3 := lane 3 (by decide)
  simp only [BitVec.add_zero] at l0
  simp only [read32]
  apply BitVec.eq_of_toNat_eq
  rw [l0, l1, l2, l3]
  simp only [BitVec.toNat_ofNat]
  have bound := v.isLt
  omega

theorem read32_write32_disjoint (m : Mem) (a b : Addr) (v : Word) (apart : Disjoint (span a 4) (span b 4)) :
    read32 (write32 m a v) b = read32 m b := by
  apply read32_congr
  intro x inside
  exact write32_outside m a v (Set.disjoint_right.mp apart inside)

theorem read32_eq_zero (m : Mem) (a : Addr) :
    read32 m a = 0#32 ↔ m a = 0#8 ∧ m (a + 1#32) = 0#8 ∧ m (a + 2#32) = 0#8 ∧ m (a + 3#32) = 0#8 := by
  unfold read32
  constructor
  · intro zero
    have value := congrArg BitVec.toNat zero
    simp only [BitVec.toNat_ofNat] at value
    bv_omega
  · rintro ⟨first, second, third, fourth⟩
    rw [first, second, third, fourth]
    rfl

/-- Aligned words overlap only when they are the same word. -/
theorem aligned_disjoint (a b : Addr) (alignedA : a.toNat % 4 = 0) (alignedB : b.toNat % 4 = 0) (ne : a ≠ b) :
    Disjoint (span a 4) (span b 4) := by
  rw [Set.disjoint_left]
  intro x insideA insideB
  simp only [mem_span] at insideA insideB
  have differ : a.toNat ≠ b.toNat := fun same => ne (BitVec.eq_of_toNat_eq same)
  bv_omega

/-- `fill` is what a loop of byte stores leaves behind. -/
def fill (m : Mem) (base : Addr) (b : Byte) (size : Nat) : Mem := fun x =>
  if (x - base).toNat < size then b else m x

theorem fill_outside (m : Mem) (base : Addr) (b : Byte) (size : Nat) :
    Set.EqOn (fill m base b size) m (span base size)ᶜ := by
  intro x outside
  simp only [Set.mem_compl_iff, mem_span] at outside
  simp only [fill, if_neg outside]

theorem fill_inside (m : Mem) (base x : Addr) (b : Byte) (size : Nat) (inside : x ∈ span base size) :
    fill m base b size x = b := if_pos inside

theorem read32_fill_zero (m : Mem) (base a : Addr) (size : Nat) (inside : span a 4 ⊆ span base size) :
    read32 (fill m base 0#8 size) a = 0#32 := by
  have lane (i : Addr) (small : i.toNat < 4) : fill m base 0#8 size (a + i) = 0#8 := by
    apply fill_inside
    apply inside
    simp only [mem_span]
    bv_omega
  have first := lane 0#32 (by decide)
  simp only [BitVec.add_zero] at first
  simp only [read32, first, lane 1#32 (by decide), lane 2#32 (by decide), lane 3#32 (by decide)]
  rfl

/-- Bytes stored one after the other. -/
def writeBytes (m : Mem) (a : Addr) (bytes : List Byte) : Mem := fun x => bytes.getD (x - a).toNat (m x)

theorem writeBytes_at (m : Mem) (a : Addr) (bytes : List Byte) {k : Nat} (small : k < 2 ^ 32) :
    writeBytes m a bytes (a + BitVec.ofNat 32 k) = bytes.getD k (m (a + BitVec.ofNat 32 k)) := by
  simp only [writeBytes, offset_toNat a small]

theorem writeBytes_outside (m : Mem) (a : Addr) (bytes : List Byte) :
    Set.EqOn (writeBytes m a bytes) m (span a bytes.length)ᶜ := by
  intro x outside
  simp only [Set.mem_compl_iff, mem_span, Nat.not_lt] at outside
  exact List.getD_eq_default _ _ outside

/-- The words of the list stand one after the other from `a` on. -/
def Holds (m : Mem) (a : Addr) : List Word → Prop
  | [] => True
  | w :: rest => read32 m a = w ∧ Holds m (a + 4#32) rest

theorem holds_congr {m m' : Mem} {a : Addr} {words : List Word} (same : Set.EqOn m' m (span a (4 * words.length)))
    (bound : 4 * words.length ≤ 2 ^ 32) (holds : Holds m a words) : Holds m' a words := by
  induction words generalizing a with
  | nil => trivial
  | cons w rest ih =>
    simp only [List.length_cons] at same bound
    obtain ⟨first, others⟩ := holds
    refine ⟨?_, ih (same.mono ?_) (by omega) others⟩
    · rw [← first]
      apply read32_congr
      exact same.mono (span_mono a 4 _ (by omega))
    · apply span_subset
      bv_omega

theorem Holds.read {m : Mem} {a : Addr} {words : List Word} {w : Word} (holds : Holds m a words) (i : Nat)
    (found : words[i]? = some w) : read32 m (a + BitVec.ofNat 32 (4 * i)) = w := by
  induction words generalizing a i with
  | nil => simp at found
  | cons first rest ih =>
    cases i with
    | zero =>
      obtain rfl : first = w := by simpa using found
      simpa using holds.1
    | succ i =>
      have shift : a + BitVec.ofNat 32 (4 * (i + 1)) = a + 4#32 + BitVec.ofNat 32 (4 * i) := by bv_omega
      rw [shift]
      exact ih holds.2 i (by simpa using found)

/-- Store the words of a list one after the other. -/
def writeWords (m : Mem) (a : Addr) : List Word → Mem
  | [] => m
  | w :: rest => write32 (writeWords m (a + 4#32) rest) a w

theorem writeWords_outside (m : Mem) (a : Addr) (words : List Word) (bound : 4 * words.length ≤ 2 ^ 32) :
    Set.EqOn (writeWords m a words) m (span a (4 * words.length))ᶜ := by
  induction words generalizing a with
  | nil => exact fun x _ => rfl
  | cons w rest ih =>
    simp only [List.length_cons] at bound ⊢
    intro x outside
    simp only [Set.mem_compl_iff, mem_span] at outside
    calc writeWords m a (w :: rest) x = writeWords m (a + 4#32) rest x := by
          apply write32_outside
          simp only [Set.mem_compl_iff, mem_span]
          omega
      _ = m x := by
          apply ih _ (by omega)
          simp only [Set.mem_compl_iff, mem_span]
          bv_omega

theorem holds_writeWords (m : Mem) (a : Addr) (words : List Word) (bound : 4 * words.length ≤ 2 ^ 32) :
    Holds (writeWords m a words) a words := by
  induction words generalizing a with
  | nil => trivial
  | cons w rest ih =>
    simp only [List.length_cons] at bound
    refine ⟨read32_write32_self _ _ _, ?_⟩
    apply holds_congr _ (by omega) (ih (a + 4#32) (by omega))
    apply (write32_outside _ a w).mono
    intro x inside
    simp only [Set.mem_compl_iff, mem_span] at inside ⊢
    bv_omega

theorem holds_of_read {m : Mem} {a : Addr} {words : List Word}
    (reads : ∀ i w, words[i]? = some w → read32 m (a + BitVec.ofNat 32 (4 * i)) = w) : Holds m a words := by
  induction words generalizing a with
  | nil => trivial
  | cons first rest ih =>
    refine ⟨by simpa using reads 0 first rfl, ih ?_⟩
    intro i w found
    have shift : a + 4#32 + BitVec.ofNat 32 (4 * i) = a + BitVec.ofNat 32 (4 * (i + 1)) := by bv_omega
    rw [shift]
    exact reads (i + 1) w (by simpa using found)

/-- A record of words in memory, seen as a list and seen field by field. -/
theorem holds_record {F : Type} (fields : List F) (index : F → Nat)
    (ordered : ∀ field, fields[index field]? = some field) (inside : ∀ i field, fields[i]? = some field → index field = i)
    (m : Mem) (a : Addr) (value : F → Word) :
    Holds m a (fields.map value) ↔ ∀ field, read32 m (a + BitVec.ofNat 32 (4 * index field)) = value field := by
  constructor
  · intro holds field
    apply holds.read
    rw [List.getElem?_map, ordered field]
    rfl
  · intro reads
    apply holds_of_read
    intro i w found
    rw [List.getElem?_map] at found
    obtain ⟨field, here, rfl⟩ := Option.map_eq_some_iff.mp found
    obtain rfl := inside i field here
    exact reads field

end OsDev.Machine.Memory
