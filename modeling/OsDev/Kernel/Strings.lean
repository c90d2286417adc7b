import Mathlib.Order.Bounds.Basic
import OsDev.Kernel.StringLib

/-! The routines of kernel/lib/string.c on NUL-terminated strings. Each returns the
pointer it was given, so only the memory it leaves is modelled. -/

namespace OsDev.Kernel.Strings
open OsDev.Machine.Memory OsDev.Kernel.StringLib

/-- The byte `str[i]`. -/
abbrev index (str : Addr) (i : Nat) : Addr := str + BitVec.ofNat 32 i

/-- The index comes back to 0 after 2 ^ 32 turns, so a longer search never ends. -/
def strlenLoop (m : Mem) (str : Addr) : Nat → Nat → Option Nat
  | 0, _ => none
  | fuel + 1, len => if m (index str len) ≠ 0#8 then strlenLoop m str fuel (len + 1) else some len

def strlen (m : Mem) (str : Addr) : Option Nat := strlenLoop m str (2 ^ 32) 0

/-- The loop of `strnlen`, with the addresses it reads: the byte is looked at before the count. -/
def strnlenLoop (m : Mem) (str : Addr) : Nat → Nat → Nat × List Addr
  | 0, len => (len, [index str len])
  | count + 1, len =>
      if m (index str len) ≠ 0#8 then
        let (size, reads) := strnlenLoop m str count (len + 1)
        (size, index str len :: reads)
      else (len, [index str len])

def strnlen (m : Mem) (str : Addr) (count : Nat) : Nat := (strnlenLoop m str count 0).1

def strnlenReads (m : Mem) (str : Addr) (count : Nat) : List Addr := (strnlenLoop m str count 0).2

def strncpy (m : Mem) (dst src : Addr) (count : Nat) : Mem :=
  let size := strnlen m src count
  let padded := if size ≠ count then memset m (index dst size) 0#8 (count - size) else m
  memcpy (store8 padded (index dst size) 0#8) dst src size

def strncat (m : Mem) (dst src : Addr) (count : Nat) : Option Mem := do
  let len ← strlen m dst
  let tail := index dst len
  let size := strnlen m src count
  return memcpy (store8 m (index tail size) 0#8) tail src size

/-- A string of `len` bytes and its NUL. -/
structure Terminated (m : Mem) (str : Addr) (len : Nat) : Prop where
  ends : m (index str len) = 0#8
  before : ∀ i < len, m (index str i) ≠ 0#8

section Lengths
variable {m : Mem} {str : Addr} {len count : Nat}

theorem Terminated.short (text : Terminated m str len) : len < 2 ^ 32 := by
  by_contra long
  apply text.before (len - 2 ^ 32) (by omega)
  rw [index, ofNat_wraps (not_lt.mp long), text.ends]

theorem Terminated.strlenLoop_eq (text : Terminated m str len) (fuel seen : Nat) (enough : len < seen + fuel)
    (below : seen ≤ len) :
    strlenLoop m str fuel seen = some len := by
  induction fuel generalizing seen with
  | zero => omega
  | succ fuel ih =>
    rw [strlenLoop]
    rcases Nat.lt_or_eq_of_le below with inside | rfl
    · rw [if_pos (text.before seen inside)]
      exact ih (seen + 1) (by omega) inside
    · exact if_neg (not_not.mpr text.ends)

theorem Terminated.strlen_eq (text : Terminated m str len) : strlen m str = some len := by
  apply text.strlenLoop_eq
  · have short := text.short
    omega
  · omega

/-- No NUL within the bound: all of it is passed, and the byte after it is read. -/
theorem strnlenLoop_full (count seen : Nat) (absent : ∀ i, seen ≤ i → i < seen + count → m (index str i) ≠ 0#8) :
    (strnlenLoop m str count seen).1 = seen + count ∧ index str (seen + count) ∈ (strnlenLoop m str count seen).2 := by
  induction count generalizing seen with
  | zero => simp [strnlenLoop]
  | succ count ih =>
    obtain ⟨size, read⟩ := ih (seen + 1) fun i least most => absent i (by omega) (by omega)
    have next : seen + 1 + count = seen + (count + 1) := by omega
    rw [strnlenLoop, if_pos (absent seen (by omega) (by omega)), ← next]
    exact ⟨size, List.mem_cons_of_mem _ read⟩

/-- A NUL within the bound: the loop ends there, and nothing after it is read. -/
theorem Terminated.strnlenLoop_eq (text : Terminated m str len) (seen : Nat) (below : seen ≤ len)
    (inside : len < seen + count) :
    (strnlenLoop m str count seen).1 = len ∧
      ∀ a ∈ (strnlenLoop m str count seen).2, ∃ i ≤ len, a = index str i := by
  induction count generalizing seen with
  | zero => omega
  | succ count ih =>
    rw [strnlenLoop]
    rcases Nat.lt_or_eq_of_le below with more | rfl
    · obtain ⟨size, reads⟩ := ih (seen + 1) more (by omega)
      rw [if_pos (text.before seen more)]
      refine ⟨size, fun a read => ?_⟩
      rcases List.mem_cons.mp read with rfl | later
      · exact ⟨seen, below, rfl⟩
      · exact reads a later
    · rw [if_neg (not_not.mpr text.ends)]
      refine ⟨rfl, fun a read => ?_⟩
      exact ⟨seen, le_rfl, List.mem_singleton.mp read⟩

theorem strnlen_full (absent : ∀ i < count, m (index str i) ≠ 0#8) :
    strnlen m str count = count ∧ index str count ∈ strnlenReads m str count := by
  have main := strnlenLoop_full count 0 fun i _ most => absent i (by omega)
  rwa [Nat.zero_add] at main

theorem Terminated.strnlen_eq (text : Terminated m str len) : strnlen m str count = min count len := by
  by_cases inside : len < count
  · rw [strnlen, (text.strnlenLoop_eq 0 (by omega) (by omega)).1]
    omega
  · rw [(strnlen_full fun i less => text.before i (by omega)).1]
    omega

/-- The first NUL of a buffer that has one. -/
theorem exists_terminated (found : ∃ i < count, m (index str i) = 0#8) : ∃ len < count, Terminated m str len := by
  obtain ⟨inside, zero⟩ := Nat.find_spec found
  refine ⟨Nat.find found, inside, zero, fun i less nul => ?_⟩
  exact Nat.find_min found less ⟨by omega, nul⟩

/-- The length is right whatever the buffer holds. -/
theorem strnlen_isLeast : IsLeast ({count} ∪ {i | m (index str i) = 0#8}) (strnlen m str count) := by
  by_cases found : ∃ i < count, m (index str i) = 0#8
  · obtain ⟨len, inside, text⟩ := exists_terminated found
    rw [text.strnlen_eq, Nat.min_eq_right inside.le]
    refine ⟨Or.inr text.ends, fun i member => ?_⟩
    rcases member with rfl | nul
    · exact inside.le
    · by_contra less
      exact text.before i (by omega) nul
  · push Not at found
    rw [(strnlen_full found).1]
    refine ⟨Or.inl rfl, fun i member => ?_⟩
    rcases member with rfl | nul
    · exact le_rfl
    · by_contra less
      exact found i (by omega) nul

end Lengths

/-- `strnlen` keeps to the first `count` bytes exactly if one of them is a NUL:
otherwise it reads the byte after them as well. -/
theorem strnlen_bounded_iff (m : Mem) (str : Addr) (count : Word) :
    (IsLeast ({count.toNat} ∪ {i | m (index str i) = 0#8}) (strnlen m str count.toNat) ∧
        ∀ a ∈ strnlenReads m str count.toNat, ∃ i < count.toNat, a = index str i) ↔
      ∃ i < count.toNat, m (index str i) = 0#8 := by
  constructor
  · rintro ⟨-, reads⟩
    by_contra missing
    push Not at missing
    obtain ⟨i, inside, same⟩ := reads _ (strnlen_full missing).2
    have size := count.isLt
    have equal : BitVec.ofNat 32 count.toNat = BitVec.ofNat 32 i := by
      rw [index, index] at same
      exact (BitVec.add_right_inj str).mp same
    have naturals := congrArg BitVec.toNat equal
    rw [BitVec.toNat_ofNat, BitVec.toNat_ofNat, Nat.mod_eq_of_lt size, Nat.mod_eq_of_lt (by omega)] at naturals
    omega
  · intro found
    obtain ⟨len, inside, text⟩ := exists_terminated found
    refine ⟨strnlen_isLeast, fun a read => ?_⟩
    obtain ⟨i, below, same⟩ := (text.strnlenLoop_eq 0 (by omega) (by omega)).2 a read
    exact ⟨i, by omega, same⟩

/-- Two letters in a buffer of two bytes, and an empty buffer. -/
theorem strnlen_past_the_bound :
    strnlenReads (fun _ => 0x41#8) 0x1000#32 2 = [0x1000#32, 0x1001#32, 0x1002#32] ∧
      strnlenReads (fun _ => 0x41#8) 0x1000#32 0 = [0x1000#32] ∧
      ¬ ∀ a ∈ strnlenReads (fun _ => 0x41#8) 0x1000#32 2, ∃ i < 2, a = index 0x1000#32 i := by
  have reads : strnlenReads (fun _ => 0x41#8) 0x1000#32 2 = [0x1000#32, 0x1001#32, 0x1002#32] := by decide
  refine ⟨reads, by decide, fun bounded => ?_⟩
  obtain ⟨i, inside, same⟩ := bounded 0x1002#32 (by rw [reads]; decide)
  have cases : i = 0 ∨ i = 1 := by omega
  rcases cases with rfl | rfl
  · exact absurd same (by decide)
  · exact absurd same (by decide)

section Copies
variable {m : Mem} {dst src : Addr}

theorem index_mem_span {a : Addr} {i size : Nat} (small : i < 2 ^ 32) : index a i ∈ span a size ↔ i < size := by
  rw [mem_span, offset_toNat a small]

/-- A region inside another one, by the distance from its start. -/
theorem mem_span_index {a x : Addr} {i size : Nat} (fits : i + size ≤ 2 ^ 32) :
    x ∈ span (index a i) size ↔ i ≤ (x - a).toNat ∧ (x - a).toNat < i + size := by
  rw [mem_span, index]
  bv_omega

theorem index_add (a : Addr) (i j : Nat) : index (index a i) j = index a (i + j) := by
  rw [index, index, index, BitVec.add_assoc, ← BitVec.ofNat_add]

/-- A region that leaves some byte out is smaller than the memory. -/
theorem size_of_disjoint {base other : Addr} {size rest : Nat} (apart : Disjoint (span base size) (span other (rest + 1))) :
    size < 2 ^ 32 := by
  have outside : other ∉ span base size := fun inside =>
    Set.disjoint_left.mp apart inside (by simp)
  rw [mem_span] at outside
  have bound := (other - base).isLt
  omega

/-- The terminator at the end of a copy, then the bytes before it: what both routines do last. -/
def closeCopy (m : Mem) (dst src : Addr) (size : Nat) : Mem := memcpy (store8 m (index dst size) 0#8) dst src size

variable {size rest : Nat}

theorem closeCopy_apply (x : Addr) (within : size ≤ rest)
    (apart : Disjoint (span dst (size + 1)) (span src (rest + 1))) :
    closeCopy m dst src size x =
      if (x - dst).toNat < size then m (src + (x - dst)) else if x = index dst size then 0#8 else m x := by
  have small := size_of_disjoint apart
  have start : dst ∉ span src (rest + 1) := fun inside => Set.disjoint_left.mp apart (by simp) inside
  rw [mem_span] at start
  rw [closeCopy, memcpy_apply _ _ _ _ _ (by omega)]
  split
  next inside =>
    -- The terminator is not one of the bytes to be copied.
    apply store8_of_ne
    intro same
    have read : src + (x - dst) ∈ span src (rest + 1) := by
      rw [mem_span, show src + (x - dst) - src = x - dst by bv_omega]
      omega
    have written : index dst size ∈ span dst (size + 1) := (index_mem_span (by omega)).mpr (Nat.lt_succ_self size)
    exact Set.disjoint_left.mp apart written (same ▸ read)
  next => rfl

theorem closeCopy_inside (i : Nat) (less : i < size) (within : size ≤ rest)
    (apart : Disjoint (span dst (size + 1)) (span src (rest + 1))) :
    closeCopy m dst src size (index dst i) = m (index src i) := by
  have small := size_of_disjoint apart
  have offset : index dst i - dst = BitVec.ofNat 32 i := by
    rw [index]
    bv_omega
  rw [closeCopy_apply _ within apart, if_pos (by rw [offset_toNat dst (show i < 2 ^ 32 by omega)]; exact less), offset]

theorem closeCopy_end (within : size ≤ rest) (apart : Disjoint (span dst (size + 1)) (span src (rest + 1))) :
    closeCopy m dst src size (index dst size) = 0#8 := by
  have small := size_of_disjoint apart
  rw [closeCopy_apply _ within apart, if_neg (by rw [offset_toNat dst (show size < 2 ^ 32 by omega)]; omega), if_pos rfl]

theorem closeCopy_outside (within : size ≤ rest) (apart : Disjoint (span dst (size + 1)) (span src (rest + 1))) :
    Set.EqOn (closeCopy m dst src size) m (span dst (size + 1))ᶜ := by
  intro x away
  have small := size_of_disjoint apart
  have other : x ≠ index dst size := by
    intro same
    apply away
    rw [same, index_mem_span (by omega)]
    exact Nat.lt_succ_self size
  rw [Set.mem_compl_iff, mem_span] at away
  rw [closeCopy_apply _ within apart, if_neg (by omega), if_neg other]

end Copies

/-- The first `size` bytes of `src` with NULs up to `count` and at least one, and nothing else touched. -/
structure Truncated (m m' : Mem) (dst src : Addr) (count size : Nat) : Prop where
  copied : ∀ i < size, m' (index dst i) = m (index src i)
  ends : m' (index dst size) = 0#8
  padded : ∀ i, size ≤ i → i < count → m' (index dst i) = 0#8
  frame : Set.EqOn m' m (span dst (max count (size + 1)))ᶜ

/-- The old string of `len` bytes followed by the first `size` bytes of `src`. -/
structure Appended (m m' : Mem) (dst src : Addr) (len size : Nat) : Prop where
  text : Terminated m' dst (len + size)
  kept : ∀ i < len, m' (index dst i) = m (index dst i)
  copied : ∀ i < size, m' (index dst (len + i)) = m (index src i)
  frame : Set.EqOn m' m (span (index dst len) (size + 1))ᶜ

section Copying
variable {m : Mem} {dst src : Addr} {len count : Nat}

/-- Where the source fills the bound there is nothing to pad, as a fill of no bytes says as well. -/
theorem Terminated.strncpy_eq (text : Terminated m src len) (fits : count ≤ 2 ^ 32) :
    strncpy m dst src count =
      closeCopy (fill m (index dst (min count len)) 0#8 (count - min count len)) dst src (min count len) := by
  simp only [strncpy, text.strnlen_eq]
  by_cases shorter : min count len ≠ count
  · rw [if_pos shorter, memset_eq_fill _ _ _ _ (by omega)]
    rfl
  · have nothing : fill m (index dst (min count len)) 0#8 (count - min count len) = m := by
      funext x
      rw [show count - min count len = 0 by omega]
      exact if_neg (Nat.not_lt_zero _)
    rw [if_neg shorter, nothing]
    rfl

theorem Terminated.strncpy_truncated (text : Terminated m src len)
    (apart : Disjoint (span dst (max count (min count len + 1))) (span src (len + 1))) :
    Truncated m (strncpy m dst src count) dst src count (min count len) := by
  have large := size_of_disjoint apart
  have narrow : Disjoint (span dst (min count len + 1)) (span src (len + 1)) :=
    apart.mono_left (span_mono _ _ _ (by omega))
  -- The padding only fills bytes from the terminator on.
  have behind (x : Addr) := mem_span_index (a := dst) (x := x) (i := min count len)
    (show min count len + (count - min count len) ≤ 2 ^ 32 by omega)
  have unpadded : Set.EqOn (fill m (index dst (min count len)) 0#8 (count - min count len)) m (span src (len + 1)) := by
    intro x read
    apply fill_outside
    intro written
    rw [behind] at written
    refine Set.disjoint_left.mp apart ?_ read
    rw [mem_span]
    omega
  rw [text.strncpy_eq (by omega)]
  constructor
  case copied =>
    intro i less
    rw [closeCopy_inside i less (by omega) narrow]
    apply unpadded
    rw [index_mem_span (by omega)]
    omega
  case ends => exact closeCopy_end (by omega) narrow
  case padded =>
    intro i least less
    rcases Nat.lt_or_eq_of_le least with later | rfl
    · have past : index dst i ∉ span dst (min count len + 1) := by
        rw [index_mem_span (by omega)]
        omega
      rw [closeCopy_outside (by omega) narrow past]
      apply fill_inside
      rw [behind, offset_toNat dst (show i < 2 ^ 32 by omega)]
      omega
    · exact closeCopy_end (by omega) narrow
  case frame =>
    intro x away
    have past : x ∉ span dst (min count len + 1) := fun inside => away (span_mono dst _ _ (by omega) inside)
    rw [closeCopy_outside (by omega) narrow past]
    apply fill_outside
    rw [Set.mem_compl_iff, behind]
    rw [Set.mem_compl_iff, mem_span] at away
    omega

theorem Terminated.strncat_appended {d : Nat} (text : Terminated m src len) (old : Terminated m dst d)
    (apart : Disjoint (span dst (d + min count len + 1)) (span src (len + 1))) :
    ∃ m', strncat m dst src count = some m' ∧ Appended m m' dst src d (min count len) := by
  have large := size_of_disjoint apart
  have tail (x : Addr) := mem_span_index (a := dst) (x := x) (show d + (min count len + 1) ≤ 2 ^ 32 by omega)
  have narrow : Disjoint (span (index dst d) (min count len + 1)) (span src (len + 1)) := by
    refine apart.mono_left fun x inside => ?_
    rw [tail] at inside
    exact inside.2
  refine ⟨closeCopy m (index dst d) src (min count len), ?_, ?_⟩
  · rw [strncat, old.strlen_eq, text.strnlen_eq]
    rfl
  have frame := closeCopy_outside (m := m) (by omega) narrow
  have kept : ∀ i < d, closeCopy m (index dst d) src (min count len) (index dst i) = m (index dst i) := by
    intro i less
    apply frame
    rw [Set.mem_compl_iff, tail, offset_toNat dst (show i < 2 ^ 32 by omega)]
    omega
  have copied : ∀ i < min count len, closeCopy m (index dst d) src (min count len) (index dst (d + i)) = m (index src i) := by
    intro i less
    rw [← index_add]
    exact closeCopy_inside i less (by omega) narrow
  refine ⟨⟨?_, ?_⟩, kept, copied, frame⟩
  · rw [← index_add]
    exact closeCopy_end (by omega) narrow
  · intro i less
    by_cases first : i < d
    · rw [kept i first]
      exact old.before i first
    · rw [show i = d + (i - d) by omega, copied (i - d) (by omega)]
      exact text.before (i - d) (by omega)

end Copying

/-- Both routines leave exactly the truncated string, for every terminated source that the destination does not overlap. -/
theorem strncpy_strncat_exact (m : Mem) (src : Addr) (len count : Nat) (text : Terminated m src len) :
    (∀ dst, Disjoint (span dst (max count (min count len + 1))) (span src (len + 1)) →
        Truncated m (strncpy m dst src count) dst src count (min count len)) ∧
      ∀ dst d, Terminated m dst d → Disjoint (span dst (d + min count len + 1)) (span src (len + 1)) →
        ∃ m', strncat m dst src count = some m' ∧ Appended m m' dst src d (min count len) :=
  ⟨fun _ apart => text.strncpy_truncated apart, fun _ _ old apart => text.strncat_appended old apart⟩

/-- The string "hi" at 0x1000 and the string ">" at 0x2000. -/
def twoStrings : Mem := writeBytes (writeBytes (fun _ => 0#8) 0x1000#32 [0x68#8, 0x69#8]) 0x2000#32 [0x3e#8]

theorem twoStrings_exact :
    Terminated twoStrings 0x1000#32 2 ∧ Terminated twoStrings 0x2000#32 1 ∧
      Truncated twoStrings (strncpy twoStrings 0x2000#32 0x1000#32 4) 0x2000#32 0x1000#32 4 2 ∧
      ∃ m', strncat twoStrings 0x2000#32 0x1000#32 4 = some m' ∧ Appended twoStrings m' 0x2000#32 0x1000#32 1 2 := by
  have text : Terminated twoStrings 0x1000#32 2 := ⟨by decide, by decide⟩
  have old : Terminated twoStrings 0x2000#32 1 := ⟨by decide, by decide⟩
  have apart : Disjoint (span 0x2000#32 4) (span 0x1000#32 3) :=
    (span_disjoint _ _ _ _ (by decide) (by decide)).symm
  obtain ⟨copies, appends⟩ := strncpy_strncat_exact twoStrings 0x1000#32 2 4 text
  exact ⟨text, old, copies 0x2000#32 apart, appends 0x2000#32 1 old apart⟩

end OsDev.Kernel.Strings
