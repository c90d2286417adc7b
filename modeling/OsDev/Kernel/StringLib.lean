import Mathlib.Tactic.Abel
import OsDev.Machine.Memory

/-! The memory routines of kernel/lib/string.c, one byte at a time as the loops run. -/

namespace OsDev.Kernel.StringLib
open OsDev.Machine.Memory

def memset (m : Mem) (dst : Addr) (c : Byte) : Nat → Mem
  | 0 => m
  | count + 1 => memset (store8 m dst c) (dst + 1#32) c count

def memcpy (m : Mem) (dst src : Addr) : Nat → Mem
  | 0 => m
  | count + 1 => memcpy (store8 m dst (m src)) (dst + 1#32) (src + 1#32) count

/-- The reversed loop of `memmove`: both pointers step down after each byte. -/
def memcpyDown (m : Mem) (dst src : Addr) : Nat → Mem
  | 0 => m
  | count + 1 => memcpyDown (store8 m dst (m src)) (dst - 1#32) (src - 1#32) count

def memmove (m : Mem) (dst src : Addr) (count : Nat) : Mem :=
  if count ≤ (dst - src).toNat then memcpy m dst src count
  else memcpyDown m (dst + BitVec.ofNat 32 count) (src + BitVec.ofNat 32 count) count

/-- The loop of `memcmp` over two regions, given by their bytes; `b1` and `b2` are the last bytes read. A `char` is signed. -/
def memcmpLoop (first second : Nat → Byte) : Nat → Nat → Byte → Byte → Int
  | 0, _, b1, b2 => b1.toInt - b2.toInt
  | count + 1, i, _, _ =>
      if first i ≠ second i then (first i).toInt - (second i).toInt
      else memcmpLoop first second count (i + 1) (first i) (second i)

def memcmp (first second : Nat → Byte) (count : Nat) : Int := memcmpLoop first second count 0 0#8 0#8

theorem memcmpLoop_eq_zero (first second : Nat → Byte) (count i : Nat) (b : Byte) :
    memcmpLoop first second count i b b = 0 ↔ ∀ k < count, first (i + k) = second (i + k) := by
  induction count generalizing i b with
  | zero => simp [memcmpLoop]
  | succ count ih =>
    rw [memcmpLoop]
    by_cases same : first i = second i
    · rw [if_neg (not_not.mpr same), same, ih]
      constructor
      · intro rest k less
        rcases k with _ | k
        · exact same
        · rw [show i + (k + 1) = i + 1 + k by omega]
          exact rest k (by omega)
      · intro all k less
        rw [show i + 1 + k = i + (k + 1) by omega]
        exact all (k + 1) (by omega)
    · rw [if_pos same]
      have differ : (first i).toInt ≠ (second i).toInt := fun equal => same (BitVec.eq_of_toInt_eq equal)
      constructor
      · intro zero
        omega
      · intro all
        exact absurd (all 0 (by omega)) same

/-- Two regions compare as equal exactly if their bytes are the same. -/
theorem memcmp_eq_zero (first second : Nat → Byte) (count : Nat) :
    memcmp first second count = 0 ↔ ∀ k < count, first k = second k := by
  rw [memcmp, memcmpLoop_eq_zero]
  simp only [Nat.zero_add]

/-- The first position at which two regions differ. -/
def FirstDifference (first second : Nat → Byte) (count k : Nat) : Prop :=
  k < count ∧ first k ≠ second k ∧ ∀ j < k, first j = second j

theorem memcmpLoop_differs {first second : Nat → Byte} {count i k : Nat} (b1 b2 : Byte) (inside : k < count)
    (differ : first (i + k) ≠ second (i + k)) (before : ∀ j < k, first (i + j) = second (i + j)) :
    memcmpLoop first second count i b1 b2 = (first (i + k)).toInt - (second (i + k)).toInt := by
  induction count generalizing i k b1 b2 with
  | zero => omega
  | succ count ih =>
    rw [memcmpLoop]
    cases k with
    | zero => exact if_pos differ
    | succ k =>
      have shift (j : Nat) : i + (j + 1) = i + 1 + j := by omega
      have same : first i = second i := before 0 (by omega)
      rw [if_neg (not_not.mpr same), shift k]
      apply ih
      · omega
      · rw [← shift]
        exact differ
      · intro j less
        rw [← shift]
        exact before (j + 1) (by omega)

theorem FirstDifference.memcmp_eq {first second : Nat → Byte} {count k : Nat} (found : FirstDifference first second count k) :
    memcmp first second count = (first k).toInt - (second k).toInt := by
  have main := memcmpLoop_differs (i := 0) 0#8 0#8 found.1 (by simpa using found.2.1) (by simpa using found.2.2)
  simpa [memcmp] using main

theorem FirstDifference.unique {first second : Nat → Byte} {count k l : Nat} (here : FirstDifference first second count k)
    (there : FirstDifference first second count l) : k = l := by
  rcases Nat.lt_trichotomy k l with less | same | more
  · exact absurd (there.2.2 k less) here.2.1
  · exact same
  · exact absurd (here.2.2 l more) there.2.1

theorem exists_firstDifference {first second : Nat → Byte} {count : Nat} (differ : ¬ ∀ k < count, first k = second k) :
    ∃ k, FirstDifference first second count k := by
  have found : ∃ k, k < count ∧ first k ≠ second k := by
    push Not at differ
    exact differ
  obtain ⟨inside, unequal⟩ := Nat.find_spec found
  refine ⟨Nat.find found, inside, unequal, fun j less => ?_⟩
  by_contra other
  exact Nat.find_min found less ⟨by omega, other⟩

/-- The signed order of two bytes is the unsigned one within each half of their range, and the reverse across. -/
theorem toInt_lt_iff_of_msb_eq {a b : Byte} (half : a.msb = b.msb) : a.toInt < b.toInt ↔ a < b := by
  rw [BitVec.toInt_eq_msb_cond, BitVec.toInt_eq_msb_cond, half, BitVec.lt_def]
  split <;> omega

theorem toInt_lt_iff_of_msb_ne {a b : Byte} (halves : a.msb ≠ b.msb) : a.toInt < b.toInt ↔ b < a := by
  have sizeA := a.isLt
  have sizeB := b.isLt
  rw [BitVec.msb_eq_decide, BitVec.msb_eq_decide, Ne, decide_eq_decide] at halves
  rw [BitVec.toInt_eq_toNat_cond, BitVec.toInt_eq_toNat_cond, BitVec.lt_def]
  split <;> split <;> omega

/-- What the comment above `memcmp` promises of its result. -/
structure UnsignedOrder (first second : Nat → Byte) (count : Nat) (result : Int) : Prop where
  equal : result = 0 ↔ ∀ k < count, first k = second k
  less : result < 0 ↔ ∃ k, FirstDifference first second count k ∧ first k < second k
  greater : 0 < result ↔ ∃ k, FirstDifference first second count k ∧ second k < first k

/-- The bytes are compared as signed characters, which agrees with the unsigned
order exactly if the first two that differ lie in the same half of the range. -/
theorem memcmp_unsigned_iff (first second : Nat → Byte) (count : Nat) :
    UnsignedOrder first second count (memcmp first second count) ↔
      ∀ k, FirstDifference first second count k → (first k).msb = (second k).msb := by
  constructor
  · intro order k found
    by_contra halves
    have value := found.memcmp_eq
    have ordered : first k < second k ∨ second k < first k := by
      have ne := found.2.1
      bv_omega
    rcases ordered with below | above
    · have negative := order.less.mpr ⟨k, found, below⟩
      have reversed := (toInt_lt_iff_of_msb_ne (Ne.symm halves)).mpr below
      omega
    · have positive := order.greater.mpr ⟨k, found, above⟩
      have reversed := (toInt_lt_iff_of_msb_ne halves).mpr above
      omega
  · intro half
    by_cases same : ∀ k < count, first k = second k
    · have zero := (memcmp_eq_zero first second count).mpr same
      have nowhere (k : Nat) : ¬ FirstDifference first second count k := fun found => found.2.1 (same k found.1)
      exact ⟨memcmp_eq_zero first second count, by simp [zero, nowhere], by simp [zero, nowhere]⟩
    · obtain ⟨k, found⟩ := exists_firstDifference same
      have value := found.memcmp_eq
      have here (P : Nat → Prop) : (∃ l, FirstDifference first second count l ∧ P l) ↔ P k :=
        ⟨fun ⟨l, there, holds⟩ => found.unique there ▸ holds, fun holds => ⟨k, found, holds⟩⟩
      refine ⟨memcmp_eq_zero first second count, ?_, ?_⟩
      · rw [here fun l => first l < second l, ← toInt_lt_iff_of_msb_eq (half k found)]
        omega
      · rw [here fun l => second l < first l, ← toInt_lt_iff_of_msb_eq (half k found).symm]
        omega

/-- The byte 0x80 is the larger of the two, and the result is negative. -/
theorem memcmp_signed :
    memcmp (fun _ => 0x80#8) (fun _ => 0x7f#8) 1 = -255 ∧ FirstDifference (fun _ => 0x80#8) (fun _ => 0x7f#8) 1 0 ∧
      0x7f#8 < 0x80#8 ∧
      ¬ UnsignedOrder (fun _ => 0x80#8) (fun _ => 0x7f#8) 1 (memcmp (fun _ => 0x80#8) (fun _ => 0x7f#8) 1) := by
  have value : memcmp (fun _ => 0x80#8) (fun _ => 0x7f#8) 1 = -255 := by decide
  have found : FirstDifference (fun _ => 0x80#8) (fun _ => 0x7f#8) 1 0 := ⟨by decide, by decide, by omega⟩
  have above : 0x7f#8 < 0x80#8 := by decide
  refine ⟨value, found, above, fun order => ?_⟩
  have positive := order.greater.mpr ⟨0, found, above⟩
  omega

theorem memset_eq_fill (m : Mem) (dst : Addr) (c : Byte) (count : Nat) (fits : count ≤ 2 ^ 32) :
    memset m dst c count = fill m dst c count := by
  induction count generalizing m dst with
  | zero => funext x; simp [memset, fill]
  | succ count ih =>
    funext x
    simp only [memset, ih _ _ (by omega), fill, store8]
    by_cases first : x = dst
    · subst first
      simp
    · have shift : (x - (dst + 1#32)).toNat < count ↔ (x - dst).toNat < count + 1 := by bv_omega
      simp only [shift, if_neg first]

/-- Forward copying is exact as long as the destination does not start inside
the part of the source that is still to be read. -/
theorem memcpy_apply (m : Mem) (dst src x : Addr) (count : Nat) (clear : count ≤ (dst - src).toNat) :
    memcpy m dst src count x = if (x - dst).toNat < count then m (src + (x - dst)) else m x := by
  induction count generalizing m dst src with
  | zero => simp [memcpy]
  | succ count ih =>
    have distance : (dst + 1#32 - (src + 1#32)) = dst - src := by bv_omega
    rw [memcpy, ih _ _ _ (by rw [distance]; omega)]
    by_cases first : x = dst
    · subst first
      have wrapped : ¬ (x - (x + 1#32)).toNat < count := by bv_omega
      rw [if_neg wrapped]
      simp [store8]
    · have shift : (x - (dst + 1#32)).toNat < count ↔ (x - dst).toNat < count + 1 := by bv_omega
      have source : src + 1#32 + (x - (dst + 1#32)) = src + (x - dst) := by bv_omega
      simp only [shift, source, store8, if_neg first]
      by_cases inside : (x - dst).toNat < count + 1
      · have unread : ¬ src + (x - dst) = dst := by
          intro same
          rw [← eq_sub_of_add_eq' same] at clear
          omega
        simp only [if_pos inside, if_neg unread]
      · simp only [if_neg inside]

theorem memcpy_outside (m : Mem) (dst src : Addr) (count : Nat) (clear : count ≤ (dst - src).toNat) :
    Set.EqOn (memcpy m dst src count) m (span dst count)ᶜ := by
  intro x away
  rw [memcpy_apply m dst src x count clear]
  exact if_neg away

/-- Copying downwards is exact as long as the destination does not end inside the
part of the source that is still to be read. -/
theorem memcpyDown_apply (m : Mem) (dst src x : Addr) (count : Nat) (clear : count ≤ (src - dst).toNat) :
    memcpyDown m dst src count x = if (dst - x).toNat < count then m (src - (dst - x)) else m x := by
  induction count generalizing m dst src with
  | zero => simp [memcpyDown]
  | succ count ih =>
    have distance : (src - 1#32 - (dst - 1#32)) = src - dst := by bv_omega
    rw [memcpyDown, ih _ _ _ (by rw [distance]; omega)]
    by_cases first : x = dst
    · subst first
      have wrapped : ¬ (x - 1#32 - x).toNat < count := by bv_omega
      rw [if_neg wrapped]
      simp [store8]
    · have shift : (dst - 1#32 - x).toNat < count ↔ (dst - x).toNat < count + 1 := by bv_omega
      have source : src - 1#32 - (dst - 1#32 - x) = src - (dst - x) := by bv_omega
      simp only [shift, source, store8, if_neg first]
      by_cases inside : (dst - x).toNat < count + 1
      · have unread : ¬ src - (dst - x) = dst := by
          intro same
          have gap : src - dst = dst - x := by bv_omega
          rw [gap] at clear
          omega
        simp only [if_pos inside, if_neg unread]
      · simp only [if_neg inside]

theorem memcpyDown_self (m : Mem) (a : Addr) (count : Nat) : memcpyDown m a a count = m := by
  induction count generalizing m a with
  | zero => rfl
  | succ count ih =>
    have same : store8 m a (m a) = m := by
      funext x
      by_cases here : x = a
      · rw [here, store8_self]
      · rw [store8_of_ne _ _ _ _ here]
    rw [memcpyDown, same, ih]

/-- The copy is as if through a buffer, and nothing else changes. -/
structure Buffered (m m' : Mem) (dst src : Addr) (count : Nat) : Prop where
  copied : ∀ i < count, m' (dst + BitVec.ofNat 32 i) = m (src + BitVec.ofNat 32 i)
  kept : ∀ x, ¬ (x - dst).toNat < count → m' x = m x

theorem memcpy_buffered (m : Mem) (dst src : Addr) (count : Nat) (clear : count ≤ (dst - src).toNat) :
    Buffered m (memcpy m dst src count) dst src count := by
  constructor
  · intro i before
    have distance : dst + BitVec.ofNat 32 i - dst = BitVec.ofNat 32 i := by bv_omega
    have small : (BitVec.ofNat 32 i).toNat < count := by
      rw [BitVec.toNat_ofNat]
      omega
    rw [memcpy_apply m dst src _ count clear, distance, if_pos small]
  · intro x outside
    rw [memcpy_apply m dst src x count clear, if_neg outside]

/-- The reversed loop moves the bytes one place too high: it leaves the first byte of
the destination and writes the byte behind its end. -/
theorem memcpyDown_shifted (m : Mem) (dst src x : Addr) (count : Nat)
    (clear : dst = src ∨ count ≤ (src - dst).toNat) :
    memcpyDown m (dst + BitVec.ofNat 32 count) (src + BitVec.ofNat 32 count) count x =
      if (x - (dst + 1#32)).toNat < count then m (src + (x - dst)) else m x := by
  rcases clear with rfl | clear
  · have back : dst + (x - dst) = x := by bv_omega
    rw [memcpyDown_self, back, ite_self]
  · have distance : src + BitVec.ofNat 32 count - (dst + BitVec.ofNat 32 count) = src - dst := by abel
    have same : (dst + BitVec.ofNat 32 count - x).toNat < count ↔ (x - (dst + 1#32)).toNat < count := by bv_omega
    have source : src + BitVec.ofNat 32 count - (dst + BitVec.ofNat 32 count - x) = src + (x - dst) := by abel
    rw [memcpyDown_apply _ _ _ _ _ (by rw [distance]; exact clear), source]
    simp only [same]

theorem memmove_buffered_iff (m : Mem) (dst src : Addr) (count : Nat) (size : count < 2 ^ 32)
    (fitsDst : dst.toNat + count ≤ 2 ^ 32) (fitsSrc : src.toNat + count ≤ 2 ^ 32) :
    Buffered m (memmove m dst src count) dst src count ↔
      count ≤ (dst - src).toNat ∨
        m dst = m src ∧ m (dst + BitVec.ofNat 32 count) = m (src + BitVec.ofNat 32 count) := by
  unfold memmove
  split
  next clear => exact ⟨fun _ => .inl clear, fun _ => memcpy_buffered m dst src count clear⟩
  next overlap =>
    have result := fun x => memcpyDown_shifted m dst src x count (by bv_omega)
    constructor
    · intro buffered
      right
      constructor
      · have first := buffered.copied 0 (by omega)
        rw [result, if_neg (by bv_omega)] at first
        simpa using first
      · have behind := buffered.kept (dst + BitVec.ofNat 32 count) (by bv_omega)
        have written : (dst + BitVec.ofNat 32 count - (dst + 1#32)).toNat < count := by bv_omega
        have source : src + (dst + BitVec.ofNat 32 count - dst) = src + BitVec.ofNat 32 count := by bv_omega
        rw [result, if_pos written, source] at behind
        exact behind.symm
    · intro condition
      obtain ⟨first, behind⟩ := condition.resolve_left overlap
      constructor
      · intro i before
        rw [result]
        by_cases zero : i = 0
        · subst zero
          have here : ¬ (dst + BitVec.ofNat 32 0 - (dst + 1#32)).toNat < count := by bv_omega
          rw [if_neg here]
          simpa using first
        · have written : (dst + BitVec.ofNat 32 i - (dst + 1#32)).toNat < count := by bv_omega
          have source : src + (dst + BitVec.ofNat 32 i - dst) = src + BitVec.ofNat 32 i := by bv_omega
          rw [if_pos written, source]
      · intro x outside
        rw [result]
        split
        next written =>
          obtain rfl : x = dst + BitVec.ofNat 32 count := by bv_omega
          have source : src + (dst + BitVec.ofNat 32 count - dst) = src + BitVec.ofNat 32 count := by bv_omega
          rw [source]
          exact behind.symm
        next => rfl

/-- Moving a block onto itself. -/
theorem memmove_buffered_in_place :
    Buffered (fun a => a.setWidth 8) (memmove (fun a => a.setWidth 8) 4#32 4#32 2) 4#32 4#32 2 :=
  (memmove_buffered_iff _ 4#32 4#32 2 (by decide) (by decide) (by decide)).mpr (.inr ⟨rfl, rfl⟩)

/-- Moving two bytes up by one place. -/
theorem memmove_not_buffered :
    memmove (fun a => a.setWidth 8) 1#32 0#32 2 1#32 ≠ (fun a : Addr => a.setWidth 8) 0#32 ∧
      memmove (fun a => a.setWidth 8) 1#32 0#32 2 3#32 ≠ (fun a : Addr => a.setWidth 8) 3#32 := by
  decide

section Strings
variable {u : Mem}

/-- The distance to the first NUL among the next `n` bytes. -/
def nulAt (u : Mem) (a : Addr) : Nat → Option Nat
  | 0 => none
  | n + 1 => if u a = 0#8 then some 0 else (nulAt u (a + 1#32) n).map (· + 1)

/-- The bytes looked at in search of it. -/
def scanned (u : Mem) (a : Addr) : Nat → List Addr
  | 0 => []
  | n + 1 => (if u a = 0#8 then [] else scanned u (a + 1#32) n) ++ [a]

theorem nulAt_eq_some {a : Addr} {n k : Nat} (found : nulAt u a n = some k) :
    k < n ∧ u (a + BitVec.ofNat 32 k) = 0#8 ∧ ∀ j < k, u (a + BitVec.ofNat 32 j) ≠ 0#8 := by
  induction n generalizing a k with
  | zero => cases found
  | succ n ih =>
    simp only [nulAt] at found
    split at found
    next zero =>
      obtain rfl : 0 = k := by simpa using found
      exact ⟨by omega, by simpa using zero, by omega⟩
    next nonzero =>
      obtain ⟨k, later, rfl⟩ := Option.map_eq_some_iff.mp found
      obtain ⟨short, zero, first⟩ := ih later
      have shift (j : Nat) : a + BitVec.ofNat 32 (j + 1) = a + 1#32 + BitVec.ofNat 32 j := by bv_omega
      refine ⟨by omega, by rw [shift]; exact zero, ?_⟩
      intro j before
      cases j with
      | zero => simpa using nonzero
      | succ j =>
        rw [shift]
        exact first j (by omega)

theorem nulAt_eq_none {a : Addr} {n : Nat} (missing : nulAt u a n = none) : ∀ k < n, u (a + BitVec.ofNat 32 k) ≠ 0#8 := by
  induction n generalizing a with
  | zero => omega
  | succ n ih =>
    simp only [nulAt] at missing
    split at missing
    next => cases missing
    next nonzero =>
      have later := ih (Option.map_eq_none_iff.mp missing)
      intro k short
      cases k with
      | zero => simpa using nonzero
      | succ k =>
        have shift : a + BitVec.ofNat 32 (k + 1) = a + 1#32 + BitVec.ofNat 32 k := by bv_omega
        rw [shift]
        exact later k (by omega)

theorem scanned_below {sz : Word} {a : Addr} {n : Nat} (fits : a.toNat + n ≤ sz.toNat) : ∀ x ∈ scanned u a n, x < sz := by
  have bound := sz.isLt
  induction n generalizing a with
  | zero => simp [scanned]
  | succ n ih =>
    intro x member
    simp only [scanned, List.mem_append, List.mem_singleton] at member
    rcases member with member | rfl
    · split at member
      next => cases member
      next => exact ih (by bv_omega) x member
    · bv_omega

theorem nulAt_first {a : Addr} {n k : Nat} (short : k < n) (zero : u (a + BitVec.ofNat 32 k) = 0#8)
    (first : ∀ j < k, u (a + BitVec.ofNat 32 j) ≠ 0#8) : nulAt u a n = some k := by
  cases found : nulAt u a n with
  | none => exact absurd zero (nulAt_eq_none found k short)
  | some other =>
    obtain ⟨-, otherZero, otherFirst⟩ := nulAt_eq_some found
    rcases Nat.lt_trichotomy other k with less | same | more
    · exact absurd otherZero (first other less)
    · rw [same]
    · exact absurd zero (otherFirst k more)

end Strings

end OsDev.Kernel.StringLib
