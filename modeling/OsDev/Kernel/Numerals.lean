import OsDev.Kernel.Cprintf

/-! The numerals of kernel/drivers/screen.c: `printint` with the sixteen bytes it
collects its digits in, and a reader that gives the printed number back. -/

namespace OsDev.Kernel.Numerals
open OsDev.Machine.Memory OsDev.Machine.Program OsDev.Kernel.State OsDev.Kernel.Console OsDev.Kernel.Cprintf

/-- `buf[i++] = c`; an index outside the buffer is an error. -/
def store (buf : Vector Byte 16) (i : Nat) (c : Byte) : Option (Vector Byte 16 × Nat) :=
  if inside : i < 16 then some (buf.set i c inside, i + 1) else none

def digitLoop (base : Nat) : Nat → Nat → Vector Byte 16 → Nat → Option (Vector Byte 16 × Nat)
  | 0, _, _, _ => none
  | fuel + 1, x, buf, i => do
      let (buf, i) ← store buf i (digits.getD (x % base) 0#8)
      if x / base ≠ 0 then digitLoop base fuel (x / base) buf i else return (buf, i)

/-- `while(--i >= 0) consputc(buf[i])`, as the characters it puts. -/
def emitLoop (buf : Vector Byte 16) : Nat → Option (List Byte)
  | 0 => some []
  | i + 1 => do
      let c ← buf[i]?
      let rest ← emitLoop buf i
      return c :: rest

/-- `printint` with its buffer, whatever that holds at first. A value of 32 bits has at most 32 digits. -/
def printintBuf (buf : Vector Byte 16) (xx : Word) (base : Nat) (sign : Bool) : Option (List Byte) := do
  let negative := sign && xx.msb
  let x := if negative then (-xx).toNat else xx.toNat
  let (buf, i) ← digitLoop base 32 x buf 0
  let (buf, i) ← if negative then store buf i (ascii '-') else some (buf, i)
  emitLoop buf i

section Buffer
variable (buf : Vector Byte 16)

theorem store_eq (i : Nat) (c : Byte) (inside : i < 16) :
    ∃ next, store buf i c = some (next, i + 1) ∧ next.toList.take (i + 1) = buf.toList.take i ++ [c] := by
  refine ⟨buf.set i c inside, dif_pos inside, ?_⟩
  rw [Vector.toList_set, List.take_add_one, List.take_set_of_le (le_refl i)]
  simp [inside]

theorem digitLoop_eq (base : Nat) (valid : 1 < base) (fuel x i : Nat) (enough : x < base ^ fuel) (positive : 0 < fuel)
    (room : i + (printintLoop base fuel x).length ≤ 16) :
    ∃ next, digitLoop base fuel x buf i = .some (next, i + (printintLoop base fuel x).length) ∧
      next.toList.take (i + (printintLoop base fuel x).length) = buf.toList.take i ++ printintLoop base fuel x := by
  induction fuel generalizing buf x i with
  | zero => omega
  | succ fuel ih =>
    rw [digitLoop]
    rw [printintLoop] at room ⊢
    obtain ⟨next, stored, held⟩ := store_eq buf i (digits.getD (x % base) 0#8) (by rw [List.length_cons] at room; omega)
    rw [stored]
    by_cases last : x / base = 0
    · rw [if_pos last]
      exact ⟨next, by simp [last], held⟩
    · obtain ⟨smaller, left⟩ := quotient_lt valid enough last
      have longer (rest : List Byte) : i + (digits.getD (x % base) 0#8 :: rest).length = i + 1 + rest.length := by
        rw [List.length_cons]
        omega
      rw [if_neg last, longer] at room ⊢
      obtain ⟨final, ran, text⟩ := ih next (x / base) (i + 1) smaller left room
      refine ⟨final, by simpa [last] using ran, ?_⟩
      rw [text, held, List.append_assoc]
      rfl

theorem emitLoop_eq (i : Nat) (inside : i ≤ 16) : emitLoop buf i = some (buf.toList.take i).reverse := by
  induction i with
  | zero => rfl
  | succ i ih =>
    have here : buf[i]? = some buf[i] := Vector.getElem?_eq_getElem inside
    rw [emitLoop, here, ih (by omega), List.take_add_one]
    simp [here]

end Buffer

section Reading

/-- The number a digit stands for, by its place in the table that prints it. -/
def digitValue (c : Byte) : Nat := digits.idxOf c

/-- The number a text of digits stands for. -/
def readNumeral (base : Nat) (text : List Byte) : Nat := text.foldl (fun value c => value * base + digitValue c) 0

/-- A numeral as it is written by hand: lower-case digits of the base, no leading zero. -/
structure Canonical (base : Nat) (text : List Byte) (value : Nat) : Prop where
  nonempty : text ≠ []
  lower : ∀ c ∈ text, c ∈ digits.take base
  leading : text.head? = some (ascii '0') → text = [ascii '0']
  reads : readNumeral base text = value

def readSigned (text : List Byte) : Int :=
  if text.head? = some (ascii '-') then -(readNumeral 10 text.tail : Int) else readNumeral 10 text

structure SignedCanonical (text : List Byte) (value : Int) : Prop where
  minus : text.head? = some (ascii '-') ↔ value < 0
  magnitude : Canonical 10 (if value < 0 then text.tail else text) value.natAbs
  reads : readSigned text = value

theorem readNumeral_snoc (base : Nat) (text : List Byte) (c : Byte) :
    readNumeral base (text ++ [c]) = readNumeral base text * base + digitValue c := by
  rw [readNumeral, List.foldl_append]
  rfl

theorem readNumeral_zero (base : Nat) : readNumeral base [ascii '0'] = 0 := by
  have value := readNumeral_snoc base [] (ascii '0')
  rw [show readNumeral base [] = 0 by rfl, Nat.zero_mul] at value
  exact value.trans (by decide)

theorem digitValue_getD (d : Nat) (small : d < 16) : digitValue (digits.getD d 0#8) = d := by
  revert d
  decide

theorem getD_mem_take (base d : Nat) (less : d < base) (valid : base ≤ 16) : digits.getD d 0#8 ∈ digits.take base := by
  have length : digits.length = 16 := rfl
  rw [List.getD_eq_getElem _ _ (by omega), List.mem_take_iff_getElem]
  exact ⟨d, by omega, rfl⟩

/-- One more digit keeps a numeral canonical, as long as the number before it is not zero. -/
theorem Canonical.snoc {base value d : Nat} {text : List Byte} (canonical : Canonical base text value) (positive : value ≠ 0)
    (less : d < base) (valid : base ≤ 16) : Canonical base (text ++ [digits.getD d 0#8]) (value * base + d) := by
  constructor
  case nonempty => simp
  case lower =>
    intro c member
    rcases List.mem_append.mp member with earlier | last
    · exact canonical.lower c earlier
    · rw [List.mem_singleton.mp last]
      exact getD_mem_take base d less valid
  case leading =>
    intro zero
    rw [List.head?_append_of_ne_nil _ canonical.nonempty] at zero
    have reads := canonical.reads
    rw [canonical.leading zero, readNumeral_zero] at reads
    exact absurd reads.symm positive
  case reads => rw [readNumeral_snoc, canonical.reads, digitValue_getD d (by omega)]

theorem canonical_digit {base d : Nat} (less : d < base) (valid : base ≤ 16) : Canonical base [digits.getD d 0#8] d := by
  constructor
  case nonempty => simp
  case lower => simpa using getD_mem_take base d less valid
  case leading =>
    intro zero
    rw [Option.some.inj zero]
  case reads =>
    have value := readNumeral_snoc base [] (digits.getD d 0#8)
    rw [digitValue_getD d (by omega)] at value
    simpa [readNumeral] using value

/-- The digits that `printint` collects, read from the last one back. -/
theorem printintLoop_canonical {base : Nat} (valid : 1 < base ∧ base ≤ 16) (fuel x : Nat) (enough : x < base ^ fuel)
    (positive : 0 < fuel) : Canonical base (printintLoop base fuel x).reverse x := by
  induction fuel generalizing x with
  | zero => omega
  | succ fuel ih =>
    have digit : x % base < base := Nat.mod_lt x (by omega)
    rw [printintLoop, List.reverse_cons]
    by_cases last : x / base = 0
    · have whole : x % base = x := Nat.mod_eq_of_lt ((Nat.div_eq_zero_iff_lt (by omega)).mp last)
      rw [if_pos last, whole]
      exact canonical_digit (whole ▸ digit) valid.2
    · obtain ⟨smaller, left⟩ := quotient_lt valid.1 enough last
      have main := (ih (x / base) smaller left).snoc last digit valid.2
      rw [if_neg last]
      rwa [Nat.div_add_mod' x base] at main

theorem printintLoop_length {base : Nat} (valid : 1 < base) (fuel x count : Nat) (enough : x < base ^ count)
    (positive : 0 < count) :
    (printintLoop base fuel x).length ≤ count := by
  induction fuel generalizing x count with
  | zero => exact Nat.zero_le count
  | succ fuel ih =>
    obtain ⟨count, rfl⟩ := Nat.exists_eq_succ_of_ne_zero (by omega : count ≠ 0)
    rw [printintLoop, List.length_cons]
    by_cases last : x / base = 0
    · rw [if_pos last, List.length_nil]
      omega
    · obtain ⟨smaller, left⟩ := quotient_lt valid enough last
      have shorter := ih (x / base) count smaller left
      rw [if_neg last]
      omega

end Reading

section Printing

theorem magnitude_le (xx : Word) : xx.toInt.natAbs < 10 ^ 10 := by
  have low := BitVec.le_two_mul_toInt (x := xx)
  have high := BitVec.two_mul_toInt_lt (x := xx)
  omega

/-- The buffer is large enough for the digits and a sign, and what is taken from it is what was put in. -/
theorem printintBuf_eq (buf : Vector Byte 16) (xx : Word) (base : Nat) (sign : Bool) (valid : 1 < base)
    (short : (if (sign && xx.msb) = true then (-xx).toNat else xx.toNat) < base ^ 10) :
    printintBuf buf xx base sign = some ((printintLoop base 32 (if (sign && xx.msb) = true then (-xx).toNat else xx.toNat) ++
      if (sign && xx.msb) = true then [ascii '-'] else []).reverse) := by
  unfold printintBuf
  dsimp only
  generalize (if (sign && xx.msb) = true then (-xx).toNat else xx.toNat) = x at short ⊢
  have length := printintLoop_length valid 32 x 10 short (by decide)
  have enough : x < base ^ 32 := lt_of_lt_of_le short (Nat.pow_le_pow_right (by omega) (by decide))
  obtain ⟨held, ran, text⟩ := digitLoop_eq buf base valid 32 x 0 enough (by decide) (by omega)
  rw [Nat.zero_add] at ran text
  rw [ran]
  cases sign && xx.msb with
  | true =>
    obtain ⟨next, stored, final⟩ := store_eq held (printintLoop base 32 x).length (ascii '-') (by omega)
    simp only [Option.bind_eq_bind, Option.bind_some, if_true, stored]
    rw [emitLoop_eq next _ (by omega), final, text]
    rfl
  | false =>
    simp only [Option.bind_eq_bind, Option.bind_some, Bool.false_eq_true, if_false, List.append_nil]
    rw [emitLoop_eq held _ (by omega), text]
    rfl

theorem signed_canonical (xx : Word) :
    SignedCanonical (printintLoop 10 32 xx.toInt.natAbs ++ if xx.toInt < 0 then [ascii '-'] else []).reverse xx.toInt := by
  have canonical : Canonical 10 (printintLoop 10 32 xx.toInt.natAbs).reverse xx.toInt.natAbs :=
    printintLoop_canonical (by decide) 32 _ (lt_trans (magnitude_le xx) (by decide)) (by decide)
  rw [List.reverse_append]
  by_cases negative : xx.toInt < 0
  · rw [if_pos negative]
    constructor
    case minus => simp [negative]
    case magnitude =>
      rw [if_pos negative]
      exact canonical
    case reads =>
      have value : readNumeral 10 (printintLoop 10 32 xx.toInt.natAbs).reverse = xx.toInt.natAbs := canonical.reads
      rw [readSigned, if_pos (by rfl)]
      change -((readNumeral 10 (printintLoop 10 32 xx.toInt.natAbs).reverse : Nat) : Int) = _
      rw [value]
      omega
  · -- A minus sign is not a digit.
    have digit : (printintLoop 10 32 xx.toInt.natAbs).reverse.head? ≠ some (ascii '-') := by
      intro minus
      exact absurd (canonical.lower _ (List.mem_of_mem_head? minus)) (by decide)
    rw [if_neg negative, List.reverse_nil, List.nil_append]
    constructor
    case minus => exact ⟨fun minus => absurd minus digit, fun below => absurd below negative⟩
    case magnitude =>
      rw [if_neg negative]
      exact canonical
    case reads =>
      rw [readSigned, if_neg digit, canonical.reads]
      omega

/-- `printint` shows this text, and collects it without leaving its buffer. -/
structure Shows (s : KernelState) (buf : Vector Byte 16) (xx : Word) (base : Nat) (sign : Bool) (text : List Byte) : Prop where
  collected : printintBuf buf xx base sign = some text
  run : (printint xx base sign).run s = .ok () (s.print (text.map (BitVec.signExtend 32)))

theorem printint_shows (s : KernelState) (buf : Vector Byte 16) (xx : Word) (base : Nat) (sign : Bool) (valid : 1 < base)
    (short : (if (sign && xx.msb) = true then (-xx).toNat else xx.toNat) < base ^ 10) :
    Shows s buf xx base sign (printintLoop base 32 (if (sign && xx.msb) = true then (-xx).toNat else xx.toNat) ++
      if (sign && xx.msb) = true then [ascii '-'] else []).reverse :=
  ⟨printintBuf_eq buf xx base sign valid short, run_putAll _ s⟩

theorem decimal_shows (s : KernelState) (buf : Vector Byte 16) (xx : Word) :
    ∃ text, Shows s buf xx 10 true text ∧ SignedCanonical text xx.toInt := by
  have sign : xx.msb = true ↔ xx.toInt < 0 := by rw [BitVec.msb_eq_toInt, decide_eq_true_iff]
  have short : (if (true && xx.msb) = true then (-xx).toNat else xx.toNat) < 10 ^ 10 := by
    rw [Bool.true_and, magnitude_eq]
    exact magnitude_le xx
  have shows := printint_shows s buf xx 10 true (by decide) short
  simp only [Bool.true_and, magnitude_eq] at shows
  simp only [sign] at shows
  exact ⟨_, shows, signed_canonical xx⟩

theorem hexadecimal_shows (s : KernelState) (buf : Vector Byte 16) (xx : Word) :
    ∃ text, Shows s buf xx 16 false text ∧ Canonical 16 text xx.toNat := by
  have short : (if (false && xx.msb) = true then (-xx).toNat else xx.toNat) < 16 ^ 10 := lt_trans xx.isLt (by decide)
  have shows := printint_shows s buf xx 16 false (by decide) short
  simp only [Bool.false_and, Bool.false_eq_true, if_false, List.append_nil] at shows
  exact ⟨_, shows, printintLoop_canonical (by decide) 32 _ (lt_trans xx.isLt (by decide)) (by decide)⟩

/-- The digits of an address, read one after the other: each brings four more bits. -/
theorem readNumeral_nibbles (x count : Nat) (fits : x < 16 ^ 16) (short : count ≤ 16) :
    readNumeral 16 ((List.range count).map fun i => digits.getD (x / 16 ^ (15 - i) % 16) 0#8) = x / 16 ^ (16 - count) := by
  induction count with
  | zero => exact (Nat.div_eq_of_lt fits).symm
  | succ count ih =>
    have before : x / 16 ^ (16 - count) = x / 16 ^ (15 - count) / 16 := by
      rw [Nat.div_div_eq_div_mul, ← Nat.pow_succ, show (15 - count).succ = 16 - count by omega]
    calc readNumeral 16 ((List.range (count + 1)).map fun i => digits.getD (x / 16 ^ (15 - i) % 16) 0#8)
        = x / 16 ^ (16 - count) * 16 + x / 16 ^ (15 - count) % 16 := by
          rw [List.range_succ, List.map_append, List.map_singleton, readNumeral_snoc, ih (by omega),
            digitValue_getD _ (Nat.mod_lt _ (by decide))]
      _ = x / 16 ^ (16 - (count + 1)) := by
          rw [before, Nat.div_add_mod', show 16 - (count + 1) = 15 - count by omega]

theorem printptrLoop_nibbles (x : BitVec 64) :
    printptrLoop 16 x = (List.range 16).map fun i => digits.getD (x.toNat / 16 ^ (15 - i) % 16) 0#8 := by
  rw [printptrLoop_eq]
  apply List.map_congr_left
  intro i member
  rw [nibble x i (List.mem_range.mp member)]

end Printing

/-- Sixteen hexadecimal digits that stand for this address. -/
structure PointerDigits (text : List Byte) (x : BitVec 64) : Prop where
  length : text.length = 16
  lower : ∀ c ∈ text, c ∈ digits
  reads : readNumeral 16 text = x.toNat

theorem printptrLoop_reads (x : BitVec 64) : PointerDigits (printptrLoop 16 x) x := by
  rw [printptrLoop_nibbles]
  constructor
  case length => simp
  case lower =>
    intro c member
    obtain ⟨i, -, rfl⟩ := List.mem_map.mp member
    exact List.mem_of_mem_take (getD_mem_take 16 _ (Nat.mod_lt _ (by decide)) (by decide))
  case reads =>
    rw [readNumeral_nibbles x.toNat 16 x.isLt (by decide)]
    exact Nat.div_one _

/-- What the console shows for a number reads back to it. The digits never leave the buffer of `printint`, whatever was in it. -/
theorem numerals_read_back (s : KernelState) (buf : Vector Byte 16) (xx : Word) (x : BitVec 64) :
    (∃ text, Shows s buf xx 10 true text ∧ SignedCanonical text xx.toInt) ∧
      (∃ text, Shows s buf xx 16 false text ∧ Canonical 16 text xx.toNat) ∧
      ∃ text, (printptr x).run s = .ok () (s.print ((cstring "0x" ++ text).map (BitVec.signExtend 32))) ∧ PointerDigits text x :=
  ⟨decimal_shows s buf xx, hexadecimal_shows s buf xx, printptrLoop 16 x, run_putAll _ s, printptrLoop_reads x⟩

example : printintBuf (Vector.replicate 16 0#8) 0x80000000#32 10 true = some (cstring "-2147483648") := by decide

end OsDev.Kernel.Numerals
