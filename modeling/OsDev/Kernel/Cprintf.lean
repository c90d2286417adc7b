import OsDev.Kernel.Console

/-! What `cprintf` prints: the arguments a format asks for, how they lie on the stack, and the text they give. -/

namespace OsDev.Kernel.Cprintf
open OsDev.Machine.Memory OsDev.Machine.Program OsDev.Kernel.SpinLocks OsDev.Kernel.State OsDev.Kernel.Console

/-- An argument as the caller means it; a string is given with its bytes. -/
inductive Arg where
  | signed (value : Word)
  | unsigned (value : Word)
  | long (value : BitVec 64)
  | string (address : Addr) (bytes : List Byte)

/-- The conversion character asks for an argument of this kind. -/
def Arg.Fits : Arg → Byte → Prop
  | .signed _, d => d = ascii 'd'
  | .unsigned _, d => d = ascii 'x' ∨ d = ascii 'p'
  | .long _, d => d = ascii 'l'
  | .string _ _, d => d = ascii 's'

/-- The stack words of an argument, lowest address first. -/
def Arg.words : Arg → List Word
  | .signed value => [value]
  | .unsigned value => [value]
  | .long value => [value.setWidth 32, (value >>> 32).setWidth 32]
  | .string address _ => [address]

def signedDecimal (value : Word) : List Char :=
  if value.toInt < 0 then '-' :: Nat.toDigits 10 value.toInt.natAbs else Nat.toDigits 10 value.toInt.natAbs

/-- All sixteen hexadecimal digits, leading zeros included. -/
def sixteenDigits (value : BitVec 64) : List Char :=
  (List.range 16).map fun i => (value.toNat / 16 ^ (15 - i) % 16).digitChar

def Arg.text : Arg → List Byte
  | .signed value => (signedDecimal value).map ascii
  | .unsigned value => (Nat.toDigits 16 value.toNat).map ascii
  | .long value => cstring "0x" ++ (sixteenDigits value).map ascii
  | .string address bytes => if address = 0#32 then cstring "(null)" else bytes

/-- The format takes these arguments and prints this text. -/
inductive Prints : List Byte → List Arg → List Byte → Prop where
  | done : Prints [] [] []
  | lone : Prints [ascii '%'] [] []
  | literal {c : Byte} {rest : List Byte} {args : List Arg} {text : List Byte} (plain : c ≠ ascii '%') (inside : c ≠ 0#8)
      (later : Prints rest args text) : Prints (c :: rest) args (c :: text)
  | percent {rest : List Byte} {args : List Arg} {text : List Byte} (later : Prints rest args text) :
      Prints (ascii '%' :: ascii '%' :: rest) args (ascii '%' :: text)
  | argument {d : Byte} {arg : Arg} {rest : List Byte} {args : List Arg} {text : List Byte} (fits : arg.Fits d)
      (later : Prints rest args text) : Prints (ascii '%' :: d :: rest) (arg :: args) (arg.text ++ text)
  | unknown {d : Byte} {rest : List Byte} {args : List Arg} {text : List Byte} (other : d ∉ cstring "dxpls%")
      (inside : d ≠ 0#8) (later : Prints rest args text) :
      Prints (ascii '%' :: d :: rest) args (ascii '%' :: d :: text)

/-- The NUL-terminated string at an address. -/
def StringAt (view : Addr → Option Byte) : Addr → List Byte → Prop
  | a, [] => view a = some 0#8
  | a, b :: rest => view a = some b ∧ b ≠ 0#8 ∧ StringAt view (a + 1#32) rest

def Arg.Readable (view : Addr → Option Byte) : Arg → Prop
  | .string address bytes => address = 0#32 ∨ StringAt view address bytes
  | _ => True

/-- Where `argp` points when the format has been read. -/
def argpAfter : List Byte → Nat → Nat
  | [], argp => argp
  | [_], argp => argp
  | c :: d :: rest, argp => if c = ascii '%' then argpAfter rest (argp + width d) else argpAfter (d :: rest) argp

section Numbers

theorem low_signExtend (b : Byte) : (b.signExtend 32).setWidth 8 = b := by
  revert b
  decide +kernel

theorem low_zeroExtend (b : Byte) : (b.zeroExtend 32).setWidth 8 = b := by
  simp

theorem low_chars (bytes : List Byte) : (bytes.map (BitVec.signExtend 32)).map (BitVec.setWidth 8) = bytes := by
  rw [List.map_map]
  simp [Function.comp_def, low_signExtend]

theorem digit_char (n : Nat) (small : n < 16) : digits.getD n 0#8 = ascii n.digitChar := by
  revert n
  decide

/-- What is left after one digit takes one turn less. -/
theorem quotient_lt {base fuel x : Nat} (valid : 1 < base) (enough : x < base ^ (fuel + 1)) (more : x / base ≠ 0) :
    x / base < base ^ fuel ∧ 0 < fuel := by
  have smaller : x / base < base ^ fuel := by
    rw [Nat.div_lt_iff_lt_mul (by omega), ← Nat.pow_succ]
    exact enough
  refine ⟨smaller, Nat.pos_of_ne_zero ?_⟩
  rintro rfl
  exact more (Nat.lt_one_iff.mp smaller)

/-- The loop of `printint` gives the digits of the number, last one first. -/
theorem printintLoop_toDigits (base : Nat) (valid : 1 < base ∧ base ≤ 16) (fuel x : Nat) (enough : x < base ^ fuel)
    (positive : 0 < fuel) :
    (printintLoop base fuel x).reverse = (Nat.toDigits base x).map ascii := by
  induction fuel generalizing x with
  | zero => omega
  | succ fuel ih =>
    have digit := digit_char (x % base) (lt_of_lt_of_le (Nat.mod_lt x (by omega)) valid.2)
    rw [printintLoop, Nat.toDigits_eq_if valid.1, digit]
    by_cases last : x < base
    · rw [if_pos last, if_pos (Nat.div_eq_of_lt last), Nat.mod_eq_of_lt last]
      rfl
    · have more : x / base ≠ 0 := by
        have := Nat.div_pos (not_lt.mp last) (by omega)
        omega
      obtain ⟨smaller, left⟩ := quotient_lt valid.1 enough more
      rw [if_neg last, if_neg more, List.reverse_cons, ih _ smaller left, List.map_append]
      rfl

/-- Negation wraps at the most negative value and still gives its size. -/
theorem magnitude_eq (xx : Word) : (if xx.msb = true then (-xx).toNat else xx.toNat) = xx.toInt.natAbs := by
  have size := xx.isLt
  rw [BitVec.toInt_eq_msb_cond]
  cases negative : xx.msb with
  | false => simp
  | true =>
    have low := BitVec.msb_eq_true_iff_two_mul_ge.mp negative
    simp only [BitVec.toNat_neg, if_pos]
    omega

theorem printintChars_signed (value : Word) :
    (printintChars value 10 true).map (BitVec.setWidth 8) = (signedDecimal value).map ascii := by
  have sign : value.toInt < 0 ↔ value.msb = true := by rw [BitVec.msb_eq_toInt, decide_eq_true_iff]
  have small : value.toInt.natAbs < 10 ^ 32 := by
    have low := BitVec.le_two_mul_toInt (x := value)
    have high := BitVec.two_mul_toInt_lt (x := value)
    omega
  have main := printintLoop_toDigits 10 (by decide) 32 value.toInt.natAbs small (by decide)
  unfold printintChars signedDecimal
  simp only [Bool.true_and, magnitude_eq]
  rw [low_chars, List.reverse_append, main]
  cases negative : value.msb with
  | false =>
    have positive : ¬ value.toInt < 0 := by rw [sign, negative]; decide
    rw [if_neg positive]
    rfl
  | true =>
    have below : value.toInt < 0 := by rw [sign, negative]
    rw [if_pos below]
    rfl

theorem printintChars_unsigned (value : Word) :
    (printintChars value 16 false).map (BitVec.setWidth 8) = (Nat.toDigits 16 value.toNat).map ascii := by
  have size : value.toNat < 16 ^ 32 := lt_trans value.isLt (by decide)
  unfold printintChars
  simp only [Bool.false_and, Bool.false_eq_true, if_false, List.append_nil]
  rw [low_chars, printintLoop_toDigits 16 (by decide) 32 _ size (by decide)]

/-- The top four bits after so many shifts. -/
theorem printptrLoop_eq (count : Nat) (value : BitVec 64) :
    printptrLoop count value = (List.range count).map fun i => digits.getD ((value <<< (4 * i)) >>> 60).toNat 0#8 := by
  induction count generalizing value with
  | zero => rfl
  | succ count ih =>
    rw [printptrLoop, ih, List.range_succ_eq_map, List.map_cons, List.map_map]
    congr 1
    · simp
    · apply List.map_congr_left
      intro i _
      rw [Function.comp_apply, ← BitVec.shiftLeft_add, show 4 + 4 * i = 4 * i.succ by omega]

theorem nibble (value : BitVec 64) (i : Nat) (small : i < 16) :
    ((value <<< (4 * i)) >>> 60).toNat = value.toNat / 16 ^ (15 - i) % 16 := by
  have shift : 2 ^ 60 = 2 ^ (4 * i) * 16 ^ (15 - i) := by
    rw [show 16 = 2 ^ 4 by rfl, ← pow_mul, ← pow_add]
    congr 1
    omega
  rw [BitVec.toNat_ushiftRight, BitVec.toNat_shiftLeft, Nat.shiftLeft_eq, Nat.shiftRight_eq_div_pow,
    show 2 ^ 64 = 2 ^ 60 * 16 by rfl, Nat.mod_mul_right_div_self, shift, Nat.mul_comm value.toNat,
    Nat.mul_div_mul_left _ _ (Nat.two_pow_pos _)]

theorem printptrLoop_digits (value : BitVec 64) : printptrLoop 16 value = (sixteenDigits value).map ascii := by
  rw [printptrLoop_eq, sixteenDigits, List.map_map]
  apply List.map_congr_left
  intro i member
  rw [nibble value i (List.mem_range.mp member), digit_char _ (Nat.mod_lt _ (by decide))]
  rfl

theorem long_words (value : BitVec 64) : (value >>> 32).setWidth 32 ++ value.setWidth 32 = value := by
  apply BitVec.eq_of_toNat_eq
  have size := value.isLt
  rw [BitVec.toNat_append, BitVec.toNat_setWidth, BitVec.toNat_setWidth, BitVec.toNat_ushiftRight,
    Nat.shiftRight_eq_div_pow, ← Nat.shiftLeft_add_eq_or_of_lt (Nat.mod_lt _ (by decide)), Nat.shiftLeft_eq]
  omega

end Numbers

section Runs
variable {s : KernelState} {view : Addr → Option Byte}

theorem StringAt.byte {a : Addr} {bytes : List Byte} (text : StringAt view a bytes) :
    view (a + BitVec.ofNat 32 bytes.length) = some 0#8 ∧
      ∀ i < bytes.length, view (a + BitVec.ofNat 32 i) ≠ some 0#8 := by
  induction bytes generalizing a with
  | nil =>
    refine ⟨?_, by simp⟩
    rw [List.length_nil, BitVec.add_zero]
    exact text
  | cons b rest ih =>
    obtain ⟨here, inside, later⟩ := text
    obtain ⟨ends, before⟩ := ih later
    have next (i : Nat) : a + BitVec.ofNat 32 (i + 1) = a + 1#32 + BitVec.ofNat 32 i := by
      rw [BitVec.add_assoc, Nat.add_comm, BitVec.ofNat_add]
    refine ⟨by rw [List.length_cons, next]; exact ends, fun i bound => ?_⟩
    cases i with
    | zero =>
      rw [BitVec.add_zero, here]
      simpa using inside
    | succ i =>
      rw [next]
      exact before i (by simpa using bound)

/-- A pointer comes back to where it started after 2 ^ 32 steps, so a string that ends is shorter than that. -/
theorem StringAt.short {a : Addr} {bytes : List Byte} (text : StringAt view a bytes) : bytes.length < 2 ^ 32 := by
  obtain ⟨ends, before⟩ := text.byte
  by_contra long
  apply before (bytes.length - 2 ^ 32) (by omega)
  rw [ofNat_wraps (not_lt.mp long), ends]

theorem run_putString_text {a : Addr} {bytes : List Byte} (fuel : Nat) (enough : bytes.length < fuel)
    (text : StringAt (byteAt s) a bytes) :
    ∃ reads, (putString fuel a).run s = .ok () ((s.print (bytes.map (BitVec.signExtend 32))).noted reads) := by
  induction bytes generalizing a fuel s with
  | nil =>
    obtain ⟨fuel, rfl⟩ : ∃ more, fuel = more + 1 := ⟨fuel - 1, by omega⟩
    refine ⟨[a], ?_⟩
    rw [putString, run_bind_ok (run_vload_byte text), run_ite, if_pos rfl, List.map_nil, print_nil]
    rfl
  | cons b rest ih =>
    obtain ⟨fuel, rfl⟩ : ∃ more, fuel = more + 1 := ⟨fuel - 1, by omega⟩
    obtain ⟨here, inside, later⟩ := text
    obtain ⟨reads, ran⟩ := ih (s := (s.noted [a]).print [b.signExtend 32]) fuel (by simpa using enough) later
    refine ⟨reads ++ [a], ?_⟩
    rw [putString, run_bind_ok (run_vload_byte here), run_ite, if_neg inside, run_bind_ok (run_consputc _ _), ran]
    simp

/-- These words lie on the stack from `argp` on. -/
def Placed (words : Nat → Word) (argp : Nat) (list : List Word) : Prop := ∀ i w, list[i]? = some w → words (argp + i) = w

theorem Placed.append {words : Nat → Word} {argp : Nat} {first second : List Word} (placed : Placed words argp (first ++ second)) :
    Placed words argp first ∧ Placed words (argp + first.length) second := by
  constructor
  · intro i w found
    have bound := (List.getElem?_eq_some_iff.mp found).1
    exact placed i w (by rw [List.getElem?_append_left bound, found])
  · intro i w found
    rw [Nat.add_assoc]
    exact placed (first.length + i) w (by rw [List.getElem?_append_right (by omega), Nat.add_sub_cancel_left, found])

/-- One conversion with its argument in place. -/
theorem run_directive_arg {d : Byte} {arg : Arg} (fits : arg.Fits d) {words : Nat → Word} {argp : Nat}
    (placed : Placed words argp arg.words) (readable : arg.Readable (byteAt s)) :
    ∃ chars reads, chars.map (BitVec.setWidth 8) = arg.text ∧ width d = arg.words.length ∧
      (directive d words argp).run s = .ok (argp + width d) ((s.print chars).noted reads) := by
  cases arg with
  | signed value =>
    obtain rfl : d = ascii 'd' := fits
    have word : words argp = value := placed 0 value rfl
    refine ⟨printintChars value 10 true, [], printintChars_signed value, rfl, ?_⟩
    rw [directive, if_pos rfl, word, printint, run_bind_ok (run_putAll _ s)]
    rfl
  | unsigned value =>
    have word : words argp = value := placed 0 value rfl
    have one : width d = 1 := by rcases fits with rfl | rfl <;> rfl
    refine ⟨printintChars value 16 false, [], printintChars_unsigned value, one, ?_⟩
    have other : d ≠ ascii 'd' := by rcases fits with rfl | rfl <;> decide
    have either : d = ascii 'x' ∨ d = ascii 'p' := fits
    rw [directive, if_neg other, if_pos either, word, printint, run_bind_ok (run_putAll _ s), one]
    rfl
  | long value =>
    obtain rfl : d = ascii 'l' := fits
    have low : words argp = value.setWidth 32 := placed 0 _ rfl
    have high : words (argp + 1) = (value >>> 32).setWidth 32 := placed 1 _ rfl
    refine ⟨(cstring "0x" ++ printptrLoop 16 value).map (BitVec.signExtend 32), [], ?_, rfl, ?_⟩
    · rw [low_chars, printptrLoop_digits]
      rfl
    · rw [directive, if_neg (by decide), if_neg (by decide), if_pos rfl, low, high, long_words, printptr,
        run_bind_ok (run_putAll _ s)]
      rfl
  | string address bytes =>
    obtain rfl : d = ascii 's' := fits
    have word : words argp = address := placed 0 address rfl
    rw [directive_string, word]
    by_cases null : address = 0#32
    · refine ⟨(cstring "(null)").map (BitVec.signExtend 32), [], ?_, rfl, ?_⟩
      · rw [low_chars, Arg.text, if_pos null]
      · rw [if_pos null, run_bind_ok (run_putAll _ s)]
        rfl
    · have text : StringAt (byteAt s) address bytes := readable.resolve_left null
      obtain ⟨reads, ran⟩ := run_putString_text (2 ^ 32) text.short text
      refine ⟨bytes.map (BitVec.signExtend 32), reads, ?_, rfl, ?_⟩
      · rw [low_chars, Arg.text, if_neg null]
      · rw [if_neg null, run_bind_ok ran]
        rfl

theorem run_directive_percent (words : Nat → Word) (argp : Nat) :
    (directive (ascii '%') words argp).run s = .ok argp (s.print [(ascii '%').zeroExtend 32]) := by
  rw [directive, if_neg (by decide), if_neg (by decide), if_neg (by decide), if_neg (by decide), if_pos rfl,
    run_bind_ok (run_consputc _ s)]
  rfl

theorem run_directive_unknown {d : Byte} (other : d ∉ cstring "dxpls%") (words : Nat → Word) (argp : Nat) :
    width d = 0 ∧ (directive d words argp).run s = .ok argp (s.print [(ascii '%').zeroExtend 32, d.zeroExtend 32]) := by
  have apart : d ≠ ascii 'd' ∧ d ≠ ascii 'x' ∧ d ≠ ascii 'p' ∧ d ≠ ascii 'l' ∧ d ≠ ascii 's' ∧ d ≠ ascii '%' := by
    simpa [cstring] using other
  obtain ⟨notD, notX, notP, notL, notS, notPercent⟩ := apart
  constructor
  · simp [width, notD, notX, notP, notL, notS]
  · rw [directive, if_neg notD, if_neg (by simp [notX, notP]), if_neg notL, if_neg notS, if_neg notPercent,
      run_bind_ok (run_consputc _ s), run_bind_ok (run_consputc _ _), print_print]
    rfl

theorem cprintfLoop_literal {c : Byte} (plain : c ≠ ascii '%') (words : Nat → Word) (rest : List Byte) (argp : Nat) :
    (cprintfLoop words (c :: rest) argp).run s = (cprintfLoop words rest argp).run (s.print [c.zeroExtend 32]) ∧
      argpAfter (c :: rest) argp = argpAfter rest argp := by
  cases rest with
  | nil => simp [cprintfLoop, argpAfter, plain]
  | cons d rest =>
    rw [cprintfLoop, argpAfter, if_neg plain, if_neg plain, run_bind_ok (run_consputc _ s)]
    exact ⟨rfl, rfl⟩

theorem cprintfLoop_conversion {d : Byte} {words : Nat → Word} {argp argp' : Nat} {t : KernelState}
    (ran : (directive d words argp).run s = .ok argp' t) (rest : List Byte) :
    (cprintfLoop words (ascii '%' :: d :: rest) argp).run s = (cprintfLoop words rest argp').run t := by
  rw [cprintfLoop, if_pos rfl, run_bind_ok ran]

theorem run_cprintfLoop_prints {fmt : List Byte} {args : List Arg} {text : List Byte} (prints : Prints fmt args text)
    {words : Nat → Word} {argp : Nat} (placed : Placed words argp (args.flatMap Arg.words))
    (readable : ∀ arg ∈ args, arg.Readable (byteAt s)) :
    ∃ chars reads, chars.map (BitVec.setWidth 8) = text ∧ argpAfter fmt argp = argp + (args.flatMap Arg.words).length ∧
      (cprintfLoop words fmt argp).run s = .ok () ((s.print chars).noted reads) := by
  induction prints generalizing argp s with
  | done => exact ⟨[], [], rfl, rfl, by simp [cprintfLoop, print_nil, noted_nil]⟩
  | lone => exact ⟨[], [], rfl, rfl, by simp [cprintfLoop, print_nil, noted_nil]⟩
  | @literal c rest args text plain inside later ih =>
    obtain ⟨chars, reads, low, ends, ran⟩ := ih (s := s.print [c.zeroExtend 32]) placed readable
    obtain ⟨step, argps⟩ := cprintfLoop_literal (s := s) plain words rest argp
    refine ⟨c.zeroExtend 32 :: chars, reads, ?_, argps.trans ends, ?_⟩
    · rw [List.map_cons, low, low_zeroExtend]
    · rw [step, ran, print_print]
      rfl
  | @percent rest args text later ih =>
    obtain ⟨chars, reads, low, ends, ran⟩ := ih (s := s.print [(ascii '%').zeroExtend 32]) placed readable
    refine ⟨(ascii '%').zeroExtend 32 :: chars, reads, ?_, ?_, ?_⟩
    · rw [List.map_cons, low, low_zeroExtend]
    · rw [argpAfter, if_pos rfl]
      exact ends
    · rw [cprintfLoop_conversion (run_directive_percent words argp), ran, print_print]
      rfl
  | @argument d arg rest args text fits later ih =>
    rw [List.flatMap_cons] at placed ⊢
    obtain ⟨here, after⟩ := placed.append
    obtain ⟨first, reads, lowFirst, taken, conversion⟩ := run_directive_arg fits here (readable arg (by simp))
    rw [taken] at conversion
    obtain ⟨chars, more, low, ends, ran⟩ := ih (s := (s.print first).noted reads) after
      (fun other member => readable other (List.mem_cons_of_mem arg member))
    refine ⟨first ++ chars, more ++ reads, ?_, ?_, ?_⟩
    · rw [List.map_append, lowFirst, low]
    · rw [argpAfter, if_pos rfl, taken, ends, List.length_append, Nat.add_assoc]
    · rw [cprintfLoop_conversion conversion, ran]
      simp
  | @unknown d rest args text other inside later ih =>
    obtain ⟨width, conversion⟩ := run_directive_unknown (s := s) other words argp
    obtain ⟨chars, reads, low, ends, ran⟩ := ih (s := s.print [(ascii '%').zeroExtend 32, d.zeroExtend 32]) placed readable
    refine ⟨(ascii '%').zeroExtend 32 :: d.zeroExtend 32 :: chars, reads, ?_, ?_, ?_⟩
    · rw [List.map_cons, List.map_cons, low, low_zeroExtend, low_zeroExtend]
    · rw [argpAfter, if_pos rfl, width]
      exact ends
    · rw [cprintfLoop_conversion conversion, ran, print_print]
      rfl

theorem placed_stack (list extra : List Word) : Placed (stackWords (list ++ extra)) 0 list := by
  intro i w found
  have bound := (List.getElem?_eq_some_iff.mp found).1
  rw [Nat.zero_add, stackWords, List.getD_eq_getElem?_getD, List.getElem?_append_left bound, found]
  rfl

/-- The processor once the console lock has been given back, if it was taken. -/
def consoleCpu (s : KernelState) : Processor := if s.consLocking then setLock .cons unlocked (settle s.cpu) else s.cpu

theorem consoleCpu_locked (s : KernelState) (free : s.consLocking = true → (s.cpu.locks .cons).locked = 0#32) (lk : LockId) :
    ((consoleCpu s).locks lk).locked = (s.cpu.locks lk).locked := by
  rw [consoleCpu]
  split
  next locking =>
    by_cases same : lk = .cons
    · rw [same, free locking]
      exact congrArg Spinlock.locked (setLock_self .cons unlocked (settle s.cpu))
    · exact congrArg Spinlock.locked (setLock_other .cons lk unlocked (settle s.cpu) same)
  next => rfl

theorem consoleCpu_flIf (s : KernelState) : (consoleCpu s).flIf = s.cpu.flIf := by
  rw [consoleCpu]
  split <;> rfl

theorem consoleCpu_ncli (s : KernelState) : (consoleCpu s).ncli = s.cpu.ncli := by
  rw [consoleCpu]
  split <;> rfl

theorem run_cprintf_text {fmt : String} {args : List Arg} {text : List Byte} (prints : Prints (cstring fmt) args text)
    (extra : List Word) (s : KernelState) (readable : ∀ arg ∈ args, arg.Readable (byteAt s)) (calm : Calm s.cpu)
    (free : s.consLocking = true → (s.cpu.locks .cons).locked = 0#32) :
    ∃ chars reads, chars.map (BitVec.setWidth 8) = text ∧
      argpAfter (cstring fmt) 0 = 0 + (args.flatMap Arg.words).length ∧
      (cprintf fmt (args.flatMap Arg.words ++ extra)).run s =
        .ok () (((s.print chars).noted reads).setCpu (consoleCpu s)) := by
  have loop (u : KernelState) (same : byteAt u = byteAt s) := run_cprintfLoop_prints (s := u) prints
    (placed_stack (args.flatMap Arg.words) extra) (by rw [same]; exact readable)
  unfold cprintf consoleCpu
  rw [run_bind_ok (EStateM.run_get s)]
  cases locking : s.consLocking with
  | false =>
    obtain ⟨chars, reads, low, ends, ran⟩ := loop s rfl
    refine ⟨chars, reads, low, ends, ?_⟩
    simp [ran]
    rfl
  | true =>
    obtain ⟨inside, enter, leave⟩ := run_section .cons s.cpu calm (free locking)
    obtain ⟨chars, reads, low, ends, ran⟩ := loop (s.setCpu inside) rfl
    have last := run_onCpu_ok (s := ((s.setCpu inside).print chars).noted reads) leave
    simp only [print_put, noted_put] at ran last
    refine ⟨chars, reads, low, ends, ?_⟩
    simp [run_onCpu_ok enter, ran, last]
    rfl

/-- `cprintf` prints the text of the format with the arguments that lie behind it, whatever comes after them, and
gives the console lock back. -/
theorem cprintf_prints (fmt : String) (args : List Arg) (text : List Byte) (prints : Prints (cstring fmt) args text)
    (extra : List Word) (s : KernelState) (readable : ∀ arg ∈ args, arg.Readable (byteAt s)) (calm : Calm s.cpu)
    (free : s.consLocking = true → (s.cpu.locks .cons).locked = 0#32) :
    ∃ t chars, (cprintf fmt (args.flatMap Arg.words ++ extra)).run s = .ok () t ∧ t.console = s.console ++ chars ∧
      chars.map (BitVec.setWidth 8) = text ∧ argpAfter (cstring fmt) 0 = (args.flatMap Arg.words).length ∧
      (∀ lk, (t.cpu.locks lk).locked = (s.cpu.locks lk).locked) ∧ t.cpu.flIf = s.cpu.flIf ∧ t.cpu.ncli = s.cpu.ncli := by
  obtain ⟨chars, reads, low, ends, ran⟩ := run_cprintf_text prints extra s readable calm free
  exact ⟨_, chars, ran, rfl, low, by simpa using ends, consoleCpu_locked s free, consoleCpu_flIf s, consoleCpu_ncli s⟩

/-- The smallest int, a long, a null string, a percent sign, an unknown conversion and a lone percent sign. -/
theorem cprintf_prints_mixed :
    ∃ (t : KernelState) (chars : List Word), (cprintf "%d %l%s%%%q%" ([0x80000000#32, 2#32, 1#32, 0#32] ++ [7#32])).run
        { boot (fun _ => 0#8) 0x80102000#32 with consLocking := true } = .ok () t ∧ t.console = [] ++ chars ∧
      chars.map (BitVec.setWidth 8) = cstring "-2147483648 0x0000000100000002(null)%%q" ∧
      (t.cpu.locks .cons).locked = 0#32 := by
  obtain ⟨t, chars, ran, console, low, -, locks, -⟩ := cprintf_prints "%d %l%s%%%q%"
    [.signed 0x80000000#32, .long 0x100000002#64, .string 0#32 []] _
    (.argument rfl (.literal (by decide) (by decide) (.argument rfl (.argument rfl (.percent
      (.unknown (by decide) (by decide) .lone))))))
    [7#32] { boot (fun _ => 0#8) 0x80102000#32 with consLocking := true } (by simp [Arg.Readable])
    (boot_quiet (fun _ => 0#8) 0x80102000#32).toCalm (fun _ => rfl)
  exact ⟨t, chars, ran, console, low.trans (by decide +kernel), locks .cons⟩

end Runs

end OsDev.Kernel.Cprintf
