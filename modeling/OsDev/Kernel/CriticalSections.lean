import OsDev.Kernel.LockSteps

/-! Balanced sequences of calls into kernel/spinlock.c: every `pushcli` is matched by a `popcli` and every
`acquire` by a `release`, in any order, with `holding` and `myproc` anywhere in between. -/

namespace OsDev.Kernel.CriticalSections
open OsDev.Machine.Memory OsDev.Machine.Program OsDev.Kernel.SpinLocks OsDev.Kernel.LockSteps

inductive Op where
  | pushcli
  | popcli
  | acquire (lk : LockId)
  | release (lk : LockId)
  | holding (lk : LockId)
  | myproc
  deriving DecidableEq

def Op.code : Op → List Instr
  | .pushcli => pushcliCode
  | .popcli => popcliCode
  | .acquire lk => acquireCode lk
  | .release lk => releaseCode lk
  | .holding lk => holdingCode lk
  | .myproc => myprocCode

def codeOf (word : List Op) : List Instr := word.flatMap Op.code

/-- What is left to do when so many `pushcli` are open and these locks, free in `p`, are held. -/
def Balanced (p : Processor) : Nat → Finset LockId → List Op → Prop
  | opened, held, [] => opened = 0 ∧ held = ∅
  | opened, held, .pushcli :: word => Balanced p (opened + 1) held word
  | opened, held, .popcli :: word => 1 ≤ opened ∧ Balanced p (opened - 1) held word
  | opened, held, .acquire lk :: word => lk ∉ held ∧ (p.locks lk).locked = 0#32 ∧ Balanced p opened (insert lk held) word
  | opened, held, .release lk :: word => lk ∈ held ∧ Balanced p opened (held.erase lk) word
  | opened, held, .holding _ :: word => Balanced p opened held word
  | opened, held, .myproc :: word => Balanced p opened held word

/-- How many brackets are open after a call. -/
def Op.level (level : Nat) : Op → Nat
  | .pushcli | .acquire _ => level + 1
  | .popcli | .release _ => level - 1
  | .holding _ | .myproc => level

/-- The most brackets that are open at once. -/
def nesting : Nat → List Op → Nat
  | level, [] => level
  | level, op :: word => max level (nesting (op.level level) word)

section Trail

/-- The states between two instructions, up to where the code stops. -/
def trail : List Instr → View → List View
  | [], v => [v]
  | i :: code, v => v :: if spins i v = true ∨ (fails i v).isSome = true then [] else trail code (effect i v)

theorem mem_trail_append {first second : List Instr} {v u : View} (member : u ∈ trail (first ++ second) v) :
    u ∈ trail first v ∨ ∃ w, exec first v = .ok w ∧ u ∈ trail second w := by
  induction first generalizing v with
  | nil => exact .inr ⟨v, rfl, member⟩
  | cons i code ih =>
    simp only [List.cons_append, trail, List.mem_cons] at member ⊢
    rcases member with here | later
    · exact .inl (.inl here)
    · by_cases stops : spins i v = true ∨ (fails i v).isSome = true
      · simp [stops] at later
      · rw [if_neg stops] at later ⊢
        have goes : spins i v = false ∧ fails i v = none := by simpa using stops
        rcases ih later with early | ⟨w, ran, late⟩
        · exact .inl (.inr early)
        · exact .inr ⟨w, by simp [exec, goes, ran], late⟩

/-- Every increment of `ncli` directly follows a call of `mycpu`, which stops unless interrupts are off. -/
def Guarded : Bool → List Instr → Prop
  | _, [] => True
  | masked, i :: code => (i = .incNcli → masked = true) ∧ Guarded (decide (i = .mycpu)) code

/-- Guarded code never counts up with interrupts on. -/
theorem trail_masked {code : List Instr} {masked : Bool} {v : View} (guarded : Guarded masked code)
    (known : masked = true → v.cpu.flIf = false) (inside : 0 < v.cpu.ncli → v.cpu.flIf = false)
    (counts : ∀ u ∈ trail code v, 0 ≤ u.cpu.ncli) : ∀ u ∈ trail code v, 0 < u.cpu.ncli → u.cpu.flIf = false := by
  induction code generalizing masked v with
  | nil => simpa [trail] using inside
  | cons i code ih =>
    intro u member
    simp only [trail, List.mem_cons] at member
    rcases member with rfl | later
    · exact inside
    · by_cases stops : spins i v = true ∨ (fails i v).isSome = true
      · simp [stops] at later
      · have count : 0 ≤ v.cpu.ncli := counts v (by simp [trail])
        have below : ∀ w ∈ trail code (effect i v), 0 ≤ w.cpu.ncli := fun w member =>
          counts w (by simp only [trail, if_neg stops]; exact List.mem_cons_of_mem _ member)
        rw [if_neg stops] at later
        have passes : fails i v = none := by
          rw [not_or] at stops
          simpa using stops.2
        apply ih guarded.2 _ _ below u later
        · intro asked
          obtain rfl : i = .mycpu := of_decide_eq_true asked
          simpa [fails, effect] using passes
        · cases i with
          | incNcli => exact fun _ => known (guarded.1 rfl)
          | decNcli =>
            intro positive
            have nested : ¬ v.cpu.ncli = 0 := by
              intro zero
              simp [effect, zero, int32] at positive
            exact inside (by omega)
          | restoreIf =>
            intro positive
            have outer : ¬ v.cpu.ncli = 0 := by simp only [effect] at positive; omega
            simp [effect, outer, inside positive]
          | cli => exact fun _ => rfl
          | _ => exact inside

theorem Guarded.append {first second : List Instr} {masked : Bool} (one : Guarded masked first) (two : Guarded false second) :
    Guarded masked (first ++ second) := by
  induction first generalizing masked with
  | nil =>
    cases second with
    | nil => trivial
    | cons i code => exact ⟨fun counts => absurd (two.1 counts) (by simp), two.2⟩
  | cons i code ih => exact ⟨one.1, ih one.2⟩

instance decidableGuarded : ∀ masked code, Decidable (Guarded masked code)
  | _, [] => .isTrue trivial
  | masked, i :: code =>
      have := decidableGuarded (decide (i = .mycpu)) code
      inferInstanceAs (Decidable ((i = .incNcli → masked = true) ∧ Guarded (decide (i = .mycpu)) code))

theorem guarded_code (op : Op) : Guarded false op.code := by
  cases op with
  | pushcli => decide
  | popcli => decide
  | acquire lk => revert lk; decide
  | release lk => revert lk; decide
  | holding lk => revert lk; decide
  | myproc => decide

theorem guarded_codeOf (word : List Op) : Guarded false (codeOf word) := by
  induction word with
  | nil => trivial
  | cons op word ih => exact (guarded_code op).append ih

/-- By how much straight code moves `ncli`. -/
def drift : List Instr → Int
  | [] => 0
  | .incNcli :: code => 1 + drift code
  | .decNcli :: code => -1 + drift code
  | _ :: code => drift code

theorem drift_cons (i : Instr) (code : List Instr) : drift (i :: code) = drift [i] + drift code := by
  cases i <;> simp [drift]

/-- The count is where the code moved it, as long as an `int` can hold that. -/
theorem ncli_effect (i : Instr) (v : View) (low : -2 ^ 31 ≤ v.cpu.ncli + drift [i]) (high : v.cpu.ncli + drift [i] < 2 ^ 31) :
    (effect i v).cpu.ncli = v.cpu.ncli + drift [i] := by
  cases i with
  | incNcli => exact int32_eq low high
  | decNcli => exact int32_eq low high
  | _ => simp [effect, drift, setLock]

theorem trail_ncli {code : List Instr} {v u : View} (member : u ∈ trail code v)
    (fits : ∀ part ∈ code.inits, -2 ^ 31 ≤ v.cpu.ncli + drift part ∧ v.cpu.ncli + drift part < 2 ^ 31) :
    ∃ part ∈ code.inits, u.cpu.ncli = v.cpu.ncli + drift part := by
  induction code generalizing v with
  | nil => exact ⟨[], by simp, by simp_all [trail, drift]⟩
  | cons i code ih =>
    simp only [trail, List.mem_cons] at member
    rcases member with rfl | later
    · exact ⟨[], by simp, by simp [drift]⟩
    · split at later
      · cases later
      · have first := fits [i] (by simp)
        have count := ncli_effect i v first.1 first.2
        have rest : ∀ part ∈ code.inits, -2 ^ 31 ≤ (effect i v).cpu.ncli + drift part ∧
            (effect i v).cpu.ncli + drift part < 2 ^ 31 := by
          intro part early
          have longer := fits (i :: part) (by simpa using early)
          rw [drift_cons] at longer
          rw [count]
          omega
        obtain ⟨part, early, moved⟩ := ih later rest
        refine ⟨i :: part, by simpa using early, ?_⟩
        rw [moved, count, drift_cons i part]
        omega

/-- The one that a closing call takes back. -/
def Op.closes : Op → Int
  | .popcli | .release _ => 1
  | _ => 0

/-- Inside a call `ncli` goes up by two at most, and down only by the one that a closing call takes back. -/
theorem drift_code (op : Op) : ∀ part ∈ op.code.inits, -op.closes ≤ drift part ∧ drift part ≤ 2 := by
  cases op with
  | pushcli => decide
  | popcli => decide
  | acquire lk => revert lk; decide
  | release lk => revert lk; decide
  | holding lk => revert lk; decide
  | myproc => decide

end Trail

section Runs
variable {p q : Processor} {opened : Nat} {held : Finset LockId}

/-- The processor `q`, reached from `p` with so many `pushcli` open and these locks held. -/
structure Inside (p : Processor) (opened : Nat) (held : Finset LockId) (q : Processor) : Prop where
  ncli : q.ncli = p.ncli + (opened + held.card : Nat)
  flIf : q.flIf = (decide (opened + held.card = 0) && p.flIf)
  nested : 0 < p.ncli → q.intena = p.intena
  saved : p.ncli = 0 → 1 ≤ opened + held.card → q.intena = p.flIf
  taken : ∀ lk ∈ held, q.locks lk = taken ∧ (p.locks lk).locked = 0#32
  others : ∀ lk ∉ held, q.locks lk = p.locks lk ∨ (p.locks lk).locked = 0#32 ∧ q.locks lk = unlocked

theorem Inside.start (p : Processor) : Inside p 0 ∅ p :=
  ⟨by simp, by simp, fun _ => rfl, fun _ closed => by simp at closed, by simp, fun _ _ => .inl rfl⟩

theorem Inside.calm (inside : Inside p opened held q) (calm : Calm p) (room : q.ncli + 2 < 2 ^ 31) : Calm q := by
  have depth := calm.depth
  have count := inside.ncli
  refine ⟨by omega, fun positive => ?_, room⟩
  rw [inside.flIf]
  by_cases outer : opened + held.card = 0
  · simp [calm.masked (by omega)]
  · rw [decide_eq_false outer, Bool.false_and]

theorem Inside.settle (inside : Inside p opened held q) (calm : Calm p) : Inside p opened held (settle q) := by
  have depth := calm.depth
  have count := inside.ncli
  refine ⟨inside.ncli, inside.flIf, fun positive => ?_, fun outer nested => ?_, inside.taken, inside.others⟩
  · simp [SpinLocks.settle, show ¬ q.ncli = 0 by omega, inside.nested positive]
  · simp [SpinLocks.settle, show ¬ q.ncli = 0 by omega, inside.saved outer nested]

/-- One more bracket is open. -/
theorem Inside.enter (inside : Inside p opened held q) (calm : Calm p) :
    Inside p (opened + 1) held { SpinLocks.settle q with flIf := false, ncli := q.ncli + 1 } := by
  have depth := calm.depth
  have count := inside.ncli
  refine ⟨?_, by simp, fun positive => ?_, fun outer _ => ?_, inside.taken, inside.others⟩
  · show q.ncli + 1 = _
    push_cast at count ⊢
    omega
  · exact (inside.settle calm).nested positive
  · by_cases first : opened + held.card = 0
    · have level : q.ncli = 0 := by omega
      simp [SpinLocks.settle, level, inside.flIf, first]
    · exact (inside.settle calm).saved outer (by omega)

/-- One bracket is closed again. -/
theorem Inside.leave (inside : Inside p (opened + 1) held q) (calm : Calm p) :
    Inside p opened held { q with ncli := q.ncli - 1, flIf := decide (q.ncli = 1) && q.intena } := by
  have depth := calm.depth
  have count := inside.ncli
  refine ⟨?_, ?_, inside.nested, fun outer _ => inside.saved outer (by omega), inside.taken, inside.others⟩
  · show q.ncli - 1 = _
    push_cast at count ⊢
    omega
  · show (decide (q.ncli = 1) && q.intena) = _
    by_cases last : opened + held.card = 0
    · by_cases outer : p.ncli = 0
      · have one : q.ncli = 1 := by omega
        simp [one, last, inside.saved outer (by omega)]
      · have more : ¬ q.ncli = 1 := by omega
        simp [more, calm.masked (by omega)]
    · have more : ¬ q.ncli = 1 := by omega
      rw [decide_eq_false more, decide_eq_false last, Bool.false_and, Bool.false_and]

/-- The bracket opened last now belongs to a lock. -/
theorem Inside.take {lk : LockId} (inside : Inside p (opened + 1) held q) (absent : lk ∉ held)
    (free : (p.locks lk).locked = 0#32) : Inside p opened (insert lk held) (setLock lk SpinLocks.taken q) := by
  have card := Finset.card_insert_of_notMem absent
  have sum : opened + (insert lk held).card = opened + 1 + held.card := by omega
  refine ⟨by rw [sum]; exact inside.ncli, by rw [sum]; exact inside.flIf, inside.nested, ?_, ?_, ?_⟩
  · rw [sum]
    exact inside.saved
  · intro other member
    by_cases same : other = lk
    · rw [same]
      exact ⟨setLock_self .., free⟩
    · rw [setLock_other lk other _ _ same]
      exact inside.taken other (Finset.mem_of_mem_insert_of_ne member same)
  · intro other absent'
    rw [Finset.mem_insert, not_or] at absent'
    rw [setLock_other lk other _ _ absent'.1]
    exact inside.others other absent'.2

theorem Inside.drop {lk : LockId} (inside : Inside p opened held q) (present : lk ∈ held) :
    Inside p (opened + 1) (held.erase lk) (setLock lk unlocked q) := by
  have card := Finset.card_erase_add_one present
  have sum : opened + 1 + (held.erase lk).card = opened + held.card := by omega
  refine ⟨by rw [sum]; exact inside.ncli, by rw [sum]; exact inside.flIf, inside.nested, ?_, ?_, ?_⟩
  · rw [sum]
    exact inside.saved
  · intro other member
    rw [Finset.mem_erase] at member
    rw [setLock_other lk other _ _ member.1]
    exact inside.taken other member.2
  · intro other absent
    by_cases same : other = lk
    · rw [same]
      exact .inr ⟨(inside.taken lk present).2, setLock_self ..⟩
    · rw [setLock_other lk other _ _ same]
      exact inside.others other fun member => absent (Finset.mem_erase.mpr ⟨same, member⟩)

theorem seen_ok {α : Type} {loc : α → Locals} {outcome : EStateM.Result Stop Processor α} {a : α} {p : Processor}
    (ran : outcome = .ok a p) : seen loc outcome = .ok ⟨p, loc a⟩ := by
  rw [ran]
  rfl

theorem exec_myproc (v : View) (depth : 0 ≤ v.cpu.ncli) (room : v.cpu.ncli + 1 < 2 ^ 31) : exec myprocCode v =
    exec popcliCode ⟨{ settle v.cpu with flIf := false, ncli := v.cpu.ncli + 1 },
      { v.loc with eflags := v.cpu.flIf, opened := v.loc.opened + 1 }⟩ := by
  rw [myprocCode, exec_append, exec_pushcli, seen_ok (run_pushcli v.cpu depth room)]
  rfl

/-- One call of a balanced sequence goes through. -/
theorem exec_op (op : Op) {word : List Op} (loc : Locals) (calm : Calm p) (inside : Inside p opened held q)
    (room : q.ncli + 2 < 2 ^ 31) (balanced : Balanced p opened held (op :: word)) :
    ∃ opened' held' q' loc', exec op.code ⟨q, loc⟩ = .ok ⟨q', loc'⟩ ∧ Inside p opened' held' q' ∧
      Balanced p opened' held' word ∧ opened' + held'.card = op.level (opened + held.card) ∧
      op.closes ≤ opened + held.card := by
  have quiet := inside.calm calm room
  have count := inside.ncli
  have depth := calm.depth
  cases op with
  | pushcli =>
    refine ⟨opened + 1, held, _, _, (exec_pushcli _).trans (seen_ok (run_pushcli q quiet.depth (by omega))),
      inside.enter calm, balanced, ?_, ?_⟩
    · simp only [Op.level]
      omega
    · simp only [Op.closes]
      omega
  | popcli =>
    obtain ⟨positive, rest⟩ := balanced
    obtain ⟨less, rfl⟩ : ∃ less, opened = less + 1 := ⟨opened - 1, by omega⟩
    have ran := run_popcli q (quiet.masked (by omega)) (by omega) (by omega)
    refine ⟨less, held, _, _, (exec_popcli _).trans (seen_ok ran), inside.leave calm, rest, ?_, ?_⟩
    · simp only [Op.level]
      omega
    · simp only [Op.closes]
      omega
  | acquire lk =>
    obtain ⟨absent, free, rest⟩ := balanced
    have same : (q.locks lk).locked = 0#32 := by
      rcases inside.others lk absent with eq | ⟨-, eq⟩
      · rw [eq, free]
      · rw [eq]
        rfl
    refine ⟨opened, insert lk held, _, _, (exec_acquire lk _).trans (seen_ok (run_acquire lk q quiet same)),
      (inside.enter calm).take absent free, rest, ?_, ?_⟩
    · simp only [Op.level, Finset.card_insert_of_notMem absent]
      omega
    · simp only [Op.closes]
      omega
  | release lk =>
    obtain ⟨present, rest⟩ := balanced
    have positive := Finset.card_pos.mpr ⟨lk, present⟩
    have isHeld : Held (q.locks lk) := by
      rw [(inside.taken lk present).1]
      decide
    have ran := run_release lk q (quiet.masked (by omega)) (by omega) (by omega) isHeld
    refine ⟨opened, held.erase lk, _, _, (exec_release lk _).trans (seen_ok ran), (inside.drop present).leave calm, rest, ?_, ?_⟩
    · simp only [Op.level, Finset.card_erase_of_mem present]
      omega
    · simp only [Op.closes]
      omega
  | holding lk =>
    refine ⟨opened, held, _, _, (exec_holding lk _).trans (seen_ok (run_holding lk q quiet)), inside.settle calm, balanced,
      rfl, ?_⟩
    simp only [Op.closes]
    omega
  | myproc =>
    have ran := run_popcli { settle q with flIf := false, ncli := q.ncli + 1 } rfl (by change 1 ≤ q.ncli + 1; omega)
      (by change q.ncli + 1 < 2 ^ 31; omega)
    refine ⟨opened, held, _, _, (exec_myproc _ quiet.depth (by change q.ncli + 1 < 2 ^ 31; omega)).trans
        ((exec_popcli _).trans (seen_ok ran)), (inside.enter calm).leave calm,
      balanced, rfl, ?_⟩
    simp only [Op.closes]
    omega

theorem le_nesting (level : Nat) (word : List Op) : level ≤ nesting level word := by
  cases word with
  | nil => exact le_refl _
  | cons op word => exact le_max_left _ _

/-- A balanced sequence goes through; on the way `ncli` stays close to the brackets that are open. -/
theorem exec_word (word : List Op) (loc : Locals) (calm : Calm p) (inside : Inside p opened held q)
    (balanced : Balanced p opened held word) (range : p.ncli + nesting (opened + held.card) word + 2 < 2 ^ 31) :
    ∃ v, exec (codeOf word) ⟨q, loc⟩ = .ok v ∧ Inside p 0 ∅ v.cpu ∧
      ∀ u ∈ trail (codeOf word) ⟨q, loc⟩, p.ncli ≤ u.cpu.ncli ∧ u.cpu.ncli ≤ p.ncli + nesting (opened + held.card) word + 2 := by
  have count := inside.ncli
  induction word generalizing opened held q loc with
  | nil =>
    obtain ⟨rfl, rfl⟩ := balanced
    refine ⟨_, rfl, inside, ?_⟩
    intro u member
    rw [codeOf, List.flatMap_nil, trail, List.mem_singleton] at member
    subst member
    constructor
    · show p.ncli ≤ q.ncli
      omega
    · show q.ncli ≤ _
      simp only [nesting]
      omega
  | cons op word ih =>
    have here := le_nesting (opened + held.card) (op :: word)
    have depth := calm.depth
    obtain ⟨opened', held', q', loc', ran, inside', balanced', level, closes⟩ :=
      exec_op op loc calm inside (by omega) balanced
    have deeper : nesting (opened' + held'.card) word ≤ nesting (opened + held.card) (op :: word) := by
      rw [level]
      exact le_max_right _ _
    obtain ⟨v, rest, ending, bounds⟩ := ih loc' inside' balanced' (by omega) inside'.ncli
    have split : codeOf (op :: word) = op.code ++ codeOf word := List.flatMap_cons
    refine ⟨v, ?_, ending, ?_⟩
    · rw [split, exec_append, ran]
      exact rest
    · intro u member
      rw [split] at member
      simp only [nesting]
      rcases mem_trail_append member with here | ⟨w, ran', later⟩
      · have fits : ∀ part ∈ op.code.inits, -2 ^ 31 ≤ q.ncli + drift part ∧ q.ncli + drift part < 2 ^ 31 := by
          intro part early
          obtain ⟨low, high⟩ := drift_code op part early
          omega
        obtain ⟨part, early, moved⟩ := trail_ncli here fits
        obtain ⟨low, high⟩ := drift_code op part early
        change u.cpu.ncli = q.ncli + drift part at moved
        constructor
        · omega
        · omega
      · rw [ran] at ran'
        cases ran'
        have bound := bounds u later
        rw [level] at bound
        constructor
        · omega
        · omega

theorem Balanced.free {word : List Op} (balanced : Balanced p opened held word) {lk : LockId} (member : .acquire lk ∈ word) :
    (p.locks lk).locked = 0#32 := by
  induction word generalizing opened held with
  | nil => cases member
  | cons op word ih =>
    rcases List.mem_cons.mp member with rfl | later
    · exact balanced.2.1
    · cases op with
      | pushcli => exact ih balanced later
      | popcli => exact ih balanced.2 later
      | acquire other => exact ih balanced.2.2 later
      | release other => exact ih balanced.2 later
      | holding other => exact ih balanced later
      | myproc => exact ih balanced later

/-- A balanced sequence leaves the interrupt flag, `ncli` and the locks as it found them. -/
theorem balanced_restores (p : Processor) (loc : Locals) (word : List Op) (calm : Calm p) (balanced : Balanced p 0 ∅ word)
    (range : p.ncli + nesting 0 word + 2 < 2 ^ 31) :
    ∃ v, exec (codeOf word) ⟨p, loc⟩ = .ok v ∧ v.cpu.flIf = p.flIf ∧ v.cpu.ncli = p.ncli ∧
      (0 < p.ncli → v.cpu.intena = p.intena) ∧ (∀ lk, .acquire lk ∈ word → (v.cpu.locks lk).locked = 0#32) ∧
      (∀ lk, (v.cpu.locks lk).locked = (p.locks lk).locked) ∧
      ∀ u ∈ trail (codeOf word) ⟨p, loc⟩,
        (0 < u.cpu.ncli → u.cpu.flIf = false) ∧ 0 ≤ u.cpu.ncli ∧ u.cpu.ncli < 2 ^ 31 := by
  obtain ⟨v, ran, ending, bounds⟩ := exec_word word loc calm (Inside.start p) balanced (by simpa using range)
  have same (lk : LockId) : (v.cpu.locks lk).locked = (p.locks lk).locked := by
    rcases ending.others lk (by simp) with eq | ⟨free, eq⟩
    · rw [eq]
    · rw [eq, free]
      rfl
  refine ⟨v, ran, ?_, ?_, ending.nested, ?_, same, ?_⟩
  · simpa using ending.flIf
  · simpa using ending.ncli
  · intro lk member
    rw [same lk, balanced.free member]
  · intro u member
    have bound := bounds u member
    have depth := calm.depth
    rw [Finset.card_empty, Nat.zero_add] at bound
    have counts : ∀ w ∈ trail (codeOf word) ⟨p, loc⟩, 0 ≤ w.cpu.ncli := fun w visited => depth.trans (bounds w visited).1
    exact ⟨trail_masked (guarded_codeOf word) (by simp) calm.masked counts u member, by omega, by omega⟩

/-- Two locks released in the order in which they were taken, around other brackets. -/
def crossing : List Op :=
  [.acquire .kmem, .pushcli, .acquire .ptable, .holding .ptable, .release .kmem, .myproc, .popcli, .release .ptable]

/-- With interrupts on and nothing open, interrupts are on again afterwards. -/
theorem balanced_restores_crossing :
    ∃ v, exec (codeOf crossing) ⟨⟨true, 0, false, fun _ => unlocked⟩, ⟨false, false, false, 0, ∅, none⟩⟩ = .ok v ∧
      v.cpu.flIf = true ∧ v.cpu.ncli = 0 ∧ ∀ lk, (v.cpu.locks lk).locked = 0#32 := by
  obtain ⟨v, ran, flag, count, -, -, locks, -⟩ := balanced_restores ⟨true, 0, false, fun _ => unlocked⟩
    ⟨false, false, false, 0, ∅, none⟩ crossing ⟨by decide, by decide, by decide⟩
    ⟨by decide, rfl, by decide, rfl, by decide, by decide, by decide, rfl, rfl⟩ (by decide)
  exact ⟨v, ran, flag, count, locks⟩

/-- Below 0 the innermost `popcli` panics. -/
theorem balanced_negative_panics : ∃ p : Processor, (0 < p.ncli → p.flIf = false) ∧ Balanced p 0 ∅ [.pushcli, .popcli] ∧
    exec (codeOf [.pushcli, .popcli]) ⟨p, ⟨false, false, false, 0, ∅, none⟩⟩ = .error (.panic "popcli") :=
  ⟨⟨false, -1, false, fun _ => unlocked⟩, by decide, ⟨by decide, rfl, rfl⟩, rfl⟩

end Runs

end OsDev.Kernel.CriticalSections
