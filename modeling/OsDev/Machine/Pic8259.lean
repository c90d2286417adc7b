import Mathlib.Data.Fin.Tuple.Basic
import Mathlib.Order.Fin.Basic
import Mathlib.Tactic.Common

/-! Two 8259A interrupt controllers as a PC wires them, the second one cascaded
through line 2 of the first. Requests are latched on their edge, priorities are
fully nested, and an end of interrupt is the non-specific one. -/

namespace OsDev.Machine.Pic8259

/-- What the next byte on the data port is taken for. -/
inductive Stage where
  | icw2
  | icw3
  | icw4
  | ready
  deriving DecidableEq, Repr

abbrev Lines := Fin 8 → Bool

def noLine : Lines := fun _ => false
def only (i : Fin 8) : Lines := Function.update noLine i true

structure Chip where
  /-- Requests not yet accepted, and accepted ones not yet ended. -/
  irr : Lines
  isr : Lines
  imr : BitVec 8
  base : BitVec 8
  /-- The third word: the lines with another chip behind them, or the chip's own number. -/
  wiring : BitVec 8
  stage : Stage
  needsIcw4 : Bool
  single : Bool
  autoEoi : Bool

namespace Chip

def request (c : Chip) (i : Fin 8) : Chip := { c with irr := Function.update c.irr i true }

def withdraw (c : Chip) (i : Fin 8) : Chip := { c with irr := Function.update c.irr i false }

/-- End of the interrupt of highest priority in service. -/
def eoi (c : Chip) : Chip :=
  match Fin.find? c.isr with
  | some i => { c with isr := Function.update c.isr i false }
  | none => c

/-- A byte on the command port. Of the operation words only the non-specific end
of interrupt has an effect here. -/
def command (c : Chip) (v : BitVec 8) : Chip :=
  if v.getLsbD 4 then
    { c with
      irr := noLine
      isr := noLine
      imr := 0#8
      wiring := 7#8
      stage := .icw2
      needsIcw4 := v.getLsbD 0
      single := v.getLsbD 1
      autoEoi := false }
  else if v = 0x20#8 then c.eoi else c

/-- The fourth word only comes if the first one announced it. -/
def last (c : Chip) : Stage := if c.needsIcw4 then .icw4 else .ready

def data (c : Chip) (v : BitVec 8) : Chip :=
  match c.stage with
  | .icw2 => { c with base := v &&& 0xf8#8, stage := if c.single then c.last else .icw3 }
  | .icw3 => { c with wiring := v, stage := c.last }
  | .icw4 => { c with autoEoi := v.getLsbD 1, stage := .ready }
  | .ready => { c with imr := v }

/-- As the first chip, it leaves the answer for this line to another one. -/
def leads (c : Chip) (i : Fin 8) : Bool := !c.single && c.wiring.getLsbD i

/-- As a further chip, it answers for this line of the first. -/
def named (c : Chip) (i : Fin 8) : Bool := c.wiring.setWidth 3 = BitVec.ofNat 3 i

theorem data_ready {c : Chip} (ready : c.stage = .ready) (v : BitVec 8) : c.data v = { c with imr := v } := by
  simp only [data, ready]

def eligible (c : Chip) (i : Fin 8) : Bool :=
  c.stage = .ready && c.irr i && !c.imr.getLsbD i && decide (∀ j ≤ i, c.isr j = false)

/-- The request the chip signals to the processor, or to the chip before it. -/
@[irreducible] def next (c : Chip) : Option (Fin 8) := Fin.find? c.eligible

def accept (c : Chip) (i : Fin 8) : Chip :=
  { c with
    irr := Function.update c.irr i false
    isr := if c.autoEoi then c.isr else Function.update c.isr i true }

variable {c : Chip} {i : Fin 8}

theorem next_eq_some : c.next = some i ↔ c.eligible i = true ∧ ∀ j < i, c.eligible j = false := by
  rw [next, Fin.find?_eq_some_iff]

theorem next_eq_none : c.next = none ↔ ∀ i, c.eligible i = false := by
  rw [next, Fin.find?_eq_none_iff]

theorem eligible_iff : c.eligible i = true ↔
    c.stage = .ready ∧ c.irr i = true ∧ c.imr.getLsbD i = false ∧ ∀ j ≤ i, c.isr j = false := by
  simp [eligible, and_assoc]

theorem eligible_iff_of_free (free : c.isr = noLine) : c.eligible i = true ↔
    c.stage = .ready ∧ c.irr i = true ∧ c.imr.getLsbD i = false := by
  have unserved : ∀ j ≤ i, c.isr j = false := fun j _ => by rw [free]; rfl
  rw [eligible_iff]
  exact ⟨fun ⟨ready, asked, open', _⟩ => ⟨ready, asked, open'⟩,
    fun ⟨ready, asked, open'⟩ => ⟨ready, asked, open', unserved⟩⟩

/-- What is accepted keeps everything below it waiting. -/
theorem next_accept (first : c.next = some i) (manual : c.autoEoi = false) : (c.accept i).next = none := by
  obtain ⟨-, least⟩ := next_eq_some.mp first
  apply next_eq_none.mpr
  intro j
  by_contra eligible
  rw [Bool.not_eq_false, eligible_iff] at eligible
  obtain ⟨ready, asked, unmasked, served⟩ := eligible
  simp only [accept, manual, Bool.false_eq_true, if_false] at asked served
  have below : j < i := by
    by_contra notBelow
    have inService := served i (not_lt.mp notBelow)
    rw [Function.update_self] at inService
    cases inService
  have before : c.eligible j = true := by
    rw [Function.update_of_ne below.ne] at asked
    refine eligible_iff.mpr ⟨ready, asked, unmasked, fun k upTo => ?_⟩
    have free := served k upTo
    rwa [Function.update_of_ne (lt_of_le_of_lt upTo below).ne] at free
  rw [least j below] at before
  cases before

theorem accept_isr (free : c.isr = noLine) (manual : c.autoEoi = false) : (c.accept i).isr = only i := by
  simp only [accept, manual, free, Bool.false_eq_true, if_false]
  rfl

theorem eoi_of_only (served : c.isr = only i) : c.eoi = { c with isr := noLine } := by
  have found : Fin.find? c.isr = some i := by
    rw [Fin.find?_eq_some_iff, served]
    refine ⟨Function.update_self .., fun j below => ?_⟩
    rw [only, Function.update_of_ne below.ne]
    rfl
  have cleared : Function.update c.isr i false = noLine := by
    rw [served, only, Function.update_idem]
    exact Function.update_eq_self i noLine
  simp only [eoi, found, cleared]

theorem eoi_of_free (free : c.isr = noLine) : c.eoi = c := by
  have unserved : Fin.find? c.isr = none := by
    rw [Fin.find?_eq_none_iff, free]
    exact fun _ => rfl
  simp only [eoi, unserved]

end Chip

/-- The request lines of the pair; line 2 of the first chip belongs to the second. -/
inductive Line where
  | master (i : Fin 8)
  | slave (i : Fin 8)
  deriving DecidableEq, Repr

def cascade : Fin 8 := 2

/-- The line of highest priority. -/
def firstLine : Fin 8 := 0

def Line.number : Line → Nat
  | .master i => i
  | .slave i => 8 + i

/-- The vector of a line, for chips with these bases. -/
def Line.vector (low high : BitVec 8) : Line → BitVec 8
  | .master i => low + BitVec.ofNat 8 i
  | .slave i => high + BitVec.ofNat 8 i

/-- A device may be connected to the line. -/
def Line.Wired (l : Line) : Prop := l ≠ .master cascade

instance (l : Line) : Decidable l.Wired := inferInstanceAs (Decidable (l ≠ .master cascade))

structure Pair where
  master : Chip
  slave : Chip

namespace Pair

/-- The second chip's output is a request line of the first. -/
def setSlave (p : Pair) (c : Chip) : Pair where
  master := if p.slave.next = none ∧ c.next ≠ none then p.master.request cascade else p.master
  slave := c

def raise (p : Pair) : Line → Pair
  | .master i => { p with master := p.master.request i }
  | .slave i => p.setSlave (p.slave.request i)

def withdraw (p : Pair) : Line → Pair
  | .master i => { p with master := p.master.withdraw i }
  | .slave i => p.setSlave (p.slave.withdraw i)

def pending (p : Pair) : Line → Bool
  | .master i => p.master.irr i
  | .slave i => p.slave.irr i

/-- A device's requests on the line are ignored. -/
def masked (p : Pair) : Line → Bool
  | .master i => p.master.imr.getLsbD i
  | .slave i => p.slave.imr.getLsbD i

def outb (p : Pair) (port : BitVec 16) (v : BitVec 8) : Pair :=
  if port = 0x20#16 then { p with master := p.master.command v }
  else if port = 0x21#16 then { p with master := p.master.data v }
  else if port = 0xa0#16 then p.setSlave (p.slave.command v)
  else if port = 0xa1#16 then p.setSlave (p.slave.data v)
  else p

def inb (p : Pair) (port : BitVec 16) : BitVec 8 :=
  if port = 0x21#16 then p.master.imr
  else if port = 0xa1#16 then p.slave.imr
  else 0#8

/-- The line whose interrupt the processor is about to be given. The first chip's
line stands for a request that the second chip no longer has. -/
def chosen (p : Pair) : Option Line :=
  match p.master.next with
  | none => none
  | some i => if p.master.leads i && p.slave.named i then (p.slave.next.map .slave).or (some (.master i)) else some (.master i)

/-- The processor asks for a vector. A request that has gone in the meantime is
answered with line 7, which is not in service then. Where no chip answers, the bus
reads as all ones. -/
def acknowledge (p : Pair) : BitVec 8 × Pair :=
  match p.master.next with
  | none => (p.master.base + 7#8, p)
  | some i =>
    let accepted := { p with master := p.master.accept i }
    if p.master.leads i then
      if p.slave.named i then
        match p.slave.next with
        | none => (p.slave.base + 7#8, accepted)
        | some k => (p.slave.base + BitVec.ofNat 8 k, accepted.setSlave (p.slave.accept k))
      else (0xff#8, accepted)
    else (p.master.base + BitVec.ofNat 8 i, accepted)

/-- Initialised for vectors from the two bases and for the wiring they have, with
explicit ends of interrupt. -/
structure Settled (p : Pair) (low high : BitVec 8) : Prop where
  masterReady : p.master.stage = .ready
  slaveReady : p.slave.stage = .ready
  masterManual : p.master.autoEoi = false
  slaveManual : p.slave.autoEoi = false
  masterBase : p.master.base = low
  slaveBase : p.slave.base = high
  leads : ∀ i, p.master.leads i = decide (i = cascade)
  named : p.slave.named cascade = true

/-- A request of the second chip has reached the first. -/
def Cascaded (p : Pair) : Prop := p.slave.next ≠ none → p.master.irr cascade = true

/-- Exactly one interrupt is in service, or none. A line of the second chip
occupies the first chip's line 2 as well. -/
def Serving (p : Pair) : Option Line → Prop
  | none => p.master.isr = noLine ∧ p.slave.isr = noLine
  | some (.master i) => p.master.isr = only i ∧ p.slave.isr = noLine
  | some (.slave i) => p.master.isr = only cascade ∧ p.slave.isr = only i

variable {p : Pair} {c : Chip} {l : Line} {low high : BitVec 8}

@[simp] theorem setSlave_slave (p : Pair) (c : Chip) : (p.setSlave c).slave = c := rfl

theorem setSlave_master (p : Pair) (c : Chip) :
    (p.setSlave c).master.isr = p.master.isr ∧ (p.setSlave c).master.imr = p.master.imr ∧
      (p.setSlave c).master.stage = p.master.stage ∧ (p.setSlave c).master.autoEoi = p.master.autoEoi ∧
      (p.setSlave c).master.base = p.master.base ∧ (p.setSlave c).master.leads = p.master.leads ∧
      ∀ i ≠ cascade, (p.setSlave c).master.irr i = p.master.irr i := by
  unfold setSlave
  split
  · exact ⟨rfl, rfl, rfl, rfl, rfl, rfl, fun i other => Function.update_of_ne other ..⟩
  · exact ⟨rfl, rfl, rfl, rfl, rfl, rfl, fun _ _ => rfl⟩

theorem cascaded_setSlave (cascaded : p.Cascaded) (c : Chip) : (p.setSlave c).Cascaded := by
  intro signals
  unfold setSlave
  split
  next rises => exact Function.update_self cascade true p.master.irr
  next steady =>
    apply cascaded
    intro quiet
    exact steady ⟨quiet, signals⟩

theorem cascaded_of_master {m : Chip} (cascaded : p.Cascaded) (kept : m.irr cascade = p.master.irr cascade) :
    ({ p with master := m } : Pair).Cascaded := fun signals => kept.trans (cascaded signals)

theorem settled_setSlave (settled : p.Settled low high) (ready : c.stage = .ready) (manual : c.autoEoi = false)
    (base : c.base = high) (wiring : c.wiring = p.slave.wiring) : (p.setSlave c).Settled low high := by
  obtain ⟨-, -, stage, auto, lowest, leads, -⟩ := setSlave_master p c
  refine ⟨stage.trans settled.masterReady, ready, auto.trans settled.masterManual, manual,
    lowest.trans settled.masterBase, base, fun i => (congrFun leads i).trans (settled.leads i), ?_⟩
  rw [setSlave_slave, Chip.named, wiring]
  exact settled.named

theorem serving_setSlave {service : Option Line} (serving : p.Serving service) (same : c.isr = p.slave.isr) :
    (p.setSlave c).Serving service := by
  have master := (setSlave_master p c).1
  cases service with
  | none => exact ⟨master.trans serving.1, same.trans serving.2⟩
  | some l => cases l with
    | master i => exact ⟨master.trans serving.1, same.trans serving.2⟩
    | slave i => exact ⟨master.trans serving.1, same.trans serving.2⟩

theorem pending_setSlave_master (c : Chip) {i : Fin 8} (wired : (Line.master i).Wired) :
    (p.setSlave c).pending (.master i) = p.pending (.master i) :=
  (setSlave_master p c).2.2.2.2.2.2 i fun same => wired (by rw [same])

/-- What devices do to their lines leaves everything but the requests alone. -/
structure Moved (p q : Pair) (l : Line) (b : Bool) : Prop where
  settled : ∀ low high, p.Settled low high → q.Settled low high
  cascaded : p.Cascaded → q.Cascaded
  serving : ∀ service, p.Serving service → q.Serving service
  pending : ∀ k : Line, k.Wired → q.pending k = if k = l then b else p.pending k

theorem moved_master {i : Fin 8} {b : Bool} (wired : (Line.master i).Wired) :
    Moved p { p with master := { p.master with irr := Function.update p.master.irr i b } } (.master i) b where
  settled _ _ settled := ⟨settled.1, settled.2, settled.3, settled.4, settled.5, settled.6, settled.7, settled.8⟩
  cascaded cascaded := by
    have other : cascade ≠ i := fun same => wired (by rw [same])
    exact cascaded_of_master cascaded (Function.update_of_ne other ..)
  serving service serving := by
    cases service with
    | none => exact serving
    | some l => cases l <;> exact serving
  pending k _ := by
    cases k with
    | master j => simp [pending, Function.update_apply]
    | slave j => rfl

theorem moved_slave (i : Fin 8) (b : Bool) :
    Moved p (p.setSlave { p.slave with irr := Function.update p.slave.irr i b }) (.slave i) b where
  settled _ _ settled := settled_setSlave settled settled.slaveReady settled.slaveManual settled.slaveBase rfl
  cascaded cascaded := cascaded_setSlave cascaded _
  serving _ serving := serving_setSlave serving rfl
  pending k wired := by
    cases k with
    | master j => simpa using pending_setSlave_master _ wired
    | slave j => simp [pending, Function.update_apply]

theorem moved_raise (wired : l.Wired) : Moved p (p.raise l) l true := by
  cases l with
  | master i => exact moved_master wired
  | slave i => exact moved_slave i true

theorem moved_withdraw (wired : l.Wired) : Moved p (p.withdraw l) l false := by
  cases l with
  | master i => exact moved_master wired
  | slave i => exact moved_slave i false

/-- An answer to the processor when nothing is in service: the vector of a line that
was pending and is in service now, or line 7 of a chip that had nothing to say. -/
inductive Answered (p : Pair) (low high : BitVec 8) : Option Line → BitVec 8 → Pair → Prop where
  | line (l : Line) (q : Pair) (wired : l.Wired) (asked : p.pending l = true) (serving : q.Serving (some l))
      (pending : ∀ k : Line, k.Wired → q.pending k = if k = l then false else p.pending k) :
      Answered p low high (some l) (l.vector low high) q
  | spurious (nothing : p.master.next = none) : Answered p low high none (low + 7#8) p
  | orphan (q : Pair) (latched : p.master.irr cascade = true) (nothing : p.slave.next = none)
      (serving : q.Serving (some (.master cascade))) (pending : ∀ k : Line, k.Wired → q.pending k = p.pending k) :
      Answered p low high (some (.master cascade)) (high + 7#8) q

theorem settled_accept (settled : p.Settled low high) (i : Fin 8) :
    ({ p with master := p.master.accept i } : Pair).Settled low high :=
  ⟨settled.1, settled.2, settled.3, settled.4, settled.5, settled.6, settled.7, settled.8⟩

theorem Settled.leads_own (settled : p.Settled low high) {i : Fin 8} (own : i ≠ cascade) : p.master.leads i = false := by
  rw [settled.leads, decide_eq_false own]

theorem Settled.leads_cascade (settled : p.Settled low high) : p.master.leads cascade = true := by
  rw [settled.leads, decide_eq_true rfl]

theorem chosen_master (settled : p.Settled low high) {i : Fin 8} (first : p.master.next = some i) (own : i ≠ cascade) :
    p.chosen = some (.master i) := by
  simp only [chosen, first, settled.leads_own own, Bool.false_and, Bool.false_eq_true, if_false]

theorem chosen_cascade (settled : p.Settled low high) (first : p.master.next = some cascade) :
    p.chosen = (p.slave.next.map .slave).or (some (.master cascade)) := by
  simp only [chosen, first, settled.leads_cascade, settled.named, Bool.and_self, if_true]

theorem acknowledge_spec (settled : p.Settled low high) (cascaded : p.Cascaded) (free : p.Serving none) :
    Answered p low high p.chosen p.acknowledge.1 p.acknowledge.2 ∧ p.acknowledge.2.Settled low high ∧
      p.acknowledge.2.Cascaded := by
  obtain ⟨masterFree, slaveFree⟩ := free
  cases first : p.master.next with
  | none =>
    have idle : p.chosen = none := by simp only [chosen, first]
    have answer : p.acknowledge = (low + 7#8, p) := by simp only [acknowledge, first, settled.masterBase]
    rw [idle, answer]
    exact ⟨.spurious first, settled, cascaded⟩
  | some i =>
    have eligible := (Chip.next_eq_some.mp first).1
    have asked := (Chip.eligible_iff.mp eligible).2.1
    have served := Chip.accept_isr masterFree settled.masterManual (i := i)
    by_cases own : i = cascade
    · subst own
      rw [chosen_cascade settled first]
      cases second : p.slave.next with
      | none =>
        have answer : p.acknowledge = (high + 7#8, { p with master := p.master.accept cascade }) := by
          simp only [acknowledge, first, second, settled.leads_cascade, settled.named, if_true, settled.slaveBase]
        rw [answer]
        refine ⟨.orphan _ asked second ⟨served, slaveFree⟩ fun k wired => ?_, settled_accept settled _, ?_⟩
        · cases k with
          | master j => exact Function.update_of_ne (fun same => wired (by rw [same])) ..
          | slave j => rfl
        · exact fun signals => absurd second signals
      | some k =>
        have answer : p.acknowledge = (high + BitVec.ofNat 8 k,
            ({ p with master := p.master.accept cascade } : Pair).setSlave (p.slave.accept k)) := by
          simp only [acknowledge, first, second, settled.leads_cascade, settled.named, if_true, settled.slaveBase]
        have waiting := (Chip.eligible_iff.mp (Chip.next_eq_some.mp second).1).2.1
        have quiet := Chip.next_accept second settled.slaveManual
        rw [answer]
        refine ⟨.line (.slave k) _ (by simp [Line.Wired]) waiting ⟨?_, ?_⟩ fun l wired => ?_, ?_, ?_⟩
        · exact (setSlave_master _ _).1.trans served
        · exact Chip.accept_isr slaveFree settled.slaveManual
        · cases l with
          | master j =>
            have other : j ≠ cascade := fun same => wired (by rw [same])
            rw [pending_setSlave_master _ wired, if_neg (by simp)]
            exact Function.update_of_ne other ..
          | slave j => simp [pending, Chip.accept, Function.update_apply]
        · exact settled_setSlave (settled_accept settled _) settled.slaveReady settled.slaveManual settled.slaveBase rfl
        · exact fun signals => absurd quiet signals
    · have answer : p.acknowledge = (low + BitVec.ofNat 8 i, { p with master := p.master.accept i }) := by
        simp only [acknowledge, first, settled.leads_own own, Bool.false_eq_true, if_false, settled.masterBase]
      have wired : (Line.master i).Wired := fun same => own (Line.master.inj same)
      rw [chosen_master settled first own, answer]
      refine ⟨.line (.master i) _ wired asked ⟨served, slaveFree⟩ fun l _ => ?_, settled_accept settled _, ?_⟩
      · cases l with
        | master j => simp [pending, Chip.accept, Function.update_apply]
        | slave j => simp [pending]
      · exact cascaded_of_master cascaded (Function.update_of_ne (Ne.symm own) ..)

/-- An end of interrupt sent to the first chip retires what it has in service. -/
theorem eoi_master {i : Fin 8} (serving : p.Serving (some (.master i))) :
    ({ p with master := p.master.eoi } : Pair).Serving none := by
  rw [Chip.eoi_of_only serving.1]
  exact ⟨rfl, serving.2⟩

theorem eoi_slave {i : Fin 8} (serving : p.Serving (some (.slave i))) :
    (p.setSlave p.slave.eoi).Serving (some (.master cascade)) := by
  rw [Chip.eoi_of_only serving.2]
  exact ⟨(setSlave_master _ _).1.trans serving.1, rfl⟩

theorem eoi_fields (c : Chip) : c.eoi.irr = c.irr ∧ c.eoi.imr = c.imr ∧ c.eoi.stage = c.stage ∧
    c.eoi.autoEoi = c.autoEoi ∧ c.eoi.base = c.base ∧ c.eoi.leads = c.leads ∧ c.eoi.wiring = c.wiring := by
  unfold Chip.eoi
  split <;> exact ⟨rfl, rfl, rfl, rfl, rfl, rfl, rfl⟩

/-- An end of interrupt on either chip loses no request. -/
structure Ended (p q : Pair) : Prop where
  settled : ∀ low high, p.Settled low high → q.Settled low high
  cascaded : p.Cascaded → q.Cascaded
  pending : ∀ k : Line, k.Wired → q.pending k = p.pending k

theorem ended_master (p : Pair) : Ended p { p with master := p.master.eoi } := by
  obtain ⟨irr, -, stage, auto, base, leads, -⟩ := eoi_fields p.master
  refine ⟨fun low high settled => ?_, fun cascaded => ?_, fun k _ => ?_⟩
  · exact ⟨stage.trans settled.1, settled.2, auto.trans settled.3, settled.4, base.trans settled.5, settled.6,
      fun i => (congrFun leads i).trans (settled.leads i), settled.named⟩
  · exact cascaded_of_master cascaded (by rw [irr])
  · cases k with
    | master i => exact congrFun irr i
    | slave i => rfl

theorem ended_slave (p : Pair) : Ended p (p.setSlave p.slave.eoi) := by
  obtain ⟨irr, -, stage, auto, base, -, wiring⟩ := eoi_fields p.slave
  refine ⟨fun low high settled => ?_, fun cascaded => cascaded_setSlave cascaded _, fun k wired => ?_⟩
  · exact settled_setSlave settled (stage.trans settled.2) (auto.trans settled.4) (base.trans settled.6) wiring
  · cases k with
    | master i => exact pending_setSlave_master _ wired
    | slave i => exact congrFun irr i

/-- A request that only waits for its turn. -/
structure Deliverable (p : Pair) (l : Line) : Prop where
  wired : l.Wired
  pending : p.pending l = true
  unmasked : p.masked l = false
  through : ∀ i, l = .slave i → p.masked (.master cascade) = false

/-- The second chip's lines come between lines 1 and 3 of the first. -/
def rank : Line → Nat
  | .master i => 16 * i
  | .slave i => 16 * cascade + i

section Priority
variable (free : p.Serving none)
include free

theorem deliverable_master {i : Fin 8} (own : i ≠ cascade) (eligible : p.master.eligible i = true) :
    p.Deliverable (.master i) := by
  obtain ⟨-, asked, unmasked⟩ := (Chip.eligible_iff_of_free free.1).mp eligible
  exact ⟨fun same => own (Line.master.inj same), asked, unmasked, fun _ => Line.noConfusion⟩

theorem deliverable_slave {i : Fin 8} (eligible : p.slave.eligible i = true) (through : p.master.eligible cascade = true) :
    p.Deliverable (.slave i) := by
  obtain ⟨-, asked, unmasked⟩ := (Chip.eligible_iff_of_free free.2).mp eligible
  obtain ⟨-, -, passes⟩ := (Chip.eligible_iff_of_free free.1).mp through
  exact ⟨Line.noConfusion, asked, unmasked, fun _ _ => passes⟩

/-- The request of highest priority is handed over first, as long as line 2 of the
first chip stands for a request that the second one still has. -/
theorem chosen_of_highest (settled : p.Settled low high) (cascaded : p.Cascaded)
    (backed : p.master.irr cascade = true → p.slave.next ≠ none)
    (ready : p.Deliverable l) (highest : ∀ k, p.Deliverable k → rank l ≤ rank k) : p.chosen = some l := by
  have masters {j : Fin 8} (own : j ≠ cascade) (eligible : p.master.eligible j = true) : rank l ≤ 16 * j.val :=
    highest _ (deliverable_master free own eligible)
  have slaves {j : Fin 8} (through : p.master.eligible cascade = true) (eligible : p.slave.eligible j = true) :
      rank l ≤ 16 * cascade + j.val := highest _ (deliverable_slave free eligible through)
  cases l with
  | master i =>
    have own : i ≠ cascade := fun same => ready.wired (by rw [same])
    have first : p.master.next = some i := by
      refine Chip.next_eq_some.mpr ⟨(Chip.eligible_iff_of_free free.1).mpr
        ⟨settled.masterReady, ready.pending, ready.unmasked⟩, fun j below => ?_⟩
      by_contra eligible
      rw [Bool.not_eq_false] at eligible
      by_cases second : j = cascade
      · subst second
        have asked := ((Chip.eligible_iff_of_free free.1).mp eligible).2.1
        obtain ⟨k, signalled⟩ := Option.ne_none_iff_exists'.mp (backed asked)
        have bound := slaves eligible (Chip.next_eq_some.mp signalled).1
        simp only [rank] at bound
        omega
      · have bound := masters second eligible
        simp only [rank] at bound
        omega
    exact chosen_master settled first own
  | slave i =>
    have eligible : p.slave.eligible i = true :=
      (Chip.eligible_iff_of_free free.2).mpr ⟨settled.slaveReady, ready.pending, ready.unmasked⟩
    have signals : p.slave.next ≠ none := fun quiet => by
      rw [Chip.next_eq_none.mp quiet i] at eligible
      cases eligible
    have through : p.master.eligible cascade = true :=
      (Chip.eligible_iff_of_free free.1).mpr ⟨settled.masterReady, cascaded signals, ready.through i rfl⟩
    have first : p.master.next = some cascade := by
      refine Chip.next_eq_some.mpr ⟨through, fun j below => ?_⟩
      by_contra other
      rw [Bool.not_eq_false] at other
      have bound := masters below.ne other
      simp only [rank] at bound
      omega
    have second : p.slave.next = some i := by
      refine Chip.next_eq_some.mpr ⟨eligible, fun j below => ?_⟩
      by_contra other
      rw [Bool.not_eq_false] at other
      have bound := slaves through other
      simp only [rank] at bound
      omega
    rw [chosen_cascade settled first, second]
    rfl

end Priority

end Pair

end OsDev.Machine.Pic8259
