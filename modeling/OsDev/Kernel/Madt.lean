import Mathlib.Data.List.GetD
import OsDev.Kernel.Acpi

/-! The walk of `parse_madt` through a table: the entries it comes to, the bytes it reads
and the stores it makes, as functions of the memory. -/

namespace OsDev.Kernel.Madt
open OsDev.Machine.Memory OsDev.Machine.Program OsDev.Kernel.Mmu OsDev.Kernel.StringLib OsDev.Kernel.Acpi

/-- What an entry asks for. -/
inductive Action where
  | skip
  | cpu (cpu : CpuInfo)
  | ioapic (ioapic : IoapicInfo)
  | remap (source : Byte) (target : Word)
  deriving DecidableEq, Repr

def Action.apply (info : AcpiInfo) : Action → AcpiInfo
  | skip => info
  | cpu x => info.addCpu x
  | ioapic x => info.addIoapic x
  | remap source target => info.remap source target

def Action.stores (info : AcpiInfo) : Action → List Event
  | skip => []
  | cpu _ => [.storeCpu info.numCpus]
  | ioapic _ => [.storeIoapic info.numIoapic]
  | remap source _ => [.storeIntMap source.toNat]

section Walk
variable (m : Mem) (stop : Addr)

/-- What the code takes from the entry at `e`. -/
def action (e : Addr) : Action :=
  if m e = MADT_CPU then
    if m (e + 2#32) &&& 1#8 = 0#8 then .skip else .cpu ⟨m (e + 2#32), m (e + 3#32)⟩
  else if m e = MADT_IOAPIC then .ioapic ⟨m (e + 2#32), read32 m (e + 4#32), read32 m (e + 8#32)⟩
  else if m e = MADT_INT then .remap (m (e + 3#32)) (read32 m (e + 4#32))
  else .skip

/-- The bytes of the entry at `e` that are read for it, apart from its length. -/
def fields (e : Addr) : List Addr :=
  e :: if m e = MADT_CPU then
    (e + 2#32) :: if m (e + 2#32) &&& 1#8 = 0#8 then [] else [e + 2#32, e + 3#32]
  else if m e = MADT_IOAPIC then (e + 2#32) :: (addresses (e + 4#32) 4 ++ addresses (e + 8#32) 4)
  else if m e = MADT_INT then (e + 3#32) :: addresses (e + 4#32) 4
  else []

/-- The entry after the one at `e`. -/
def following (e : Addr) : Addr := e + (m (e + 1#32)).setWidth 32

/-- The entries that are acted on within some turns of the loop. -/
def walked : Nat → Addr → List Addr
  | 0, _ => []
  | turns + 1, e => if e < stop ∧ m (e + 1#32) ≠ 0#8 then e :: walked turns (following m e) else []

/-- The loop comes to its end within these turns. -/
def finishes : Nat → Addr → Bool
  | 0, _ => false
  | turns + 1, e => if e < stop ∧ m (e + 1#32) ≠ 0#8 then finishes turns (following m e) else true

/-- What the loop logs. -/
def walkLog : Nat → AcpiInfo → Addr → List Event
  | 0, _, _ => []
  | turns + 1, info, e =>
      if e < stop then
        .entry (e + 1#32) :: if m (e + 1#32) = 0#8 then [] else
          (fields m e).map .entry ++ (action m e).stores info ++
            .entry (e + 1#32) :: walkLog turns ((action m e).apply info) (following m e)
      else []

/-- What a series of entries makes of the result. -/
def registered (info : AcpiInfo) (entries : List Addr) : AcpiInfo := (entries.map (action m)).foldl Action.apply info

end Walk

theorem run_parseEntry (e : Addr) (s : AcpiState) : (parseEntry e).run s =
    .ok () (s.after ((action s.mem e).apply s.info) ((fields s.mem e).map .entry ++ (action s.mem e).stores s.info)) := by
  unfold parseEntry action fields
  rw [run_bind_ok (run_entryByte e s), run_ite]
  by_cases cpu : s.mem e = MADT_CPU
  · simp only [if_pos cpu]
    rw [run_bind_ok (run_entryByte _ _), run_ite]
    change (if s.mem (e + 2#32) &&& 1#8 = 0#8 then _ else _) = _
    by_cases even : s.mem (e + 2#32) &&& 1#8 = 0#8
    · simp only [if_pos even]
      exact congrArg _ (after_after _ _ _ _ _)
    · simp only [if_neg even]
      rw [run_bind_ok (run_entryByte _ _), run_bind_ok (run_entryByte _ _), run_bind_ok (EStateM.run_get _),
        run_bind_ok (run_note _ _)]
      simp [AcpiState.after, Action.apply, Action.stores]
  · simp only [if_neg cpu]
    rw [run_ite]
    by_cases ioapic : s.mem e = MADT_IOAPIC
    · simp only [if_pos ioapic]
      rw [run_bind_ok (run_entryByte _ _), run_bind_ok (run_entryWord _ _), run_bind_ok (run_entryWord _ _),
        run_bind_ok (EStateM.run_get _), run_bind_ok (run_note _ _)]
      simp [AcpiState.after, Action.apply, Action.stores]
    · simp only [if_neg ioapic]
      rw [run_ite]
      by_cases int : s.mem e = MADT_INT
      · simp only [if_pos int]
        rw [run_bind_ok (run_entryByte _ _), run_bind_ok (run_entryWord _ _), run_bind_ok (run_note _ _)]
        simp [AcpiState.after, Action.apply, Action.stores]
      · simp only [if_neg int]
        rfl

/-- The loop is the walk: it comes to its end, or is cut off. -/
theorem run_parseMadtLoop (stop : Addr) (turns : Nat) (e : Addr) (s : AcpiState) :
    (parseMadtLoop stop turns e).run s =
      if finishes s.mem stop turns e then
        .ok () (s.after (registered s.mem s.info (walked s.mem stop turns e)) (walkLog s.mem stop turns s.info e))
      else .error .spin (s.after (registered s.mem s.info (walked s.mem stop turns e)) (walkLog s.mem stop turns s.info e)) := by
  induction turns generalizing e s with
  | zero => simp [parseMadtLoop, finishes, walked, walkLog, registered, after_self]
  | succ turns ih =>
    rw [parseMadtLoop, run_ite, finishes, walked, walkLog]
    by_cases inside : e < stop
    · rw [if_pos inside, run_bind_ok (run_entryByte _ _), run_ite]
      by_cases empty : s.mem (e + 1#32) = 0#8
      · simp [inside, empty, registered]
      · rw [if_neg empty, run_bind_ok (run_parseEntry _ _), run_bind_ok (run_entryByte _ _)]
        refine (ih (following s.mem e) _).trans ?_
        simp [inside, empty, registered]
    · simp [inside, registered, after_self]

/-- The state `parse_madt` leaves, or is cut off in. -/
@[simps -fullyApplied] def afterMadt (s : AcpiState) (turns : Nat) (madt : Addr) (len : Word) : AcpiState :=
  { s with
    info := registered s.mem s.info (walked s.mem (madt + len) turns (madt + madtSize))
    log := s.log ++ walkLog s.mem (madt + len) turns s.info (madt + madtSize)
    console := s.console ++ [("Local Interrupt Controller: 0x%x\n", [read32 s.mem madt])] }

theorem run_parseMadt (turns : Nat) (madt : Addr) (len : Word) (s : AcpiState) :
    (parseMadt turns madt len).run s =
      if finishes s.mem (madt + len) turns (madt + madtSize) then .ok () (afterMadt s turns madt len)
      else .error .spin (afterMadt s turns madt len) := by
  unfold parseMadt
  rw [run_bind_ok (EStateM.run_get s), run_bind_ok (run_say _ _ s), run_parseMadtLoop]
  rfl

/-- The state of the parser before its first table. -/
def fresh (m : Mem) : AcpiState := ⟨m, AcpiInfo.zero, fun _ => 0#8, [], []⟩

/-! The arrays against the series of actions. -/

section Arrays

def Action.cpu? : Action → Option CpuInfo
  | cpu x => some x
  | _ => none

def Action.ioapic? : Action → Option IoapicInfo
  | ioapic x => some x
  | _ => none

/-- The target of an entry that remaps the interrupt. -/
def Action.target? (source : Byte) : Action → Option Word
  | remap source' target => if source' = source then some target else none
  | _ => none

theorem map_range_update {α : Type} (f : Nat → α) (n : Nat) (x : α) :
    (List.range (n + 1)).map (Function.update f n x) = (List.range n).map f ++ [x] := by
  rw [List.range_succ, List.map_append, List.map_singleton, Function.update_self]
  congr 1
  apply List.map_congr_left
  intro i member
  rw [Function.update_of_ne (by have := List.mem_range.mp member; omega)]

/-- The result lists exactly what a series of actions brings. -/
structure Lists (actions : List Action) (info : AcpiInfo) : Prop where
  cpus : (List.range info.numCpus).map info.cpu = actions.filterMap Action.cpu?
  ioapics : (List.range info.numIoapic).map info.ioapic = actions.filterMap Action.ioapic?
  intMap : ∀ source, info.intMap source = ((actions.filterMap (Action.target? source)).getLast?).getD 0#32

theorem filterMap_concat {α β : Type} (f : α → Option β) (l : List α) (a : α) :
    (l ++ [a]).filterMap f = l.filterMap f ++ (f a).toList := by
  rw [List.filterMap_append]
  cases value : f a <;> simp [value]

theorem Lists.apply {actions : List Action} {info : AcpiInfo} (lists : Lists actions info) (action : Action) :
    Lists (actions ++ [action]) (action.apply info) := by
  obtain ⟨cpus, ioapics, intMap⟩ := lists
  refine ⟨?_, ?_, fun source => ?_⟩
  · rw [filterMap_concat, ← cpus]
    cases action with
    | cpu x => exact map_range_update _ _ _
    | skip => exact (List.append_nil _).symm
    | ioapic x => exact (List.append_nil _).symm
    | remap changed target => exact (List.append_nil _).symm
  · rw [filterMap_concat, ← ioapics]
    cases action with
    | ioapic x => exact map_range_update _ _ _
    | skip => exact (List.append_nil _).symm
    | cpu x => exact (List.append_nil _).symm
    | remap changed target => exact (List.append_nil _).symm
  · have kept : info.intMap source = ((actions.filterMap (Action.target? source) ++ []).getLast?).getD 0#32 := by
      rw [List.append_nil, intMap source]
    rw [filterMap_concat]
    cases action with
    | remap changed target =>
      change Function.update info.intMap changed target source = _
      by_cases same : changed = source
      · simp [Action.target?, same]
      · simp [Action.target?, same, Function.update_of_ne (Ne.symm same), intMap source]
    | skip => exact kept
    | cpu x => exact kept
    | ioapic x => exact kept

theorem lists_foldl (actions : List Action) : Lists actions (actions.foldl Action.apply AcpiInfo.zero) := by
  induction actions using List.reverseRecOn with
  | nil => exact ⟨rfl, rfl, fun _ => rfl⟩
  | append_singleton actions action ih =>
    rw [List.foldl_append]
    exact ih.apply action

end Arrays

/-! Tables as the firmware lays them out. -/

/-- How many bytes an entry needs after its type and length. -/
def needed (type : Byte) : Nat :=
  if type = MADT_CPU then 6 else if type = MADT_IOAPIC then 10 else if type = MADT_INT then 8 else 0

structure Entry where
  type : Byte
  payload : List Byte
  short : payload.length + 2 < 256
  enough : needed type ≤ payload.length

namespace Entry

def bytes (entry : Entry) : List Byte := entry.type :: BitVec.ofNat 8 (entry.payload.length + 2) :: entry.payload

/-- A byte of the payload, and a word of it. -/
def byte (entry : Entry) (i : Nat) : Byte := entry.payload.getD i 0#8

def word (entry : Entry) (i : Nat) : Word :=
  BitVec.ofNat 32 ((entry.byte i).toNat + 2 ^ 8 * (entry.byte (i + 1)).toNat + 2 ^ 16 * (entry.byte (i + 2)).toNat +
    2 ^ 24 * (entry.byte (i + 3)).toNat)

/-- Bit 0 of the flags of a processor. -/
def enabled (entry : Entry) : Bool := entry.word 2 &&& 1#32 ≠ 0#32

/-- The processor number is odd, which is what the code looks at. -/
def odd (entry : Entry) : Bool := entry.byte 0 &&& 1#8 ≠ 0#8

def isCpu (entry : Entry) : Bool := entry.type = MADT_CPU

def cpuInfo (entry : Entry) : CpuInfo := ⟨entry.byte 0, entry.byte 1⟩

/-- What an entry asks for, if processors are selected in the given way. -/
def action (select : Entry → Bool) (entry : Entry) : Action :=
  if entry.isCpu then if select entry then .cpu entry.cpuInfo else .skip
  else if entry.type = MADT_IOAPIC then .ioapic ⟨entry.byte 0, entry.word 2, entry.word 6⟩
  else if entry.type = MADT_INT then .remap (entry.byte 1) (entry.word 2)
  else .skip

/-- What an entry declares, and what the code takes from it. -/
def declared : Entry → Action := action enabled
def taken : Entry → Action := action odd

theorem cpus_action (select : Entry → Bool) (entries : List Entry) :
    (entries.map (action select)).filterMap Action.cpu? = ((entries.filter isCpu).filter select).map cpuInfo := by
  induction entries with
  | nil => rfl
  | cons entry entries ih =>
    have first : (action select entry).cpu? = if entry.isCpu && select entry then some entry.cpuInfo else none := by
      cases cpu : entry.isCpu with
      | true => cases chosen : select entry <;> simp [action, cpu, chosen, Action.cpu?]
      | false =>
        rw [action, if_neg (by rw [cpu]; decide)]
        split
        · rfl
        · split <;> rfl
    rw [List.map_cons, List.filterMap_cons, first, ih]
    cases cpu : entry.isCpu <;> cases chosen : select entry <;> simp [cpu, chosen]

end Entry

/-- The bytes of a list stand from `a` on. -/
def HoldsBytes (m : Mem) (a : Addr) (bytes : List Byte) : Prop := ∀ i < bytes.length, m (a + BitVec.ofNat 32 i) = bytes.getD i 0#8

theorem holdsBytes_append {m : Mem} {a : Addr} {first second : List Byte} (holds : HoldsBytes m a (first ++ second)) :
    HoldsBytes m a first ∧ HoldsBytes m (a + BitVec.ofNat 32 first.length) second := by
  constructor
  · intro i bound
    have byte := holds i (by rw [List.length_append]; omega)
    rwa [List.getD_append _ _ _ _ bound] at byte
  · intro i bound
    have byte := holds (first.length + i) (by rw [List.length_append]; omega)
    rw [List.getD_append_right _ _ _ _ (by omega), Nat.add_sub_cancel_left] at byte
    rw [← byte]
    congr 1
    bv_omega

section Entry
variable {m : Mem} {e : Addr} {entry : Entry} (holds : HoldsBytes m e entry.bytes)
include holds

theorem holds_type : m e = entry.type := by
  have byte := holds 0 (by simp [Entry.bytes])
  rwa [BitVec.add_zero] at byte

theorem holds_length : m (e + 1#32) = BitVec.ofNat 8 (entry.payload.length + 2) := holds 1 (by simp [Entry.bytes])

theorem holds_byte {i : Nat} (bound : i < entry.payload.length) : m (e + BitVec.ofNat 32 (i + 2)) = entry.byte i :=
  holds (i + 2) (by simp [Entry.bytes, bound])

theorem holds_word {i : Nat} (bound : i + 3 < entry.payload.length) : read32 m (e + BitVec.ofNat 32 (i + 2)) = entry.word i := by
  have lane (k : Nat) (small : k ≤ 3) : m (e + BitVec.ofNat 32 (i + 2) + BitVec.ofNat 32 k) = entry.byte (i + k) := by
    rw [show e + BitVec.ofNat 32 (i + 2) + BitVec.ofNat 32 k = e + BitVec.ofNat 32 (i + k + 2) by bv_omega]
    exact holds_byte holds (by omega)
  rw [read32, Entry.word, holds_byte holds (by omega), lane 1 (by omega), lane 2 (by omega), lane 3 (by omega)]

theorem action_eq_taken : action m e = entry.taken := by
  have enough := entry.enough
  unfold action Entry.taken Entry.action Entry.isCpu Entry.cpuInfo
  unfold needed at enough
  rw [holds_type holds]
  split
  case isTrue cpu =>
    rw [if_pos cpu] at enough
    have id : m (e + 2#32) = entry.byte 0 := holds_byte holds (by omega)
    have apic : m (e + 3#32) = entry.byte 1 := holds_byte holds (by omega)
    rw [id, apic, if_pos (decide_eq_true cpu)]
    simp [Entry.odd]
  case isFalse other =>
    rw [if_neg other] at enough
    have noCpu : ¬ decide (entry.type = MADT_CPU) = true := by simpa using other
    rw [if_neg noCpu]
    split
    case isTrue ioapic =>
      rw [if_pos ioapic] at enough
      have id : m (e + 2#32) = entry.byte 0 := holds_byte holds (by omega)
      have addr : read32 m (e + 4#32) = entry.word 2 := holds_word holds (by omega)
      have base : read32 m (e + 8#32) = entry.word 6 := holds_word holds (by omega)
      rw [id, addr, base]
    case isFalse other' =>
      rw [if_neg other'] at enough
      split
      case isTrue int =>
        rw [if_pos int] at enough
        have source : m (e + 3#32) = entry.byte 1 := holds_byte holds (by omega)
        have target : read32 m (e + 4#32) = entry.word 2 := holds_word holds (by omega)
        rw [source, target]
      case isFalse => rfl

theorem following_eq : following m e = e + BitVec.ofNat 32 entry.bytes.length := by
  have short := entry.short
  unfold following
  rw [holds_length holds]
  simp only [Entry.bytes, List.length_cons]
  congr 1
  bv_omega

end Entry

/-- The entries of a table, one after the other. -/
def body (entries : List Entry) : List Byte := entries.flatMap Entry.bytes

/-- The walk through a well-formed body takes its entries in order, and one turn more to find the end. -/
theorem walk_body {m : Mem} {stop e : Addr} {entries : List Entry} (holds : HoldsBytes m e (body entries))
    (room : e.toNat + (body entries).length ≤ stop.toNat)
    (ends : stop.toNat ≤ e.toNat + (body entries).length ∨ m (e + BitVec.ofNat 32 ((body entries).length + 1)) = 0#8)
    (turns : Nat) :
    (finishes m stop turns e = true ↔ entries.length < turns) ∧
      (entries.length < turns → (walked m stop turns e).map (action m) = entries.map Entry.taken) := by
  induction entries generalizing e turns with
  | nil =>
    have done : ¬ (e < stop ∧ m (e + 1#32) ≠ 0#8) := by
      rintro ⟨inside, nonzero⟩
      rcases ends with behind | zero
      · have : stop.toNat ≤ e.toNat := by simpa [body] using behind
        bv_omega
      · exact nonzero (by simpa [body] using zero)
    cases turns with
    | zero => simp [finishes]
    | succ turns => simp [finishes, walked, done]
  | cons entry entries ih =>
    cases turns with
    | zero => simp [finishes]
    | succ turns =>
      have split : body (entry :: entries) = entry.bytes ++ body entries := List.flatMap_cons
      have size : entry.bytes.length = entry.payload.length + 2 := rfl
      have short := entry.short
      rw [split, List.length_append] at room ends
      rw [split] at holds
      obtain ⟨first, rest⟩ := holdsBytes_append holds
      have next := following_eq first
      have place : (e + BitVec.ofNat 32 entry.bytes.length).toNat = e.toNat + entry.bytes.length := by bv_omega
      have more : e < stop ∧ m (e + 1#32) ≠ 0#8 := by
        refine ⟨by bv_omega, ?_⟩
        rw [holds_length first]
        bv_omega
      have shift (k : Nat) : e + BitVec.ofNat 32 (entry.bytes.length + k) =
          e + BitVec.ofNat 32 entry.bytes.length + BitVec.ofNat 32 k := by bv_omega
      rw [Nat.add_assoc, shift, ← Nat.add_assoc, ← place] at ends
      obtain ⟨finish, actions⟩ := ih rest (by omega) ends turns
      rw [finishes, walked, if_pos more, if_pos more, next, List.length_cons]
      refine ⟨by rw [finish]; omega, ?_⟩
      intro enough
      rw [List.map_cons, List.map_cons, action_eq_taken first, actions (by omega)]

/-! The bounds of the arrays. -/

def InsideArrays : Event → Prop
  | .storeCpu i => i < MAX_CPUS
  | .storeIoapic i => i < MAX_IOAPIC
  | .storeIntMap i => i < 256
  | .storeApicid i => i < MAX_CPUS
  | _ => True

/-- No array was left. -/
structure InBounds (s : AcpiState) : Prop where
  cpus : s.info.numCpus ≤ MAX_CPUS
  ioapics : s.info.numIoapic ≤ MAX_IOAPIC
  stores : ∀ event ∈ s.log, InsideArrays event

/-- Stores go below the counts. -/
def Counted (info : AcpiInfo) : Event → Prop
  | .storeCpu i => i < info.numCpus
  | .storeIoapic i => i < info.numIoapic
  | .storeIntMap i => i < 256
  | .storeApicid i => i < info.numCpus
  | _ => True

/-- The counts only grow. -/
structure Grown (info info' : AcpiInfo) : Prop where
  cpus : info.numCpus ≤ info'.numCpus
  ioapics : info.numIoapic ≤ info'.numIoapic

theorem Counted.grown {info info' : AcpiInfo} {event : Event} (counted : Counted info event) (grown : Grown info info') :
    Counted info' event := by
  cases event with
  | storeCpu i => exact Nat.lt_of_lt_of_le counted grown.cpus
  | storeIoapic i => exact Nat.lt_of_lt_of_le counted grown.ioapics
  | storeIntMap i => exact counted
  | storeApicid i => exact Nat.lt_of_lt_of_le counted grown.cpus
  | rsdp a => trivial
  | table p => trivial
  | entry a => trivial

theorem Counted.inside {info : AcpiInfo} {event : Event} (counted : Counted info event) (cpus : info.numCpus ≤ MAX_CPUS)
    (ioapics : info.numIoapic ≤ MAX_IOAPIC) : InsideArrays event := by
  cases event with
  | storeCpu i => exact Nat.lt_of_lt_of_le counted cpus
  | storeIoapic i => exact Nat.lt_of_lt_of_le counted ioapics
  | storeIntMap i => exact counted
  | storeApicid i => exact Nat.lt_of_lt_of_le counted cpus
  | rsdp a => trivial
  | table p => trivial
  | entry a => trivial

theorem grown_apply (info : AcpiInfo) (action : Action) : Grown info (action.apply info) := by
  cases action with
  | skip => exact ⟨Nat.le_refl _, Nat.le_refl _⟩
  | cpu x => exact ⟨Nat.le_succ _, Nat.le_refl _⟩
  | ioapic x => exact ⟨Nat.le_refl _, Nat.le_succ _⟩
  | remap source target => exact ⟨Nat.le_refl _, Nat.le_refl _⟩

theorem Grown.trans {first second third : AcpiInfo} (left : Grown first second) (right : Grown second third) :
    Grown first third := ⟨left.cpus.trans right.cpus, left.ioapics.trans right.ioapics⟩

theorem grown_foldl (info : AcpiInfo) (actions : List Action) : Grown info (actions.foldl Action.apply info) := by
  induction actions generalizing info with
  | nil => exact ⟨Nat.le_refl _, Nat.le_refl _⟩
  | cons action actions ih => exact (grown_apply info action).trans (ih _)

theorem counted_stores (info : AcpiInfo) (action : Action) :
    ∀ event ∈ action.stores info, Counted (action.apply info) event := by
  intro event member
  cases action with
  | skip => simp [Action.stores] at member
  | cpu x =>
    obtain rfl := List.mem_singleton.mp member
    exact Nat.lt_succ_self _
  | ioapic x =>
    obtain rfl := List.mem_singleton.mp member
    exact Nat.lt_succ_self _
  | remap source target =>
    obtain rfl := List.mem_singleton.mp member
    exact source.isLt

theorem counted_walkLog (m : Mem) (stop : Addr) (turns : Nat) (info : AcpiInfo) (e : Addr) :
    ∀ event ∈ walkLog m stop turns info e, Counted (registered m info (walked m stop turns e)) event := by
  induction turns generalizing info e with
  | zero => simp [walkLog]
  | succ turns ih =>
    intro event member
    rw [walkLog] at member
    by_cases inside : e < stop
    case neg => simp [inside] at member
    rw [if_pos inside] at member
    by_cases zero : m (e + 1#32) = 0#8
    case pos =>
      rw [if_pos zero] at member
      obtain rfl := List.mem_singleton.mp member
      trivial
    rw [if_neg zero, List.mem_cons, List.mem_append, List.mem_append, List.mem_cons] at member
    rw [walked, if_pos ⟨inside, zero⟩]
    rcases member with rfl | (read | stored) | rfl | later
    · trivial
    · obtain ⟨a, -, rfl⟩ := List.mem_map.mp read
      trivial
    · exact (counted_stores info (action m e) event stored).grown (grown_foldl _ _)
    · trivial
    · exact ih _ _ event later

/-! What a well-formed table declares, against what gets registered. -/

/-- A table in memory: its entries, and zeros behind them. -/
structure Layout (m : Mem) (madt : Addr) (len : Word) (entries : List Entry) : Prop where
  holds : HoldsBytes m (madt + madtSize) (body entries)
  zeros : ∀ i < 2, m (madt + madtSize + BitVec.ofNat 32 ((body entries).length + i)) = 0#8
  room : 8 + (body entries).length ≤ len.toNat
  fits : madt.toNat + len.toNat < 2 ^ 32

section Layout
variable {m : Mem} {madt : Addr} {len : Word} {entries : List Entry} {turns : Nat} {t : AcpiState}

theorem Layout.walk (layout : Layout m madt len entries) (turns : Nat) :
    (finishes m (madt + len) turns (madt + madtSize) = true ↔ entries.length < turns) ∧
      (entries.length < turns →
        (walked m (madt + len) turns (madt + madtSize)).map (action m) = entries.map Entry.taken) := by
  have room := layout.room
  have fits := layout.fits
  have stop : (madt + len).toNat = madt.toNat + len.toNat := by bv_omega
  have start : (madt + madtSize).toNat = madt.toNat + 8 := by
    unfold madtSize
    bv_omega
  exact walk_body layout.holds (by omega) (.inr (layout.zeros 1 (by decide))) turns

theorem Layout.returns (layout : Layout m madt len entries) :
    ∃ t, (parseMadt (entries.length + 1) madt len).run (fresh m) = .ok () t := by
  rw [run_parseMadt]
  exact ⟨_, if_pos ((layout.walk _).1.mpr (Nat.lt_succ_self _))⟩

theorem Layout.parsed (layout : Layout m madt len entries) (ran : (parseMadt turns madt len).run (fresh m) = .ok () t) :
    Lists (entries.map Entry.taken) t.info ∧ ∀ event ∈ t.log, Counted t.info event := by
  rw [run_parseMadt] at ran
  split at ran
  case isFalse => cases ran
  case isTrue finished =>
    obtain ⟨enough, actions⟩ := layout.walk turns
    cases ran
    refine ⟨?_, counted_walkLog m (madt + len) turns AcpiInfo.zero (madt + madtSize)⟩
    change Lists _ (((walked m (madt + len) turns (madt + madtSize)).map (action m)).foldl Action.apply AcpiInfo.zero)
    rw [actions (enough.mp finished)]
    exact lists_foldl _

end Layout

/-- If what was selected can be told from the result, it was selected by the same condition. -/
theorem filter_congr_of_map_eq {α β : Type} {f : α → β} {p q : α → Bool} {l : List α} (seen : β → Bool)
    (told : ∀ x ∈ l, p x = seen (f x)) (same : (l.filter p).map f = (l.filter q).map f) : ∀ x ∈ l, p x = q x := by
  have subset (x : α) (member : x ∈ l) (selected : q x = true) : p x = true := by
    have image : f x ∈ (l.filter p).map f := by
      rw [same]
      exact List.mem_map_of_mem (List.mem_filter.mpr ⟨member, selected⟩)
    obtain ⟨y, inside, equal⟩ := List.mem_map.mp image
    obtain ⟨memberY, selectedY⟩ := List.mem_filter.mp inside
    rw [told x member, ← equal, ← told y memberY, selectedY]
  have nested : l.filter q = (l.filter p).filter q := by
    rw [List.filter_filter]
    apply List.filter_congr
    intro x member
    cases value : q x with
    | false => rfl
    | true => rw [subset x member value, Bool.and_self]
  have lengths := congrArg List.length same
  rw [List.length_map, List.length_map, nested] at lengths
  have all := List.length_filter_eq_length_iff.mp lengths.symm
  intro x member
  cases value : p x with
  | true => exact (all x (List.mem_filter.mpr ⟨member, value⟩)).symm
  | false =>
    cases other : q x with
    | false => rfl
    | true => rw [subset x member other] at value; cases value

/-- The result is what the table declares, and no array was left. -/
structure Registers (entries : List Entry) (t : AcpiState) : Prop where
  lists : Lists (entries.map Entry.declared) t.info
  bounds : InBounds t

/-- A well-formed table is registered as it declares, exactly if every processor that is
enabled has an odd number and no other processor has one. -/
theorem parse_madt_registers_iff {m : Mem} {madt : Addr} {len : Word} {entries : List Entry}
    (layout : Layout m madt len entries) (fewCpus : ((entries.filter Entry.isCpu).filter Entry.enabled).length ≤ MAX_CPUS)
    (fewIoapics : ((entries.map Entry.declared).filterMap Action.ioapic?).length ≤ MAX_IOAPIC) :
    (∃ turns t, (parseMadt turns madt len).run (fresh m) = .ok () t ∧ Registers entries t) ↔
      ∀ entry ∈ entries, entry.type = MADT_CPU → entry.odd = entry.enabled := by
  constructor
  · rintro ⟨turns, t, ran, registers⟩
    have cpus := registers.lists.cpus
    rw [(layout.parsed ran).1.cpus, Entry.taken, Entry.declared, Entry.cpus_action, Entry.cpus_action] at cpus
    intro entry member isCpu
    have listed : entry ∈ entries.filter Entry.isCpu := List.mem_filter.mpr ⟨member, decide_eq_true isCpu⟩
    exact filter_congr_of_map_eq (fun cpu : CpuInfo => decide (cpu.id &&& 1#8 ≠ 0#8)) (fun _ _ => rfl) cpus entry listed
  · intro agree
    obtain ⟨t, ran⟩ := layout.returns
    obtain ⟨lists, counted⟩ := layout.parsed ran
    have same : entries.map Entry.taken = entries.map Entry.declared := by
      apply List.map_congr_left
      intro entry member
      unfold Entry.taken Entry.declared Entry.action
      by_cases cpu : entry.type = MADT_CPU
      · rw [agree entry member cpu]
      · simp [Entry.isCpu, cpu]
    rw [same] at lists
    have cpus : t.info.numCpus ≤ MAX_CPUS := by
      have count := congrArg List.length lists.cpus
      rw [Entry.declared, Entry.cpus_action] at count
      simp only [List.length_map, List.length_range] at count
      omega
    have ioapics : t.info.numIoapic ≤ MAX_IOAPIC := by
      have count := congrArg List.length lists.ioapics
      simp only [List.length_map, List.length_range] at count
      omega
    exact ⟨_, t, ran, lists, cpus, ioapics, fun event member => (counted event member).inside cpus ioapics⟩

/-- Memory with some bytes at `a`, and zeros everywhere else. -/
def imageAt (a : Addr) (bytes : List Byte) : Mem := fun x => bytes.getD (x - a).toNat 0#8

theorem layout_imageAt (madt : Addr) (len : Word) (entries : List Entry) (room : 8 + (body entries).length ≤ len.toNat)
    (fits : madt.toNat + len.toNat < 2 ^ 32) : Layout (imageAt (madt + madtSize) (body entries)) madt len entries := by
  have place (i : Nat) (small : i < 2 ^ 32) : (madt + madtSize + BitVec.ofNat 32 i - (madt + madtSize)).toNat = i := by bv_omega
  refine ⟨?_, ?_, room, fits⟩
  · intro i bound
    rw [imageAt, place i (by omega)]
  · intro i bound
    rw [imageAt, place _ (by omega), List.getD_eq_default _ _ (by omega)]

/-- One enabled processor with an odd number, an I/O APIC and a remapped interrupt. -/
def sampleEntries : List Entry :=
  [⟨MADT_CPU, [1#8, 0#8, 1#8, 0#8, 0#8, 0#8], by decide, by decide⟩,
    ⟨MADT_IOAPIC, [2#8, 0#8, 0#8, 0#8, 0xc0#8, 0xfe#8, 0#8, 0#8, 0#8, 0#8], by decide, by decide⟩,
    ⟨MADT_INT, [0#8, 0#8, 2#8, 0#8, 0#8, 0#8, 0#8, 0#8], by decide, by decide⟩]

theorem parse_madt_registers_sample :
    Layout (imageAt (0x80002024#32 + madtSize) (body sampleEntries)) 0x80002024#32 74#32 sampleEntries ∧
      ∃ turns t, (parseMadt turns 0x80002024#32 74#32).run (fresh (imageAt (0x80002024#32 + madtSize) (body sampleEntries))) =
        .ok () t ∧ Registers sampleEntries t := by
  have layout := layout_imageAt 0x80002024#32 74#32 sampleEntries (by decide) (by decide)
  exact ⟨layout, (parse_madt_registers_iff layout (by decide) (by decide)).mpr (by decide)⟩

/-- One enabled processor with number 0. -/
def bootEntry : List Entry := [⟨MADT_CPU, [0#8, 0#8, 1#8, 0#8, 0#8, 0#8], by decide, by decide⟩]

theorem boot_processor_not_registered :
    Layout (imageAt (0x80002024#32 + madtSize) (body bootEntry)) 0x80002024#32 52#32 bootEntry ∧
      ∀ turns t, (parseMadt turns 0x80002024#32 52#32).run (fresh (imageAt (0x80002024#32 + madtSize) (body bootEntry))) =
        .ok () t → ¬ Registers bootEntry t := by
  have layout := layout_imageAt 0x80002024#32 52#32 bootEntry (by decide) (by decide)
  refine ⟨layout, ?_⟩
  intro turns t ran registers
  have cpus := registers.lists.cpus
  rw [(layout.parsed ran).1.cpus] at cpus
  revert cpus
  decide

end OsDev.Kernel.Madt
