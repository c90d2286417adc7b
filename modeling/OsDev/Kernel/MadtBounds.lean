import OsDev.Kernel.Madt

/-! How far the parser of the ACPI tables goes: the indices it stores to, over all tables
the root table lists, and the bytes it reads of one table. -/

namespace OsDev.Kernel.MadtBounds
open OsDev.Machine.Memory OsDev.Machine.Program OsDev.Kernel.Mmu OsDev.Kernel.StringLib OsDev.Kernel.Console
open OsDev.Kernel.Acpi OsDev.Kernel.Madt

section Tables
variable (m : Mem)

/-- The tables the root table lists. -/
def listed (sdt : Addr) (revision : Byte) : List Addr :=
  (List.range (sdtEntries (tableLen m sdt) revision).toNat).map (listedTable m sdt revision)

/-- Where `parse_madt` takes a table to end, and where the entries start. -/
def stopOf (table : Addr) : Addr := table + sdtSize + tableLen m table
def startOf (table : Addr) : Addr := table + sdtSize + madtSize

/-- The entries that are acted on in a list of tables. A table whose walk does not end keeps the others from being looked at. -/
def reached (turns : Nat) : List Addr → List Addr
  | [] => []
  | table :: rest =>
      if isMadt m table then
        walked m (stopOf m table) turns (startOf table) ++
          if finishes m (stopOf m table) turns (startOf table) then reached turns rest else []
      else reached turns rest

end Tables

theorem registered_append (m : Mem) (info : AcpiInfo) (first second : List Addr) :
    registered m info (first ++ second) = registered m (registered m info first) second := by
  simp [registered]

/-- The parser is in this state after these entries. -/
structure Parsed (m : Mem) (info : AcpiInfo) (entries : List Addr) (t : AcpiState) : Prop where
  mem : t.mem = m
  info : t.info = registered m info entries
  counted : ∀ event ∈ t.log, Counted t.info event

theorem Parsed.trans {m : Mem} {info : AcpiInfo} {first second : List Addr} {t u : AcpiState} (parsed : Parsed m info first t)
    (later : Parsed t.mem t.info second u) : Parsed m info (first ++ second) u := by
  obtain ⟨sameMem, result, counted⟩ := later
  rw [parsed.mem] at sameMem result
  refine ⟨sameMem, ?_, counted⟩
  rw [result, parsed.info, registered_append]

theorem parsed_afterMadt {s : AcpiState} (counted : ∀ event ∈ s.log, Counted s.info event) (turns : Nat) (table : Addr) :
    Parsed s.mem s.info (walked s.mem (stopOf s.mem table) turns (startOf table))
      (afterMadt s turns (table + sdtSize) (tableLen s.mem table)) := by
  refine ⟨rfl, rfl, ?_⟩
  intro event member
  rw [afterMadt_log, List.mem_append] at member
  rcases member with old | new
  · exact (counted event old).grown (grown_foldl _ _)
  · exact counted_walkLog _ _ _ _ _ event new

theorem parsed_parseSdtLoop (turns : Nat) (sdt : Addr) (revision : Byte) (left i : Nat) (s : AcpiState)
    (counted : ∀ event ∈ s.log, Counted s.info event) :
    Parsed s.mem s.info (reached s.mem turns ((List.range' i left).map (listedTable s.mem sdt revision)))
      (finalState ((parseSdtLoop turns sdt revision left i).run s)) := by
  induction left generalizing i s with
  | zero => exact ⟨rfl, rfl, counted⟩
  | succ left ih =>
    rw [parseSdtLoop, run_bind_ok (EStateM.run_get s), run_bind_ok (run_note _ s), run_ite, List.range'_succ, List.map_cons,
      reached]
    have noted : ∀ event ∈ (s.after s.info [.table (listedTable s.mem sdt revision i)]).log, Counted s.info event := by
      intro event member
      rw [AcpiState.after_log, List.mem_append, List.mem_singleton] at member
      rcases member with old | rfl
      · exact counted event old
      · trivial
    by_cases madt : isMadt s.mem (listedTable s.mem sdt revision i) = true
    · rw [if_pos madt, if_pos madt]
      have parsed := parsed_afterMadt noted turns (listedTable s.mem sdt revision i)
      have ran := run_parseMadt turns (listedTable s.mem sdt revision i + sdtSize)
        (tableLen s.mem (listedTable s.mem sdt revision i)) (s.after s.info [.table (listedTable s.mem sdt revision i)])
      by_cases finished : finishes s.mem (stopOf s.mem (listedTable s.mem sdt revision i)) turns
          (startOf (listedTable s.mem sdt revision i)) = true
      · rw [if_pos finished]
        rw [run_bind_ok (ran.trans (if_pos finished))]
        exact parsed.trans (ih (i + 1) _ parsed.counted)
      · rw [if_neg finished, List.append_nil]
        rw [run_bind_error (ran.trans (if_neg finished))]
        exact parsed
    · rw [if_neg madt, if_neg madt]
      exact ih (i + 1) _ noted

theorem parsed_parseSdt (m : Mem) (turns : Nat) (sdt : Addr) (revision : Byte) :
    Parsed m AcpiInfo.zero (reached m turns (listed m sdt revision)) (finalState ((parseSdt turns sdt revision).run (fresh m))) := by
  have start (count : Nat) := parsed_parseSdtLoop turns sdt revision count 0 (fresh m) (fun _ => by simp [fresh])
  unfold parseSdt listed
  rw [run_bind_ok (EStateM.run_get _), List.range_eq_range']
  exact start _

theorem run_cpuInitLoop (left i : Nat) (s : AcpiState) :
    ∃ apicid, (cpuInitLoop left i).run s =
      .ok () { s with apicid := apicid, log := s.log ++ (List.range' i left).map .storeApicid } := by
  induction left generalizing i s with
  | zero => exact ⟨s.apicid, by simp [cpuInitLoop]⟩
  | succ left ih =>
    rw [cpuInitLoop, run_bind_ok (run_note _ s), run_bind_ok (EStateM.run_modify _ _)]
    obtain ⟨apicid, ran⟩ := ih (i + 1)
      { s.after s.info [.storeApicid i] with apicid := Function.update s.apicid i (s.info.cpu i).apic }
    refine ⟨apicid, ran.trans ?_⟩
    simp [List.range'_succ]

/-- `cpu_init` writes as many entries as there are processors. -/
theorem Parsed.cpuInit {m : Mem} {info : AcpiInfo} {entries : List Addr} {t : AcpiState} (parsed : Parsed m info entries t) :
    Parsed m info entries (finalState (cpuInit.run t)) := by
  obtain ⟨apicid, ran⟩ := run_cpuInitLoop t.info.numCpus 0
    { t with console := t.console ++ [("CPUS: %d\n", [BitVec.ofNat 32 t.info.numCpus])] }
  unfold Acpi.cpuInit
  rw [run_bind_ok (EStateM.run_get t), run_bind_ok (run_say _ _ t), ran]
  refine ⟨parsed.mem, parsed.info, ?_⟩
  intro event member
  rcases List.mem_append.mp member with old | new
  · exact parsed.counted event old
  · obtain ⟨i, range, rfl⟩ := List.mem_map.mp new
    rw [List.mem_range'_1] at range
    change i < t.info.numCpus
    omega

/-- The kernel takes what the root table at `sdt` leads to. -/
def initCpus (turns : Nat) (sdt : Addr) (revision : Byte) : Prog AcpiState Unit := do
  parseSdt turns sdt revision
  cpuInit

theorem parsed_initCpus (m : Mem) (turns : Nat) (sdt : Addr) (revision : Byte) :
    Parsed m AcpiInfo.zero (reached m turns (listed m sdt revision)) (finalState ((initCpus turns sdt revision).run (fresh m))) := by
  have parsed := parsed_parseSdt m turns sdt revision
  apply finalState_bind (P := Parsed m AcpiInfo.zero (reached m turns (listed m sdt revision)))
  · intro e t ran
    rwa [ran] at parsed
  · intro _ t ran
    rw [ran] at parsed
    exact Parsed.cpuInit parsed

section Counts
variable (m : Mem) (entries : List Addr)

/-- The entries for processors with an odd number, and those for I/O APICs. -/
def oddCpus : Nat := entries.countP fun e => m e = MADT_CPU ∧ m (e + 2#32) &&& 1#8 ≠ 0#8
def ioapics : Nat := entries.countP fun e => m e = MADT_IOAPIC

theorem isSome_cpu_action (e : Addr) :
    (action m e).cpu?.isSome = true ↔ m e = MADT_CPU ∧ m (e + 2#32) &&& 1#8 ≠ 0#8 := by
  unfold action
  by_cases cpu : m e = MADT_CPU
  · by_cases even : m (e + 2#32) &&& 1#8 = 0#8 <;> simp [cpu, even, Action.cpu?]
  · rw [if_neg cpu]
    split
    · simp [cpu, Action.cpu?]
    · split <;> simp [cpu, Action.cpu?]

theorem isSome_ioapic_action (e : Addr) : (action m e).ioapic?.isSome = true ↔ m e = MADT_IOAPIC := by
  unfold action
  by_cases cpu : m e = MADT_CPU
  · by_cases even : m (e + 2#32) &&& 1#8 = 0#8 <;> simp [cpu, even, Action.ioapic?, MADT_CPU, MADT_IOAPIC]
  · by_cases ioapic : m e = MADT_IOAPIC
    · simp [ioapic, MADT_CPU, MADT_IOAPIC, Action.ioapic?]
    · rw [if_neg cpu, if_neg ioapic]
      split <;> simp [ioapic, Action.ioapic?]

theorem numCpus_registered : (registered m AcpiInfo.zero entries).numCpus = oddCpus m entries := by
  have count := congrArg List.length (lists_foldl (entries.map (action m))).cpus
  rw [List.length_map, List.length_range, List.filterMap_map, List.length_filterMap_eq_countP] at count
  rw [registered, count, oddCpus]
  apply List.countP_congr
  intro e _
  rw [decide_eq_true_iff]
  exact isSome_cpu_action m e

theorem numIoapic_registered : (registered m AcpiInfo.zero entries).numIoapic = ioapics m entries := by
  have count := congrArg List.length (lists_foldl (entries.map (action m))).ioapics
  rw [List.length_map, List.length_range, List.filterMap_map, List.length_filterMap_eq_countP] at count
  rw [registered, count, ioapics]
  apply List.countP_congr
  intro e _
  rw [decide_eq_true_iff]
  exact isSome_ioapic_action m e

end Counts

/-- No array is ever left. -/
def StaysInBounds (m : Mem) (sdt : Addr) (revision : Byte) : Prop :=
  ∀ turns, InBounds (finalState ((initCpus turns sdt revision).run (fresh m)))

/-- No array is left exactly if the tables have few enough entries. -/
theorem acpi_in_bounds_iff (m : Mem) (sdt : Addr) (revision : Byte) :
    StaysInBounds m sdt revision ↔ ∀ turns, oddCpus m (reached m turns (listed m sdt revision)) ≤ MAX_CPUS ∧
      ioapics m (reached m turns (listed m sdt revision)) ≤ MAX_IOAPIC := by
  unfold StaysInBounds
  apply forall_congr'
  intro turns
  obtain ⟨-, info, counted⟩ := parsed_initCpus m turns sdt revision
  have cpus := numCpus_registered m (reached m turns (listed m sdt revision))
  have ioapics := numIoapic_registered m (reached m turns (listed m sdt revision))
  rw [← info] at cpus ioapics
  rw [← cpus, ← ioapics]
  constructor
  · intro bounds
    exact ⟨bounds.cpus, bounds.ioapics⟩
  · rintro ⟨fewCpus, fewIoapics⟩
    exact ⟨fewCpus, fewIoapics, fun event member => (counted event member).inside fewCpus fewIoapics⟩

/-- A walk that is cut off has come to some of the entries of the whole walk. -/
theorem walked_prefix {m : Mem} {stop e : Addr} {n : Nat} (done : finishes m stop n e = true) (turns : Nat) :
    walked m stop turns e <+: walked m stop n e := by
  induction n generalizing e turns with
  | zero => cases done
  | succ n ih =>
    cases turns with
    | zero => exact List.nil_prefix
    | succ turns =>
      rw [finishes] at done
      rw [walked, walked]
      by_cases more : e < stop ∧ m (e + 1#32) ≠ 0#8
      · rw [if_pos more] at done
        rw [if_pos more, if_pos more]
        exact List.cons_prefix_cons.mpr ⟨rfl, ih done turns⟩
      · rw [if_neg more, if_neg more]

/-- If a single table is listed, its whole walk decides. -/
theorem reached_single {m : Mem} {table : Addr} (madt : isMadt m table = true) {n : Nat}
    (done : finishes m (stopOf m table) n (startOf table) = true) (turns : Nat) :
    reached m turns [table] <+: walked m (stopOf m table) n (startOf table) := by
  rw [reached, if_pos madt, reached, ite_self, List.append_nil]
  exact walked_prefix done turns

/-- A root table of 40 bytes, and behind it a MADT with a processor, an I/O APIC and a remapped interrupt. -/
def sampleTables : Mem := imageAt 0x80001000#32 (cstring "RSDT" ++ [40#8, 0#8, 0#8, 0#8] ++ List.replicate 28 0#8 ++
  [0x28#8, 0x10#8, 0#8, 0#8] ++ cstring "APIC" ++ [74#8, 0#8, 0#8, 0#8] ++ List.replicate 36 0#8 ++ body sampleEntries)

theorem acpi_in_bounds_sample :
    oddCpus sampleTables (reached sampleTables 4 (listed sampleTables 0x80001000#32 0#8)) = 1 ∧
      ioapics sampleTables (reached sampleTables 4 (listed sampleTables 0x80001000#32 0#8)) = 1 ∧
      StaysInBounds sampleTables 0x80001000#32 0#8 := by
  refine ⟨by decide +kernel, by decide +kernel, (acpi_in_bounds_iff _ _ _).mpr fun turns => ?_⟩
  have one : listed sampleTables 0x80001000#32 0#8 = [0x80001028#32] := by decide +kernel
  have reach : reached sampleTables turns [0x80001028#32] <+: walked sampleTables (stopOf sampleTables 0x80001028#32) 4
      (startOf 0x80001028#32) := reached_single (by decide +kernel) (by decide +kernel) turns
  rw [one]
  exact ⟨reach.sublist.countP_le.trans (by decide +kernel), reach.sublist.countP_le.trans (by decide +kernel)⟩

/-- A root table of 40 bytes, and behind it a MADT with five I/O APICs. -/
def fiveIoapics : List Byte :=
  cstring "RSDT" ++ [40#8, 0#8, 0#8, 0#8] ++ List.replicate 28 0#8 ++ [0x28#8, 0x10#8, 0#8, 0#8] ++
    cstring "APIC" ++ [104#8, 0#8, 0#8, 0#8] ++ List.replicate 36 0#8 ++
    (List.replicate 5 [1#8, 12#8, 0#8, 0#8, 0#8, 0#8, 0xc0#8, 0xfe#8, 0#8, 0#8, 0#8, 0#8]).flatten

theorem five_ioapics_out_of_bounds : ¬ StaysInBounds (imageAt 0x80001000#32 fiveIoapics) 0x80001000#32 0#8 := by
  intro bounds
  have few := (bounds 6).ioapics
  have five : (finalState ((initCpus 6 0x80001000#32 0#8).run (fresh (imageAt 0x80001000#32 fiveIoapics)))).info.numIoapic = 5 := by
    decide +kernel
  rw [five] at few
  revert few
  decide

/-! The bytes read of one table. -/

/-- The addresses from `table` on, `len` of them. -/
def Within (table : Addr) (len : Word) (a : Addr) : Prop := table.toNat ≤ a.toNat ∧ a.toNat < table.toNat + len.toNat

instance (table : Addr) (len : Word) : DecidablePred (Within table len) := fun _ => inferInstanceAs (Decidable (_ ∧ _))

/-- The parser stays inside a table, and its result depends on nothing else. -/
structure Confined (m : Mem) (table : Addr) : Prop where
  inside : ∀ turns a, .entry a ∈ (finalState ((parseMadt turns (table + sdtSize) (tableLen m table)).run (fresh m))).log →
    Within table (tableLen m table) a
  determined : ∀ m', (∀ a, Within table (tableLen m table) a → m' a = m a) → ∀ turns,
    (finalState ((parseMadt turns (table + sdtSize) (tableLen m table)).run (fresh m'))).info =
      (finalState ((parseMadt turns (table + sdtSize) (tableLen m table)).run (fresh m))).info

section Confined
variable (m : Mem) (table : Addr)

/-- The `n`-th entry, by the lengths of those before it. -/
def entryNo : Nat → Addr
  | 0 => startOf table
  | n + 1 => following m (entryNo n)

/-- The entry has a length, and what is read of it lies in the table. -/
structure Contained (e : Addr) : Prop where
  length : m (e + 1#32) ≠ 0#8
  inside : ∀ a ∈ (e + 1#32) :: fields m e, Within table (tableLen m table) a

/-- After some entries that lie in the table the walk is over, either at a length of 0
in the table or beyond the 36 bytes that follow it. -/
def EndsInside : Prop := ∃ n, (∀ i < n, Contained m table (entryNo m table i)) ∧
  (stopOf m table ≤ entryNo m table n ∨
    m (entryNo m table n + 1#32) = 0#8 ∧ Within table (tableLen m table) (entryNo m table n + 1#32))

/-- The bytes the loop reads. -/
def walkReads (stop : Addr) : Nat → Addr → List Addr
  | 0, _ => []
  | turns + 1, e =>
      if e < stop then
        (e + 1#32) :: if m (e + 1#32) = 0#8 then [] else
          fields m e ++ (e + 1#32) :: walkReads stop turns (following m e)
      else []

variable {m table}

theorem finalState_parseMadt (turns : Nat) (madt : Addr) (len : Word) (s : AcpiState) :
    finalState ((parseMadt turns madt len).run s) = afterMadt s turns madt len := by
  rw [run_parseMadt]
  split <;> rfl

theorem entry_not_mem_stores (a : Addr) (info : AcpiInfo) (action : Action) : Event.entry a ∉ action.stores info := by
  cases action <;> simp [Action.stores]

theorem entry_mem_walkLog {stop : Addr} (turns : Nat) (info : AcpiInfo) (e a : Addr) :
    Event.entry a ∈ walkLog m stop turns info e ↔ a ∈ walkReads m stop turns e := by
  induction turns generalizing info e with
  | zero => simp [walkLog, walkReads]
  | succ turns ih =>
    rw [walkLog, walkReads]
    by_cases inside : e < stop
    · by_cases zero : m (e + 1#32) = 0#8
      · simp [inside, zero]
      · simp [inside, zero, ih, entry_not_mem_stores]
    · simp [inside]

theorem entry_mem_log (turns : Nat) (a : Addr) :
    .entry a ∈ (finalState ((parseMadt turns (table + sdtSize) (tableLen m table)).run (fresh m))).log ↔
      a ∈ walkReads m (stopOf m table) turns (startOf table) := by
  rw [finalState_parseMadt, ← entry_mem_walkLog turns AcpiInfo.zero]
  rfl

theorem read32_of_addresses {m' : Mem} {a : Addr} (same : ∀ x ∈ addresses a 4, m' x = m x) : read32 m' a = read32 m a := by
  have lane (k : Nat) (small : k < 4) : m' (a + BitVec.ofNat 32 k) = m (a + BitVec.ofNat 32 k) :=
    same _ (List.mem_map.mpr ⟨k, List.mem_range.mpr small, rfl⟩)
  have first : m' a = m a := by simpa using lane 0 (by decide)
  rw [read32, read32, first, lane 1 (by decide), lane 2 (by decide), lane 3 (by decide)]

/-- The action of an entry is taken from the bytes read. -/
theorem action_congr {m' : Mem} {e : Addr} (same : ∀ a ∈ fields m e, m' a = m a) : action m' e = action m e := by
  have type : m' e = m e := same e (by simp [fields])
  unfold action
  rw [type]
  by_cases cpu : m e = MADT_CPU
  · have id : m' (e + 2#32) = m (e + 2#32) := same _ (by simp [fields, cpu])
    rw [if_pos cpu, if_pos cpu, id]
    by_cases even : m (e + 2#32) &&& 1#8 = 0#8
    · rw [if_pos even, if_pos even]
    · have apic : m' (e + 3#32) = m (e + 3#32) := same _ (by simp [fields, cpu, even])
      rw [if_neg even, if_neg even, apic]
  rw [if_neg cpu, if_neg cpu]
  by_cases ioapic : m e = MADT_IOAPIC
  · have read (a : Addr) (member : a ∈ (e + 2#32) :: (addresses (e + 4#32) 4 ++ addresses (e + 8#32) 4)) : m' a = m a :=
      same a (List.mem_cons_of_mem _ (by rwa [if_neg cpu, if_pos ioapic]))
    have id : m' (e + 2#32) = m (e + 2#32) := read _ (by simp)
    have addr : read32 m' (e + 4#32) = read32 m (e + 4#32) := read32_of_addresses fun x member => read x (by simp [member])
    have base : read32 m' (e + 8#32) = read32 m (e + 8#32) := read32_of_addresses fun x member => read x (by simp [member])
    rw [if_pos ioapic, if_pos ioapic, id, addr, base]
  rw [if_neg ioapic, if_neg ioapic]
  by_cases int : m e = MADT_INT
  · have read (a : Addr) (member : a ∈ (e + 3#32) :: addresses (e + 4#32) 4) : m' a = m a :=
      same a (List.mem_cons_of_mem _ (by rwa [if_neg cpu, if_neg ioapic, if_pos int]))
    have source : m' (e + 3#32) = m (e + 3#32) := read _ (by simp)
    have target : read32 m' (e + 4#32) = read32 m (e + 4#32) := read32_of_addresses fun x member => read x (by simp [member])
    rw [if_pos int, if_pos int, source, target]
  · rw [if_neg int, if_neg int]

section Walk
variable {n : Nat} (contained : ∀ i < n, Contained m table (entryNo m table i))
  (ends : stopOf m table ≤ entryNo m table n ∨
    m (entryNo m table n + 1#32) = 0#8 ∧ Within table (tableLen m table) (entryNo m table n + 1#32))
include contained ends

theorem walkReads_within (turns : Nat) {k : Nat} (upto : k ≤ n) :
    ∀ a ∈ walkReads m (stopOf m table) turns (entryNo m table k), Within table (tableLen m table) a := by
  induction turns generalizing k with
  | zero => simp [walkReads]
  | succ turns ih =>
    intro a member
    rw [walkReads] at member
    by_cases inside : entryNo m table k < stopOf m table
    case neg => simp [inside] at member
    rw [if_pos inside] at member
    rcases Nat.lt_or_eq_of_le upto with before | rfl
    · obtain ⟨length, fields⟩ := contained k before
      rw [if_neg length, List.mem_cons, List.mem_append, List.mem_cons] at member
      rcases member with rfl | read | rfl | later
      · exact fields _ List.mem_cons_self
      · exact fields a (List.mem_cons_of_mem _ read)
      · exact fields _ List.mem_cons_self
      · exact ih before a later
    · rcases ends with behind | ⟨zero, last⟩
      · exact absurd inside (BitVec.not_lt.mpr behind)
      · rw [if_pos zero, List.mem_singleton] at member
        rw [member]
        exact last

theorem walked_congr {m' : Mem} (same : ∀ a, Within table (tableLen m table) a → m' a = m a) (turns : Nat) {k : Nat}
    (upto : k ≤ n) : (walked m' (stopOf m table) turns (entryNo m table k)).map (action m') =
      (walked m (stopOf m table) turns (entryNo m table k)).map (action m) := by
  induction turns generalizing k with
  | zero => rfl
  | succ turns ih =>
    rw [walked, walked]
    by_cases inside : entryNo m table k < stopOf m table
    case neg => rw [if_neg (fun both => inside both.1), if_neg (fun both => inside both.1)]; rfl
    rcases Nat.lt_or_eq_of_le upto with before | rfl
    · obtain ⟨length, fields⟩ := contained k before
      have sameLength := same _ (fields _ List.mem_cons_self)
      have sameAction := action_congr fun a member => same a (fields a (List.mem_cons_of_mem _ member))
      have next : following m' (entryNo m table k) = entryNo m table (k + 1) := by rw [following, sameLength]; rfl
      rw [if_pos ⟨inside, by rwa [sameLength]⟩, if_pos ⟨inside, length⟩, List.map_cons, List.map_cons, sameAction, next, ih before]
      rfl
    · rcases ends with behind | ⟨zero, last⟩
      · exact absurd inside (BitVec.not_lt.mpr behind)
      · have empty : m' (entryNo m table k + 1#32) = 0#8 := (same _ last).trans zero
        rw [if_neg (fun both => both.2 empty), if_neg (fun both => both.2 zero)]
        rfl

end Walk

/-- What is read of the `n`-th entry is read by the whole loop, if the walk gets there. -/
theorem mem_walkReads {stop : Addr} {n : Nat} (turns : Nat) {a : Addr}
    (passes : ∀ i < n, entryNo m table i < stop ∧ m (entryNo m table i + 1#32) ≠ 0#8)
    (read : a ∈ walkReads m stop turns (entryNo m table n)) : a ∈ walkReads m stop (turns + n) (startOf table) := by
  induction n generalizing turns with
  | zero => exact read
  | succ n ih =>
    obtain ⟨inside, length⟩ := passes n (Nat.lt_succ_self n)
    rw [show turns + (n + 1) = turns + 1 + n by omega]
    apply ih (turns + 1) fun i less => passes i (by omega)
    rw [walkReads, if_pos inside, if_neg length, List.mem_cons, List.mem_append, List.mem_cons]
    exact .inr (.inr (.inr read))

/-- As long as the walk stays in the table it moves up. -/
theorem entryNo_le {n : Nat} (low : 256 ≤ table.toNat) (contained : ∀ i ≤ n, Contained m table (entryNo m table i)) :
    n ≤ (entryNo m table n).toNat := by
  induction n with
  | zero => exact Nat.zero_le _
  | succ n ih =>
    have before := ih fun i less => contained i (by omega)
    have length := (contained n (by omega)).length
    have above := ((contained (n + 1) (Nat.le_refl _)).inside _ List.mem_cons_self).1
    have step : entryNo m table (n + 1) = entryNo m table n + (m (entryNo m table n + 1#32)).setWidth 32 := rfl
    have small := (m (entryNo m table n + 1#32)).isLt
    generalize m (entryNo m table n + 1#32) = len at *
    generalize entryNo m table (n + 1) = e' at *
    generalize entryNo m table n = e at *
    bv_omega

/-- The parser keeps to a table exactly if the table makes it stop. -/
theorem madt_confined_iff {m : Mem} {table : Addr} (low : 256 ≤ table.toNat) : Confined m table ↔ EndsInside m table := by
  constructor
  · intro confined
    by_contra endless
    have goesOn (n : Nat) (before : ∀ i < n, Contained m table (entryNo m table i)) :
        entryNo m table n < stopOf m table := by
      by_contra behind
      exact endless ⟨n, before, .inl (BitVec.not_lt.mp behind)⟩
    have next (n : Nat) (before : ∀ i < n, Contained m table (entryNo m table i)) :
        Contained m table (entryNo m table n) := by
      have here := goesOn n before
      have read (a : Addr) (member : a ∈ walkReads m (stopOf m table) 1 (entryNo m table n)) :
          Within table (tableLen m table) a := by
        apply confined.inside (1 + n)
        rw [entry_mem_log]
        apply mem_walkReads 1 _ member
        intro i less
        exact ⟨goesOn i fun j small => before j (by omega), (before i less).length⟩
      rw [walkReads, if_pos here] at read
      have length : m (entryNo m table n + 1#32) ≠ 0#8 := by
        intro zero
        exact endless ⟨n, before, .inr ⟨zero, read _ List.mem_cons_self⟩⟩
      rw [if_neg length] at read
      refine ⟨length, ?_⟩
      intro a member
      apply read
      rcases List.mem_cons.mp member with rfl | field
      · exact List.mem_cons_self
      · exact List.mem_cons_of_mem _ (List.mem_append_left _ field)
    have all (n : Nat) : Contained m table (entryNo m table n) := Nat.strong_induction_on n next
    have far := entryNo_le low (fun i (_ : i ≤ 2 ^ 32) => all i)
    have bound := (entryNo m table (2 ^ 32)).isLt
    omega
  · rintro ⟨n, contained, ends⟩
    constructor
    · intro turns a member
      rw [entry_mem_log] at member
      exact walkReads_within contained ends turns (Nat.zero_le n) a member
    · intro m' same turns
      rw [finalState_parseMadt, finalState_parseMadt]
      have actions := walked_congr contained ends same turns (Nat.zero_le n)
      exact congrArg (List.foldl Action.apply AcpiInfo.zero) actions

/-- A MADT with one processor and two bytes of zeros behind it. -/
def paddedMadt : Mem := imageAt 0x80002000#32 (cstring "APIC" ++ [54#8, 0#8, 0#8, 0#8] ++ List.replicate 36 0#8 ++
  [0#8, 8#8, 1#8, 0#8, 1#8, 0#8, 0#8, 0#8])

theorem madt_confined_padded : 256 ≤ (0x80002000#32).toNat ∧ EndsInside paddedMadt 0x80002000#32 ∧
    Confined paddedMadt 0x80002000#32 := by
  have len : tableLen paddedMadt 0x80002000#32 = 54#32 := by decide +kernel
  have first : Contained paddedMadt 0x80002000#32 (entryNo paddedMadt 0x80002000#32 0) := by
    refine ⟨by decide +kernel, ?_⟩
    -- not decided as it stands, that would go through all words
    rw [len, ← List.forall_iff_forall_mem]
    decide +kernel
  have ends : EndsInside paddedMadt 0x80002000#32 := by
    refine ⟨1, ?_, .inr ⟨by decide +kernel, ?_⟩⟩
    · intro i less
      obtain rfl : i = 0 := by omega
      exact first
    · rw [len]
      decide +kernel
  exact ⟨by decide, ends, (madt_confined_iff (by decide)).mpr ends⟩

/-- A MADT without entries, and the same with something behind it. -/
def emptyMadt : Mem := imageAt 0x80002000#32 (cstring "APIC" ++ [44#8, 0#8, 0#8, 0#8])

def followedMadt : Mem := imageAt 0x80002000#32 (cstring "APIC" ++ [44#8, 0#8, 0#8, 0#8] ++ List.replicate 36 0#8 ++
  [0#8, 8#8, 1#8, 7#8])

/-- A byte behind the table is read, and what is there can become a processor. -/
theorem empty_madt_not_confined :
    tableLen emptyMadt 0x80002000#32 = 44#32 ∧
      (∃ a, .entry a ∈ (finalState ((parseMadt 2 (0x80002000#32 + sdtSize) 44#32).run (fresh emptyMadt))).log ∧
        ¬ Within 0x80002000#32 44#32 a) ∧
      (∀ a, Within 0x80002000#32 44#32 a → followedMadt a = emptyMadt a) ∧
      (finalState ((parseMadt 2 (0x80002000#32 + sdtSize) 44#32).run (fresh emptyMadt))).info.numCpus = 0 ∧
      (finalState ((parseMadt 2 (0x80002000#32 + sdtSize) 44#32).run (fresh followedMadt))).info.numCpus = 1 := by
  refine ⟨by decide +kernel, ⟨0x8000202d#32, by decide +kernel, by decide⟩, ?_, by decide +kernel, by decide +kernel⟩
  intro a within
  have place : (a - 0x80002000#32).toNat < 44 := by
    unfold Within at within
    bv_omega
  have bytes : ∀ i < 44, (cstring "APIC" ++ [44#8, 0#8, 0#8, 0#8] ++ List.replicate 36 0#8 ++ [0#8, 8#8, 1#8, 7#8]).getD i 0#8 =
      (cstring "APIC" ++ [44#8, 0#8, 0#8, 0#8]).getD i 0#8 := by decide
  exact bytes _ place

end Confined

end OsDev.Kernel.MadtBounds
