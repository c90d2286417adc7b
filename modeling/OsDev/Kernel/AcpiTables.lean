import OsDev.Kernel.MadtBounds

/-! From the root pointer to the tables: which tables `parse_sdt` looks at, and what
`acpi_init` makes of the memory the BIOS leaves. -/

namespace OsDev.Kernel.AcpiTables
open OsDev.Machine.Memory OsDev.Machine.Program OsDev.Kernel.Mmu OsDev.Kernel.StringLib OsDev.Kernel.Console
open OsDev.Kernel.Acpi OsDev.Kernel.Madt OsDev.Kernel.MadtBounds

/-! The tables a root table leads to. -/

def tableOf : Event → Option Addr
  | .table p => some p
  | _ => none

/-- The tables `parse_sdt` looks at, oldest first. -/
def examined (m : Mem) (turns : Nat) (sdt : Addr) (revision : Byte) : List Addr :=
  (finalState ((parseSdt turns sdt revision).run (fresh m))).log.filterMap tableOf

/-- The size of an entry of the root table, and the number of entries in a table of this length. -/
def entrySize (revision : Byte) : Nat := if revision ≠ 0#8 then 8 else 4
def entryCount (len : Word) (revision : Byte) : Nat := (len.toNat - 36) / entrySize revision

/-- The physical address in the `i`-th entry, in full. -/
def entryValue (m : Mem) (sdt : Addr) (revision : Byte) (i : Nat) : Nat :=
  if revision ≠ 0#8 then (read64 m (sdt + sdtSize + BitVec.ofNat 32 (8 * i))).toNat
  else (read32 m (sdt + sdtSize + BitVec.ofNat 32 (4 * i))).toNat

def declared (m : Mem) (sdt : Addr) (revision : Byte) : List Nat :=
  (List.range (entryCount (tableLen m sdt) revision)).map (entryValue m sdt revision)

/-- The parser, given time, looks at the declared tables in order and at no other address. -/
def VisitsDeclared (m : Mem) (sdt : Addr) (revision : Byte) : Prop :=
  ∃ enough, ∀ turns ≥ enough,
    (examined m turns sdt revision).map (fun p => (V2P p).toNat) = declared m sdt revision

/-- The walk through the entries of a MADT comes to an end. -/
def Ends (m : Mem) (table : Addr) : Prop :=
  ∃ n, stopOf m table ≤ entryNo m table n ∨ m (entryNo m table n + 1#32) = 0#8

/-- A root table with a whole header, whose entries lie below 4 GiB, and in which a
MADT that keeps the parser busy for ever can only be the last table. -/
structure Orderly (m : Mem) (sdt : Addr) (revision : Byte) : Prop where
  header : 36 ≤ (tableLen m sdt).toNat
  narrow : revision ≠ 0#8 → ∀ i < entryCount (tableLen m sdt) revision,
    read32 m (sdt + sdtSize + BitVec.ofNat 32 (8 * i) + 4#32) = 0#32
  ends : ∀ table ∈ (listed m sdt revision).dropLast, isMadt m table = true → Ends m table

section Visits
variable {m : Mem}

/-- The tables looked at in a list of tables. -/
def looked (m : Mem) (turns : Nat) : List Addr → List Addr
  | [] => []
  | table :: rest =>
      table :: if isMadt m table = true ∧ finishes m (stopOf m table) turns (startOf table) = false then [] else looked m turns rest

theorem tables_walkLog (stop : Addr) (turns : Nat) (info : AcpiInfo) (e : Addr) :
    (walkLog m stop turns info e).filterMap tableOf = [] := by
  have entries (l : List Addr) : (l.map Event.entry).filterMap tableOf = [] := by
    rw [List.filterMap_map]
    exact List.filterMap_eq_nil_iff.mpr fun _ _ => rfl
  have stores (action : Action) (info : AcpiInfo) : (action.stores info).filterMap tableOf = [] := by cases action <;> rfl
  induction turns generalizing info e with
  | zero => rfl
  | succ turns ih =>
    rw [walkLog]
    by_cases inside : e < stop
    · rw [if_pos inside]
      by_cases zero : m (e + 1#32) = 0#8
      · rw [if_pos zero]
        rfl
      · rw [if_neg zero, List.filterMap_cons_none rfl, List.filterMap_append, List.filterMap_append, entries, stores,
          List.filterMap_cons_none rfl, ih]
        rfl
    · rw [if_neg inside]
      rfl

theorem tables_parseSdtLoop (turns : Nat) (sdt : Addr) (revision : Byte) (left i : Nat) (s : AcpiState) :
    (finalState ((parseSdtLoop turns sdt revision left i).run s)).log.filterMap tableOf =
      s.log.filterMap tableOf ++ looked s.mem turns ((List.range' i left).map (listedTable s.mem sdt revision)) := by
  induction left generalizing i s with
  | zero => simp [parseSdtLoop, finalState, looked]
  | succ left ih =>
    rw [parseSdtLoop, run_bind_ok (EStateM.run_get s), run_bind_ok (run_note _ s), run_ite, List.range'_succ, List.map_cons,
      looked]
    generalize listedTable s.mem sdt revision i = table
    by_cases madt : isMadt s.mem table = true
    · rw [if_pos madt]
      have ran := run_parseMadt turns (table + sdtSize) (tableLen s.mem table) (s.after s.info [.table table])
      have walk := @tables_walkLog s.mem (stopOf s.mem table) turns s.info (startOf table)
      by_cases finished : finishes s.mem (stopOf s.mem table) turns (startOf table) = true
      · rw [run_bind_ok (ran.trans (if_pos finished)), ih]
        change (s.log ++ [Event.table table] ++ walkLog s.mem (stopOf s.mem table) turns s.info (startOf table)).filterMap tableOf ++
          looked s.mem turns _ = _
        simp [finished, walk, tableOf]
      · rw [run_bind_error (ran.trans (if_neg finished))]
        change (s.log ++ [Event.table table] ++ walkLog s.mem (stopOf s.mem table) turns s.info (startOf table)).filterMap tableOf = _
        simp [finished, madt, walk, tableOf]
    · rw [if_neg madt, ih]
      simp [madt, tableOf]

theorem examined_eq (turns : Nat) (sdt : Addr) (revision : Byte) :
    examined m turns sdt revision = looked m turns (listed m sdt revision) := by
  have start (count : Nat) := tables_parseSdtLoop turns sdt revision count 0 (fresh m)
  unfold examined parseSdt listed
  rw [run_bind_ok (EStateM.run_get _), List.range_eq_range']
  exact start _

theorem looked_ne_nil {tables : List Addr} (nonempty : tables ≠ []) (turns : Nat) : looked m turns tables ≠ [] := by
  cases tables with
  | nil => exact absurd rfl nonempty
  | cons table rest => exact List.cons_ne_nil _ _

theorem looked_isPrefix (turns : Nat) (tables : List Addr) : looked m turns tables <+: tables := by
  induction tables with
  | nil => exact List.nil_prefix
  | cons table rest ih =>
    rw [looked, List.cons_prefix_cons]
    split
    · exact ⟨rfl, List.nil_prefix⟩
    · exact ⟨rfl, ih⟩

/-- All tables are looked at exactly if only the last one can be left unfinished. -/
theorem looked_eq_iff (turns : Nat) (tables : List Addr) :
    looked m turns tables = tables ↔ ∀ table ∈ tables.dropLast, isMadt m table = true →
      finishes m (stopOf m table) turns (startOf table) = true := by
  induction tables with
  | nil => simp [looked]
  | cons table rest ih =>
    rcases rest with _ | ⟨next, rest⟩
    · simp [looked]
    · rw [looked, List.dropLast_cons_cons, List.forall_mem_cons, ← ih, List.cons.injEq]
      by_cases stuck : isMadt m table = true ∧ finishes m (stopOf m table) turns (startOf table) = false
      · simp [stuck]
      · rw [if_neg stuck]
        have passed : isMadt m table = true → finishes m (stopOf m table) turns (startOf table) = true := by
          intro madt
          by_contra unfinished
          exact stuck ⟨madt, Bool.eq_false_iff.mpr unfinished⟩
        constructor
        · rintro ⟨-, same⟩
          exact ⟨passed, same⟩
        · rintro ⟨-, same⟩
          exact ⟨rfl, same⟩

theorem finishes_iff (table : Addr) (turns k : Nat) :
    finishes m (stopOf m table) turns (entryNo m table k) = true ↔
      ∃ n < turns, stopOf m table ≤ entryNo m table (k + n) ∨ m (entryNo m table (k + n) + 1#32) = 0#8 := by
  induction turns generalizing k with
  | zero => simp [finishes]
  | succ turns ih =>
    rw [finishes]
    by_cases goesOn : entryNo m table k < stopOf m table ∧ m (entryNo m table k + 1#32) ≠ 0#8
    · rw [if_pos goesOn]
      refine (ih (k + 1)).trans ?_
      constructor
      · rintro ⟨n, less, past⟩
        rw [show k + 1 + n = k + (n + 1) by omega] at past
        exact ⟨n + 1, by omega, past⟩
      · rintro ⟨n, less, past⟩
        rcases n with _ | n
        · rcases past with behind | zero
          · exact absurd goesOn.1 (BitVec.not_lt.mpr behind)
          · exact absurd zero goesOn.2
        · rw [show k + (n + 1) = k + 1 + n by omega] at past
          exact ⟨n, by omega, past⟩
    · rw [if_neg goesOn]
      refine iff_of_true rfl ⟨0, Nat.succ_pos turns, ?_⟩
      by_cases behind : stopOf m table ≤ entryNo m table k
      · exact .inl behind
      · by_contra other
        exact goesOn ⟨BitVec.not_le.mp behind, fun zero => other (.inr zero)⟩

theorem ends_iff (table : Addr) :
    Ends m table ↔ ∃ turns, finishes m (stopOf m table) turns (startOf table) = true := by
  constructor
  · rintro ⟨n, past⟩
    refine ⟨n + 1, (finishes_iff table (n + 1) 0).mpr ⟨n, Nat.lt_succ_self n, ?_⟩⟩
    rwa [Nat.zero_add]
  · rintro ⟨turns, finished⟩
    obtain ⟨n, -, past⟩ := (finishes_iff table turns 0).mp finished
    exact ⟨0 + n, past⟩

theorem finishes_mono {table : Addr} {turns more : Nat} (finished : finishes m (stopOf m table) turns (startOf table) = true)
    (le : turns ≤ more) : finishes m (stopOf m table) more (startOf table) = true := by
  obtain ⟨n, less, past⟩ := (finishes_iff table turns 0).mp finished
  exact (finishes_iff table more 0).mpr ⟨n, by omega, past⟩

/-- One number of turns is enough for finitely many tables. -/
theorem exists_enough (tables : List Addr) (ends : ∀ table ∈ tables, isMadt m table = true → Ends m table) :
    ∃ enough, ∀ turns ≥ enough, ∀ table ∈ tables, isMadt m table = true →
      finishes m (stopOf m table) turns (startOf table) = true := by
  induction tables with
  | nil => exact ⟨0, fun _ _ _ member => absurd member List.not_mem_nil⟩
  | cons table rest ih =>
    obtain ⟨later, restEnds⟩ := ih fun other member => ends other (List.mem_cons_of_mem _ member)
    have first : ∃ turns, isMadt m table = true → finishes m (stopOf m table) turns (startOf table) = true := by
      by_cases madt : isMadt m table = true
      · obtain ⟨turns, finished⟩ := (ends_iff table).mp (ends table List.mem_cons_self madt)
        exact ⟨turns, fun _ => finished⟩
      · exact ⟨0, fun yes => absurd yes madt⟩
    obtain ⟨turns, finished⟩ := first
    refine ⟨max turns later, ?_⟩
    intro more enough other member madt
    rcases List.mem_cons.mp member with rfl | member
    · exact finishes_mono (finished madt) (by omega)
    · exact restEnds more (by omega) other member madt

end Visits

section Entries
variable {m : Mem} {sdt : Addr} {revision : Byte}

theorem sdtEntries_toNat (len : Word) (revision : Byte) :
    (sdtEntries len revision).toNat = (len - sdtSize).toNat / entrySize revision := by
  have bound := (len - sdtSize).isLt
  unfold sdtEntries entrySize
  split
  · rw [BitVec.toInt_eq_toNat_of_lt (by rw [BitVec.toNat_udiv]; simp; omega), Int.toNat_natCast, BitVec.toNat_udiv]
    rfl
  · rw [BitVec.toInt_eq_toNat_of_lt (by rw [BitVec.toNat_udiv]; simp; omega), Int.toNat_natCast, BitVec.toNat_udiv]
    rfl

theorem sdtEntries_header {len : Word} (header : 36 ≤ len.toNat) : (sdtEntries len revision).toNat = entryCount len revision := by
  rw [sdtEntries_toNat, entryCount]
  congr 1
  unfold sdtSize
  bv_omega

/-- A length below that of the header wraps round to a large number of entries. -/
theorem sdtEntries_short {len : Word} (short : len.toNat < 36) : 0 < (sdtEntries len revision).toNat := by
  rw [sdtEntries_toNat]
  have wrapped : 2 ^ 32 - 36 ≤ (len - sdtSize).toNat := by
    unfold sdtSize
    bv_omega
  have size : entrySize revision ≤ 8 := by
    unfold entrySize
    split <;> omega
  have positive : 0 < entrySize revision := by
    unfold entrySize
    split <;> omega
  exact Nat.div_pos (by omega) positive

/-- A 64-bit entry loses its high word. -/
theorem toNat_listedTable (i : Nat) : (V2P (listedTable m sdt revision i)).toNat = entryValue m sdt revision i % 2 ^ 32 := by
  unfold listedTable entryValue
  split
  · rw [V2P_P2V, BitVec.toNat_setWidth]
  · rw [V2P_P2V, Nat.mod_eq_of_lt (read32 m _).isLt]

/-- A 64-bit address lies below 4 GiB when its high word is 0. -/
theorem read64_lt_iff (a : Addr) : (read64 m a).toNat < 2 ^ 32 ↔ read32 m (a + 4#32) = 0#32 := by
  unfold read64
  rw [BitVec.toNat_append]
  generalize read32 m a = low
  generalize read32 m (a + 4#32) = high
  have bound := low.isLt
  rw [← Nat.shiftLeft_add_eq_or_of_lt bound]
  constructor
  · intro small
    apply BitVec.eq_of_toNat_eq
    simp only [Nat.shiftLeft_eq, BitVec.toNat_ofNat] at small ⊢
    omega
  · intro zero
    rw [zero, BitVec.toNat_ofNat, Nat.zero_mod, Nat.zero_shiftLeft, Nat.zero_add]
    exact bound

theorem entryValue_lt_iff (i : Nat) : entryValue m sdt revision i < 2 ^ 32 ↔
    (revision ≠ 0#8 → read32 m (sdt + sdtSize + BitVec.ofNat 32 (8 * i) + 4#32) = 0#32) := by
  unfold entryValue
  split
  · rename_i wide
    rw [read64_lt_iff]
    exact ⟨fun zero _ => zero, fun zero => zero wide⟩
  · rename_i narrow
    exact iff_of_true (read32 m _).isLt fun wide => absurd wide narrow

end Entries

/-- The parser keeps to the declared tables exactly if the root table is orderly. -/
theorem parse_sdt_visits_iff (m : Mem) (sdt : Addr) (revision : Byte) :
    VisitsDeclared m sdt revision ↔ Orderly m sdt revision := by
  have size : (listed m sdt revision).length = (sdtEntries (tableLen m sdt) revision).toNat := by simp [listed]
  constructor
  · rintro ⟨enough, visits⟩
    have visit := visits enough (Nat.le_refl _)
    rw [examined_eq] at visit
    have header : 36 ≤ (tableLen m sdt).toNat := by
      by_contra short
      have positive := @sdtEntries_short revision _ (not_le.mp short)
      have nonempty : listed m sdt revision ≠ [] := by
        intro nothing
        rw [nothing, List.length_nil] at size
        omega
      have empty : declared m sdt revision = [] := by
        rw [declared, entryCount, show (tableLen m sdt).toNat - 36 = 0 by omega, Nat.zero_div]
        rfl
      rw [empty, List.map_eq_nil_iff] at visit
      exact looked_ne_nil nonempty enough visit
    rw [sdtEntries_header header] at size
    have same : looked m enough (listed m sdt revision) = listed m sdt revision := by
      apply (looked_isPrefix enough _).eq_of_length
      have lengths := congrArg List.length visit
      rw [List.length_map, declared, List.length_map, List.length_range] at lengths
      rw [lengths, size]
    have finished := (looked_eq_iff enough _).mp same
    refine ⟨header, ?_, fun table member madt => (ends_iff table).mpr ⟨enough, finished table member madt⟩⟩
    intro wide i less
    rw [same, listed, sdtEntries_header header, List.map_map, declared, List.map_inj_left] at visit
    have value := visit i (List.mem_range.mpr less)
    rw [Function.comp_apply, toNat_listedTable] at value
    have small : entryValue m sdt revision i < 2 ^ 32 := value ▸ Nat.mod_lt _ (by decide)
    exact (entryValue_lt_iff i).mp small wide
  · rintro ⟨header, narrow, ends⟩
    obtain ⟨enough, finished⟩ := exists_enough _ ends
    refine ⟨enough, fun turns more => ?_⟩
    have full := (looked_eq_iff turns _).mpr (finished turns more)
    rw [examined_eq, full, listed, sdtEntries_header header, List.map_map, declared, List.map_inj_left]
    intro i member
    rw [Function.comp_apply, toNat_listedTable]
    apply Nat.mod_eq_of_lt
    exact (entryValue_lt_iff i).mpr fun wide => narrow wide i (List.mem_range.mp member)

/-- A root table that lists one table, at 0x1028. -/
def oneTable : List Byte :=
  cstring "RSDT" ++ [40#8, 0#8, 0#8, 0#8] ++ List.replicate 28 0#8 ++ [0x28#8, 0x10#8, 0#8, 0#8]

theorem parse_sdt_visits_one : VisitsDeclared (imageAt 0x80001000#32 oneTable) 0x80001000#32 0#8 ∧
    declared (imageAt 0x80001000#32 oneTable) 0x80001000#32 0#8 = [0x1028] := by
  have one : (listed (imageAt 0x80001000#32 oneTable) 0x80001000#32 0#8).dropLast = [] := by decide +kernel
  refine ⟨(parse_sdt_visits_iff _ _ _).mpr ⟨by decide +kernel, fun wide => absurd rfl wide, ?_⟩, by decide +kernel⟩
  intro table member
  rw [one] at member
  cases member

/-- An XSDT whose only entry is 0x100001028, and a table of length 0. -/
def highTable : List Byte :=
  cstring "XSDT" ++ [44#8, 0#8, 0#8, 0#8] ++ List.replicate 28 0#8 ++ [0x28#8, 0x10#8, 0#8, 0#8, 1#8, 0#8, 0#8, 0#8]

theorem high_table_not_visited :
    (∀ turns, examined (imageAt 0x80001000#32 highTable) turns 0x80001000#32 1#8 = [0x80001028#32]) ∧
      declared (imageAt 0x80001000#32 highTable) 0x80001000#32 1#8 = [0x100001028] ∧
      ¬ VisitsDeclared (imageAt 0x80001000#32 highTable) 0x80001000#32 1#8 ∧
      ¬ VisitsDeclared (fun _ => 0#8) 0x80001000#32 0#8 := by
  have listing : listed (imageAt 0x80001000#32 highTable) 0x80001000#32 1#8 = [0x80001028#32] := by decide +kernel
  have other : isMadt (imageAt 0x80001000#32 highTable) 0x80001028#32 = false := by decide +kernel
  have visits (turns : Nat) : examined (imageAt 0x80001000#32 highTable) turns 0x80001000#32 1#8 = [0x80001028#32] := by
    rw [examined_eq, listing, looked, other]
    rfl
  have wide : declared (imageAt 0x80001000#32 highTable) 0x80001000#32 1#8 = [0x100001028] := by decide +kernel
  refine ⟨visits, wide, ?_, ?_⟩
  · rintro ⟨enough, same⟩
    have there := same enough (Nat.le_refl _)
    rw [visits, wide] at there
    revert there
    decide
  · rintro ⟨enough, same⟩
    have there := same enough (Nat.le_refl _)
    have undeclared : declared (fun _ => 0#8) 0x80001000#32 0#8 = [] := by decide +kernel
    have positive : 0 < (sdtEntries (tableLen (fun _ => 0#8) 0x80001000#32) 0#8).toNat := sdtEntries_short (by decide +kernel)
    rw [undeclared, List.map_eq_nil_iff, examined_eq] at there
    refine looked_ne_nil ?_ enough there
    rw [listed, Ne, List.map_eq_nil_iff, List.range_eq_nil]
    omega

/-! The root pointer structure. -/

/-- A 16-byte boundary in the first KiB of the Extended BIOS Data Area, or between 0xE0000 and 0xFFFFF. -/
def InRegions (m : Mem) (p : Addr) : Prop :=
  (V2P p).toNat % 16 = 0 ∧
    ((ebda m).toNat ≤ (V2P p).toNat ∧ (V2P p).toNat < (ebda m).toNat + 1024 ∨
      0xE0000 ≤ (V2P p).toNat ∧ (V2P p).toNat ≤ 0xFFFFF)

def Signed (m : Mem) (p : Addr) : Prop := ∀ k < 8, region m p k = literal RSDP_SIGNATURE k

instance (m : Mem) : DecidablePred (Signed m) := fun _ => Nat.decidableBallLT 8 _

/-- The sum of the first 20 bytes. -/
def checksum (m : Mem) (p : Addr) : Byte := ((addresses p 20).map m).sum

/-- The physical address of the root table, in full. -/
def rootValue (m : Mem) (p : Addr) : Nat :=
  if m (p + 15#32) ≠ 0#8 then (read64 m (p + 24#32)).toNat else (read32 m (p + 16#32)).toNat

/-- The whole run is that of the parser on the root table, after some bytes of the
structure are read, and the parser looks at tables that the root table lists only. -/
structure Parses (m : Mem) (turns : Nat) (p root : Addr) : Prop where
  named : (V2P root).toNat = rootValue m p
  run : ∃ reads : List Addr, (∀ a ∈ reads, a ∈ span p 36) ∧
    (acpiInit turns).run (fresh m) =
      (parseSdt turns root (m (p + 15#32))).run ((fresh m).after AcpiInfo.zero (reads.map .rsdp))
  tables : ∀ table ∈ examined m turns root (m (p + 15#32)), (V2P table).toNat ∈ declared m root (m (p + 15#32))

/-- The tables of a structure with the signature and a checksum of 0 are parsed, or
nothing is registered; without a signature no structure is read. -/
structure SafeInit (m : Mem) : Prop where
  outcome : ∀ turns, (∃ p root, InRegions m p ∧ Signed m p ∧ checksum m p = 0#8 ∧ Parses m turns p root) ∨
    ∃ t, (acpiInit turns).run (fresh m) = .ok () t ∧ t.info = AcpiInfo.zero
  unread : (∀ p, InRegions m p → ¬ Signed m p) →
    ∀ turns a, .rsdp a ∉ (finalState ((acpiInit turns).run (fresh m))).log

/-- What `parse_sdt` is given for a root table, of whose address 32 bits are used. -/
def rootOf (m : Mem) (p : Addr) : Addr :=
  P2V (if m (p + 15#32) ≠ 0#8 then read32 m (p + 24#32) else read32 m (p + 16#32))

/-- The root table and the tables it lists have addresses of 32 bits, and it has a whole header. -/
structure Whole (m : Mem) (p : Addr) : Prop where
  root : m (p + 15#32) ≠ 0#8 → read32 m (p + 28#32) = 0#32
  header : 36 ≤ (tableLen m (rootOf m p)).toNat
  narrow : m (p + 15#32) ≠ 0#8 → ∀ i < entryCount (tableLen m (rootOf m p)) (m (p + 15#32)),
    read32 m (rootOf m p + sdtSize + BitVec.ofNat 32 (8 * i) + 4#32) = 0#32

section Scan
variable (m : Mem)

/-- Every sixteenth address. -/
def boundaries (p : Addr) (count : Nat) : List Addr := (List.range count).map fun k => p + BitVec.ofNat 32 (16 * k)

theorem boundaries_succ (p : Addr) (count : Nat) : boundaries p (count + 1) = p :: boundaries (p + 16#32) count := by
  unfold boundaries
  rw [List.range_succ_eq_map, List.map_cons, List.map_map]
  congr 1
  · simp
  · apply List.map_congr_left
    intro k _
    rw [Function.comp_apply, BitVec.add_assoc, ← BitVec.ofNat_add]
    congr 2
    omega

theorem mem_boundaries {p q : Addr} {count : Nat} (fits : p.toNat + 16 * count ≤ 2 ^ 32) :
    q ∈ boundaries p count ↔ p.toNat ≤ q.toNat ∧ q.toNat < p.toNat + 16 * count ∧ (q.toNat - p.toNat) % 16 = 0 := by
  unfold boundaries
  rw [List.mem_map]
  constructor
  · rintro ⟨k, range, rfl⟩
    have less := List.mem_range.mp range
    have place : (p + BitVec.ofNat 32 (16 * k)).toNat = p.toNat + 16 * k := by
      rw [BitVec.toNat_add, BitVec.toNat_ofNat, Nat.add_mod_mod, Nat.mod_eq_of_lt (by omega)]
    omega
  · rintro ⟨above, below, step⟩
    refine ⟨(q.toNat - p.toNat) / 16, List.mem_range.mpr (by omega), BitVec.eq_of_toNat_eq ?_⟩
    rw [BitVec.toNat_add, BitVec.toNat_ofNat, Nat.add_mod_mod, Nat.mod_eq_of_lt (by omega)]
    omega

theorem run_scanRsdpLoop (stop : Addr) (fuel count : Nat) (p : Addr) (s : AcpiState) (enough : count < fuel)
    (fits : p.toNat + 16 * count < 2 ^ 32) (low : p.toNat + 16 * count < stop.toNat + 16)
    (high : stop.toNat ≤ p.toNat + 16 * count) :
    (scanRsdpLoop m stop fuel p).run s = .ok (((boundaries p count).find? fun q => decide (Signed m q)).getD 0#32) s := by
  induction count generalizing p fuel with
  | zero =>
    obtain ⟨fuel, rfl⟩ : ∃ f, fuel = f + 1 := ⟨fuel - 1, by omega⟩
    rw [scanRsdpLoop, run_ite, if_neg (by bv_omega)]
    rfl
  | succ count ih =>
    obtain ⟨fuel, rfl⟩ : ∃ f, fuel = f + 1 := ⟨fuel - 1, by omega⟩
    have next : (p + 16#32).toNat = p.toNat + 16 := by bv_omega
    have inside : p < stop := by bv_omega
    rw [scanRsdpLoop, run_ite, if_pos inside, run_ite, boundaries_succ, List.find?_cons]
    by_cases signed : Signed m p
    · rw [if_pos ((memcmp_eq_zero _ _ 8).mpr signed)]
      simp [signed]
    · rw [if_neg (fun equal => signed ((memcmp_eq_zero _ _ 8).mp equal)), ih fuel _ (by omega) (by omega) (by omega) (by omega)]
      simp [signed]

theorem ebda_bounds : (ebda m).toNat ≤ 0xFFFF0 ∧ (ebda m).toNat % 16 = 0 := by
  have low := (m (P2V 0x40e#32)).isLt
  have high := (m (P2V 0x40f#32)).isLt
  unfold ebda
  generalize m (P2V 0x40e#32) = a at *
  generalize m (P2V 0x40f#32) = b at *
  rw [BitVec.toNat_shiftLeft, BitVec.toNat_ofNat, Nat.shiftLeft_eq]
  omega

def candidates : List Addr := boundaries (P2V (ebda m)) 64 ++ boundaries (P2V 0xE0000#32) 8192

theorem mem_candidates {p : Addr} : p ∈ candidates m ↔ InRegions m p := by
  have bounds := ebda_bounds m
  have start : (P2V (ebda m)).toNat = (ebda m).toNat + 0x80000000 := by
    unfold P2V KERNBASE
    bv_omega
  have bios : (P2V 0xE0000#32).toNat = 0x800E0000 := by decide
  have place : p.toNat = ((V2P p).toNat + 0x80000000) % 2 ^ 32 := by
    unfold V2P KERNBASE
    bv_omega
  have small := (V2P p).isLt
  unfold candidates InRegions
  rw [List.mem_append, mem_boundaries (by omega), mem_boundaries (by omega)]
  omega

theorem run_scanRsdp (start stop : Addr) (count : Nat) (s : AcpiState) (enough : count ≤ 2 ^ 28)
    (fits : (P2V start).toNat + 16 * count < 2 ^ 32) (low : (P2V start).toNat + 16 * count < (P2V stop).toNat + 16)
    (high : (P2V stop).toNat ≤ (P2V start).toNat + 16 * count) :
    (scanRsdp start stop).run s = .ok (((boundaries (P2V start) count).find? fun q => decide (Signed s.mem q)).getD 0#32) s := by
  unfold scanRsdp
  rw [run_bind_ok (EStateM.run_get s)]
  exact run_scanRsdpLoop s.mem (P2V stop) _ count (P2V start) s (by omega) fits low high

theorem run_findRsdp (s : AcpiState) :
    findRsdp.run s = .ok (((candidates s.mem).find? fun q => decide (Signed s.mem q)).getD 0#32) s := by
  have bounds := ebda_bounds s.mem
  have start : (P2V (ebda s.mem)).toNat = (ebda s.mem).toNat + 0x80000000 := by
    unfold P2V KERNBASE
    bv_omega
  have stop : (P2V (ebda s.mem + 1024#32)).toNat = (ebda s.mem).toNat + 0x80000400 := by
    unfold P2V KERNBASE
    bv_omega
  have first := run_scanRsdp (ebda s.mem) (ebda s.mem + 1024#32) 64 s (by omega) (by omega) (by omega) (by omega)
  have second := run_scanRsdp 0xE0000#32 0xFFFFF#32 8192 s (by decide) (by decide) (by decide) (by decide)
  unfold findRsdp candidates
  rw [run_bind_ok (EStateM.run_get s), run_bind_ok first, run_ite, List.find?_append]
  cases found : (boundaries (P2V (ebda s.mem)) 64).find? fun q => decide (Signed s.mem q) with
  | none =>
    rw [if_neg (by simp), second, Option.none_or]
  | some q =>
    have member := List.mem_of_find?_eq_some found
    rw [mem_boundaries (by omega)] at member
    have nonzero : q ≠ 0#32 := by
      rintro rfl
      have zero : (0#32).toNat = 0 := rfl
      omega
    rw [if_pos (by simpa using nonzero), EStateM.run_pure, Option.some_or]

end Scan

/-! The structure that was found, or the null pointer. -/

section Init
variable {m : Mem}

theorem addresses_succ (a : Addr) (size : Nat) : addresses a (size + 1) = a :: addresses (a + 1#32) size := by
  unfold addresses
  rw [List.range_succ_eq_map, List.map_cons, List.map_map]
  congr 1
  · simp
  · apply List.map_congr_left
    intro k _
    rw [Function.comp_apply, BitVec.add_assoc, ← BitVec.ofNat_add]
    congr 2
    omega

theorem run_computeChecksumLoop (stop : Addr) (fuel count : Nat) (buffer : Addr) (sum : Byte) (s : AcpiState)
    (enough : count < fuel) (fits : buffer.toNat + count = stop.toNat) :
    (computeChecksumLoop stop fuel buffer sum).run s =
      .ok (sum + ((addresses buffer count).map s.mem).sum) (s.after s.info ((addresses buffer count).map .rsdp)) := by
  induction count generalizing buffer sum fuel s with
  | zero =>
    obtain ⟨fuel, rfl⟩ : ∃ f, fuel = f + 1 := ⟨fuel - 1, by omega⟩
    rw [computeChecksumLoop, run_ite, if_neg (by bv_omega)]
    simp [addresses, after_self]
  | succ count ih =>
    obtain ⟨fuel, rfl⟩ : ∃ f, fuel = f + 1 := ⟨fuel - 1, by omega⟩
    have bound := stop.isLt
    have read : (rsdpByte buffer).run s = .ok (s.mem buffer) (s.after s.info [.rsdp buffer]) := rfl
    rw [computeChecksumLoop, run_ite, if_pos (by bv_omega), run_bind_ok read, ih fuel _ _ _ (by omega) (by bv_omega),
      addresses_succ]
    simp [BitVec.add_assoc]

theorem run_computeChecksum (p : Addr) (s : AcpiState) (fits : p.toNat + 20 < 2 ^ 32) :
    (computeChecksum p ACPI_RSDP_CHECKSUM_LENGTH).run s =
      .ok (checksum s.mem p) (s.after s.info ((addresses p 20).map .rsdp)) := by
  have sum := run_computeChecksumLoop (p + ACPI_RSDP_CHECKSUM_LENGTH) (2 ^ 32) 20 p 0#8 s (by omega)
    (by unfold ACPI_RSDP_CHECKSUM_LENGTH; bv_omega)
  rw [BitVec.zero_add] at sum
  exact sum

/-- The bytes read before the checksum is known. -/
def headReads (m : Mem) (p : Addr) : List Addr :=
  (p + 15#32) :: addresses (if m (p + 15#32) ≠ 0#8 then p + 24#32 else p + 16#32) 4 ++ addresses p 20

/-- The fields are read, and the checksum is computed, whatever the scan brought. -/
theorem run_acpiInit (turns : Nat) (p : Addr) (s : AcpiState) (found : findRsdp.run s = .ok p s) (fits : p.toNat + 20 < 2 ^ 32) :
    (acpiInit turns).run s =
      if checksum s.mem p ≠ 0#8 then
        .ok () { s.after s.info ((headReads s.mem p).map .rsdp) with
          console := s.console ++ [("WARN: Invalid RSDP checksum\n", [])] }
      else (parseSdt turns (rootOf s.mem p) (s.mem (p + 15#32))).run
        (s.after s.info ((headReads s.mem p ++ [p + 15#32]).map .rsdp)) := by
  have byte (a : Addr) (t : AcpiState) : (rsdpByte a).run t = .ok (t.mem a) (t.after t.info [.rsdp a]) := rfl
  have word (a : Addr) (t : AcpiState) :
      (rsdpWord a).run t = .ok (read32 t.mem a) (t.after t.info ((addresses a 4).map .rsdp)) := rfl
  have rest (root : Word) (reads : List Addr) :
      EStateM.run (do
        if (← computeChecksum p ACPI_RSDP_CHECKSUM_LENGTH) ≠ 0#8 then say "WARN: Invalid RSDP checksum\n" []
        else do
          let revision ← rsdpByte (p + 15#32)
          parseSdt turns (P2V root) revision) (s.after s.info (reads.map .rsdp)) =
      if checksum s.mem p ≠ 0#8 then
        .ok () { s.after s.info ((reads ++ addresses p 20).map .rsdp) with
          console := s.console ++ [("WARN: Invalid RSDP checksum\n", [])] }
      else (parseSdt turns (P2V root) (s.mem (p + 15#32))).run
        (s.after s.info ((reads ++ addresses p 20 ++ [p + 15#32]).map .rsdp)) := by
    rw [run_bind_ok (run_computeChecksum p _ fits), run_ite]
    by_cases bad : checksum s.mem p ≠ 0#8
    · rw [if_pos bad, AcpiState.after_mem, if_pos bad, run_say]
      simp [AcpiState.after]
    · rw [if_neg bad, AcpiState.after_mem, if_neg bad, run_bind_ok (byte _ _)]
      simp
  unfold acpiInit rootOf headReads
  rw [run_bind_ok found, run_bind_ok (byte _ s)]
  by_cases wide : s.mem (p + 15#32) ≠ 0#8
  · simp only [if_pos wide]
    rw [run_bind_ok (word _ _), AcpiState.after_mem, after_after]
    exact rest _ ((p + 15#32) :: addresses (p + 24#32) 4)
  · simp only [if_neg wide]
    rw [run_bind_ok (word _ _), AcpiState.after_mem, after_after]
    exact rest _ ((p + 15#32) :: addresses (p + 16#32) 4)

/-- The parser forgets nothing of the log. -/
theorem mem_log_parseSdtLoop (turns : Nat) (sdt : Addr) (revision : Byte) (left i : Nat) {event : Event} (s : AcpiState)
    (member : event ∈ s.log) : event ∈ (finalState ((parseSdtLoop turns sdt revision left i).run s)).log := by
  induction left generalizing i s with
  | zero => exact member
  | succ left ih =>
    have noted (table : Addr) : event ∈ (s.after s.info [.table table]).log := List.mem_append_left _ member
    rw [parseSdtLoop, run_bind_ok (EStateM.run_get s), run_bind_ok (run_note _ s), run_ite]
    generalize listedTable s.mem sdt revision i = table
    split
    · have ran := run_parseMadt turns (table + sdtSize) (tableLen s.mem table) (s.after s.info [.table table])
      split at ran
      · rw [run_bind_ok ran]
        exact ih (i + 1) _ (List.mem_append_left _ (noted table))
      · rw [run_bind_error ran]
        exact List.mem_append_left _ (noted table)
    · exact ih (i + 1) _ (noted table)

theorem mem_log_parseSdt (turns : Nat) (sdt : Addr) (revision : Byte) {event : Event} (s : AcpiState) (member : event ∈ s.log) :
    event ∈ (finalState ((parseSdt turns sdt revision).run s)).log := by
  have start (count : Nat) := mem_log_parseSdtLoop turns sdt revision count 0 s member
  unfold parseSdt
  rw [run_bind_ok (EStateM.run_get s)]
  exact start _

theorem mem_span_of_addresses {p a : Addr} {offset size : Nat} (fits : offset + size ≤ 36)
    (member : a ∈ addresses (p + BitVec.ofNat 32 offset) size) : a ∈ span p 36 := by
  obtain ⟨i, range, rfl⟩ := List.mem_map.mp member
  have less := List.mem_range.mp range
  rw [mem_span]
  bv_omega

theorem headReads_inside (p : Addr) : ∀ a ∈ headReads m p, a ∈ span p 36 := by
  intro a member
  rw [headReads, List.cons_append, List.mem_cons, List.mem_append] at member
  rcases member with rfl | root | sum
  · rw [mem_span]
    bv_omega
  · split at root
    · exact mem_span_of_addresses (by decide) root
    · exact mem_span_of_addresses (by decide) root
  · rw [← BitVec.add_zero p] at sum
    exact mem_span_of_addresses (by decide) sum

/-- Without a signature the revision is read through the null pointer. -/
theorem null_read (unsigned : ∀ p, InRegions m p → ¬ Signed m p) (turns : Nat) :
    Event.rsdp 15#32 ∈ (finalState ((acpiInit turns).run (fresh m))).log := by
  have nothing : (candidates m).find? (fun q => decide (Signed m q)) = none := by
    rw [List.find?_eq_none]
    intro p member
    simpa using unsigned p ((mem_candidates m).mp member)
  have scan : findRsdp.run (fresh m) = .ok 0#32 (fresh m) :=
    (run_findRsdp (fresh m)).trans (by rw [show (fresh m).mem = m from rfl, nothing]; rfl)
  have member : Event.rsdp 15#32 ∈ (headReads m 0#32).map Event.rsdp := by simp [headReads]
  rw [run_acpiInit turns 0#32 (fresh m) scan (by decide)]
  split
  · exact List.mem_append_right _ member
  · apply mem_log_parseSdt
    apply List.mem_append_right
    rw [List.map_append]
    exact List.mem_append_left _ member

theorem Whole.named {p : Addr} (whole : Whole m p) : (V2P (rootOf m p)).toNat = rootValue m p := by
  unfold rootOf rootValue
  rw [V2P_P2V]
  by_cases wide : m (p + 15#32) ≠ 0#8
  · rw [if_pos wide, if_pos wide]
    have high : read32 m (p + 24#32 + 4#32) = 0#32 := by
      rw [BitVec.add_assoc]
      exact whole.root wide
    have small := (read64_lt_iff (p + 24#32)).mpr high
    have low : (read64 m (p + 24#32)).setWidth 32 = read32 m (p + 24#32) := BitVec.setWidth_append_eq_right
    rw [← low, BitVec.toNat_setWidth, Nat.mod_eq_of_lt small]
  · rw [if_neg wide, if_neg wide]

/-- The parser gets no further than the tables that are listed. -/
theorem Whole.tables {p : Addr} (whole : Whole m p) (turns : Nat) :
    ∀ table ∈ examined m turns (rootOf m p) (m (p + 15#32)),
      (V2P table).toNat ∈ declared m (rootOf m p) (m (p + 15#32)) := by
  intro table member
  rw [examined_eq] at member
  have inside := (looked_isPrefix turns _).subset member
  rw [listed, sdtEntries_header whole.header] at inside
  obtain ⟨i, range, rfl⟩ := List.mem_map.mp inside
  have small := (entryValue_lt_iff i).mpr fun wide => whole.narrow wide i (List.mem_range.mp range)
  rw [toNat_listedTable, Nat.mod_eq_of_lt small]
  exact List.mem_map_of_mem range

end Init

/-- A root pointer structure of revision 2, followed by an XSDT at 0xE0030 that lists one table at 0xE0060. -/
def rootPointer : List Byte :=
  cstring "RSD PTR " ++ [0xDF#8] ++ List.replicate 6 0#8 ++ [2#8] ++ List.replicate 4 0#8 ++ [36#8, 0#8, 0#8, 0#8] ++
    [0x30#8, 0#8, 0x0E#8, 0#8, 0#8, 0#8, 0#8, 0#8] ++ List.replicate 16 0#8 ++
    cstring "XSDT" ++ [44#8, 0#8, 0#8, 0#8] ++ List.replicate 28 0#8 ++ [0x60#8, 0#8, 0x0E#8, 0#8, 0#8, 0#8, 0#8, 0#8]

/-- The structure at the start of the image is the only one with the signature. -/
theorem signed_rootPointer {p : Addr} (inside : InRegions (imageAt 0x800E0000#32 rootPointer) p)
    (signed : Signed (imageAt 0x800E0000#32 rootPointer) p) : p = 0x800E0000#32 := by
  have first : rootPointer.getD (p - 0x800E0000#32).toNat 0#8 = 0x52#8 := by
    have letter : literal RSDP_SIGNATURE 0 = 0x52#8 := by decide +kernel
    simpa [region, imageAt] using (signed 0 (by decide)).trans letter
  have aligned : (p - 0x800E0000#32).toNat % 16 = 0 := by
    have boundary := inside.1
    unfold V2P KERNBASE at boundary
    bv_omega
  have only : ∀ k < 92, rootPointer.getD k 0#8 = 0x52#8 → k % 16 = 0 → k = 0 := by decide +kernel
  have short : (p - 0x800E0000#32).toNat < 92 := by
    by_contra far
    rw [List.getD_eq_default _ _ (by change 92 ≤ _; omega)] at first
    cases first
  have zero := only _ short first aligned
  bv_omega

end OsDev.Kernel.AcpiTables
