import OsDev.Kernel.KallocRuns
import OsDev.Kernel.Numerals

/-! What `dump_freelist` (kernel/kalloc.c) says about the free list, compared with the
pages that `kalloc` can still give. -/

namespace OsDev.Kernel.FreelistReport
open OsDev.Machine.Memory OsDev.Machine.Program OsDev.Kernel.SpinLocks OsDev.Kernel.State OsDev.Kernel.Console
open OsDev.Kernel.Kalloc OsDev.Kernel.KallocRuns OsDev.Kernel.Cprintf OsDev.Kernel.Numerals

/-- So many calls of `kalloc`, with the pages they return. -/
def kallocs : Nat → Prog KernelState (List Addr)
  | 0 => pure []
  | count + 1 => do
      let p ← kalloc
      let rest ← kallocs count
      return p :: rest

/-- Exactly so many calls succeed before one returns null. -/
def Available (s : KernelState) (count : Nat) : Prop :=
  ∃ pages t u, (kallocs count).run s = .ok pages t ∧ 0#32 ∉ pages ∧ kalloc.run t = .ok 0#32 u

/-- The line that is printed. -/
def report (first last : Addr) (count : Nat) : List Byte :=
  cstring "kernel heap: start=0x" ++ (Nat.toDigits 16 first.toNat).map ascii ++
    (cstring " end=0x" ++ (Nat.toDigits 16 last.toNat).map ascii ++
      (cstring ", number of free frames: " ++ (Nat.toDigits 10 count).map ascii ++ cstring "\n"))

/-- The call returns, having looked at nothing but the list and its sentinel, and has printed this number of frames. -/
def Reports (s : KernelState) (free : List Addr) (count : Nat) : Prop :=
  ∃ last total reads t chars, dumpWalk s (2 ^ 32 + 1) s.freelist 0 = some (last, total, reads) ∧
    (∀ a ∈ reads, a ∈ free ∨ a = s.KMEM_SENTINEL) ∧ dumpFreelist.run s = .ok () t ∧
    t.console = s.console ++ chars ∧ chars.map (BitVec.setWidth 8) = report s.freelist last count

theorem heap_available {s : KernelState} {free : List Addr} (heap : Heap s free) : Available s free.length := by
  induction free generalizing s with
  | nil =>
    obtain ⟨cpu, ran, -⟩ := run_kalloc_nil s heap
    exact ⟨[], s, _, rfl, by simp, ran⟩
  | cons p rest ih =>
    obtain ⟨cpu, ran, later⟩ := run_kalloc_cons s p rest heap
    obtain ⟨pages, t, u, allocated, filled, done⟩ := ih later
    have page : 0#32 ≠ p := ((heap.frames p (by simp)).ne_zero heap.sentinel).symm
    refine ⟨p :: pages, t, u, ?_, by simp [page, filled], done⟩
    rw [List.length_cons, kallocs, run_bind_ok ran, run_bind_ok allocated]
    rfl

section Text

/-- The number at the end of a line, after the last space. -/
def reported (text : List Byte) : Nat := readNumeral 10 (text.reverse.tail.takeWhile (· ≠ ascii ' ')).reverse

theorem toDigits_canonical (count : Nat) (small : count < 10 ^ 32) :
    Canonical 10 ((Nat.toDigits 10 count).map ascii) count := by
  rw [← printintLoop_toDigits 10 (by decide) 32 count small (by decide)]
  exact printintLoop_canonical (by decide) 32 count small (by decide)

theorem reported_report (first last : Addr) (count : Nat) (small : count < 10 ^ 32) :
    reported (report first last count) = count := by
  have canonical := toDigits_canonical count small
  have spaceless : ∀ c ∈ ((Nat.toDigits 10 count).map ascii).reverse, decide (c ≠ ascii ' ') = true := by
    intro c member
    have digit := canonical.lower c (List.mem_reverse.mp member)
    apply decide_eq_true
    rintro rfl
    exact absurd digit (by decide)
  have front : cstring ", number of free frames: " = cstring ", number of free frames:" ++ [ascii ' '] := by decide +kernel
  rw [reported, report, front]
  simp only [List.reverse_append, List.append_assoc]
  change readNumeral 10 (List.takeWhile _ (((Nat.toDigits 10 count).map ascii).reverse ++ (ascii ' ' :: _))).reverse = count
  rw [List.takeWhile_append_of_pos spaceless, List.reverse_append, List.reverse_reverse]
  exact canonical.reads

/-- Characters that are neither a percent sign nor NUL print as themselves. -/
theorem prints_literals {rest : List Byte} {args : List Arg} {text : List Byte} (literals : List Byte)
    (plain : literals.all (fun c => c != ascii '%' && c != 0#8) = true) (later : Prints rest args text) :
    Prints (literals ++ rest) args (literals ++ text) := by
  induction literals with
  | nil => exact later
  | cons c literals ih =>
    simp only [List.all_cons, Bool.and_eq_true, bne_iff_ne] at plain
    exact .literal plain.1.1 plain.1.2 (ih plain.2)

theorem prints_start (first : Addr) :
    Prints (cstring "kernel heap: start=0x%p") [.unsigned first]
      (cstring "kernel heap: start=0x" ++ (Nat.toDigits 16 first.toNat).map ascii) := by
  have conversion : Prints [ascii '%', ascii 'p'] [.unsigned first] _ := .argument (Or.inr rfl) .done
  have split : cstring "kernel heap: start=0x%p" = cstring "kernel heap: start=0x" ++ [ascii '%', ascii 'p'] := by
    decide +kernel
  rw [List.append_nil] at conversion
  rw [split]
  exact prints_literals _ (by decide +kernel) conversion

theorem signedDecimal_ofNat (count : Nat) (small : count < 2 ^ 31) :
    signedDecimal (BitVec.ofNat 32 count) = Nat.toDigits 10 count := by
  have value : (BitVec.ofNat 32 count).toInt = count := by
    rw [BitVec.toInt_eq_toNat_of_lt, BitVec.toNat_ofNat, Nat.mod_eq_of_lt (by omega)]
    rw [BitVec.toNat_ofNat]
    omega
  rw [signedDecimal, value, if_neg (by omega), Int.natAbs_natCast]

theorem prints_end (last : Addr) (count : Nat) (small : count < 2 ^ 31) :
    Prints (cstring " end=0x%p, number of free frames: %d\n") [.unsigned last, .signed (BitVec.ofNat 32 count)]
      (cstring " end=0x" ++ (Nat.toDigits 16 last.toNat).map ascii ++
        (cstring ", number of free frames: " ++ (Nat.toDigits 10 count).map ascii ++ cstring "\n")) := by
  have split : cstring " end=0x%p, number of free frames: %d\n" = cstring " end=0x" ++
      ascii '%' :: ascii 'p' :: (cstring ", number of free frames: " ++ ascii '%' :: ascii 'd' :: cstring "\n") := by
    decide +kernel
  have newline : Prints (cstring "\n" ++ []) [] (cstring "\n" ++ []) := prints_literals _ (by decide +kernel) .done
  have decimal : Prints (ascii '%' :: ascii 'd' :: cstring "\n") [.signed (BitVec.ofNat 32 count)]
      ((Nat.toDigits 10 count).map ascii ++ cstring "\n") := by
    rw [← signedDecimal_ofNat count small]
    rw [List.append_nil] at newline
    exact .argument rfl newline
  have counted := prints_literals (cstring ", number of free frames: ") (by decide +kernel) decimal
  rw [split, List.append_assoc, List.append_assoc]
  exact prints_literals _ (by decide +kernel) (.argument (Or.inr rfl) counted)

end Text

section Runs
variable {s : KernelState} {free : List Addr}

/-- Aligned pages of a memory of 4 GiB. -/
theorem heap_length (heap : Heap s free) : free.length ≤ 2 ^ 20 := by
  have number : ∀ p ∈ free, p.toNat / 4096 ∈ List.range (2 ^ 20) := by
    intro p member
    have size := p.isLt
    rw [List.mem_range]
    omega
  have distinct : (free.map fun p => p.toNat / 4096).Nodup := by
    refine heap.distinct.map_on fun p memberP q memberQ same => ?_
    have alignedP : p.toNat % 4096 = 0 := (heap.frames p memberP).aligned
    have alignedQ : q.toNat % 4096 = 0 := (heap.frames q memberQ).aligned
    apply BitVec.eq_of_toNat_eq
    omega
  have inside : (free.map fun p => p.toNat / 4096) ⊆ List.range (2 ^ 20) := by
    intro n member
    obtain ⟨p, known, rfl⟩ := List.mem_map.mp member
    exact number p known
  simpa using (distinct.subperm inside).length_le

theorem quiet_consoleCpu (quiet : Quiet s.cpu) : Quiet (consoleCpu s) := by
  rw [consoleCpu]
  split
  next =>
    rw [setLock_settle (quiet.free .cons)]
    exact quiet.settle
  next => exact quiet

theorem dumpWalk_congr {t : KernelState} (links : nextFrame t = nextFrame s) (sentinel : t.KMEM_SENTINEL = s.KMEM_SENTINEL)
    (fuel : Nat) (p : Addr) (count : Nat) : dumpWalk t fuel p count = dumpWalk s fuel p count := by
  induction fuel generalizing p count with
  | zero => rfl
  | succ fuel ih => rw [dumpWalk, dumpWalk, links, sentinel, ih]

/-- One of the two parts of a report. -/
theorem run_cprintf_line {fmt : String} {args : List Arg} {text : List Byte} (prints : Prints (cstring fmt) args text)
    (plain : ∀ arg ∈ args, arg.Readable (byteAt s)) (heap : Heap s free) :
    ∃ chars t, chars.map (BitVec.setWidth 8) = text ∧ (cprintf fmt (args.flatMap Arg.words)).run s = .ok () t ∧
      t.console = s.console ++ chars ∧ (∀ fuel p count, dumpWalk t fuel p count = dumpWalk s fuel p count) ∧ Heap t free := by
  obtain ⟨chars, reads, low, -, ran⟩ := run_cprintf_text prints [] s plain heap.quiet.toCalm
    fun _ => by rw [heap.quiet.free]; rfl
  rw [List.append_nil] at ran
  exact ⟨chars, _, low, ran, rfl, dumpWalk_congr rfl rfl,
    ⟨quiet_consoleCpu heap.quiet, heap.sentinel, heap.chain, heap.distinct, heap.frames⟩⟩

/-- The first frame is never counted. -/
theorem heap_reports (heap : Heap s free) : Reports s free (free.length - 1) := by
  obtain ⟨last, reads, walk, seen⟩ := heap_dumpWalk heap
  obtain ⟨first, t, lowFirst, ran, console, same, again⟩ :=
    run_cprintf_line (prints_start s.freelist) (by simp [Arg.Readable]) heap
  have start : (cprintf "kernel heap: start=0x%p" [s.freelist]).run s = .ok () t := ran
  have walked := run_dumpFreelistLoop ((same _ _ _).trans walk)
  have length := heap_length heap
  obtain ⟨second, u, lowSecond, ends, console', -, -⟩ :=
    run_cprintf_line (prints_end last (free.length - 1) (by omega)) (by simp [Arg.Readable]) again
  refine ⟨last, _, reads, u, first ++ second, walk, seen, ?_, ?_, ?_⟩
  · unfold dumpFreelist
    rw [run_bind_ok (EStateM.run_get s), run_bind_ok start, run_bind_ok walked]
    exact ends
  · rw [console', console, List.append_assoc]
  · rw [List.map_append, lowFirst, lowSecond]
    rfl

/-- A call prints one line. -/
theorem Reports.unique {count other : Nat} (reports : Reports s free count) (others : Reports s free other)
    (small : count < 10 ^ 32) (smallOther : other < 10 ^ 32) : count = other := by
  obtain ⟨last, -, -, t, chars, -, -, ran, console, text⟩ := reports
  obtain ⟨last', -, -, t', chars', -, -, ran', console', text'⟩ := others
  cases ran.symm.trans ran'
  have same : chars = chars' := List.append_cancel_left (console.symm.trans console')
  rw [same, text'] at text
  have read := congrArg reported text
  rw [reported_report _ _ _ small, reported_report _ _ _ smallOther] at read
  exact read.symm

end Runs

/-- `dump_freelist` returns and keeps to the list, but it says one frame less than `kalloc` can give, unless there is none. -/
theorem dump_freelist_counts_iff (s : KernelState) (free : List Addr) (heap : Heap s free) :
    (Available s free.length ∧ Reports s free free.length ↔ free = []) ∧ Reports s free (free.length - 1) := by
  have length := heap_length heap
  have short := heap_reports heap
  refine ⟨⟨fun claimed => ?_, fun empty => ?_⟩, short⟩
  · have equal := claimed.2.unique short (by omega) (by omega)
    apply List.eq_nil_of_length_eq_zero
    omega
  · rw [empty] at short ⊢
    exact ⟨heap_available (empty ▸ heap), short⟩

theorem dump_freelist_counts_none :
    ∃ s : KernelState, Heap s [] ∧ Available s 0 ∧ Reports s [] 0 := by
  obtain ⟨s, heap, -⟩ := exists_booted 0 (by decide) 0x80103000#32 (by unfold rangePages; decide) 0#32 0#32 0#32
  obtain ⟨available, reports⟩ := (dump_freelist_counts_iff s [] heap).1.mpr rfl
  exact ⟨s, heap, available, reports⟩

/-- One free page, reported as none. -/
theorem dump_freelist_misses_one :
    ∃ (s : KernelState) (free : List Addr), Heap s free ∧ free.length = 1 ∧ Available s 1 ∧ Reports s free 0 ∧
      ¬ Reports s free 1 := by
  obtain ⟨s, heap, -⟩ := exists_booted 1 (by decide) 0x80104000#32 (by unfold rangePages; decide) 0#32 0#32 0#32
  have reported := heap_reports heap
  refine ⟨s, _, heap, rfl, heap_available heap, reported, fun one => ?_⟩
  exact absurd (one.unique reported (by decide) (by decide)) (by decide)

end OsDev.Kernel.FreelistReport
