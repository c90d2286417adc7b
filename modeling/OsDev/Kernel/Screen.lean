import OsDev.Machine.Program
import OsDev.Kernel.Mmu
import OsDev.Kernel.StringLib

/-! The text screen (kernel/drivers/screen.c): characters go to video memory at the cursor, which lives in two
registers of the display controller, and the rows move up when the cursor leaves the last one. -/

namespace OsDev.Kernel.Screen
open OsDev.Machine.Memory OsDev.Machine.Program OsDev.Kernel.Mmu OsDev.Kernel.StringLib

def MAX_ROWS : Nat := 25
def MAX_COLS : Nat := 80

def REG_SCREEN_CTRL : BitVec 16 := 0x3d4#16
def REG_SCREEN_DATA : BitVec 16 := 0x3d5#16

def vgaAttr (bg fg : Byte) : Byte := bg <<< 4 ||| fg

/-- Light grey on black. -/
def WHITE_ON_BLACK : Byte := vgaAttr 0#8 7#8

def newline : Byte := 0x0a#8

/-- Memory, the display controller with the register its control port selects, and for the record the
addresses written through `vidmem` and how often the rows were shuffled. -/
structure Display where
  mem : Mem
  index : Byte
  regs : Byte → Byte
  writes : List Addr
  scrolls : Nat

def vidmem : Addr := P2V 0xb8000#32

def outb (port : BitVec 16) (data : Byte) : Prog Display Unit := modify fun s =>
  if port = REG_SCREEN_CTRL then { s with index := data }
  else if port = REG_SCREEN_DATA then { s with regs := Function.update s.regs s.index data }
  else s

/-- Only the data port is read. -/
def inb (port : BitVec 16) : Prog Display Byte := do
  let s ← get
  return if port = REG_SCREEN_DATA then s.regs s.index else 0#8

/-- `vidmem[offset] = b` -/
def setVidmem (offset : Nat) (b : Byte) : Prog Display Unit := modify fun s =>
  { s with mem := store8 s.mem (vidmem + BitVec.ofNat 32 offset) b, writes := (vidmem + BitVec.ofNat 32 offset) :: s.writes }

def getScreenOffset (col row : Nat) : Nat := (row * MAX_COLS + col) * 2

def getCursor : Prog Display Nat := do
  outb REG_SCREEN_CTRL 14#8
  let high ← inb REG_SCREEN_DATA
  outb REG_SCREEN_CTRL 15#8
  let low ← inb REG_SCREEN_DATA
  return (high.toNat <<< 8 + low.toNat) * 2

def setCursor (offset : Nat) : Prog Display Unit := do
  let offset := offset / 2
  outb REG_SCREEN_CTRL 14#8
  outb REG_SCREEN_DATA (BitVec.ofNat 8 ((offset &&& 0xff00) >>> 8))
  outb REG_SCREEN_CTRL 15#8
  outb REG_SCREEN_DATA (BitVec.ofNat 8 (offset &&& 0xff))

/-- The `memcpy` of row `i` to the row above it. -/
def copyRow (i : Nat) : Prog Display Unit := modify fun s =>
  let dst := vidmem + BitVec.ofNat 32 (getScreenOffset 0 (i - 1))
  let src := vidmem + BitVec.ofNat 32 (getScreenOffset 0 i)
  { s with
    mem := memcpy s.mem dst src (MAX_COLS * 2)
    writes := (List.range (MAX_COLS * 2)).map (fun k => dst + BitVec.ofNat 32 k) ++ s.writes }

/-- The loop over the rows, from row `i` on. -/
def shuffleRows : Nat → Nat → Prog Display Unit
  | 0, _ => pure ()
  | left + 1, i => do
      copyRow i
      shuffleRows left (i + 1)

/-- The loop that blanks the last line, from byte `i` on. -/
def blankLine : Nat → Nat → Prog Display Unit
  | 0, _ => pure ()
  | left + 1, i => do
      setVidmem (getScreenOffset 0 (MAX_ROWS - 1) + i) 0#8
      blankLine left (i + 1)

def handleScrolling (cursorOffset : Nat) : Prog Display Nat := do
  if cursorOffset < MAX_ROWS * MAX_COLS * 2 then return cursorOffset
  else do
    shuffleRows (MAX_ROWS - 1) 1
    blankLine (MAX_COLS * 2) 0
    modify fun s => { s with scrolls := s.scrolls + 1 }
    return cursorOffset - 2 * MAX_COLS

def printChar (character : Byte) (col row : Int) (attributeByte : Byte) : Prog Display Unit := do
  let attributeByte := if attributeByte = 0#8 then WHITE_ON_BLACK else attributeByte
  let offset ← if 0 ≤ col ∧ 0 ≤ row then pure (getScreenOffset col.toNat row.toNat) else getCursor
  let offset ←
    if character = newline then pure (getScreenOffset 79 (offset / (2 * MAX_COLS)))
    else do
      setVidmem offset character
      setVidmem (offset + 1) attributeByte
      pure offset
  let offset ← handleScrolling (offset + 2)
  setCursor offset

/-- Characters with their attributes, each printed at the cursor. -/
def printAll : List (Byte × Byte) → Prog Display Unit
  | [] => pure ()
  | (character, attr) :: rest => do
      printChar character (-1) (-1) attr
      printAll rest

section Cursor
variable {s : Display}

/-- The cell the controller shows the cursor in. -/
def cursorOf (s : Display) : Nat := (s.regs 14#8).toNat * 256 + (s.regs 15#8).toNat

theorem run_getCursor (s : Display) : getCursor.run s = .ok (cursorOf s * 2) { s with index := 15#8 } := by
  simp [getCursor, outb, inb, cursorOf, REG_SCREEN_CTRL, REG_SCREEN_DATA, Nat.shiftLeft_eq]

theorem run_setCursor (s : Display) (offset : Nat) (small : offset / 2 < 65536) :
    ∃ regs, (setCursor offset).run s = .ok () { s with index := 15#8, regs := regs } ∧
      cursorOf { s with index := 15#8, regs := regs } = offset / 2 := by
  refine ⟨Function.update (Function.update s.regs 14#8 (BitVec.ofNat 8 ((offset / 2 &&& 0xff00) >>> 8))) 15#8
    (BitVec.ofNat 8 (offset / 2 &&& 0xff)), ?_, ?_⟩
  · simp [setCursor, outb, REG_SCREEN_CTRL, REG_SCREEN_DATA]
  · have low : offset / 2 &&& 0xff = offset / 2 % 256 := Nat.and_two_pow_sub_one_eq_mod _ 8
    have high : (offset / 2 &&& 0xff00) >>> 8 = offset / 2 / 256 := by
      rw [Nat.shiftRight_and_distrib, Nat.shiftRight_eq_div_pow]
      exact (Nat.and_two_pow_sub_one_eq_mod _ 8).trans (Nat.mod_eq_of_lt (by omega))
    simp only [cursorOf, low, high]
    simp
    omega

end Cursor

section Scrolling
variable {s : Display} {m : Mem}

/-- The byte at an offset of video memory. -/
def byteOf (m : Mem) (offset : Nat) : Byte := m (vidmem + BitVec.ofNat 32 offset)

/-- Every address is an offset into the visible screen. -/
def InVideo (log : List Addr) : Prop := ∀ a ∈ log, ∃ offset < MAX_ROWS * MAX_COLS * 2, a = vidmem + BitVec.ofNat 32 offset

theorem InVideo.append {first second : List Addr} (one : InVideo first) (two : InVideo second) : InVideo (first ++ second) :=
  fun a member => (List.mem_append.mp member).elim (one a) (two a)

/-- The first `rows` rows hold what was one row below them. -/
def shuffled (m : Mem) (rows : Nat) : Mem := fun x =>
  if (x - vidmem).toNat < 160 * rows then m (x + 160#32) else m x

theorem memcpy_shuffled (m : Mem) (i : Nat) (small : i < 24) :
    memcpy (shuffled m i) (vidmem + BitVec.ofNat 32 (160 * i)) (vidmem + BitVec.ofNat 32 (160 * (i + 1))) 160 =
      shuffled m (i + 1) := by
  have far : 160 ≤ (vidmem + BitVec.ofNat 32 (160 * i) - (vidmem + BitVec.ofNat 32 (160 * (i + 1)))).toNat := by bv_omega
  funext x
  rw [memcpy_apply _ _ _ _ _ far]
  by_cases here : (x - (vidmem + BitVec.ofNat 32 (160 * i))).toNat < 160
  · have source : vidmem + BitVec.ofNat 32 (160 * (i + 1)) + (x - (vidmem + BitVec.ofNat 32 (160 * i))) = x + 160#32 := by
      bv_omega
    have later : ¬ (x + 160#32 - vidmem).toNat < 160 * i := by bv_omega
    have inside : (x - vidmem).toNat < 160 * (i + 1) := by bv_omega
    rw [if_pos here, source]
    simp only [shuffled, if_neg later, if_pos inside]
  · have same : (x - vidmem).toNat < 160 * i ↔ (x - vidmem).toNat < 160 * (i + 1) := by bv_omega
    rw [if_neg here]
    simp only [shuffled, same]

theorem run_shuffleRows (left i : Nat) (sum : left + i = 24) (s : Display) (mem : s.mem = shuffled m i) :
    ∃ log, InVideo log ∧ (shuffleRows left (i + 1)).run s = .ok () { s with mem := shuffled m 24, writes := log ++ s.writes } := by
  induction left generalizing i s with
  | zero =>
    obtain rfl : i = 24 := by omega
    refine ⟨[], by simp [InVideo], ?_⟩
    rw [List.nil_append, ← mem]
    rfl
  | succ left ih =>
    have offset (row : Nat) : getScreenOffset 0 row = 160 * row := by simp only [getScreenOffset, MAX_COLS]; omega
    obtain ⟨log, inside, ran⟩ := ih (i + 1) (by omega)
      { s with
        mem := memcpy s.mem (vidmem + BitVec.ofNat 32 (160 * i)) (vidmem + BitVec.ofNat 32 (160 * (i + 1))) 160
        writes := (List.range 160).map (fun k => vidmem + BitVec.ofNat 32 (160 * i) + BitVec.ofNat 32 k) ++ s.writes }
      (by rw [mem]; exact memcpy_shuffled m i (by omega))
    refine ⟨log ++ (List.range 160).map (fun k => vidmem + BitVec.ofNat 32 (160 * i) + BitVec.ofNat 32 k),
      inside.append ?_, ?_⟩
    · intro a member
      obtain ⟨k, range, rfl⟩ := List.mem_map.mp member
      rw [List.mem_range] at range
      refine ⟨160 * i + k, by simp only [MAX_ROWS, MAX_COLS]; omega, ?_⟩
      rw [BitVec.add_assoc, ← BitVec.ofNat_add]
    · unfold shuffleRows copyRow
      rw [run_bind_ok (EStateM.run_modify _ _)]
      simp only [offset, Nat.add_sub_cancel, MAX_COLS]
      rw [List.append_assoc]
      exact ran

/-- The start of the last line. -/
def lastLine : Addr := vidmem + 3840#32

theorem run_blankLine (left i : Nat) (sum : left + i = 160) (s : Display) (mem : s.mem = fill m lastLine 0#8 i) :
    ∃ log, InVideo log ∧ (blankLine left i).run s =
      .ok () { s with mem := fill m lastLine 0#8 160, writes := log ++ s.writes } := by
  induction left generalizing i s with
  | zero =>
    obtain rfl : i = 160 := by omega
    refine ⟨[], by simp [InVideo], ?_⟩
    rw [List.nil_append, ← mem]
    rfl
  | succ left ih =>
    have offset : getScreenOffset 0 (MAX_ROWS - 1) + i = 3840 + i := rfl
    have place : vidmem + BitVec.ofNat 32 (3840 + i) = lastLine + BitVec.ofNat 32 i := by
      rw [BitVec.ofNat_add, ← BitVec.add_assoc]
      rfl
    have stored : store8 (fill m lastLine 0#8 i) (lastLine + BitVec.ofNat 32 i) 0#8 = fill m lastLine 0#8 (i + 1) := by
      funext x
      simp only [store8, fill]
      by_cases here : x = lastLine + BitVec.ofNat 32 i
      · have inside : (x - lastLine).toNat < i + 1 := by bv_omega
        rw [if_pos here, if_pos inside]
      · have same : (x - lastLine).toNat < i ↔ (x - lastLine).toNat < i + 1 := by bv_omega
        simp only [if_neg here, same]
    obtain ⟨log, inside, ran⟩ := ih (i + 1) (by omega)
      { s with
        mem := store8 s.mem (vidmem + BitVec.ofNat 32 (3840 + i)) 0#8
        writes := (vidmem + BitVec.ofNat 32 (3840 + i)) :: s.writes }
      (by rw [mem, place]; exact stored)
    refine ⟨log ++ [vidmem + BitVec.ofNat 32 (3840 + i)], inside.append ?_, ?_⟩
    · intro a member
      exact ⟨3840 + i, by simp only [MAX_ROWS, MAX_COLS]; omega, List.mem_singleton.mp member⟩
    · unfold blankLine setVidmem
      rw [run_bind_ok (EStateM.run_modify _ _), offset, List.append_assoc]
      exact ran

/-- Video memory moved up by one row. -/
def scrolled (m : Mem) : Mem := fill (shuffled m 24) lastLine 0#8 160

theorem run_handleScrolling_stays (s : Display) (offset : Nat) (inside : offset < 4000) :
    (handleScrolling offset).run s = .ok offset s := by
  unfold handleScrolling
  rw [run_ite, if_pos (show offset < MAX_ROWS * MAX_COLS * 2 from inside)]
  rfl

theorem run_handleScrolling_moves (s : Display) (offset : Nat) (beyond : 4000 ≤ offset) :
    ∃ log, InVideo log ∧ (handleScrolling offset).run s =
      .ok (offset - 160) { s with mem := scrolled s.mem, writes := log ++ s.writes, scrolls := s.scrolls + 1 } := by
  have start : s.mem = shuffled s.mem 0 := by
    funext x
    simp [shuffled]
  obtain ⟨log, inside, moved⟩ := run_shuffleRows 24 0 rfl s start
  obtain ⟨more, inside', blanked⟩ := run_blankLine 160 0 rfl { s with mem := shuffled s.mem 24, writes := log ++ s.writes }
    (m := shuffled s.mem 24) (by funext x; simp [fill])
  refine ⟨more ++ log, inside'.append inside, ?_⟩
  change EStateM.run (shuffleRows (MAX_ROWS - 1) 1) s = _ at moved
  change EStateM.run (blankLine (MAX_COLS * 2) 0) _ = _ at blanked
  unfold handleScrolling
  rw [run_ite, if_neg (by simp only [MAX_ROWS, MAX_COLS]; omega), run_bind_ok moved, run_bind_ok blanked,
    run_bind_ok (EStateM.run_modify _ _), List.append_assoc]
  rfl

theorem byteOf_scrolled (m : Mem) (offset : Nat) (small : offset < 4000) :
    byteOf (scrolled m) offset = if offset < 3840 then byteOf m (offset + 160) else 0#8 := by
  have distance := offset_toNat vidmem (show offset < 2 ^ 32 by omega)
  have next : vidmem + BitVec.ofNat 32 offset + 160#32 = vidmem + BitVec.ofNat 32 (offset + 160) := by
    rw [BitVec.add_assoc, BitVec.ofNat_add]
  have line : (vidmem + BitVec.ofNat 32 offset - lastLine).toNat < 160 ↔ ¬ offset < 3840 := by
    unfold lastLine
    generalize vidmem = base
    bv_omega
  unfold byteOf scrolled fill shuffled
  by_cases above : offset < 3840
  · rw [if_neg (by rw [line]; exact not_not.mpr above), if_pos above, distance, if_pos above, next]
  · rw [if_pos (line.mpr above), if_neg above]

theorem scrolled_outside (m : Mem) (x : Addr) (outside : 4000 ≤ (x - vidmem).toNat) : scrolled m x = m x := by
  have notLast : ¬ (x - lastLine).toNat < 160 := by
    unfold lastLine
    generalize vidmem = base at *
    bv_omega
  have notMoved : ¬ (x - vidmem).toNat < 160 * 24 := by omega
  unfold scrolled fill shuffled
  rw [if_neg notLast, if_neg notMoved]

end Scrolling

/-- An unbounded page of rows with 80 cells, and where the next character goes. -/
structure Page where
  cell : Nat → Nat → Byte × Byte
  row : Nat
  col : Nat

def Page.put (page : Page) (character attributeByte : Byte) : Page :=
  if character = newline then { page with row := page.row + 1, col := 0 }
  else
    { cell := fun row col => if row = page.row ∧ col = page.col then (character, attributeByte) else page.cell row col
      row := if page.col + 1 = MAX_COLS then page.row + 1 else page.row
      col := if page.col + 1 = MAX_COLS then 0 else page.col + 1 }

/-- The style asked for, or the default one. -/
def style (attributeByte : Byte) : Byte := if attributeByte = 0#8 then WHITE_ON_BLACK else attributeByte

def Page.putAll (page : Page) : List (Byte × Byte) → Page
  | [] => page
  | (character, attr) :: rest => (page.put character (style attr)).putAll rest

/-- The cell of the screen at a row and a column. -/
def cellOf (m : Mem) (row col : Nat) : Byte × Byte :=
  (byteOf m (getScreenOffset col row), byteOf m (getScreenOffset col row + 1))

/-- The page on which the screen lies at first; below it there is nothing yet. -/
def pageOf (s : Display) : Page where
  cell row col := if row < MAX_ROWS then cellOf s.mem row col else (0#8, 0#8)
  row := cursorOf s / MAX_COLS
  col := cursorOf s % MAX_COLS

/-- The screen is the window on the page that starts so many rows down as there were scrolls. -/
structure Shows (page : Page) (s : Display) : Prop where
  cells : ∀ row < MAX_ROWS, ∀ col < MAX_COLS, cellOf s.mem row col = page.cell (row + s.scrolls) col
  blank : ∀ row ≥ MAX_ROWS + s.scrolls, ∀ col, page.cell row col = (0#8, 0#8)
  cursor : page.row * MAX_COLS + page.col = cursorOf s + s.scrolls * MAX_COLS
  column : page.col < MAX_COLS
  inside : cursorOf s < MAX_ROWS * MAX_COLS

section Window
variable {s : Display} {page : Page}

theorem Shows.start (inside : cursorOf s < MAX_ROWS * MAX_COLS) (top : s.scrolls = 0) : Shows (pageOf s) s := by
  refine ⟨fun row small col _ => ?_, fun row below col => ?_, ?_, Nat.mod_lt _ (by decide), inside⟩
  · rw [top]
    exact (if_pos small).symm
  · rw [top] at below
    exact if_neg (not_lt.mpr below)
  · rw [top, Nat.zero_mul, Nat.add_zero]
    exact Nat.div_add_mod' (cursorOf s) MAX_COLS

/-- The screen before the cursor is moved to its next cell, which may be the one behind the last. -/
structure Drawn (page : Page) (s : Display) (next : Nat) : Prop where
  cells : ∀ row < MAX_ROWS, ∀ col < MAX_COLS, cellOf s.mem row col = page.cell (row + s.scrolls) col
  blank : ∀ row ≥ MAX_ROWS + s.scrolls, ∀ col, page.cell row col = (0#8, 0#8)
  cursor : page.row * MAX_COLS + page.col = next + s.scrolls * MAX_COLS
  column : page.col < MAX_COLS
  inside : next ≤ MAX_ROWS * MAX_COLS

theorem cellOf_scrolled (m : Mem) (row col : Nat) (small : row < MAX_ROWS) (narrow : col < MAX_COLS) :
    cellOf (scrolled m) row col = if row < 24 then cellOf m (row + 1) col else (0#8, 0#8) := by
  unfold MAX_ROWS at small
  unfold MAX_COLS at narrow
  have offset (row : Nat) : getScreenOffset col row = (row * 80 + col) * 2 := rfl
  unfold cellOf
  rw [offset, offset, byteOf_scrolled m _ (by omega), byteOf_scrolled m _ (by omega)]
  by_cases above : row < 24
  · rw [if_pos above, if_pos (by omega), if_pos (by omega)]
    congr 2
    · omega
    · omega
  · rw [if_neg above, if_neg (by omega), if_neg (by omega)]

/-- All that was written from `s` to `t` lies in the visible part of video memory. -/
structure OnScreen (s t : Display) : Prop where
  writes : ∃ log, InVideo log ∧ t.writes = log ++ s.writes
  outside : ∀ x : Addr, MAX_ROWS * MAX_COLS * 2 ≤ (x - vidmem).toNat → t.mem x = s.mem x

theorem OnScreen.trans {t u : Display} (first : OnScreen s t) (second : OnScreen t u) : OnScreen s u := by
  obtain ⟨log, inside, writes⟩ := first.writes
  obtain ⟨more, inside', writes'⟩ := second.writes
  refine ⟨⟨more ++ log, inside'.append inside, ?_⟩, fun x away => (second.outside x away).trans (first.outside x away)⟩
  rw [writes', writes, List.append_assoc]

/-- Scrolling if need be, then moving the cursor, completes a character. -/
theorem Drawn.finish {next : Nat} (drawn : Drawn page s next) :
    ∃ t, EStateM.run (do
        let offset ← handleScrolling (next * 2)
        setCursor offset) s = .ok () t ∧ Shows page t ∧ OnScreen s t := by
  obtain ⟨cells, blank, cursor, column, inside⟩ := drawn
  have limit : next ≤ 2000 := inside
  by_cases stays : next < 2000
  · obtain ⟨regs, moved, place⟩ := run_setCursor s (next * 2) (by omega)
    have cell : cursorOf { s with index := 15#8, regs := regs } = next := by rw [place]; omega
    refine ⟨{ s with index := 15#8, regs := regs }, ?_, ⟨cells, blank, ?_, column, ?_⟩,
      ⟨[], by simp [InVideo], rfl⟩, fun _ _ => rfl⟩
    · rw [run_bind_ok (run_handleScrolling_stays s (next * 2) (by omega)), moved]
    · rw [cell]
      exact cursor
    · rw [cell]
      exact stays
  · obtain rfl : next = 2000 := by omega
    obtain ⟨log, logged, scrolls⟩ := run_handleScrolling_moves s (2000 * 2) (by omega)
    obtain ⟨regs, moved, place⟩ := run_setCursor
      { s with mem := scrolled s.mem, writes := log ++ s.writes, scrolls := s.scrolls + 1 } (2000 * 2 - 160) (by omega)
    refine ⟨⟨scrolled s.mem, 15#8, regs, log ++ s.writes, s.scrolls + 1⟩, ?_, ⟨?_, ?_, ?_, column, ?_⟩, ⟨log, logged, rfl⟩,
      scrolled_outside s.mem⟩
    · rw [run_bind_ok scrolls, moved]
    · intro row small col narrow
      show cellOf (scrolled s.mem) row col = page.cell (row + (s.scrolls + 1)) col
      rw [cellOf_scrolled s.mem row col small narrow]
      by_cases above : row < 24
      · rw [if_pos above, cells (row + 1) (by unfold MAX_ROWS; omega) col narrow, Nat.add_assoc, Nat.add_comm 1]
      · rw [if_neg above, blank _ (by unfold MAX_ROWS at *; omega)]
    · intro row below col
      apply blank
      change row ≥ MAX_ROWS + (s.scrolls + 1) at below
      omega
    · rw [place]
      show page.row * MAX_COLS + page.col = (2000 * 2 - 160) / 2 + (s.scrolls + 1) * MAX_COLS
      unfold MAX_COLS at *
      omega
    · rw [place]
      decide

theorem byteOf_store8 (m : Mem) (b : Byte) {offset other : Nat} (small : offset < 2 ^ 32) (small' : other < 2 ^ 32) :
    byteOf (store8 m (vidmem + BitVec.ofNat 32 offset) b) other = if other = offset then b else byteOf m other := by
  have same : vidmem + BitVec.ofNat 32 other = vidmem + BitVec.ofNat 32 offset ↔ other = offset := by
    generalize vidmem = base
    constructor
    · intro eq
      bv_omega
    · rintro rfl
      rfl
  simp only [byteOf, store8, same]

/-- The state after a character and its attribute were written at the cursor. -/
def drawAt (s : Display) (character attributeByte : Byte) : Display :=
  { s with
    mem := store8 (store8 s.mem (vidmem + BitVec.ofNat 32 (cursorOf s * 2)) character)
      (vidmem + BitVec.ofNat 32 (cursorOf s * 2 + 1)) attributeByte
    index := 15#8
    writes := [vidmem + BitVec.ofNat 32 (cursorOf s * 2 + 1), vidmem + BitVec.ofNat 32 (cursorOf s * 2)] ++ s.writes }

theorem cellOf_drawAt (s : Display) (character attributeByte : Byte) {row col : Nat} (small : row < MAX_ROWS)
    (narrow : col < MAX_COLS) (inside : cursorOf s < MAX_ROWS * MAX_COLS) :
    cellOf (drawAt s character attributeByte).mem row col =
      if row * MAX_COLS + col = cursorOf s then (character, attributeByte) else cellOf s.mem row col := by
  unfold MAX_ROWS at small inside
  unfold MAX_COLS at narrow inside ⊢
  unfold cellOf drawAt
  have offset : getScreenOffset col row = (row * 80 + col) * 2 := rfl
  rw [offset, byteOf_store8 _ _ (by omega) (by omega), byteOf_store8 _ _ (by omega) (by omega),
    byteOf_store8 _ _ (by omega) (by omega), byteOf_store8 _ _ (by omega) (by omega)]
  by_cases here : row * 80 + col = cursorOf s
  · rw [if_pos here, here, if_neg (by omega), if_pos rfl, if_pos rfl]
  · rw [if_neg here, if_neg (by omega), if_neg (by omega), if_neg (by omega), if_neg (by omega)]

theorem Shows.drawn_newline (shows : Shows page s) (attributeByte : Byte) :
    Drawn (page.put newline attributeByte) { s with index := 15#8 } ((cursorOf s / MAX_COLS + 1) * MAX_COLS) := by
  obtain ⟨cells, blank, cursor, column, inside⟩ := shows
  have put : page.put newline attributeByte = { page with row := page.row + 1, col := 0 } := if_pos rfl
  rw [put]
  unfold MAX_ROWS MAX_COLS at *
  refine ⟨cells, blank, ?_, Nat.zero_lt_succ 79, ?_⟩
  · show (page.row + 1) * 80 + 0 = (cursorOf s / 80 + 1) * 80 + s.scrolls * 80
    omega
  · unfold MAX_ROWS MAX_COLS
    omega

theorem Shows.drawn_char (shows : Shows page s) {character : Byte} (plain : character ≠ newline) (attributeByte : Byte) :
    Drawn (page.put character attributeByte) (drawAt s character attributeByte) (cursorOf s + 1) := by
  obtain ⟨cells, blank, cursor, column, inside⟩ := shows
  unfold Page.put
  rw [if_neg plain]
  refine ⟨fun row small col narrow => ?_, fun row below col => ?_, ?_, ?_, inside⟩
  · rw [cellOf_drawAt s character attributeByte small narrow inside]
    show _ = if row + s.scrolls = page.row ∧ col = page.col then _ else _
    have place : row * MAX_COLS + col = cursorOf s ↔ row + s.scrolls = page.row ∧ col = page.col := by
      unfold MAX_COLS at *
      omega
    rw [cells row small col narrow]
    exact if_congr place rfl rfl
  · change row ≥ MAX_ROWS + s.scrolls at below
    show (if row = page.row ∧ col = page.col then _ else _) = _
    have away : ¬ (row = page.row ∧ col = page.col) := by
      unfold MAX_ROWS MAX_COLS at *
      omega
    rw [if_neg away]
    exact blank row below col
  · show (if page.col + 1 = MAX_COLS then _ else _) * MAX_COLS + (if page.col + 1 = MAX_COLS then _ else _) =
      cursorOf s + 1 + s.scrolls * MAX_COLS
    unfold MAX_COLS at *
    split
    · omega
    · omega
  · show (if page.col + 1 = MAX_COLS then 0 else page.col + 1) < MAX_COLS
    split
    · decide
    · omega

theorem onScreen_drawAt (s : Display) (character attributeByte : Byte) (inside : cursorOf s < MAX_ROWS * MAX_COLS) :
    OnScreen s (drawAt s character attributeByte) := by
  unfold MAX_ROWS MAX_COLS at inside
  refine ⟨⟨_, ?_, rfl⟩, fun x away => ?_⟩
  · intro a member
    rcases List.mem_pair.mp member with rfl | rfl
    · exact ⟨cursorOf s * 2 + 1, by unfold MAX_ROWS MAX_COLS; omega, rfl⟩
    · exact ⟨cursorOf s * 2, by unfold MAX_ROWS MAX_COLS; omega, rfl⟩
  · unfold MAX_ROWS MAX_COLS at away
    have apart (offset : Nat) (small : offset < 4000) : x ≠ vidmem + BitVec.ofNat 32 offset := by
      rintro rfl
      generalize vidmem = base at away
      bv_omega
    simp only [drawAt, store8, if_neg (apart _ (by omega : cursorOf s * 2 + 1 < 4000)),
      if_neg (apart _ (by omega : cursorOf s * 2 < 4000))]

theorem run_printChar (shows : Shows page s) (character attr : Byte) :
    ∃ t, (printChar character (-1) (-1) attr).run s = .ok () t ∧ Shows (page.put character (style attr)) t ∧ OnScreen s t := by
  have atCursor : ¬ ((0 : Int) ≤ -1 ∧ (0 : Int) ≤ -1) := by decide
  unfold printChar
  simp only [atCursor, if_false]
  rw [run_bind_ok (run_getCursor s)]
  by_cases line : character = newline
  · subst line
    obtain ⟨t, ran, shown, written⟩ := (shows.drawn_newline (style attr)).finish
    have offset : getScreenOffset 79 (cursorOf s * 2 / (2 * MAX_COLS)) + 2 = (cursorOf s / MAX_COLS + 1) * MAX_COLS * 2 := by
      unfold getScreenOffset MAX_COLS
      omega
    refine ⟨t, ?_, shown, written.writes, written.outside⟩
    rw [if_pos rfl, run_bind_ok (EStateM.run_pure _ _), offset]
    exact ran
  · obtain ⟨t, ran, shown, written⟩ := (shows.drawn_char line (style attr)).finish
    refine ⟨t, ?_, shown, (onScreen_drawAt s character (style attr) shows.inside).trans written⟩
    rw [if_neg line]
    unfold setVidmem
    rw [run_bind_ok (EStateM.run_modify _ _), run_bind_ok (EStateM.run_modify _ _), run_bind_ok (EStateM.run_pure _ _),
      show cursorOf s * 2 + 2 = (cursorOf s + 1) * 2 by omega]
    exact ran

theorem run_printAll (shows : Shows page s) (chars : List (Byte × Byte)) :
    ∃ t, (printAll chars).run s = .ok () t ∧ Shows (page.putAll chars) t ∧ OnScreen s t := by
  induction chars generalizing page s with
  | nil => exact ⟨s, rfl, shows, ⟨[], by simp [InVideo], rfl⟩, fun _ _ => rfl⟩
  | cons head rest ih =>
    obtain ⟨t, ran, shown, written⟩ := run_printChar shows head.1 head.2
    obtain ⟨u, ran', shown', written'⟩ := ih shown
    refine ⟨u, ?_, shown', written.trans written'⟩
    rw [printAll, run_bind_ok ran, ran']

end Window

/-- The screen is a window on an unbounded page, and the cursor stays inside it. -/
theorem printAll_window (mem : Mem) (index : Byte) (regs : Byte → Byte) (chars : List (Byte × Byte))
    (inside : cursorOf ⟨mem, index, regs, [], 0⟩ < MAX_ROWS * MAX_COLS) :
    ∃ t, (printAll chars).run ⟨mem, index, regs, [], 0⟩ = .ok () t ∧ InVideo t.writes ∧ cursorOf t < MAX_ROWS * MAX_COLS ∧
      (∀ row < MAX_ROWS, ∀ col < MAX_COLS,
        cellOf t.mem row col = ((pageOf ⟨mem, index, regs, [], 0⟩).putAll chars).cell (row + t.scrolls) col) ∧
      ((pageOf ⟨mem, index, regs, [], 0⟩).putAll chars).row = cursorOf t / MAX_COLS + t.scrolls ∧
      ((pageOf ⟨mem, index, regs, [], 0⟩).putAll chars).col = cursorOf t % MAX_COLS ∧
      ∀ x : Addr, MAX_ROWS * MAX_COLS * 2 ≤ (x - vidmem).toNat → t.mem x = mem x := by
  obtain ⟨t, ran, shown, written⟩ := run_printAll (Shows.start inside rfl) chars
  obtain ⟨log, logged, writes⟩ := written.writes
  have cursor := shown.cursor
  have column := shown.column
  refine ⟨t, ran, ?_, shown.inside, shown.cells, ?_, ?_, written.outside⟩
  · rw [writes, List.append_nil]
    exact logged
  · unfold MAX_COLS at *
    omega
  · unfold MAX_COLS at *
    omega

/-- A character in the last cell wraps and scrolls. -/
theorem printAll_window_last_cell :
    ∃ t, (printAll [(0x41#8, 0#8), (0x42#8, 0#8)]).run
        ⟨fun _ => 0#8, 0#8, Function.update (Function.update (fun _ => 0#8) 14#8 7#8) 15#8 0xcf#8, [], 0⟩ = .ok () t ∧
      InVideo t.writes ∧ cursorOf t < MAX_ROWS * MAX_COLS := by
  obtain ⟨t, ran, writes, cursor, -⟩ := printAll_window (fun _ => 0#8) 0#8
    (Function.update (Function.update (fun _ => 0#8) 14#8 7#8) 15#8 0xcf#8) [(0x41#8, 0#8), (0x42#8, 0#8)] (by decide)
  exact ⟨t, ran, writes, cursor⟩

end OsDev.Kernel.Screen
