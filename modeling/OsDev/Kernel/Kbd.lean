import OsDev.Machine.Memory
import OsDev.Machine.Program
import Mathlib.Data.Finset.Insert
import Mathlib.Data.Fintype.Basic

/-! The keyboard driver (kernel/drivers/kbd.c and kbdmapus.c): one interrupt reads the scan code of one key event,
and a flag for each modifier is kept from one interrupt to the next. -/

namespace OsDev.Kernel.Kbd
open OsDev.Machine.Memory OsDev.Machine.Program

/-- The key codes of kbd.h that a table of kbdmapus.c or the handler mentions. -/
inductive KeyCode where
  | keySpace | key0 | key1 | key2 | key3 | key4 | key5 | key6 | key7 | key8 | key9 | keyA | keyB | keyC
  | keyD | keyE | keyF | keyG | keyH | keyI | keyJ | keyK | keyL | keyM | keyN | keyO | keyP | keyQ | keyR
  | keyS | keyT | keyU | keyV | keyW | keyX | keyY | keyZ | keyReturn | keyEscape | keyBackspace | keyF1
  | keyF2 | keyF3 | keyF4 | keyF5 | keyF6 | keyF7 | keyF8 | keyF9 | keyF10 | keyF11 | keyF12 | keyDot
  | keyComma | keySemicolon | keySlash | keyBackslash | keyMinus | keyQuote | keyEqual | keyLeftbracket
  | keyRightbracket | keyGrave | keyKp0 | keyKp2 | keyKp3 | keyKp8 | keyKp9 | keyKpDecimal | keyKpAsterisk
  | keyKpNumlock | keyTab | keyCapslock | keyLshift | keyLctrl | keyLalt | keyRshift | keyRctrl | keyRalt
  | keyHome | keyScrolllock | keyNull
  deriving DecidableEq, Repr

/-- The entries of `kbd_scanmap_set1` that have an initializer. -/
def scanmapEntries : List (Nat × KeyCode) :=
  [(0x00, .keyNull), (0x01, .keyEscape), (0x02, .key1), (0x03, .key2), (0x04, .key3), (0x05, .key4),
    (0x06, .key5), (0x07, .key6), (0x08, .key7), (0x09, .key8), (0x0a, .key9), (0x0b, .key0),
    (0x0c, .keyMinus), (0x0d, .keyEqual), (0x0e, .keyBackspace), (0x0f, .keyTab), (0x10, .keyQ), (0x11, .keyW),
    (0x12, .keyE), (0x13, .keyR), (0x14, .keyT), (0x15, .keyY), (0x16, .keyU), (0x17, .keyI), (0x18, .keyO),
    (0x19, .keyP), (0x1a, .keyLeftbracket), (0x1b, .keyRightbracket), (0x1c, .keyReturn), (0x1d, .keyLctrl),
    (0x1e, .keyA), (0x1f, .keyS), (0x20, .keyD), (0x21, .keyF), (0x22, .keyG), (0x23, .keyH), (0x24, .keyJ),
    (0x25, .keyK), (0x26, .keyL), (0x27, .keySemicolon), (0x28, .keyQuote), (0x29, .keyGrave),
    (0x2a, .keyLshift), (0x2b, .keyBackslash), (0x2c, .keyZ), (0x2d, .keyX), (0x2e, .keyC), (0x2f, .keyV),
    (0x30, .keyB), (0x31, .keyN), (0x32, .keyM), (0x33, .keyComma), (0x34, .keyDot), (0x35, .keySlash),
    (0x36, .keyRshift), (0x37, .keyKpAsterisk), (0x38, .keyLalt), (0x39, .keySpace), (0x3a, .keyCapslock),
    (0x3b, .keyF1), (0x3c, .keyF2), (0x3d, .keyF3), (0x3e, .keyF4), (0x3f, .keyF5), (0x40, .keyF6),
    (0x41, .keyF7), (0x42, .keyF8), (0x43, .keyF9), (0x44, .keyF10), (0x45, .keyKpNumlock),
    (0x46, .keyScrolllock), (0x47, .keyHome), (0x48, .keyKp8), (0x49, .keyKp9), (0x50, .keyKp2),
    (0x51, .keyKp3), (0x52, .keyKp0), (0x53, .keyKpDecimal), (0x54, .keyNull), (0x55, .keyNull),
    (0x56, .keyNull), (0x57, .keyF11), (0x58, .keyF12)]

/-- The others are 0, which is `KEY_SPACE`. -/
def kbdScanmapSet1 (idx : Nat) : KeyCode := (scanmapEntries.lookup idx).getD .keySpace

/-- An entry of 0 or without initializer is a null pointer. -/
def kbdScanmapAsciiRegular : KeyCode → Option String
  | .keyEscape => some "\x1b"
  | .key1 => some "1"
  | .key2 => some "2"
  | .key3 => some "3"
  | .key4 => some "4"
  | .key5 => some "5"
  | .key6 => some "6"
  | .key7 => some "7"
  | .key8 => some "8"
  | .key9 => some "9"
  | .key0 => some "0"
  | .keyMinus => some "-"
  | .keyEqual => some "="
  | .keyBackspace => some "\x08"
  | .keyTab => some "\t"
  | .keyQ => some "q"
  | .keyW => some "w"
  | .keyE => some "e"
  | .keyR => some "r"
  | .keyT => some "t"
  | .keyY => some "y"
  | .keyU => some "u"
  | .keyI => some "i"
  | .keyO => some "o"
  | .keyP => some "p"
  | .keyLeftbracket => some "["
  | .keyRightbracket => some "]"
  | .keyReturn => some "\n"
  | .keyA => some "a"
  | .keyS => some "s"
  | .keyD => some "d"
  | .keyF => some "f"
  | .keyG => some "g"
  | .keyH => some "h"
  | .keyJ => some "j"
  | .keyK => some "k"
  | .keyL => some "l"
  | .keySemicolon => some ";"
  | .keyQuote => some "'"
  | .keyGrave => some "`"
  | .keyBackslash => some "\\"
  | .keyZ => some "z"
  | .keyX => some "x"
  | .keyC => some "c"
  | .keyV => some "v"
  | .keyB => some "b"
  | .keyN => some "n"
  | .keyM => some "m"
  | .keyComma => some ","
  | .keyDot => some "."
  | .keySlash => some "/"
  | .keyKpAsterisk => some "*"
  | .keySpace => some " "
  | .keyF1 => some "\x1bOP"
  | .keyF2 => some "\x1bOQ"
  | .keyF3 => some "\x1bOR"
  | .keyF4 => some "\x1bOS"
  | .keyF5 => some "\x1b[15~"
  | .keyF6 => some "\x1b[17~"
  | .keyF7 => some "\x1b[18~"
  | .keyF8 => some "\x1b[19~"
  | .keyF9 => some "\x1b[20~"
  | .keyF10 => some "\x1b[21~"
  | .keyKp8 => some "8"
  | .keyKp9 => some "9"
  | .keyKp2 => some "2"
  | .keyKp3 => some "3"
  | .keyKp0 => some "0"
  | .keyKpDecimal => some "."
  | .keyF11 => some "\x1b[23~"
  | .keyF12 => some "\x1b[24~"
  | _ => none

def kbdScanmapAsciiShift : KeyCode → Option String
  | .key1 => some "!"
  | .key2 => some "@"
  | .key3 => some "#"
  | .key4 => some "$"
  | .key5 => some "%"
  | .key6 => some "^"
  | .key7 => some "&"
  | .key8 => some "*"
  | .key9 => some "("
  | .key0 => some ")"
  | .keyMinus => some "_"
  | .keyEqual => some "+"
  | .keyBackspace => some "\x08"
  | .keyTab => some "\x1b[Z"
  | .keyQ => some "Q"
  | .keyW => some "W"
  | .keyE => some "E"
  | .keyR => some "R"
  | .keyT => some "T"
  | .keyY => some "Y"
  | .keyU => some "U"
  | .keyI => some "I"
  | .keyO => some "O"
  | .keyP => some "P"
  | .keyLeftbracket => some "\x7b"
  | .keyRightbracket => some "\x7d"
  | .keyReturn => some "\n"
  | .keyA => some "A"
  | .keyS => some "S"
  | .keyD => some "D"
  | .keyF => some "F"
  | .keyG => some "G"
  | .keyH => some "H"
  | .keyJ => some "J"
  | .keyK => some "K"
  | .keyL => some "L"
  | .keySemicolon => some ":"
  | .keyQuote => some "\""
  | .keyGrave => some "~"
  | .keyBackslash => some "|"
  | .keyZ => some "Z"
  | .keyX => some "X"
  | .keyC => some "C"
  | .keyV => some "V"
  | .keyB => some "B"
  | .keyN => some "N"
  | .keyM => some "M"
  | .keyComma => some "<"
  | .keyDot => some ">"
  | .keySlash => some "?"
  | .keySpace => some " "
  | .keyF1 => some "\x1bOP"
  | .keyF2 => some "\x1bOQ"
  | .keyF3 => some "\x1bOR"
  | .keyF4 => some "\x1bOS"
  | .keyF5 => some "\x1b[15~;2~"
  | .keyF6 => some "\x1b[17~;2~"
  | .keyF7 => some "\x1b[18~;2~"
  | .keyF8 => some "\x1b[19~;2~"
  | .keyF9 => some "\x1b[20~;2~"
  | .keyF10 => some "\x1b[21~;2~"
  | .keyKp8 => some "8"
  | .keyKp9 => some "9"
  | .keyKp2 => some "2"
  | .keyKp3 => some "3"
  | .keyKp0 => some "0"
  | .keyKpDecimal => some "."
  | .keyF11 => some "\x1b[23~;2~"
  | .keyF12 => some "\x1b[24~;2~"
  | _ => none

def KBD_EXTENDED_SCANCODE : Byte := 0xe0#8
def KBD_BREAKCODE_LIMIT : Nat := 0x80

/-- The bytes waiting at the data port, the flags, and the strings passed to `print`, where `none` is a null pointer. -/
structure Keyboard where
  port : List Byte
  shift : Bool
  alt : Bool
  ctrl : Bool
  printed : List (Option String)

/-- A read of the data port. -/
def inb : Prog Keyboard Byte := do
  let s ← get
  match s.port with
  | [] => return 0#8
  | b :: rest =>
      set { s with port := rest }
      return b

def print (str : Option String) : Prog Keyboard Unit := modify fun s => { s with printed := s.printed ++ [str] }

/-- `kbd_interrupt_handler` once it has the scan code. -/
def kbdHandle (scancode : Byte) : Prog Keyboard Unit := do
  let idx := if scancode.toNat < KBD_BREAKCODE_LIMIT then scancode.toNat else scancode.toNat - KBD_BREAKCODE_LIMIT
  let key := kbdScanmapSet1 idx
  match key with
  | .keyLctrl | .keyRctrl => modify fun s => { s with ctrl := !s.ctrl }
  | .keyLshift | .keyRshift => modify fun s => { s with shift := !s.shift }
  | .keyLalt | .keyRalt => modify fun s => { s with alt := !s.alt }
  | _ =>
      if key ≠ .keyNull ∧ scancode.toNat < KBD_BREAKCODE_LIMIT then do
        let s ← get
        print (if s.shift then kbdScanmapAsciiShift key else kbdScanmapAsciiRegular key)
      else pure ()

def kbdInterruptHandler : Prog Keyboard Unit := do
  let first ← inb
  let scancode ← if first = KBD_EXTENDED_SCANCODE ∨ first = 0xe1#8 then inb else pure first
  kbdHandle scancode

def kbdInit : Prog Keyboard Unit := modify fun s => { s with shift := false, alt := false, ctrl := false }

section Events

inductive Lead where
  | e0 | e1
  deriving DecidableEq

def Lead.byte : Lead → Byte
  | .e0 => 0xe0#8
  | .e1 => 0xe1#8

/-- What identifies a key of a set-1 keyboard: the byte sent first, if any, and its make code. Two numbers are
no make codes of their own, since their break codes are the bytes sent first. -/
structure Code where
  lead : Option Lead
  index : Fin 128
  plain : lead = none → index ≠ 0x60 ∧ index ≠ 0x61
  deriving DecidableEq

structure Event where
  code : Code
  down : Bool
  deriving DecidableEq

def scancodeOf (index : Fin 128) (down : Bool) : Byte :=
  BitVec.ofNat 8 (index + if down then 0 else KBD_BREAKCODE_LIMIT)

def Event.scancode (e : Event) : Byte := scancodeOf e.code.index e.down

def Event.bytes (e : Event) : List Byte :=
  match e.code.lead with
  | none => [e.scancode]
  | some lead => [lead.byte, e.scancode]

/-- The handler runs once for each event and finds all its bytes. -/
def deliver (e : Event) : Prog Keyboard Unit := do
  modify fun s => { s with port := e.bytes }
  kbdInterruptHandler

def session (events : List Event) : Prog Keyboard Unit := do
  kbdInit
  forM events deliver

def Event.key (e : Event) : KeyCode := kbdScanmapSet1 e.code.index

end Events

section Desk

inductive Modifier where
  | shift | ctrl | alt
  deriving DecidableEq

instance : Fintype Modifier where
  elems := {.shift, .ctrl, .alt}
  complete m := by cases m <;> decide

def Keyboard.flag (s : Keyboard) : Modifier → Bool
  | .shift => s.shift
  | .ctrl => s.ctrl
  | .alt => s.alt

/-- The modifier that the handler takes a key for. -/
def KeyCode.modifier : KeyCode → Option Modifier
  | .keyLshift | .keyRshift => some .shift
  | .keyLctrl | .keyRctrl => some .ctrl
  | .keyLalt | .keyRalt => some .alt
  | _ => none

/-- Which codes are the modifier keys of a keyboard, among those the scan map has for the modifier. The codes
left out are sent without such a key: set 1 puts `E0 2A` around its navigation keys and starts Pause with `E1 1D`. -/
structure Layout where
  modifier : Code → Option Modifier
  mapped : ∀ c m, modifier c = some m → (kbdScanmapSet1 c.index).modifier = some m

/-- The left and right keys of scan code set 1. -/
def set1 : Layout where
  modifier c := if c.lead = none ∨ c.lead = some .e0 ∧ (c.index = 0x1d ∨ c.index = 0x38) then
    (kbdScanmapSet1 c.index).modifier else none
  mapped c m known := by
    split at known
    · exact known
    · cases known

variable (layout : Layout)

def Layout.Held (held : Finset Code) (m : Modifier) : Prop := ∃ c ∈ held, layout.modifier c = some m

instance (held : Finset Code) (m : Modifier) : Decidable (layout.Held held m) :=
  inferInstanceAs (Decidable (∃ c ∈ held, layout.modifier c = some m))

/-- The keys that are down and the strings that should have been printed so far. -/
structure Desk where
  held : Finset Code
  text : List (Option String)

/-- A make code that the scan map has for a key which is no modifier is printed. -/
abbrev Event.Printable (e : Event) : Prop := e.down = true ∧ e.key ≠ .keyNull ∧ e.key.modifier = none

def rendered (shifted : Bool) (key : KeyCode) : Option String :=
  if shifted then kbdScanmapAsciiShift key else kbdScanmapAsciiRegular key

def Event.moved (e : Event) (held : Finset Code) : Finset Code :=
  if e.down then insert e.code held else held.erase e.code

def Layout.next (d : Desk) (e : Event) : Desk where
  held := e.moved d.held
  text := if e.Printable then d.text ++ [rendered (layout.Held d.held .shift) e.key] else d.text

/-- A modifier key is released only while it is down; the other codes come in any order. -/
def Layout.Legal : Finset Code → List Event → Prop
  | _, [] => True
  | held, e :: events =>
      (e.down = false → layout.modifier e.code ≠ none → e.code ∈ held) ∧ Layout.Legal (e.moved held) events

instance Layout.decidableLegal : ∀ held events, Decidable (layout.Legal held events)
  | _, [] => .isTrue trivial
  | held, e :: events =>
      have := Layout.decidableLegal (e.moved held) events
      inferInstanceAs (Decidable (_ ∧ _))

/-- A key of a modifier goes down only while no key of that modifier is down, and only such keys send a code that
the handler takes for the modifier. -/
def Layout.Steady : Finset Code → List Event → Prop
  | _, [] => True
  | held, e :: events =>
      (∀ m, e.key.modifier = some m → layout.modifier e.code = some m ∧ (e.down = true → ¬ layout.Held held m)) ∧
      Layout.Steady (e.moved held) events

instance Layout.decidableSteady : ∀ held events, Decidable (layout.Steady held events)
  | _, [] => .isTrue trivial
  | held, e :: events =>
      have := Layout.decidableSteady (e.moved held) events
      inferInstanceAs (Decidable (_ ∧ _))

/-- The flags say which modifiers are down, and the printed strings are those of the desk. -/
structure Layout.Matches (before : List (Option String)) (d : Desk) (s : Keyboard) : Prop where
  flags : ∀ m, s.flag m = true ↔ layout.Held d.held m
  printed : s.printed = before ++ d.text

/-- After every part of the events. -/
def Layout.Tracks (events : List Event) : Prop :=
  ∀ (s : Keyboard) (part : List Event), part <+: events →
    ∃ t, (session part).run s = .ok () t ∧ layout.Matches s.printed (part.foldl layout.next ⟨∅, []⟩) t

end Desk

section Handler

def Keyboard.toggle (s : Keyboard) : Modifier → Keyboard
  | .shift => { s with shift := !s.shift }
  | .ctrl => { s with ctrl := !s.ctrl }
  | .alt => { s with alt := !s.alt }

/-- What one event does to the driver. -/
def Event.handled (s : Keyboard) (e : Event) : Keyboard :=
  match e.key.modifier with
  | some m => s.toggle m
  | none => if e.Printable then { s with printed := s.printed ++ [rendered s.shift e.key] } else s

theorem scancodeOf_plain : ∀ (index : Fin 128) (down : Bool), index ≠ 0x60 ∧ index ≠ 0x61 →
    ¬ (scancodeOf index down = KBD_EXTENDED_SCANCODE ∨ scancodeOf index down = 0xe1#8) := by
  decide +kernel

theorem scancodeOf_make :
    ∀ (index : Fin 128) (down : Bool), (scancodeOf index down).toNat < KBD_BREAKCODE_LIMIT ↔ down = true := by
  decide +kernel

theorem scancodeOf_index : ∀ (index : Fin 128) (down : Bool),
    (if (scancodeOf index down).toNat < KBD_BREAKCODE_LIMIT then (scancodeOf index down).toNat
      else (scancodeOf index down).toNat - KBD_BREAKCODE_LIMIT) = index := by
  decide +kernel

theorem run_inb {s : Keyboard} {b : Byte} {rest : List Byte} (pending : s.port = b :: rest) :
    inb.run s = .ok b { s with port := rest } := by
  unfold inb
  rw [run_bind_ok (EStateM.run_get s), pending]
  rfl

theorem run_kbdHandle (e : Event) (s : Keyboard) : (kbdHandle e.scancode).run s = .ok () (e.handled s) := by
  unfold kbdHandle Event.scancode
  rw [scancodeOf_index e.code.index e.down]
  have read : kbdScanmapSet1 e.code.index = e.key := rfl
  simp only [read, scancodeOf_make, Event.handled, Event.Printable]
  generalize e.key = key
  split
  · rfl
  · rfl
  · rfl
  · rfl
  · rfl
  · rfl
  · have other : key.modifier = none := by
      unfold KeyCode.modifier
      split <;> simp_all
    by_cases prints : key ≠ .keyNull ∧ e.down = true
    · simp only [if_pos prints, other]
      rw [if_pos ⟨prints.2, prints.1, trivial⟩]
      rfl
    · simp only [if_neg prints, other]
      rw [if_neg fun both => prints ⟨both.2.1, both.1⟩]
      rfl

theorem run_deliver (e : Event) (s : Keyboard) : (deliver e).run s = .ok () (e.handled { s with port := [] }) := by
  unfold deliver kbdInterruptHandler
  rw [run_bind_ok (EStateM.run_modify _ s)]
  cases lead : e.code.lead with
  | none =>
    have bytes : e.bytes = [e.scancode] := by simp only [Event.bytes, lead]
    have single : ¬ (e.scancode = KBD_EXTENDED_SCANCODE ∨ e.scancode = 0xe1#8) :=
      scancodeOf_plain _ _ (e.code.plain lead)
    rw [run_bind_ok (run_inb bytes)]
    simp only [if_neg single, pure_bind]
    exact run_kbdHandle e _
  | some first =>
    have bytes : e.bytes = [first.byte, e.scancode] := by simp only [Event.bytes, lead]
    have extended : first.byte = KBD_EXTENDED_SCANCODE ∨ first.byte = 0xe1#8 := by cases first <;> decide
    rw [run_bind_ok (run_inb bytes)]
    simp only [if_pos extended]
    rw [run_bind_ok (run_inb rfl)]
    exact run_kbdHandle e _

/-- What the interrupt of one event does to the driver. -/
def Keyboard.serve (s : Keyboard) (e : Event) : Keyboard := e.handled { s with port := [] }

theorem run_forM_deliver (events : List Event) (s : Keyboard) :
    (forM events deliver).run s = .ok () (events.foldl Keyboard.serve s) := by
  induction events generalizing s with
  | nil => rfl
  | cons e events ih =>
    rw [List.forM_cons, run_bind_ok (run_deliver e s), ih]
    rfl

theorem run_session (events : List Event) (s : Keyboard) : (session events).run s =
    .ok () (events.foldl Keyboard.serve { s with shift := false, alt := false, ctrl := false }) :=
  run_forM_deliver events _

theorem flag_toggle (s : Keyboard) (m n : Modifier) : (s.toggle n).flag m = if n = m then !s.flag m else s.flag m := by
  cases m <;> cases n <;> rfl

theorem flag_serve (s : Keyboard) (e : Event) (m : Modifier) :
    (s.serve e).flag m = if e.key.modifier = some m then !s.flag m else s.flag m := by
  unfold Keyboard.serve Event.handled
  split
  · rename_i n taken
    rw [flag_toggle, taken]
    simp only [Option.some.injEq]
    rfl
  · rename_i other
    have untouched : ¬ e.key.modifier = some m := by simp [other]
    rw [if_neg untouched]
    split
    · cases m <;> rfl
    · cases m <;> rfl

theorem printed_serve (s : Keyboard) (e : Event) :
    (s.serve e).printed = if e.Printable then s.printed ++ [rendered s.shift e.key] else s.printed := by
  unfold Keyboard.serve Event.handled
  split
  · rename_i m taken
    have silent : ¬ e.Printable := fun printable => by rw [printable.2.2] at taken; cases taken
    rw [if_neg silent]
    cases m <;> rfl
  · split <;> rfl

end Handler

section Tracking
variable {layout : Layout} {held : Finset Code} {e : Event} {m : Modifier}

theorem held_moved_of_other (other : layout.modifier e.code ≠ some m) :
    layout.Held (e.moved held) m ↔ layout.Held held m := by
  have distinct (c : Code) (is : layout.modifier c = some m) : c ≠ e.code := by
    intro same
    exact other (same ▸ is)
  unfold Layout.Held Event.moved
  constructor
  · rintro ⟨c, member, is⟩
    split at member
    · exact ⟨c, Finset.mem_of_mem_insert_of_ne member (distinct c is), is⟩
    · exact ⟨c, Finset.mem_of_mem_erase member, is⟩
  · rintro ⟨c, member, is⟩
    split
    · exact ⟨c, Finset.mem_insert_of_mem member, is⟩
    · exact ⟨c, Finset.mem_erase.mpr ⟨distinct c is, member⟩, is⟩

/-- No two keys of one modifier are down. -/
def Layout.Single (layout : Layout) (held : Finset Code) : Prop :=
  ∀ c ∈ held, ∀ c' ∈ held, ∀ m, layout.modifier c = some m → layout.modifier c' = some m → c = c'

theorem Layout.Single.moved (single : layout.Single held)
    (steady : ∀ m, layout.modifier e.code = some m → e.down = true → ¬ layout.Held held m) :
    layout.Single (e.moved held) := by
  intro c member c' member' m is is'
  unfold Event.moved at member member'
  split at member
  · rename_i down
    rw [if_pos down] at member'
    rcases Finset.mem_insert.mp member with rfl | old
    · rcases Finset.mem_insert.mp member' with rfl | old'
      · rfl
      · exact absurd ⟨c', old', is'⟩ (steady m is down)
    · rcases Finset.mem_insert.mp member' with rfl | old'
      · exact absurd ⟨c, old, is⟩ (steady m is' down)
      · exact single c old c' old' m is is'
  · rename_i up
    rw [if_neg up] at member'
    exact single c (Finset.mem_of_mem_erase member) c' (Finset.mem_of_mem_erase member') m is is'

/-- A toggled flag follows the keys only when the event changes whether the modifier is down. -/
theorem toggles_iff (single : layout.Single held)
    (legal : e.down = false → layout.modifier e.code ≠ none → e.code ∈ held) :
    (layout.Held (e.moved held) m ↔ ¬ layout.Held held m) ↔
      layout.modifier e.code = some m ∧ (e.down = true → ¬ layout.Held held m) := by
  by_cases own : layout.modifier e.code = some m
  · cases down : e.down with
    | true =>
      have pressed : layout.Held (e.moved held) m := by
        refine ⟨e.code, ?_, own⟩
        simp [Event.moved, down]
      simp [pressed, own]
    | false =>
      have here : e.code ∈ held := legal down (by simp [own])
      have before : layout.Held held m := ⟨e.code, here, own⟩
      have after : ¬ layout.Held (e.moved held) m := by
        rintro ⟨c, member, is⟩
        simp only [Event.moved, down, Bool.false_eq_true, if_false, Finset.mem_erase] at member
        exact member.1 (single c member.2 e.code here m is own)
      simp [before, after, own]
  · simp [held_moved_of_other own, own]

theorem Layout.Matches.next_iff {before : List (Option String)} {d : Desk} {s : Keyboard}
    (agree : layout.Matches before d s) (single : layout.Single d.held)
    (legal : e.down = false → layout.modifier e.code ≠ none → e.code ∈ d.held) :
    layout.Matches before (layout.next d e) (s.serve e) ↔
      ∀ m, e.key.modifier = some m → layout.modifier e.code = some m ∧ (e.down = true → ¬ layout.Held d.held m) := by
  have shifted : s.shift = decide (layout.Held d.held .shift) := by
    rw [Bool.eq_iff_iff, decide_eq_true_iff]
    exact agree.flags .shift
  have printed : (s.serve e).printed = before ++ (layout.next d e).text := by
    rw [printed_serve, agree.printed, shifted]
    unfold Layout.next
    split
    · rw [List.append_assoc]
    · rfl
  have flags (m : Modifier) : ((s.serve e).flag m = true ↔ layout.Held (layout.next d e).held m) ↔
      (e.key.modifier = some m → layout.modifier e.code = some m ∧ (e.down = true → ¬ layout.Held d.held m)) := by
    rw [flag_serve, ← toggles_iff single legal]
    by_cases taken : e.key.modifier = some m
    · rw [if_pos taken, Bool.not_eq_true', ← Bool.not_eq_true, agree.flags m]
      simp only [taken, true_imp_iff]
      exact iff_comm
    · have other : layout.modifier e.code ≠ some m := fun is => taken (layout.mapped _ _ is)
      rw [if_neg taken, agree.flags m]
      simp only [taken, false_imp_iff, iff_true]
      exact (held_moved_of_other other).symm
  constructor
  · intro after m
    exact (flags m).mp (after.flags m)
  · intro steady
    exact ⟨fun m => (flags m).mpr (steady m), printed⟩

theorem matches_iff_steady {before : List (Option String)} {events : List Event} {d : Desk} {s : Keyboard}
    (agree : layout.Matches before d s) (single : layout.Single d.held) (legal : layout.Legal d.held events) :
    (∀ part, part <+: events → layout.Matches before (part.foldl layout.next d) (part.foldl Keyboard.serve s)) ↔
      layout.Steady d.held events := by
  induction events generalizing d s with
  | nil =>
    simp only [List.prefix_nil, forall_eq, Layout.Steady, iff_true]
    exact agree
  | cons e events ih =>
    have step := agree.next_iff single legal.1
    have later (steady : ∀ m, e.key.modifier = some m →
        layout.modifier e.code = some m ∧ (e.down = true → ¬ layout.Held d.held m)) :=
      ih (step.mpr steady) (single.moved fun m is => (steady m (layout.mapped _ _ is)).2) legal.2
    constructor
    · intro tracks
      have steady := step.mp (tracks [e] (by simp))
      refine ⟨steady, (later steady).mp ?_⟩
      intro part inside
      exact tracks (e :: part) (List.cons_prefix_cons.mpr ⟨rfl, inside⟩)
    · rintro ⟨steady, rest⟩ part inside
      rcases List.prefix_cons_iff.mp inside with rfl | ⟨part, rfl, inner⟩
      · exact agree
      · exact (later steady).mpr rest part inner

/-- The flags follow the keys exactly when every event that the handler takes for a modifier is one of that modifier's
keys going down as the only one or coming up. -/
theorem kbd_tracks_iff (layout : Layout) (events : List Event) (legal : layout.Legal ∅ events) :
    layout.Tracks events ↔ layout.Steady ∅ events := by
  have start (s : Keyboard) :
      layout.Matches s.printed ⟨∅, []⟩ { s with shift := false, alt := false, ctrl := false } := by
    constructor
    · intro m
      cases m <;> simp [Keyboard.flag, Layout.Held]
    · simp
  have single : layout.Single ∅ := fun c member => by simp at member
  constructor
  · intro tracks
    let s : Keyboard := ⟨[], false, false, false, []⟩
    apply (matches_iff_steady (start s) single legal).mp
    intro part inside
    obtain ⟨t, ran, agree⟩ := tracks s part inside
    rw [run_session] at ran
    cases ran
    exact agree
  · intro steady s part inside
    exact ⟨_, run_session part s, (matches_iff_steady (start s) single legal).mpr steady part inside⟩

def leftShift : Code := ⟨none, 0x2a, by decide⟩
def rightShift : Code := ⟨none, 0x36, by decide⟩
def rightCtrl : Code := ⟨some .e0, 0x1d, by decide⟩
def keyA : Code := ⟨none, 0x1e, by decide⟩

/-- One Shift key after the other, with a Ctrl key and a letter. -/
def inTurn : List Event :=
  [⟨leftShift, true⟩, ⟨rightCtrl, true⟩, ⟨keyA, true⟩, ⟨keyA, true⟩, ⟨leftShift, false⟩, ⟨rightShift, true⟩,
    ⟨rightShift, false⟩, ⟨keyA, false⟩, ⟨rightCtrl, false⟩]

theorem kbd_tracks_in_turn : set1.Legal ∅ inTurn ∧ set1.Steady ∅ inTurn ∧ set1.Tracks inTurn :=
  ⟨by decide +kernel, by decide +kernel, (kbd_tracks_iff set1 inTurn (by decide +kernel)).mpr (by decide +kernel)⟩

/-- The left Shift key is held down until its make code repeats, and then a letter is typed. -/
def repeated : List Event := [⟨leftShift, true⟩, ⟨leftShift, true⟩, ⟨keyA, true⟩]

theorem kbd_repeat_lowers_shift : set1.Legal ∅ repeated ∧
    set1.Held (repeated.foldl set1.next ⟨∅, []⟩).held .shift ∧
    (repeated.foldl set1.next ⟨∅, []⟩).text = [some "A"] ∧
    (session repeated).run ⟨[], false, false, false, []⟩ = .ok () ⟨[], false, false, false, [some "a"]⟩ :=
  ⟨by decide +kernel, by decide +kernel, by decide +kernel, by rfl⟩

end Tracking

end OsDev.Kernel.Kbd
