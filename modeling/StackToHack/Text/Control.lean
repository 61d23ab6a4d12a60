/-!
# Control sequences

To a terminal, control characters are instructions. Most are one by themselves; the escape
character begins a longer one, and what follows it says where that ends. `visible` is what is left
of a text without them, so that showing it moves and recolours nothing.

Four control characters lay text out and stay: tab, newline, form feed and carriage return. One of
them may stand in the middle of a short sequence. Text goes on from it then, up to the next control
character, which is taken as one more of the sequence.

- `Sequence` — how far a sequence has been read.
- `Reading` — whether a text or a sequence is being read.
-/

namespace StackToHack.Text

/-! ## Characters -/

def isLayout (c : Char) : Bool := c == '\t' || c == '\n' || c == '\x0c' || c == '\r'

/-- Holds of what a reader can see and of layout. Control characters end at 1F, and delete is one
more. -/
def isVisible (c : Char) : Bool := isLayout c || (decide (0x20 ≤ c.toNat) && c != '\x7f')

/-- The control characters that call a sequence off: cancel and substitute. -/
def isCancel (c : Char) : Bool := c == '\x18' || c == '\x1a'

def isBetween (low high : Nat) (c : Char) : Bool := decide (low ≤ c.toNat ∧ c.toNat ≤ high)

/-- Intermediate characters are the space and the signs up to the slash. -/
def isIntermediate (c : Char) : Bool := isBetween 0x20 0x2F c

/-- The string terminator is a single byte to a terminal, wherever in a character it stands. -/
def holdsTerminator (c : Char) : Bool := (String.utf8EncodeChar c).contains 0x9C

/-! ## Sequences -/

/-- How far a sequence has been read: behind its escape character alone or behind that and
intermediate characters, inside a control sequence (`[`) or a system command (`]`), in one of three
parts of the head of a device control string (`P`), or in what is free text to the terminal. -/
inductive Sequence
  | escape | intermediate | control | systemCommand
  | device | deviceParameter | deviceIntermediate | string
  deriving DecidableEq

/-- What a sequence is behind one more character, unless that ends it. -/
def Sequence.next? (c : Char) : Sequence → Option Sequence
  | .escape =>
    if isIntermediate c then some .intermediate
    else if c = '[' then some .control
    else if c = ']' then some .systemCommand
    else if c = 'P' then some .device
    else if c = 'X' ∨ c = '^' ∨ c = '_' then some .string
    else if isBetween 0x30 0x7E c then none
    else some .escape
  | .intermediate => if isBetween 0x30 0x7E c then none else some .intermediate
  | .control => if isBetween 0x40 0x7E c then none else some .control
  | .systemCommand => if c = '\x07' then none else some .systemCommand
  | .device =>
    if isIntermediate c then some .deviceIntermediate
    else if isBetween 0x30 0x3F c then some .deviceParameter
    else if isBetween 0x40 0x7E c then some .string
    else some .device
  | .deviceParameter =>
    if isIntermediate c then some .deviceIntermediate
    else if isBetween 0x3C 0x7E c then some .string
    else some .deviceParameter
  | .deviceIntermediate => if isBetween 0x30 0x7E c then some .string else some .deviceIntermediate
  | .string => if holdsTerminator c then none else some .string

/-- Holds of the short sequences, which layout interrupts. In the others it is lost. -/
def Sequence.yields : Sequence → Bool
  | .escape | .intermediate | .control => true
  | .systemCommand | .device | .deviceParameter | .deviceIntermediate | .string => false

/-! ## Reading -/

inductive Reading
  | text
  | inside (sequence : Sequence)
  | interrupted (sequence : Sequence)
  deriving DecidableEq

/-- What is being read behind one more character, and whether that is seen. -/
def Reading.step (reading : Reading) (c : Char) : Reading × Bool :=
  if c = '\x1b' then (.inside .escape, false)
  else if isCancel c then (.text, false)
  else
    match reading with
    | .text => (.text, isVisible c)
    | .inside sequence =>
      if isLayout c && sequence.yields then (.interrupted sequence, true)
      else
        match sequence.next? c with
        | some sequence => (.inside sequence, false)
        | none => (.text, false)
    | .interrupted sequence =>
      if !isVisible c then (.inside sequence, false)
      else if c.toNat < 0x80 then (.interrupted sequence, true)
      else (.text, true)

/-- What is seen of the rest of a text. -/
def Reading.visible (reading : Reading) : List Char → List Char
  | [] => []
  | c :: cs =>
    if (reading.step c).2 then c :: (reading.step c).1.visible cs
    else (reading.step c).1.visible cs

/-- What is seen of a text. -/
def visible (cs : List Char) : List Char := Reading.text.visible cs

end StackToHack.Text
