import StackToHack.Event
import StackToHack.Text.Control
import StackToHack.Text.Line

/-!
# Console

What a run shows, line by line. An event is shown as a record: its level, and behind that its
message, of which only the first line can stand there. The others stand below and are indented, so
that no line of a message looks like a record of its own. Nor does a message act on the terminal,
as no control sequence of it is shown. A text that is no event is shown as it is.

- `Event.lines` — the lines of a record.
- `ConsoleLine.settle` — lines as they come to stand on the console.
-/

namespace StackToHack

/-- A line of the console, below the level of the record that begins there, if one does. Its
newline is part of its text; without it the line is still open. -/
structure ConsoleLine where
  level? : Option String
  text : List Char
  deriving DecidableEq

namespace ConsoleLine

/-- A line as it is printed. -/
def render (line : ConsoleLine) : List Char :=
  match line.level? with
  | some level => '[' :: level.toList ++ ']' :: ' ' :: line.text
  | none => line.text

def renderAll (lines : List ConsoleLine) : List Char := lines.flatMap render

def isOpen (line : ConsoleLine) : Bool := line.text.getLast? != some '\n'

/-- The lines of a text that is no record. -/
def ofText (cs : List Char) : List ConsoleLine :=
  (Text.endedLines cs).map fun text => { level? := none, text }

/-! ## Settling -/

/-- Lines as they come to stand on the console: one that was left open is continued by the
next. -/
def settle : List ConsoleLine → List ConsoleLine
  | [] => []
  | line :: lines =>
    match settle lines with
    | [] => [line]
    | next :: rest =>
      if line.isOpen then { line with text := line.text ++ next.render } :: rest
      else line :: next :: rest

end ConsoleLine

/-! ## Records -/

namespace Event

/-- The lines of a message but the first are indented by four spaces. -/
def indented (message : List Char) : List Char :=
  message.flatMap fun c => if c = '\n' then ['\n', ' ', ' ', ' ', ' '] else [c]

/-- What is seen of an event behind its level. A sequence that its message leaves open takes the
newline behind the message with it. -/
def seen (event : Event) : List Char := Text.visible (indented event.message.toList ++ ['\n'])

def lines (event : Event) : List ConsoleLine :=
  match ConsoleLine.ofText event.seen with
  | [] => [{ level? := some event.level, text := [] }]
  | first :: rest => { first with level? := some event.level } :: rest

end Event

end StackToHack
