import StackToHack.Command.Parser
import StackToHack.Text.Line

/-!
# Source texts

A source text is a list of lines, counted from 1. A line that is layout only says nothing; any
other must spell a command and becomes a `Statement`. The first line that does not spell one is
the `LineError` of the whole text: nothing is read partially.
-/

namespace StackToHack

/-- A command with the place and the spelling it was read from. -/
structure Statement where
  line : Nat
  text : String
  command : Command
  deriving DecidableEq

/-- A line that spells no command. -/
structure LineError where
  line : Nat
  text : String
  deriving DecidableEq

def LineError.message (error : LineError) : String :=
  "line " ++ toString error.line ++ ": invalid command `" ++ error.text ++ "`"

namespace Source

/-- Reads lines of which the first has the given number. -/
def statementsFrom : Nat → List (List Char) → Except LineError (List Statement)
  | _, [] => .ok []
  | number, line :: rest =>
    let text := String.ofList (Text.strip line)
    if text = "" then statementsFrom (number + 1) rest
    else
      match Command.parse? text with
      | none => .error { line := number, text }
      | some command =>
        (statementsFrom (number + 1) rest).map ({ line := number, text, command } :: ·)

def statements (source : String) : Except LineError (List Statement) :=
  statementsFrom 1 (Text.sourceLines source.toList)

def commands (source : String) : Except LineError (List Command) :=
  (statements source).map fun read => read.map Statement.command

/-! ## Lines as pieces between newlines -/

/-- A line counts for what it is stripped to. -/
theorem statementsFrom_cons_congr {line other : List Char} (h : Text.strip line = Text.strip other)
    (number : Nat) (rest : List (List Char)) :
    statementsFrom number (line :: rest) = statementsFrom number (other :: rest) := by
  rw [statementsFrom, statementsFrom, h]

/-- The lines of a text are read as the pieces between its newlines are. -/
theorem statementsFrom_sourceLines (cs : List Char) : ∀ number,
    statementsFrom number (Text.sourceLines cs) = statementsFrom number (Text.lines cs) := by
  induction cs using Text.line_induction with
  | @last line h =>
    intro number
    by_cases empty : line = []
    · subst empty
      rfl
    · rw [Text.sourceLines_of_not_mem empty h, Text.lines_of_not_mem h]
  | @ended line rest h ih =>
    intro number
    obtain ⟨first, lines, same⟩ := Text.sourceLines_append_newline h rest
    rw [lines, Text.lines_append_newline, Text.lines_of_not_mem h, List.singleton_append,
      statementsFrom_cons_congr same, statementsFrom, statementsFrom, ih]

theorem statements_eq (source : String) :
    statements source = statementsFrom 1 (Text.lines source.toList) :=
  statementsFrom_sourceLines source.toList 1

end Source

end StackToHack
