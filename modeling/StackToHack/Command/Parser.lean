import StackToHack.Command.Word
import StackToHack.Name
import StackToHack.Numeral
import StackToHack.Text.Field
import StackToHack.Text.Scan

/-!
# Reading commands

The commands come in four kinds, each with a scanner of its own that reads the words, gaps, names and
numbers of its forms from left to right. The kinds are tried one after the other on the text of a
command, and each must read all of it: a word of the language with anything else behind it is no
command. Ranges are not looked at here beyond the 32 bits of a numeral.

What the scanners accept is said without them in the grammar of commands.
-/

namespace StackToHack.Command

open Scanner

/-! ## Parts of commands -/

/-- Spaces and tabs between two fields. -/
def scanGap : Scanner (List Char) := takeWhile1 Text.isSeparator

/-- A run of digits that is a numeral. -/
def scanNumber : Scanner UInt32 := do
  let digits ← takeWhile1 Char.isDigit
  StateT.lift (Numeral.read? (String.ofList digits))

def scanName : Scanner String := do
  let first ← satisfy Name.isInitial
  let following ← takeWhile Name.isFollowing
  return String.ofList (first :: following)

/-! ## Kinds of commands -/

def scanOperation : Scanner Command :=
  operate <$> oneOf (Operation.all.map fun op => (op.word, op))

def scanMemory : Scanner Command := do
  let access ← oneOf [("push", push), ("pop", pop)]
  let _ ← scanGap
  let segment ← oneOf (Segment.all.map fun segment => (segment.word, segment))
  let _ ← scanGap
  return access segment (← scanNumber)

def scanBranch : Scanner Command := do
  let branch ← oneOf [("label", label), ("goto", goto), ("if-goto", ifGoto)]
  let _ ← scanGap
  return branch (← scanName)

/-- A word with a name and a number. -/
def scanCounted (word : String) (counted : String → UInt32 → Command) : Scanner Command := do
  tag word
  let _ ← scanGap
  let name ← scanName
  let _ ← scanGap
  return counted name (← scanNumber)

def scanSubroutine : Scanner Command :=
  tagged "return" ret <|> scanCounted "function" function <|> scanCounted "call" call

/-! ## Commands -/

def scanCommand : Scanner Command :=
  whole scanOperation <|> whole scanMemory <|> whole scanBranch <|> whole scanSubroutine

/-- Reads the text of one command. -/
def parse? (text : String) : Option Command := (scanCommand text.toList).map Prod.fst

/-! ## Names within commands -/

/-- The names that occur in a command. -/
def names : Command → List String
  | .label name | .goto name | .ifGoto name | .function name _ | .call name _ => [name]
  | .operate _ | .push _ _ | .pop _ _ | .ret => []

/-- A command whose names could all be written in a source text. -/
def WellNamed (command : Command) : Prop := ∀ name ∈ command.names, Name.IsName name

instance (command : Command) : Decidable command.WellNamed :=
  inferInstanceAs (Decidable (∀ name ∈ command.names, Name.IsName name))

end StackToHack.Command
