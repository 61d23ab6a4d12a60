import StackToHack.Code.Command
import StackToHack.Command.Printer
import StackToHack.Source

/-!
# Code of a unit

A unit is the commands of one file under the name of that file. Each command brings a comment line
with its text, then its code; the text is the one it was read from, or its canonical spelling if
it was not read at all.

The commands are taken in order, each in the context that the one before left. The first command
without code ends the unit, and then there is no code of the unit at all, but the context stays as
the commands before it made it, and every text up to and including its own has been reached.
-/

namespace StackToHack

open Hack

/-! ## Commands with their texts -/

/-- A command and the text of the comment in front of its code. -/
structure Captioned where
  text : String
  command : Command
  deriving DecidableEq

def Statement.captioned (statement : Statement) : Captioned :=
  { text := statement.text, command := statement.command }

def Command.captioned (command : Command) : Captioned :=
  { text := command.render, command }

/-! ## Errors -/

/-- The command of a unit that has no code. -/
structure CommandError where
  unit : String
  text : String
  fault : Fault
  deriving DecidableEq

def CommandError.message (error : CommandError) : String :=
  error.unit ++ ": `" ++ error.text ++ "`: " ++ error.fault.message

/-! ## Generation -/

/-- What comes out of a unit: its code or the command without any, the context behind it, and the
texts of the commands that were reached. -/
structure Generation where
  result : Except CommandError Code
  context : Context
  reached : List String

/-- Gives the commands of a unit their code, one after the other. -/
def generate (unit : String) (context : Context) : List Captioned → Generation
  | [] => { result := .ok [], context, reached := [] }
  | { text, command } :: rest =>
    match command.code unit context with
    | .error fault => { result := .error { unit, text, fault }, context, reached := [text] }
    | .ok code =>
      let behind := generate unit (context.after command) rest
      { behind with
        result := behind.result.map fun following => .comment text :: code ++ following
        reached := text :: behind.reached }

/-- The code of commands under their canonical spelling. -/
def generateCommands (unit : String) (context : Context) (commands : List Command) : Generation :=
  generate unit context (commands.map Command.captioned)

/-- The code of commands under the texts they were read from. -/
def generateStatements (unit : String) (context : Context) (statements : List Statement) :
    Generation :=
  generate unit context (statements.map Statement.captioned)

end StackToHack
