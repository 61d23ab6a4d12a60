import StackToHack.Bootstrap
import StackToHack.Event
import StackToHack.Unit

/-!
# Runs

A run puts one program together from units, in the order they are added. All of them share one
context, so the numbers in their symbols go on from unit to unit, and so does the function that
the last one ended in.

A unit that fails adds nothing to the program. If it failed while being read the context stays as
well; if it failed for a command without code, the context is as the commands before it made it.
-/

namespace StackToHack

open Hack

/-! ## Errors of a unit -/

/-- Why a unit has no code: a line of it cannot be read, or a command of it cannot be carried
out. -/
inductive UnitError
  | line (unit : String) (error : LineError)
  | command (error : CommandError)
  deriving DecidableEq

namespace UnitError

/-- What is wrong, without saying where. -/
def cause : UnitError → String
  | .line _ error => error.message
  | .command error => error.fault.message

def message : UnitError → String
  | .line unit error => unit ++ ": " ++ error.message
  | .command error => error.message

end UnitError

/-! ## Adding units -/

structure Run where
  bootstrap : Option Bootstrap := none
  context : Context := .fresh
  code : Code := []

/-- What comes of adding to a run: the run behind it, whether it succeeded, and its events. -/
structure Added where
  run : Run
  result : Except UnitError Unit
  events : List Event

namespace Run

def start (bootstrap : Option Bootstrap) : Run := { bootstrap }

/-- Adds one unit: reads all of it, and only then makes its code. -/
def add (run : Run) (unit source : String) : Added :=
  match Source.statements source with
  | .error error => { run, result := .error (.line unit error), events := [] }
  | .ok statements =>
    let generation := generateStatements unit run.context statements
    let reached := generation.reached.map (.reached unit)
    let context := generation.context
    match generation.result with
    | .error error =>
      { run := { run with context }, result := .error (.command error), events := reached }
    | .ok code =>
      let added := Event.added unit statements.length context.comparisons context.callSites
      { run := { run with context, code := run.code ++ code }
        result := .ok ()
        events := reached ++ [added] }

/-- Adds units up to and including the first one that fails. -/
def addAll (run : Run) : List (String × String) → Added
  | [] => { run, result := .ok (), events := [] }
  | (unit, source) :: rest =>
    let added := run.add unit source
    match added.result with
    | .error _ => added
    | .ok () =>
      let behind := added.run.addAll rest
      { behind with events := added.events ++ behind.events }

/-- The code of the whole program, the bootstrap in front. -/
def program (run : Run) : Code :=
  match run.bootstrap with
  | some bootstrap => bootstrap.code ++ run.code
  | none => run.code

def finish (run : Run) : String := render run.program

end Run

/-! ## Whole programs -/

/-- The text of the program made of the given units, or the error of the first unit that fails. -/
def compile (bootstrap : Option Bootstrap) (units : List (String × String)) :
    Except UnitError String :=
  let added := (Run.start bootstrap).addAll units
  added.result.map fun _ => added.run.finish

end StackToHack
