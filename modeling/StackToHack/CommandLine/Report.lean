import StackToHack.CommandLine.Compile
import StackToHack.CommandLine.Console

/-!
# Reports

What a run of the command line leaves behind besides its files: an exit code, and for a request
that was not refused the events it shows and the report of its failure.

Commands are never shown as they are reached; the rest is shown on request.
-/

namespace StackToHack

structure Report where
  exitCode : UInt32
  events : List Event
  errors : String

/-- The events that a verbose run shows. -/
def Event.isShown : Event → Bool
  | .reached _ _ => false
  | .added _ _ _ _ | .wrote _ _ => true

def Outcome.report (outcome : Outcome) (verbose : Bool) : Report where
  exitCode := if outcome.failure?.isSome then 1 else 0
  events := if verbose then outcome.events.filter Event.isShown else []
  errors := (outcome.failure?.map Failure.report).getD ""

/-- What the console shows: the events one after the other, and the failure below them. -/
def Report.console (report : Report) : List ConsoleLine :=
  ConsoleLine.settle
    (report.events.flatMap Event.lines ++ ConsoleLine.ofText report.errors.toList)

/-- What a request for help leaves behind. -/
def Report.ofHelp : Report := { exitCode := 0, events := [], errors := "" }

/-- What refused arguments leave behind. -/
def Report.ofRefusal : Report := { exitCode := 2, events := [], errors := "" }

/-- Answers a request on the files of a host. -/
def Request.answer {m : Type → Type} [Monad m] (host : Host m) : Request → m Report
  | .refused => return .ofRefusal
  | .help => return .ofHelp
  | .compile options => return (← options.compile host).report options.verbose

end StackToHack
