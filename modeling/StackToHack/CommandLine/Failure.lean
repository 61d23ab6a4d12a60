import StackToHack.CommandLine.Host
import StackToHack.Run

/-!
# Failures

Why no program was written, and how that is reported: what was being done, and behind it what went
wrong, unless that has been said already. An error of the system that comes up between two things to
be done is reported by itself.
-/

namespace StackToHack

inductive Failure
  | system (error : FileError)
  | listing (path : String) (error : FileError)
  | noUnits (path : String)
  | nameless (path : String)
  | reading (path : String) (error : FileError)
  | unnamed (path : String)
  | unit (error : UnitError)
  | writing (path : String) (error : FileError)
  deriving DecidableEq

namespace Failure

def message : Failure → String
  | .system error => error.message
  | .listing path _ => "reading directory " ++ path
  | .noUnits path => "no .vm files in " ++ path
  | .nameless path => "invalid directory name: " ++ path
  | .reading path _ => "reading " ++ path
  | .unnamed path => "invalid file name: " ++ path
  | .unit error => error.message
  | .writing path _ => "writing " ++ path

def cause? : Failure → Option String
  | .listing _ error | .reading _ error | .writing _ error => some error.message
  | .system _ | .noUnits _ | .nameless _ | .unnamed _ => none
  | .unit error => some error.cause

def report (failure : Failure) : String :=
  "Error: " ++ failure.message ++ "\n" ++
    match failure.cause? with
    | some cause => "\nCaused by:\n    " ++ cause ++ "\n"
    | none => ""

end Failure

end StackToHack
