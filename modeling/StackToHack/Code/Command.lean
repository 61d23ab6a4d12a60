import StackToHack.Code.Branch
import StackToHack.Code.Operation
import StackToHack.Code.Subroutine
import StackToHack.Context

/-!
# Code of commands

The code of one command, as its unit and the context ask for it, or the fault that keeps it from
having any. Whether there is a fault is up to the command alone.
-/

namespace StackToHack

open Hack

def Command.code (unit : String) (context : Context) : Command → Except Fault Code
  | .operate op => .ok (Code.operation context.comparisons op)
  | .push segment index => Code.push unit index segment
  | .pop segment index => Code.pop unit index segment
  | .label name => .ok (Code.label (Code.target unit context.function name))
  | .goto name => .ok (Code.goto (Code.target unit context.function name))
  | .ifGoto name => .ok (Code.ifGoto (Code.target unit context.function name))
  | .function name locals => Code.function unit name locals
  | .call name args => Code.call unit name args context.callSites
  | .ret => .ok Code.ret

end StackToHack
