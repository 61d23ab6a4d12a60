import StackToHack.Command.Basic

/-!
# Context

What the code of a command depends on beyond the command and its unit: the function it stands in,
and how many comparisons and calls were met before. The two counts number the symbols of
comparisons and return sites. They only grow, and they go on from one unit to the next.
-/

namespace StackToHack

structure Context where
  function : Option String := none
  comparisons : Nat := 0
  callSites : Nat := 0
  deriving DecidableEq

namespace Context

def fresh : Context := {}

/-- The context behind a command. `return` ends the function wherever it stands. -/
def after (context : Context) : Command → Context
  | .operate (.comparison _) => { context with comparisons := context.comparisons + 1 }
  | .call _ _ => { context with callSites := context.callSites + 1 }
  | .function name _ => { context with function := some name }
  | .ret => { context with function := none }
  | .operate (.unary _) | .operate (.binary _) | .push _ _ | .pop _ _ | .label _ | .goto _
  | .ifGoto _ => context

end Context

end StackToHack
