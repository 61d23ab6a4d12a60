/-!
# Events

What is reported while a program is put together, besides its text and its errors.

- `reached` — a command is about to be given its code.
- `added` — a unit has its code. The number of commands is its own, the numbers of comparisons
  and call sites are those of the whole run so far.
- `wrote` — the program has been written out.
-/

namespace StackToHack

inductive Event
  | reached (unit text : String)
  | added (unit : String) (commands comparisons callSites : Nat)
  | wrote (path : String) (units : Nat)
  deriving DecidableEq

namespace Event

def level : Event → String
  | .reached _ _ => "TRACE"
  | .added _ _ _ _ => "DEBUG"
  | .wrote _ _ => "INFO"

def message : Event → String
  | .reached unit text => unit ++ ": " ++ text
  | .added unit commands comparisons callSites =>
    "translated unit " ++ unit ++ " (" ++ toString commands ++ " commands, " ++
      toString comparisons ++ " comparisons, " ++ toString callSites ++ " call sites so far)"
  | .wrote path units => "wrote " ++ path ++ " (" ++ toString units ++ " units)"

def render (event : Event) : String := event.level ++ " " ++ event.message

end Event

end StackToHack
