import StackToHack.Code.Stack

/-!
# Code of branches

A branch takes the symbol of its target. Which symbol a label stands for depends on where it is
written: inside of a function it belongs to that function of that unit, outside of any function it
is what it is called.
-/

namespace StackToHack.Code

open Hack

def target (unit : String) (function : Option String) (name : String) : Symbol :=
  match function with
  | some function => .label unit function name
  | none => .plain name

def label (target : Symbol) : Code := [.mark target]

def goto (target : Symbol) : Code := [.symbol target, .goto .zero .always]

/-- Jumps when the word taken from the stack is not 0, which stands for false. -/
def ifGoto (target : Symbol) : Code := popD ++ [.symbol target, .goto .d .ne]

end StackToHack.Code
