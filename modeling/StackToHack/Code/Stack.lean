import StackToHack.Hack.Line

/-!
# The stack in memory

The stack grows upwards and `SP` holds the address of its first free cell. All code goes through
`D` to move a word on or off the stack.
-/

namespace StackToHack.Code

open Hack

/-- Puts `D` on top of the stack. -/
def pushD : Code :=
  [.register .sp, .set .onlyA (.read .m), .set .onlyM .d, .register .sp, .set .onlyM (.inc .m)]

/-- Takes the top of the stack into `D`. -/
def popD : Code := [.register .sp, .set .am (.dec .m), .set .onlyD (.read .m)]

/-- Takes the top of the stack into `D` and the address of the word below it into `A`; both cells
are free afterwards. -/
def popOperands : Code := popD ++ [.register .sp, .set .am (.dec .m)]

end StackToHack.Code
