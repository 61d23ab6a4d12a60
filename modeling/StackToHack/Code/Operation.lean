import StackToHack.Code.Stack
import StackToHack.Command.Basic

/-!
# Code of operations

A unary operation works on the top of the stack in place, a binary one on the lower of its two
operands. A comparison takes its decision by a jump on the difference of the operands and leaves
-1 for true and 0 for false; its three labels carry its number.
-/

namespace StackToHack.Code

open Hack

def unary (op : Unary) : Code :=
  [.register .sp, .set .onlyA (.dec .m), .set .onlyM (comp op)]
where
  comp : Unary → Comp
    | .neg => .neg .m
    | .not => .not .m

/-- The right operand is in `D` and the left one in the cell of the result. -/
def binary (op : Binary) : Code :=
  popOperands ++ [.set .onlyM (comp op), .register .sp, .set .onlyM (.inc .m)]
where
  comp : Binary → Comp
    | .add => .add .m
    | .sub => .subFrom .m
    | .and => .and .m
    | .or => .or .m

/-- The left operand minus the right one decides. -/
def comparison (op : Comparison) (number : Nat) : Code :=
  popOperands ++
    [.set .onlyD (.subFrom .m),
     .symbol (.comparison .whenTrue number), .goto .d (jump op),
     .mark (.comparison .whenFalse number),
     .register .sp, .set .onlyA (.read .m), .set .onlyM .zero,
     .symbol (.comparison .done number), .goto .zero .always,
     .mark (.comparison .whenTrue number),
     .register .sp, .set .onlyA (.read .m), .set .onlyM .minusOne,
     .mark (.comparison .done number),
     .register .sp, .set .onlyM (.inc .m)]
where
  jump : Comparison → Jump
    | .eq => .eq
    | .gt => .gt
    | .lt => .lt

def operation (number : Nat) : Operation → Code
  | .unary op => unary op
  | .binary op => binary op
  | .comparison op => comparison op number

end StackToHack.Code
