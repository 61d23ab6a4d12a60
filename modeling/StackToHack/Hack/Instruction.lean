/-!
# Compute instructions

The parts of a Hack C-instruction `dest=comp;jump`, as the instruction set has them:

- `Dest` — any subset of the three registers.
- `Comp` — the eighteen functions of the arithmetic unit. Its second input is `A` or `M`, so
  those that look at it take an `Operand`.
- `Jump` — the eight conditions on the computed word.

Every value of these types is an instruction the machine has, and no other can be written down.
-/

namespace StackToHack.Hack

/-! ## Destinations -/

/-- The registers that receive the computed word. -/
structure Dest where
  a : Bool
  m : Bool
  d : Bool
  deriving DecidableEq

namespace Dest

def none : Dest := ⟨false, false, false⟩

def onlyA : Dest := ⟨true, false, false⟩

def onlyM : Dest := ⟨false, true, false⟩

def onlyD : Dest := ⟨false, false, true⟩

def am : Dest := ⟨true, true, false⟩

def text (dest : Dest) : String :=
  (if dest.a then "A" else "") ++ (if dest.m then "M" else "") ++ (if dest.d then "D" else "")

end Dest

/-! ## Computations -/

/-- The second input of the arithmetic unit. -/
inductive Operand
  | a | m
  deriving DecidableEq

def Operand.text : Operand → String
  | .a => "A"
  | .m => "M"

inductive Comp
  | zero | one | minusOne
  | d | notD | negD | incD | decD
  | read (y : Operand) | not (y : Operand) | neg (y : Operand)
  | inc (y : Operand) | dec (y : Operand)
  | add (y : Operand) | sub (y : Operand) | subFrom (y : Operand)
  | and (y : Operand) | or (y : Operand)
  deriving DecidableEq

def Comp.text : Comp → String
  | .zero => "0"
  | .one => "1"
  | .minusOne => "-1"
  | .d => "D"
  | .notD => "!D"
  | .negD => "-D"
  | .incD => "D+1"
  | .decD => "D-1"
  | .read y => y.text
  | .not y => "!" ++ y.text
  | .neg y => "-" ++ y.text
  | .inc y => y.text ++ "+1"
  | .dec y => y.text ++ "-1"
  | .add y => "D+" ++ y.text
  | .sub y => "D-" ++ y.text
  | .subFrom y => y.text ++ "-D"
  | .and y => "D&" ++ y.text
  | .or y => "D|" ++ y.text

/-! ## Jumps -/

/-- When to go on at the address in `A`, by the sign of the computed word. -/
inductive Jump
  | never | gt | eq | ge | lt | ne | le | always
  deriving DecidableEq

/-- The mnemonic of a jump; not jumping has none. -/
def Jump.text : Jump → String
  | .never => ""
  | .gt => "JGT"
  | .eq => "JEQ"
  | .ge => "JGE"
  | .lt => "JLT"
  | .ne => "JNE"
  | .le => "JLE"
  | .always => "JMP"

end StackToHack.Hack
