import StackToHack.Numeral

/-!
# Faults

A command can be well formed and still ask for what the machine cannot do: a number that its
15-bit load cannot hold, a cell that a fixed region does not have, a store into a constant.
-/

namespace StackToHack

/-- Why a command has no code. -/
inductive Fault
  | popConstant
  | pointerIndex (index : UInt32)
  | tempIndex (index : UInt32)
  | constantOutOfRange (constant : UInt32)
  | indexOutOfRange (index : UInt32)
  | countOutOfRange (count : UInt32)
  deriving DecidableEq

namespace Fault

/-- The number that is to blame. -/
def value? : Fault → Option UInt32
  | .popConstant => none
  | .pointerIndex n | .tempIndex n | .constantOutOfRange n | .indexOutOfRange n
  | .countOutOfRange n => some n

def message : Fault → String
  | .popConstant => "cannot pop into the constant segment"
  | .pointerIndex n => "pointer index " ++ Numeral.write n ++ " is out of range (expected 0 or 1)"
  | .tempIndex n => "temp index " ++ Numeral.write n ++ " is out of range (expected 0..=7)"
  | .constantOutOfRange n => "constant " ++ unloadable n
  | .indexOutOfRange n => "index " ++ unloadable n
  | .countOutOfRange n => "count " ++ unloadable n
where
  unloadable (n : UInt32) : String :=
    Numeral.write n ++ " does not fit in an A-instruction (max 32767)"

end Fault

end StackToHack
