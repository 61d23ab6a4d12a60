import StackToHack.Code.Stack
import StackToHack.Command.Basic
import StackToHack.Fault

/-!
# Code of push and pop

A cell of a region is found in one of two ways, which `Place` tells apart: it has a symbol of its
own, or it lies at an offset from the address that a register holds. What is wrong with an index
is found out on the way to its place.
-/

namespace StackToHack.Code

open Hack

/-- The largest number that one instruction can load. -/
def maxLoad : UInt32 := 32767

/-- A number that one instruction can load, or else the fault that it is. -/
def loadable (fault : UInt32 → Fault) (n : UInt32) : Except Fault Nat :=
  if n ≤ maxLoad then .ok n.toNat else .error (fault n)

/-! ## Places -/

inductive Place
  | cell (symbol : Symbol)
  | offset (base : Register) (index : Nat)
  deriving DecidableEq

/-- The place of a cell of a region, seen from a unit. -/
def place (unit : String) (index : UInt32) : Region → Except Fault Place
  | .locals => (loadable .indexOutOfRange index).map (.offset .lcl)
  | .argument => (loadable .indexOutOfRange index).map (.offset .arg)
  | .this => (loadable .indexOutOfRange index).map (.offset .this)
  | .that => (loadable .indexOutOfRange index).map (.offset .that)
  | .static => .ok (.cell (.static unit index))
  | .pointer =>
    if index = 0 then .ok (.cell (.register .this))
    else if index = 1 then .ok (.cell (.register .that))
    else .error (.pointerIndex index)
  | .temp =>
    if h : index.toNat < 8 then .ok (.cell (.register (.r ⟨5 + index.toNat, by omega⟩)))
    else .error (.tempIndex index)

/-! ## Transfers -/

/-- Puts a number on top of the stack. -/
def pushNumber (n : Nat) : Code := [.number n, .set .onlyD (.read .a)] ++ pushD

/-- Puts the word at a place on top of the stack. -/
def fetch : Place → Code
  | .cell symbol => [.symbol symbol, .set .onlyD (.read .m)] ++ pushD
  | .offset base index =>
    [.register base, .set .onlyD (.read .m), .number index, .set .onlyA (.add .a),
     .set .onlyD (.read .m)] ++ pushD

/-- Takes the top of the stack to a place. The word waits in `R13` while the address of an offset
is worked out in `R14`. -/
def store : Place → Code
  | .cell symbol => popD ++ [.symbol symbol, .set .onlyM .d]
  | .offset base index =>
    popD ++
      [.register .r13, .set .onlyM .d,
       .register base, .set .onlyD (.read .m), .number index, .set .onlyD (.add .a),
       .register .r14, .set .onlyM .d,
       .register .r13, .set .onlyD (.read .m),
       .register .r14, .set .onlyA (.read .m), .set .onlyM .d]

def push (unit : String) (index : UInt32) : Segment → Except Fault Code
  | .constant => (loadable .constantOutOfRange index).map pushNumber
  | .region region => (place unit index region).map fetch

def pop (unit : String) (index : UInt32) : Segment → Except Fault Code
  | .constant => .error .popConstant
  | .region region => (place unit index region).map store

end StackToHack.Code
