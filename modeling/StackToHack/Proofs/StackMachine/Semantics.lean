import StackToHack.Command.Basic
import StackToHack.Proofs.Machine.Memory

/-!
# The stack machine

What stack code without functions means, said without the code that is made of it. A configuration
is the number of the next command and the contents of memory. The stack, the segments and the
registers that say where the segments are all lie in that memory, so a program can reach its own
stack pointer through `local` and friends, and then it does.

The cells of `static` belong to the unit; `statics` says where they are.
-/

namespace StackToHack

open Hack

/-! ## Operations on words -/

def Unary.apply (x : Word) : Unary → Word
  | .neg => -x
  | .not => ~~~x

def Binary.apply (x y : Word) : Binary → Word
  | .add => x + y
  | .sub => x - y
  | .and => x &&& y
  | .or => x ||| y

/-- A comparison is decided by the signed difference of its operands, which is a word like any
other: it wraps. -/
def Comparison.holds (difference : Word) : Comparison → Bool
  | .eq => decide (difference.toInt = 0)
  | .gt => decide (0 < difference.toInt)
  | .lt => decide (difference.toInt < 0)

/-- The words that stand for true and false. -/
def truth (b : Bool) : Word := if b then -1 else 0

/-- What a comparison says about two integers. -/
def Comparison.Relates (x y : Int) : Comparison → Prop
  | .eq => x = y
  | .gt => y < x
  | .lt => x < y

/-- As long as the difference is a word, a comparison compares signed words. -/
theorem Comparison.holds_sub_iff (op : Comparison) {x y : Word}
    (low : -32768 ≤ x.toInt - y.toInt) (high : x.toInt - y.toInt < 32768) :
    op.holds (x - y) = true ↔ op.Relates x.toInt y.toInt := by
  have h : (x - y).toInt = x.toInt - y.toInt := by
    rw [BitVec.toInt_sub]
    exact Int.bmod_eq_of_le (by omega) (by omega)
  cases op <;> simp only [holds, Relates, h, decide_eq_true_eq] <;> omega

/-! ## Cells of the segments -/

/-- How the cells of a region are found. -/
inductive Layout
  /-- from the address in a register on -/
  | based (base : Register)
  /-- from a fixed address on -/
  | fixed (first : Nat)
  /-- each cell on its own -/
  | scattered
  deriving DecidableEq

def Region.layout : Region → Layout
  | .locals => .based .lcl
  | .argument => .based .arg
  | .this => .based .this
  | .that => .based .that
  | .pointer => .fixed 3
  | .temp => .fixed 5
  | .static => .scattered

/-- The cell that a region has under an index. -/
def Region.cell (statics : UInt32 → Address) (ram : Ram) (index : UInt32) (region : Region) :
    Address :=
  match region.layout with
  | .based base => Hack.cell (ram.reg base + BitVec.ofNat 16 index.toNat)
  | .fixed first => BitVec.ofNat 15 (first + index.toNat)
  | .scattered => statics index

/-! ## Commands -/

/-- What a command does to memory. -/
def Command.effect (statics : UInt32 → Address) (ram : Ram) : Command → Ram
  | .operate (.unary op) => ram.drop.push (op.apply ram.top)
  | .operate (.binary op) => ram.drop.drop.push (op.apply ram.drop.top ram.top)
  | .operate (.comparison op) =>
    ram.drop.drop.push (truth (op.holds (ram.drop.top - ram.top)))
  | .push .constant n => ram.push (BitVec.ofNat 16 n.toNat)
  | .push (.region region) index => ram.push (ram (region.cell statics ram index))
  | .pop (.region region) index => ram.drop.set (region.cell statics ram index) ram.top
  | .ifGoto _ => ram.drop
  | .pop .constant _ | .label _ | .goto _ | .function _ _ | .call _ _ | .ret => ram

namespace StackMachine

structure Config where
  next : Nat
  ram : Ram

/-- The number of the command that defines a label. -/
def position? (commands : List Command) (name : String) : Option Nat :=
  commands.findIdx? fun command => decide (command = .label name)

/-- Where a command goes on. Functions are not part of this machine. -/
def next? (commands : List Command) (config : Config) : Command → Option Nat
  | .goto name => position? commands name
  | .ifGoto name =>
    if config.ram.top = 0 then some (config.next + 1) else position? commands name
  | .function _ _ | .call _ _ | .ret => none
  | .operate _ | .push _ _ | .pop _ _ | .label _ => some (config.next + 1)

/-- One command; nothing behind the last one. -/
def step (commands : List Command) (statics : UInt32 → Address) (config : Config) :
    Option Config := do
  let command ← commands[config.next]?
  let next ← next? commands config command
  return { next, ram := command.effect statics config.ram }

/-- The next command reaches neither of the two scratch cells through a register. -/
def AvoidsScratch (commands : List Command) (statics : UInt32 → Address) (config : Config) : Prop :=
  ∀ region base index, region.layout = .based base →
    (commands[config.next]? = some (.push (.region region) index) ∨
      commands[config.next]? = some (.pop (.region region) index)) →
    region.cell statics config.ram index ≠ Register.r13.cell ∧
      region.cell statics config.ram index ≠ Register.r14.cell

/-- A run of some length that keeps its stack where a stack can be and its hands off the scratch
cells. -/
structure Trace (commands : List Command) (statics : UInt32 → Address) (length : Nat)
    (trace : Nat → Config) : Prop where
  steps : ∀ i < length, step commands statics (trace i) = some (trace (i + 1))
  inRange : ∀ i ≤ length, (trace i).ram.StackInRange
  avoidsScratch : ∀ i < length, AvoidsScratch commands statics (trace i)

end StackMachine

end StackToHack
