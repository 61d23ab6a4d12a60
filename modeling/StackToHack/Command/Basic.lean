/-!
# Commands

The commands of the stack language, by what they do to the machine:

- `Operation` — replaces the top of the stack, or the two topmost words, by one result. It comes
  in three kinds, because each kind has its own shape of machine code.
- `Segment` — what `push` and `pop` can name. `constant` stands apart from the seven regions: it
  names numbers, while a `Region` names cells of memory.
- `Command` — one line of stack code.

Indices and counts are 32-bit words of which the machine can address only some; names are any
strings. What cannot be carried out is sorted out where code is made, not here.
-/

namespace StackToHack

/-! ## Operations -/

inductive Unary
  | neg | not
  deriving DecidableEq

inductive Binary
  | add | sub | and | or
  deriving DecidableEq

inductive Comparison
  | eq | gt | lt
  deriving DecidableEq

inductive Operation
  | unary (op : Unary)
  | binary (op : Binary)
  | comparison (op : Comparison)
  deriving DecidableEq

/-! ## Segments -/

/-- The segments that are made of memory cells. -/
inductive Region
  | locals | argument | this | that | static | pointer | temp
  deriving DecidableEq

inductive Segment
  | constant
  | region (region : Region)
  deriving DecidableEq

/-! ## Commands -/

inductive Command
  | operate (op : Operation)
  | push (segment : Segment) (index : UInt32)
  | pop (segment : Segment) (index : UInt32)
  | label (name : String)
  | goto (name : String)
  | ifGoto (name : String)
  | function (name : String) (locals : UInt32)
  | call (name : String) (args : UInt32)
  | ret
  deriving DecidableEq

end StackToHack
