import StackToHack.Code.Memory

/-!
# Code of functions, calls and returns

A call saves five words on the stack: the address to return to, then `LCL`, `ARG`, `THIS` and
`THAT` of the caller. The callee finds its arguments below that frame and its locals above it, and
a return takes the frame apart again, its end being where `LCL` points.
-/

namespace StackToHack.Code

open Hack

/-! ## Entry -/

/-- The entry of a function, under both of its symbols, and a loop that pushes its locals as
zeros while it counts them in `R13`. -/
def enter (unit name : String) (locals : Nat) : Code :=
  [.mark (.function unit name), .mark (.plain name),
   .register .r13, .set .onlyM .zero,
   .mark (.localsLoop unit name),
   -- leave when the count has reached the number of locals
   .number locals, .set .onlyD (.read .a), .register .r13, .set .onlyD (.sub .m),
   .symbol (.localsEnd unit name), .goto .d .eq,
   -- or else push one more
   .set .onlyD .zero] ++ pushD ++
  [.register .r13, .set .onlyM (.inc .m),
   .symbol (.localsLoop unit name), .goto .zero .always,
   .mark (.localsEnd unit name)]

def function (unit name : String) (locals : UInt32) : Except Fault Code :=
  (loadable .countOutOfRange locals).map (enter unit name)

/-! ## Call -/

/-- Puts the word in a register on top of the stack. -/
def save (register : Register) : Code := fetch (.cell (.register register))

/-- Saves the frame, moves `ARG` below it and its arguments and `LCL` to its end, and jumps. -/
def invoke (callee : String) (returnSite : Symbol) (args : Nat) : Code :=
  [.symbol returnSite, .set .onlyD (.read .a)] ++ pushD ++
  save .lcl ++ save .arg ++ save .this ++ save .that ++
  -- the arguments end where the frame of five words starts
  [.register .sp, .set .onlyD (.read .m), .number 5, .set .onlyD (.sub .a),
   .number args, .set .onlyD (.sub .a), .register .arg, .set .onlyM .d,
   .register .sp, .set .onlyD (.read .m), .register .lcl, .set .onlyM .d,
   .symbol (.plain callee), .goto .zero .always,
   .mark returnSite]

def call (unit callee : String) (args : UInt32) (site : Nat) : Except Fault Code :=
  (loadable .countOutOfRange args).map (invoke callee (.returnSite unit callee site))

/-! ## Return -/

/-- Takes a register back from the frame that ends where `R13` points. -/
def restore (register : Register) (distance : Nat) : Code :=
  [.register .r13, .set .onlyD (.read .m), .number distance, .set .onlyA (.sub .a),
   .set .onlyD (.read .m), .register register, .set .onlyM .d]

/-- Leaves the result where the first argument was and goes back to the caller. The address to
return to is fetched first: without arguments the result takes its cell. -/
def ret : Code :=
  [.register .lcl, .set .onlyD (.read .m), .register .r13, .set .onlyM .d,
   -- the address to return to is the first word of the frame
   .number 5, .set .onlyA (.sub .a), .set .onlyD (.read .m),
   .register .r14, .set .onlyM .d] ++ popD ++
  -- the result goes below the stack of the caller, which starts behind it
  [.register .arg, .set .onlyA (.read .m), .set .onlyM .d,
   .register .arg, .set .onlyD (.inc .m), .register .sp, .set .onlyM .d] ++
  restore .that 1 ++ restore .this 2 ++ restore .arg 3 ++ restore .lcl 4 ++
  [.register .r14, .set .onlyA (.read .m), .goto .zero .always]

end StackToHack.Code
