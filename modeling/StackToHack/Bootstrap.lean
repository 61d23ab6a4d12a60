import StackToHack.Hack.Line

/-!
# Bootstrap

What a program starts with: the stack pointer is set and control goes to the entry function.
-/

namespace StackToHack

open Hack

structure Bootstrap where
  stackBase : UInt16 := 256
  entry : String := "Sys.init"
  deriving DecidableEq

def Bootstrap.code (bootstrap : Bootstrap) : Code :=
  [.comment "bootstrap",
   .number bootstrap.stackBase.toNat, .set .onlyD (.read .a), .register .sp, .set .onlyM .d,
   .symbol (.plain bootstrap.entry), .goto .zero .always]

end StackToHack
