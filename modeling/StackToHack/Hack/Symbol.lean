/-!
# Symbols

Everything that assembly text refers to by name. A symbol is kept as the parts it is composed of
for as long as code is being made, and becomes text only in `Symbol.text`:

- `register` — a name the assembler predefines.
- `plain` — a name as stack code writes it: a function seen from everywhere, a label outside of
  any function, the entry of a program.
- `static`, `function`, `label`, `localsLoop`, `localsEnd`, `returnSite` — composed of the unit
  they belong to and what they are there; `owner` is the function that a place lies in.
- `comparison` — an arm of a comparison, numbered through the whole run.

Different symbols can have one text (`function "a" "b.c"` and `function "a.b" "c"`, or anything
and a `plain` that spells it); where texts coincide is a question about `text`.
-/

namespace StackToHack.Hack

/-! ## Registers -/

inductive Register
  | sp | lcl | arg | this | that
  | r (index : Fin 16)
  deriving DecidableEq

/-- A register for intermediate words. Like `r14`, it means nothing from one command to the next. -/
def Register.r13 : Register := .r 13

def Register.r14 : Register := .r 14

def Register.text : Register → String
  | .sp => "SP"
  | .lcl => "LCL"
  | .arg => "ARG"
  | .this => "THIS"
  | .that => "THAT"
  | .r index => "R" ++ toString index.val

/-! ## Symbols -/

/-- The three places within the code of a comparison. -/
inductive Arm
  | whenTrue | whenFalse | done
  deriving DecidableEq

def Arm.text : Arm → String
  | .whenTrue => "TRUE"
  | .whenFalse => "FALSE"
  | .done => "ENDIF"

inductive Symbol
  | register (register : Register)
  | plain (name : String)
  | static (unit : String) (index : UInt32)
  | function (unit name : String)
  | label (unit owner name : String)
  | localsLoop (unit owner : String)
  | localsEnd (unit owner : String)
  | returnSite (unit callee : String) (site : Nat)
  | comparison (arm : Arm) (number : Nat)
  deriving DecidableEq

def Symbol.text : Symbol → String
  | .register r => r.text
  | .plain name => name
  | .static unit index => unit ++ "." ++ toString index.toNat
  | .function unit name => unit ++ "." ++ name
  | .label unit owner name => unit ++ "." ++ owner ++ "$" ++ name
  | .localsLoop unit owner => unit ++ "." ++ owner ++ "$__LOCALS_LOOP__"
  | .localsEnd unit owner => unit ++ "." ++ owner ++ "$__LOCALS_END__"
  | .returnSite unit callee site => unit ++ "." ++ callee ++ "$ret." ++ toString site
  | .comparison arm number => arm.text ++ "_" ++ toString number

end StackToHack.Hack
