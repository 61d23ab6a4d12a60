import StackToHack.Hack.Instruction
import StackToHack.Hack.Symbol

/-!
# Assembly lines

A program is a list of lines, and `render` is the only place where it becomes one text: every
line is ended by a newline, so the text of two programs in a row is the two texts in a row
(`render_append`) and a program without lines has no text.
-/

namespace StackToHack.Hack

inductive Line
  | comment (text : String)
  | number (value : Nat)
  | symbol (symbol : Symbol)
  | mark (symbol : Symbol)
  | compute (dest : Dest) (comp : Comp) (jump : Jump)
  deriving DecidableEq

/-- A stretch of assembly. -/
abbrev Code := List Line

namespace Line

/-- Loads the address of a register. -/
def register (register : Register) : Line := .symbol (.register register)

/-- Stores a computed word and goes on with the next line. -/
def set (dest : Dest) (comp : Comp) : Line := .compute dest comp .never

/-- Jumps, or not, to the address in `A`, and stores nothing. -/
def goto (comp : Comp) (jump : Jump) : Line := .compute .none comp jump

/-- The text of a line. The sign of a destination or a jump is left out together with it. -/
def text : Line → String
  | .comment text => "// " ++ text
  | .number value => "@" ++ toString value
  | .symbol s => "@" ++ s.text
  | .mark s => "(" ++ s.text ++ ")"
  | .compute dest comp jump =>
    (if dest = .none then "" else dest.text ++ "=") ++ comp.text ++
      (if jump = .never then "" else ";" ++ jump.text)

end Line

/-! ## Programs as text -/

def render (code : Code) : String := String.join (code.map fun line => line.text ++ "\n")

theorem render_nil : render [] = "" := rfl

theorem render_cons (line : Line) (code : Code) :
    render (line :: code) = line.text ++ "\n" ++ render code := by
  simp [render]

/-- **Concatenation.** Code that follows other code is text that follows its text. -/
theorem render_append (before after : Code) :
    render (before ++ after) = render before ++ render after := by
  induction before with
  | nil => simp [render_nil]
  | cons line before ih => simp only [List.cons_append, render_cons, ih, String.append_assoc]

end StackToHack.Hack
