import StackToHack.Command.Word
import StackToHack.Numeral

/-!
# Writing commands

The canonical spelling of a command: its fields in order, one space between two fields, numbers
without leading zeros. Names are written as they are, whatever they hold.
-/

namespace StackToHack.Command

/-- The words that a command is made of, in the order they are written. -/
def toFields : Command → List String
  | .operate op => [op.word]
  | .push segment index => ["push", segment.word, Numeral.write index]
  | .pop segment index => ["pop", segment.word, Numeral.write index]
  | .label name => ["label", name]
  | .goto name => ["goto", name]
  | .ifGoto name => ["if-goto", name]
  | .function name locals => ["function", name, Numeral.write locals]
  | .call name args => ["call", name, Numeral.write args]
  | .ret => ["return"]

def render (command : Command) : String := " ".intercalate command.toFields

end StackToHack.Command
