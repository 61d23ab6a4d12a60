import StackToHack.Command.Basic

/-!
# Words of the language

Each operation and each segment is written as one fixed word. `word` gives it and `ofWord?` finds
what a word stands for, by a search in the list of all values: `ofWord?_eq_some_iff` says that the
two are inverse to each other, so no word is shared and no other word is known.
-/

namespace StackToHack

/-- A search by words of their own finds the owner of a word, and nothing for any other text. -/
theorem find?_word_eq_some_iff {α : Type} {word : α → String} {all : List α}
    (mem : ∀ a, a ∈ all) (injective : ∀ a ∈ all, ∀ b ∈ all, word a = word b → a = b)
    {text : String} {a : α} : all.find? (fun b => word b == text) = some a ↔ word a = text := by
  constructor
  · intro h
    simpa using List.find?_some h
  · rintro rfl
    cases hfound : all.find? (fun b => word b == word a) with
    | none => exact absurd (List.find?_eq_none.mp hfound a (mem a)) (by simp)
    | some b =>
      have hb : word b = word a := by simpa using List.find?_some hfound
      rw [injective b (mem b) a (mem a) hb]

namespace Operation

def word : Operation → String
  | .unary .neg => "neg"
  | .unary .not => "not"
  | .binary .add => "add"
  | .binary .sub => "sub"
  | .binary .and => "and"
  | .binary .or => "or"
  | .comparison .eq => "eq"
  | .comparison .gt => "gt"
  | .comparison .lt => "lt"

def all : List Operation :=
  [.binary .add, .binary .sub, .unary .neg, .comparison .eq, .comparison .gt, .comparison .lt,
   .binary .and, .binary .or, .unary .not]

theorem mem_all (op : Operation) : op ∈ all := by
  rcases op with op | op | op <;> cases op <;> decide

def ofWord? (text : String) : Option Operation := all.find? fun op => op.word == text

theorem ofWord?_eq_some_iff {text : String} {op : Operation} :
    ofWord? text = some op ↔ op.word = text :=
  find?_word_eq_some_iff mem_all (by decide)

theorem ofWord?_word (op : Operation) : ofWord? op.word = some op := ofWord?_eq_some_iff.mpr rfl

end Operation

namespace Segment

def word : Segment → String
  | .constant => "constant"
  | .region .locals => "local"
  | .region .argument => "argument"
  | .region .this => "this"
  | .region .that => "that"
  | .region .static => "static"
  | .region .pointer => "pointer"
  | .region .temp => "temp"

def all : List Segment :=
  [.constant, .region .locals, .region .static, .region .argument, .region .this, .region .that,
   .region .pointer, .region .temp]

theorem mem_all (segment : Segment) : segment ∈ all := by
  rcases segment with _ | region
  · decide
  · cases region <;> decide

def ofWord? (text : String) : Option Segment := all.find? fun segment => segment.word == text

theorem ofWord?_eq_some_iff {text : String} {segment : Segment} :
    ofWord? text = some segment ↔ segment.word = text :=
  find?_word_eq_some_iff mem_all (by decide)

theorem ofWord?_word (segment : Segment) : ofWord? segment.word = some segment :=
  ofWord?_eq_some_iff.mpr rfl

end Segment

end StackToHack
