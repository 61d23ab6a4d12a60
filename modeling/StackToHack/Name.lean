/-!
# Names

The names that stack code may give to labels and functions. A name starts with an ASCII letter or
one of `_`, `.` and `:`; ASCII digits and `$` may follow. Whether a digit or a letter of another
script looks like one of these makes no difference: it is refused.

Commands hold any string, since they can also be built without reading a text; `IsName` is what
reading promises of them.
-/

namespace StackToHack.Name

/-- The characters that a name may start with. -/
def isInitial (c : Char) : Bool := c.isAlpha || c == '_' || c == '.' || c == ':'

/-- The characters that a name may go on with. -/
def isFollowing (c : Char) : Bool := isInitial c || c.isDigit || c == '$'

def isNameList : List Char → Bool
  | [] => false
  | c :: cs => isInitial c && cs.all isFollowing

def IsName (name : String) : Prop := isNameList name.toList = true

instance (name : String) : Decidable (IsName name) := inferInstanceAs (Decidable (_ = true))

def read? (text : String) : Option String := if IsName text then some text else none

theorem read?_eq_some_iff {text name : String} :
    read? text = some name ↔ IsName name ∧ text = name := by
  rw [read?]
  split
  · rename_i h
    rw [Option.some.injEq]
    exact ⟨fun e => ⟨e ▸ h, e⟩, fun e => e.2⟩
  · rename_i h
    exact ⟨fun e => by simp at e, fun e => absurd (e.2 ▸ e.1) h⟩

end StackToHack.Name
