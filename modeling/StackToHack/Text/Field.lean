import StackToHack.Text.Cut

/-!
# Fields

The fields of a line are what its spaces and tabs leave standing: any run of the two separates,
and no other character does, however blank it looks.
-/

namespace StackToHack.Text

def isSeparator (c : Char) : Bool := c == ' ' || c == '\t'

def fields (cs : List Char) : List (List Char) :=
  (cut isSeparator cs).filter fun piece => !piece.isEmpty

theorem fields_append_cons {c : Char} (h : isSeparator c = true) (xs ys : List Char) :
    fields (xs ++ c :: ys) = fields xs ++ fields ys := by
  simp [fields, cut_append_cons h]

theorem fields_of_forall_not {cs : List Char} (hne : cs ≠ [])
    (h : ∀ c ∈ cs, isSeparator c = false) : fields cs = [cs] := by
  simp [fields, cut_of_forall_not h, hne]

end StackToHack.Text
