import StackToHack.Source

/-!
# Source texts one below the other

Two source texts with a newline between them are read like each on its own, except that every place
in the lower one is as many lines further down as the upper one has. Those are its newlines and one
more, whether or not it ends with a newline: then its last line is an empty one.

The upper text is read first, so its error is the error of both.
-/

namespace StackToHack

/-! ## Places further down -/

def Statement.moved (above : Nat) (statement : Statement) : Statement :=
  { statement with line := statement.line + above }

def LineError.moved (above : Nat) (error : LineError) : LineError :=
  { error with line := error.line + above }

namespace Source

/-- What is read of a text that has so many lines above it. -/
def moved (above : Nat) : Except LineError (List Statement) → Except LineError (List Statement)
  | .error error => .error (error.moved above)
  | .ok read => .ok (read.map (Statement.moved above))

/-- Where the count of lines starts changes nothing but the places. -/
theorem statementsFrom_add (above number : Nat) (lines : List (List Char)) :
    statementsFrom (number + above) lines = moved above (statementsFrom number lines) := by
  induction lines generalizing number with
  | nil => rfl
  | cons line lines ih =>
      have next := ih (number + 1)
      rw [Nat.add_right_comm] at next
      rw [statementsFrom, statementsFrom, next]
      split
      · rfl
      · cases Command.parse? (String.ofList (Text.strip line)) with
        | none => rfl
        | some command => cases statementsFrom (number + 1) lines <;> rfl

/-- Lines are read from the first to the last, and where the upper ones end the count goes on. -/
theorem statementsFrom_append (number : Nat) (upper lower : List (List Char)) :
    statementsFrom number (upper ++ lower) =
      (statementsFrom number upper).bind fun first =>
        (statementsFrom (number + upper.length) lower).map (first ++ ·) := by
  induction upper generalizing number with
  | nil =>
      show statementsFrom number lower = (statementsFrom number lower).map ([] ++ ·)
      cases statementsFrom number lower <;> rfl
  | cons line upper ih =>
      have behind : number + 1 + upper.length = number + (line :: upper).length := by
        rw [List.length_cons]
        omega
      rw [List.cons_append, statementsFrom, statementsFrom, ih, behind]
      split
      · rfl
      · cases Command.parse? (String.ofList (Text.strip line)) with
        | none => rfl
        | some command =>
            cases statementsFrom (number + 1) upper with
            | error error => rfl
            | ok first => cases statementsFrom (number + (line :: upper).length) lower <;> rfl

/-- **Reading distributes over concatenation.** A text, a newline and another text are read as the
statements of both, those of the lower one further down by the lines of the upper one. An error in
the upper text is the error of the whole, and otherwise one in the lower text is, further down by as
much. -/
theorem statements_append_newline (upper lower : String) :
    statements (upper ++ "\n" ++ lower) =
      let above := 1 + upper.toList.count '\n'
      match statements upper, statements lower with
      | .error error, _ => .error error
      | .ok _, .error error => .error (error.moved above)
      | .ok first, .ok second => .ok (first ++ second.map (Statement.moved above)) := by
  have text : (upper ++ "\n" ++ lower).toList = upper.toList ++ '\n' :: lower.toList := by simp
  have count : 1 + (Text.lines upper.toList).length = 1 + (1 + upper.toList.count '\n') := by
    rw [Text.length_lines, Nat.add_comm 1 (List.count ..)]
  rw [statements_eq, text, Text.lines_append_newline, statementsFrom_append, count,
    statementsFrom_add, ← statements_eq, ← statements_eq]
  cases statements upper with
  | error error => rfl
  | ok first =>
      show (moved _ (statements lower)).map _ = _
      cases statements lower <;> rfl

end Source

end StackToHack
