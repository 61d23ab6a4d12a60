import StackToHack.Proofs.Concatenation

/-!
# Layout

What a line says is what stands in front of its comment, without the white space around it. So a
source text can be laid out anew: lines of layout go between its lines, white space goes in front
of a line, and white space and then a comment go behind it. The text is read as before, and every
place in it is where its line has moved to (`layout_makes_no_difference`).

A comment needs white space in front of it here. Directly behind a slash it would begin with that
slash.
-/

namespace StackToHack

/-! ## Lines of layout -/

/-- White space inside of a line. -/
def IsSpacing (cs : List Char) : Prop := ∀ c ∈ cs, Text.isBlank c = true ∧ c ≠ '\n'

instance (cs : List Char) : Decidable (IsSpacing cs) :=
  decidable_of_iff (cs.all (fun c => Text.isBlank c && c != '\n') = true) (by simp [IsSpacing])

/-- What says nothing: white space, and a comment behind it or none. -/
inductive IsFiller : List Char → Prop
  | spacing {blanks : List Char} (h : IsSpacing blanks) : IsFiller blanks
  | comment {blanks text : List Char} (h : IsSpacing blanks) (oneLine : '\n' ∉ text) :
      IsFiller (blanks ++ '/' :: '/' :: text)

section Filler

variable {cs : List Char}

theorem IsSpacing.not_mem {c : Char} (h : IsSpacing cs) (visible : Text.isBlank c = false) :
    c ∉ cs := by
  intro member
  rw [(h c member).1] at visible
  cases visible

theorem IsSpacing.newline_not_mem (h : IsSpacing cs) : '\n' ∉ cs :=
  fun member => (h '\n' member).2 rfl

theorem IsSpacing.isBlank (h : IsSpacing cs) : ∀ c ∈ cs, Text.isBlank c = true :=
  fun c member => (h c member).1

theorem IsFiller.newline_not_mem (h : IsFiller cs) : '\n' ∉ cs := by
  cases h with
  | spacing h => exact h.newline_not_mem
  | comment h oneLine => simp [h.newline_not_mem, oneLine]

/-- In front of its comment there is only white space. -/
theorem IsFiller.isSpacing_beforeComment (h : IsFiller cs) :
    IsSpacing (Text.beforeComment cs) := by
  cases h with
  | spacing h => rwa [Text.beforeComment_of_not_mem (h.not_mem (by decide))]
  | comment h oneLine =>
      rw [Text.beforeComment_append_of_not_mem (h.not_mem (by decide)), Text.beforeComment,
        List.append_nil]
      exact h

theorem IsFiller.strip_eq_nil (h : IsFiller cs) : Text.strip cs = [] := by
  have nothing := Text.trim_append (fun _ member => absurd member List.not_mem_nil)
    h.isSpacing_beforeComment.isBlank []
  exact nothing

end Filler

/-! ## Lines laid out -/

/-- A line of a text, what it is laid out with, and the lines of layout in front of it. What comes
behind the line is nothing, or starts with white space. -/
structure LaidLine where
  line : List Char
  above : List (List Char)
  before : List Char
  behind : List Char
  oneLine : '\n' ∉ line
  filler_above : ∀ filler ∈ above, IsFiller filler
  spacing_before : IsSpacing before
  filler_behind : IsFiller behind
  apart : ∀ c ∈ behind.head?, Text.isBlank c = true

namespace LaidLine

def laid (laidLine : LaidLine) : List Char := laidLine.before ++ laidLine.line ++ laidLine.behind

def lines (laidLine : LaidLine) : List (List Char) := laidLine.above ++ [laidLine.laid]

theorem newline_not_mem_laid (laidLine : LaidLine) : '\n' ∉ laidLine.laid := by
  simp [laid, laidLine.spacing_before.newline_not_mem, laidLine.oneLine,
    laidLine.filler_behind.newline_not_mem]

/-- **Layout of a line.** A line says the same however it is laid out. -/
theorem strip_laid (laidLine : LaidLine) :
    Text.strip laidLine.laid = Text.strip laidLine.line := by
  obtain ⟨line, above, before, behind, oneLine, fillerAbove, spacing, filler, apart⟩ := laidLine
  have starts : behind.head? ≠ some '/' := fun slash => absurd (apart '/' slash) (by decide)
  show Text.trim (Text.beforeComment (before ++ line ++ behind)) =
    Text.trim (Text.beforeComment line)
  rw [List.append_assoc, Text.beforeComment_append_of_not_mem (spacing.not_mem (by decide))]
  rcases Text.beforeComment_append starts line with commented | ⟨uncommented, goesOn⟩
  · rw [commented, ← List.append_nil (before ++ _),
      Text.trim_append spacing.isBlank fun _ member => absurd member List.not_mem_nil]
  · rw [uncommented, goesOn, ← List.append_assoc,
      Text.trim_append spacing.isBlank filler.isSpacing_beforeComment.isBlank]

end LaidLine

/-! ## Texts laid out -/

/-- The lines of a text with what they are laid out with, and the lines of layout behind them. -/
structure LaidText where
  laidLines : List LaidLine
  below : List (List Char)
  filler_below : ∀ filler ∈ below, IsFiller filler

namespace LaidText

/-- The lines without layout. -/
def plain (laidText : LaidText) : List (List Char) := laidText.laidLines.map LaidLine.line

/-- The lines laid out. -/
def lines (laidText : LaidText) : List (List Char) :=
  laidText.laidLines.flatMap LaidLine.lines ++ laidText.below

/-- How far down a number of lines reaches when these are laid out. -/
def depth (laidLines : List LaidLine) (number : Nat) : Nat :=
  number + ((laidLines.take number).flatMap LaidLine.above).length

/-- Where the line of a number is when the text is laid out. -/
def place (laidText : LaidText) (number : Nat) : Nat := depth laidText.laidLines number

/-! ### Where lines are -/

section Depth

variable {laidLine : LaidLine} {laidLines : List LaidLine}

theorem depth_succ (laidLine : LaidLine) (laidLines : List LaidLine) (number : Nat) :
    depth (laidLine :: laidLines) (number + 1) =
      depth laidLines number + laidLine.lines.length := by
  simp only [depth, List.take_succ_cons, List.flatMap_cons, LaidLine.lines, List.length_append,
    List.length_singleton]
  omega

theorem le_depth (laidLines : List LaidLine) (number : Nat) : number ≤ depth laidLines number :=
  Nat.le_add_right ..

theorem getElem?_lines_depth {index : Nat} (h : laidLines[index]? = some laidLine) :
    (laidLines.flatMap LaidLine.lines)[depth laidLines (index + 1) - 1]? =
      some laidLine.laid := by
  induction laidLines generalizing index with
  | nil => cases h
  | cons first laidLines ih =>
      rw [depth_succ, List.flatMap_cons]
      cases index with
      | zero =>
          obtain rfl : first = laidLine := Option.some.inj h
          simp [depth, LaidLine.lines]
      | succ index =>
          have further := le_depth laidLines (index + 1)
          have behind : depth laidLines (index + 1) + first.lines.length - 1 =
              first.lines.length + (depth laidLines (index + 1) - 1) := by omega
          rw [behind, List.getElem?_append_right (Nat.le_add_right ..), Nat.add_sub_cancel_left]
          exact ih h

end Depth

/-- A line is laid out at its place. -/
theorem getElem?_place (laidText : LaidText) {index : Nat} {laidLine : LaidLine}
    (h : laidText.laidLines[index]? = some laidLine) :
    laidText.lines[laidText.place (index + 1) - 1]? = some laidLine.laid := by
  have there := getElem?_lines_depth h
  have inside := (List.getElem?_eq_some_iff.mp there).1
  rw [lines, place, List.getElem?_append_left inside]
  exact there

theorem newline_not_mem_plain (laidText : LaidText) : ∀ line ∈ laidText.plain, '\n' ∉ line := by
  intro line member
  obtain ⟨laidLine, -, rfl⟩ := List.mem_map.mp member
  exact laidLine.oneLine

theorem newline_not_mem_lines (laidText : LaidText) : ∀ line ∈ laidText.lines, '\n' ∉ line := by
  intro line member
  rcases List.mem_append.mp member with inside | below
  · obtain ⟨laidLine, -, member⟩ := List.mem_flatMap.mp inside
    rcases List.mem_append.mp member with above | itself
    · exact (laidLine.filler_above line above).newline_not_mem
    · obtain rfl := List.mem_singleton.mp itself
      exact laidLine.newline_not_mem_laid
  · exact (laidText.filler_below line below).newline_not_mem

end LaidText

/-! ## Reading -/

def Statement.placed (place : Nat → Nat) (statement : Statement) : Statement :=
  { statement with line := place statement.line }

def LineError.placed (place : Nat → Nat) (error : LineError) : LineError :=
  { error with line := place error.line }

namespace Source

/-- The text of lines, with or without a newline behind the last one. -/
def ofLines (lines : List (List Char)) (ended : Bool) : String :=
  String.ofList (['\n'].intercalate lines ++ if ended then ['\n'] else [])

/-- What is read of a text, at other places. -/
def placed (place : Nat → Nat) :
    Except LineError (List Statement) → Except LineError (List Statement)
  | .error error => .error (error.placed place)
  | .ok read => .ok (read.map (Statement.placed place))

theorem moved_eq_placed (above : Nat) : moved above = placed (· + above) := by
  funext read
  cases read <;> rfl

theorem placed_placed (place place' : Nat → Nat) (read : Except LineError (List Statement)) :
    placed place (placed place' read) = placed (place ∘ place') read := by
  cases read with
  | error error => rfl
  | ok read => simp only [placed, List.map_map]; rfl

/-! ### Lines of layout -/

theorem statementsFrom_filler_cons {filler : List Char} (h : IsFiller filler) (number : Nat)
    (rest : List (List Char)) :
    statementsFrom number (filler :: rest) = statementsFrom (number + 1) rest := by
  rw [statementsFrom, h.strip_eq_nil]
  rfl

/-- Lines of layout are counted only. -/
theorem statementsFrom_fillers {above : List (List Char)}
    (h : ∀ filler ∈ above, IsFiller filler) (number : Nat) (rest : List (List Char)) :
    statementsFrom number (above ++ rest) = statementsFrom (number + above.length) rest := by
  induction above generalizing number with
  | nil => rfl
  | cons filler above ih =>
      obtain ⟨here, behind⟩ := List.forall_mem_cons.mp h
      rw [List.cons_append, statementsFrom_filler_cons here, ih behind, List.length_cons,
        Nat.add_assoc, Nat.add_comm 1]

theorem statementsFrom_append_fillers {below : List (List Char)}
    (h : ∀ filler ∈ below, IsFiller filler) (number : Nat) (lines : List (List Char)) :
    statementsFrom number (lines ++ below) = statementsFrom number lines := by
  have nothing := statementsFrom_fillers h (number + lines.length) []
  rw [List.append_nil] at nothing
  rw [statementsFrom_append, nothing]
  cases statementsFrom number lines with
  | error error => rfl
  | ok read => exact congrArg Except.ok (List.append_nil read)

/-- A text that is put together from lines is read line by line. -/
theorem statements_ofLines {lines : List (List Char)} (h : ∀ line ∈ lines, '\n' ∉ line)
    (ended : Bool) : statements (ofLines lines ended) = statementsFrom 1 lines := by
  have empty : ∀ filler ∈ [[]], IsFiller filler := by
    simp only [List.mem_singleton, forall_eq]
    exact .spacing fun _ member => absurd member List.not_mem_nil
  have joined : statementsFrom 1 (Text.lines (['\n'].intercalate lines)) =
      statementsFrom 1 lines := by
    by_cases none : lines = []
    · subst none
      exact statementsFrom_append_fillers empty 1 []
    · rw [Text.lines_intercalate none h]
  rw [statements_eq, ofLines, String.toList_ofList]
  cases ended with
  | false => rw [if_neg Bool.false_ne_true, List.append_nil, joined]
  | true =>
      have last : Text.lines [] = [[]] := rfl
      rw [if_pos rfl, Text.lines_append_newline, last, statementsFrom_append_fillers empty,
        joined]

/-! ### Lines laid out -/

/-- What is read behind a line is read behind the lines that it is laid out as, further down by as
many as these are. -/
theorem statementsFrom_behind (laidLine : LaidLine) {laidLines : List LaidLine}
    (ih : statementsFrom 1 (laidLines.flatMap LaidLine.lines) =
      placed (LaidText.depth laidLines) (statementsFrom 1 (laidLines.map LaidLine.line))) :
    statementsFrom (1 + laidLine.lines.length) (laidLines.flatMap LaidLine.lines) =
      placed (LaidText.depth (laidLine :: laidLines))
        (statementsFrom (1 + 1) (laidLines.map LaidLine.line)) := by
  have further : LaidText.depth (laidLine :: laidLines) ∘ (· + 1) =
      (· + laidLine.lines.length) ∘ LaidText.depth laidLines := by
    funext number
    exact LaidText.depth_succ laidLine laidLines number
  rw [statementsFrom_add, statementsFrom_add, moved_eq_placed, moved_eq_placed, ih, placed_placed,
    placed_placed, further]

/-- Lines are read as they are when they are laid out. -/
theorem statementsFrom_laidLines (laidLines : List LaidLine) :
    statementsFrom 1 (laidLines.flatMap LaidLine.lines) =
      placed (LaidText.depth laidLines) (statementsFrom 1 (laidLines.map LaidLine.line)) := by
  induction laidLines with
  | nil => rfl
  | cons laidLine laidLines ih =>
      have behind := statementsFrom_behind laidLine ih
      have whole : (laidLine :: laidLines).flatMap LaidLine.lines =
          laidLine.above ++ laidLine.laid :: laidLines.flatMap LaidLine.lines := by
        simp [LaidLine.lines]
      have length : 1 + laidLine.above.length + 1 = 1 + laidLine.lines.length := by
        simp [LaidLine.lines, Nat.add_assoc]
      have here : LaidText.depth (laidLine :: laidLines) 1 = 1 + laidLine.above.length := by
        simp [LaidText.depth]
      rw [whole, statementsFrom_fillers laidLine.filler_above, List.map_cons, statementsFrom,
        statementsFrom, laidLine.strip_laid, length, behind]
      split
      · rfl
      · cases Command.parse? (String.ofList (Text.strip laidLine.line)) with
        | none => rw [placed, LineError.placed, here]
        | some command =>
            cases statementsFrom (1 + 1) (laidLines.map LaidLine.line) with
            | error error => rfl
            | ok read =>
                simp only [placed, Except.map, List.map_cons, Statement.placed, here]

end Source

/-- **Layout makes no difference.** A text is read the same however it is laid out: the same
statements in the same order, or an error on the same line. Their places are where the lines have
moved to. -/
theorem layout_makes_no_difference (laidText : LaidText) (ended ended' : Bool) :
    Source.statements (Source.ofLines laidText.lines ended') =
        Source.placed laidText.place (Source.statements (Source.ofLines laidText.plain ended)) ∧
      ∀ index laidLine, laidText.laidLines[index]? = some laidLine →
        laidText.plain[index]? = some laidLine.line ∧
        laidText.lines[laidText.place (index + 1) - 1]? = some laidLine.laid := by
  constructor
  · rw [Source.statements_ofLines laidText.newline_not_mem_lines,
      Source.statements_ofLines laidText.newline_not_mem_plain, LaidText.lines,
      Source.statementsFrom_append_fillers laidText.filler_below]
    exact Source.statementsFrom_laidLines laidText.laidLines
  · intro index laidLine h
    refine ⟨?_, laidText.getElem?_place h⟩
    rw [LaidText.plain, List.getElem?_map, h]
    rfl

/-- Two lines laid out with comments, carriage returns, white space beyond ASCII and lines of their
own for both. -/
theorem layout_makes_no_difference_decorated :
    ∃ laidText : LaidText,
      Source.ofLines laidText.plain false = "push constant 7\nadd" ∧
      Source.ofLines laidText.lines true =
        "// start\n\u3000\r\n\tpush constant 7\u2003// seven\r\nadd\r\n // end\n" ∧
      Source.statements (Source.ofLines laidText.lines true) =
        Source.placed laidText.place (Source.statements (Source.ofLines laidText.plain false)) ∧
      laidText.place 1 = 3 ∧ laidText.place 2 = 4 := by
  have start : IsFiller "// start".toList := @IsFiller.comment [] " start".toList
    (by decide) (by decide)
  have blank : IsFiller "\u3000\r".toList := .spacing (by decide)
  have seven : IsFiller "\u2003// seven\r".toList := @IsFiller.comment ['\u2003'] " seven\r".toList
    (by decide) (by decide)
  have stop : IsFiller " // end".toList := @IsFiller.comment [' '] " end".toList
    (by decide) (by decide)
  let push : LaidLine :=
    { line := "push constant 7".toList
      above := ["// start".toList, "\u3000\r".toList]
      before := "\t".toList
      behind := "\u2003// seven\r".toList
      oneLine := by decide
      filler_above := by simpa using ⟨start, blank⟩
      spacing_before := by decide
      filler_behind := seven
      apart := by rintro c ⟨⟩; decide }
  let add : LaidLine :=
    { line := "add".toList
      above := []
      before := []
      behind := "\r".toList
      oneLine := by decide
      filler_above := by simp
      spacing_before := by decide
      filler_behind := .spacing (by decide)
      apart := by rintro c ⟨⟩; decide }
  let laidText : LaidText :=
    { laidLines := [push, add], below := [" // end".toList], filler_below := by simpa using stop }
  exact ⟨laidText, rfl, rfl, (layout_makes_no_difference laidText false true).1, rfl, rfl⟩

end StackToHack
