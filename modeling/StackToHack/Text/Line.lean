import StackToHack.Text.Blank
import StackToHack.Text.Cut

/-!
# Lines

A source text is read line by line. A newline ends a line, with a carriage return in front of it if
there is one, and the last line need not be ended: `sourceLines`. What matters of a line is what
stands before its first `//`, without the white space around it: `strip`. A line that strips to
nothing is layout only.

Where only stripped lines count, a text can as well be cut at its newlines (`lines`). The lines are
the same then but for carriage returns, which are white space, and for one empty line at the end
(`sourceLines_append_newline` beside `lines_append_newline`).
-/

namespace StackToHack.Text

def lines (cs : List Char) : List (List Char) := cut (· == '\n') cs

/-- The lines of a text with the newlines that end them. Nothing stands behind the last newline of
a text that ends with one, so there is no line there. -/
def endedLines : List Char → List (List Char)
  | [] => []
  | c :: cs =>
    if c = '\n' then [c] :: endedLines cs
    else
      match endedLines cs with
      | [] => [[c]]
      | line :: rest => (c :: line) :: rest

/-- A line without the newline that ends it and the carriage return in front of that. -/
def withoutEnding (line : List Char) : List Char :=
  match line.reverse with
  | '\n' :: '\r' :: front => front.reverse
  | '\n' :: front => front.reverse
  | _ => line

/-- The lines of a text without their endings. -/
def sourceLines (cs : List Char) : List (List Char) := (endedLines cs).map withoutEnding

/-- What stands before the first `//`, or the whole text if there is none. -/
def beforeComment : List Char → List Char
  | [] => []
  | '/' :: '/' :: _ => []
  | c :: cs => c :: beforeComment cs

def strip (line : List Char) : List Char := trim (beforeComment line)

theorem beforeComment_sublist (cs : List Char) : (beforeComment cs).Sublist cs := by
  fun_induction beforeComment cs with
  | case1 => exact List.Sublist.refl _
  | case2 cs => exact List.nil_sublist _
  | case3 c cs _ ih => exact ih.cons_cons c

/-- What stands in front of the first slash is in front of any comment. -/
theorem beforeComment_append_of_not_mem {cs : List Char} (h : '/' ∉ cs) (behind : List Char) :
    beforeComment (cs ++ behind) = cs ++ beforeComment behind := by
  induction cs with
  | nil => rfl
  | cons c cs ih =>
      obtain ⟨first, rest⟩ := List.ne_and_not_mem_of_not_mem_cons h
      rw [List.cons_append, beforeComment, ih rest, List.cons_append]
      rintro cs' rfl
      exact absurd rfl first

theorem beforeComment_of_not_mem {cs : List Char} (h : '/' ∉ cs) : beforeComment cs = cs := by
  have whole := beforeComment_append_of_not_mem h []
  rwa [beforeComment, List.append_nil] at whole

/-- Behind a comment nothing counts. A text without one goes on with what is behind it, where that
does not make a comment of its last slash. -/
theorem beforeComment_append {behind : List Char} (h : behind.head? ≠ some '/')
    (cs : List Char) :
    beforeComment (cs ++ behind) = beforeComment cs ∨
      beforeComment cs = cs ∧ beforeComment (cs ++ behind) = cs ++ beforeComment behind := by
  fun_induction beforeComment cs with
  | case1 => exact .inr ⟨rfl, rfl⟩
  | case2 cs => exact .inl rfl
  | case3 c cs noComment ih =>
      have next : beforeComment (c :: (cs ++ behind)) = c :: beforeComment (cs ++ behind) := by
        rw [beforeComment]
        rintro cs' rfl starts
        cases cs with
        | nil => exact h (by rw [show behind = '/' :: cs' from starts]; rfl)
        | cons d cs =>
            obtain ⟨rfl, -⟩ := List.cons.inj starts
            exact noComment cs rfl rfl
      rw [List.cons_append, next]
      rcases ih with same | ⟨noneYet, longer⟩
      · exact .inl (by rw [same])
      · exact .inr ⟨by rw [noneYet], by rw [longer]; rfl⟩

/-- A carriage return at the end of a line is white space. -/
theorem strip_append_return (line : List Char) : strip (line ++ ['\r']) = strip line := by
  have blank : ∀ c ∈ ['\r'], isBlank c = true := List.forall_mem_singleton.mpr (by decide)
  have nothing : ∀ c ∈ ([] : List Char), isBlank c = true := List.forall_mem_nil _
  have noSlash : ['\r'].head? ≠ some '/' := by decide
  have noComment : beforeComment ['\r'] = ['\r'] := by decide
  rcases beforeComment_append noSlash line with same | ⟨noneYet, longer⟩
  · rw [strip, same, strip]
  · rw [strip, longer, noComment, strip, noneYet]
    exact trim_append nothing blank line

theorem strip_sublist (line : List Char) : (strip line).Sublist line :=
  (trim_sublist _).trans (beforeComment_sublist line)

/-- A line that starts with what is neither blank nor a slash is kept from there. -/
theorem exists_strip_cons {c : Char} (notBlank : isBlank c = false) (notSlash : c ≠ '/')
    (cs : List Char) : ∃ behind, strip (c :: cs) = c :: behind := by
  have noSlash : '/' ∉ [c] := by simpa [eq_comm] using notSlash
  have noComment : beforeComment (c :: cs) = c :: beforeComment cs :=
    beforeComment_append_of_not_mem noSlash cs
  rw [strip, noComment]
  exact exists_trim_cons notBlank _

theorem endedLines_append_newline {line : List Char} (h : '\n' ∉ line) (rest : List Char) :
    endedLines (line ++ '\n' :: rest) = (line ++ ['\n']) :: endedLines rest := by
  induction line with
  | nil => simp [endedLines]
  | cons c line ih =>
      rw [List.mem_cons, not_or] at h
      rw [List.cons_append, endedLines, if_neg (Ne.symm h.1), ih h.2]
      rfl

theorem endedLines_of_not_mem {cs : List Char} (nonempty : cs ≠ []) (h : '\n' ∉ cs) :
    endedLines cs = [cs] := by
  induction cs with
  | nil => exact absurd rfl nonempty
  | cons c cs ih =>
      rw [List.mem_cons, not_or] at h
      rw [endedLines, if_neg (Ne.symm h.1)]
      cases cs with
      | nil => rfl
      | cons d cs => rw [ih (List.cons_ne_nil _ _) h.2]

/-- A newline ends a line. Stripping the line leaves the same whether or not a carriage return was
dropped with its ending. -/
theorem sourceLines_append_newline {line : List Char} (h : '\n' ∉ line) (rest : List Char) :
    ∃ first, sourceLines (line ++ '\n' :: rest) = first :: sourceLines rest ∧
      strip first = strip line := by
  rw [sourceLines, endedLines_append_newline h]
  refine ⟨_, rfl, ?_⟩
  rw [withoutEnding, List.reverse_append]
  split
  · next front ends =>
      have reversed : line.reverse = '\r' :: front := (List.cons.inj ends).2
      obtain rfl : line = front.reverse ++ ['\r'] := by
        rw [← List.reverse_cons, ← reversed, List.reverse_reverse]
      exact (strip_append_return front.reverse).symm
  · next front _ ends =>
      have reversed : line.reverse = front := (List.cons.inj ends).2
      rw [← reversed, List.reverse_reverse]
  · next _ other => exact absurd rfl (other line.reverse)

/-- A line that is not ended is kept as it is. -/
theorem sourceLines_of_not_mem {cs : List Char} (nonempty : cs ≠ []) (h : '\n' ∉ cs) :
    sourceLines cs = [cs] := by
  have last : ∀ front, cs.reverse ≠ '\n' :: front := fun front ends =>
    h (List.mem_reverse.mp (ends ▸ List.mem_cons_self ..))
  rw [sourceLines, endedLines_of_not_mem nonempty h, List.map_singleton, withoutEnding]
  split
  · next ends => exact absurd ends (last _)
  · next ends => exact absurd ends (last _)
  · rfl

theorem lines_append_newline (xs ys : List Char) :
    lines (xs ++ '\n' :: ys) = lines xs ++ lines ys :=
  cut_append_cons (by decide) xs ys

theorem length_lines (cs : List Char) : (lines cs).length = cs.count '\n' + 1 := length_cut _ cs

theorem not_mem_of_mem_lines {cs line : List Char} (h : line ∈ lines cs) : '\n' ∉ line := by
  intro hc
  simpa using forall_not_of_mem_cut h '\n' hc

theorem lines_of_not_mem {cs : List Char} (h : '\n' ∉ cs) : lines cs = [cs] :=
  cut_of_forall_not fun c hc => by
    simp only [beq_eq_false_iff_ne, ne_eq]
    rintro rfl
    exact h hc

/-- A text that is put together from lines has these lines. -/
theorem lines_intercalate {pieces : List (List Char)} (nonempty : pieces ≠ [])
    (h : ∀ line ∈ pieces, '\n' ∉ line) : lines (['\n'].intercalate pieces) = pieces := by
  induction pieces with
  | nil => exact absurd rfl nonempty
  | cons line pieces ih =>
      obtain ⟨here, behind⟩ := List.forall_mem_cons.mp h
      cases pieces with
      | nil => rw [List.intercalate_singleton, lines_of_not_mem here]
      | cons next pieces =>
          rw [List.intercalate_cons_cons, List.append_assoc, List.singleton_append,
            lines_append_newline, lines_of_not_mem here, ih (List.cons_ne_nil _ _) behind]
          rfl

/-- What holds of every text of one line, and with every rest behind any further line, holds of
every text. -/
theorem line_induction {motive : List Char → Prop}
    (last : ∀ {line}, '\n' ∉ line → motive line)
    (ended : ∀ {line rest}, '\n' ∉ line → motive rest → motive (line ++ '\n' :: rest))
    (cs : List Char) : motive cs := by
  by_cases h : '\n' ∈ cs
  · obtain ⟨line, rest, parted, noNewline⟩ := List.eq_append_cons_of_mem h
    have shorter : rest.length < cs.length := by
      rw [parted, List.length_append, List.length_cons]
      omega
    exact parted ▸ ended noNewline (line_induction last ended rest)
  · exact last h
termination_by cs.length

end StackToHack.Text
