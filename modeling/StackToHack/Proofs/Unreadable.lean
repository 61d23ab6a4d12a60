import StackToHack.Proofs.Additions
import StackToHack.Proofs.Comments
import StackToHack.Proofs.Occurrence

/-!
# Programs are no sources

The text of a program starts with a comment, and a reader of sources passes over it. The line behind
it loads a word or defines a symbol, so it starts with a sign that no command starts with. A program
that has any text at all is therefore refused where it is taken for the source of a unit
(`exists_error_of_compile`).
-/

namespace StackToHack

open Hack Grammar

variable {unit source text : String} {context last : Context} {code block : Code}
  {bootstrap : Option Bootstrap}

/-! ## Starts of commands -/

/-- The first field of a command is a word of the language. -/
theorem Grammar.Denotes.isLower_first {first : String} {rest : List String} {command : Command}
    (h : Denotes (first :: rest) command) : ∃ c ∈ first.toList.head?, c.isLower = true := by
  cases h with
  | operation op => rcases op with op | op | op <;> cases op <;> exact ⟨_, rfl, by decide⟩
  | _ => exact ⟨_, rfl, by decide⟩

/-- A text starts as its first field does. -/
theorem Grammar.Separated.exists_cons {c : Char} {cs : List Char} {fields : List (List Char)}
    (h : Separated (c :: cs) fields) :
    ∃ field others, fields = field :: others ∧ field.head? = some c := by
  generalize htext : c :: cs = text at h
  cases h with
  | @one _ hfield => exact ⟨_, [], rfl, htext ▸ rfl⟩
  | @more field _ _ others hfield =>
      refine ⟨field, others, rfl, ?_⟩
      rw [← List.head?_append_of_ne_nil field hfield.1, ← htext]
      rfl

/-- No text is a command that starts otherwise. -/
theorem parse?_ofList_cons {c : Char} (notLower : c.isLower = false) (cs : List Char) :
    Command.parse? (String.ofList (c :: cs)) = none := by
  refine Option.eq_none_iff_forall_ne_some.mpr fun command read => ?_
  obtain ⟨fields, separated, denotes⟩ := parse?_eq_some_iff_denotes.mp read
  rw [String.toList_ofList] at separated
  obtain ⟨field, others, rfl, starts⟩ := separated.exists_cons
  rw [List.map_cons] at denotes
  obtain ⟨d, first, lower⟩ := denotes.isLower_first
  rw [String.toList_ofList, starts] at first
  obtain rfl : c = d := Option.some.inj first
  rw [notLower] at lower
  cases lower

/-! ## Starts of programs -/

/-- A line that loads a word or defines a symbol. -/
def Hack.Line.Addresses : Line → Prop
  | .number _ | .symbol _ | .mark _ => True
  | .comment _ | .compute _ _ _ => False

/-- Code that starts with a comment on a line of its own and a line behind it that addresses
something. -/
inductive Opens : Code → Prop
  | intro {caption : String} {line : Line} {code : Code} (oneLine : '\n' ∉ caption.toList)
      (addresses : line.Addresses) : Opens (.comment caption :: line :: code)

theorem Opens.append (h : Opens code) (behind : Code) : Opens (code ++ behind) := by
  cases h with
  | intro oneLine addresses => exact .intro oneLine addresses

theorem exists_text_of_addresses {line : Line} (h : line.Addresses) :
    ∃ c cs, line.text.toList = c :: cs ∧ (c = '@' ∨ c = '(') := by
  cases line with
  | number value => exact ⟨'@', (toString value).toList, by simp [Line.text], .inl rfl⟩
  | symbol s => exact ⟨'@', s.text.toList, by simp [Line.text], .inl rfl⟩
  | mark s => exact ⟨'(', s.text.toList ++ [')'], by simp [Line.text], .inr rfl⟩
  | comment text => exact h.elim
  | compute dest comp jump => exact h.elim

/-- A line that addresses something is no line of a source. -/
theorem statementsFrom_of_addresses {c : Char} (h : c = '@' ∨ c = '(') (number : Nat)
    (cs : List Char) (rest : List (List Char)) :
    ∃ error, Source.statementsFrom number ((c :: cs) :: rest) = .error error := by
  have notBlank : Text.isBlank c = false := by rcases h with rfl | rfl <;> decide
  have notSlash : c ≠ '/' := by rcases h with rfl | rfl <;> decide
  have notLower : c.isLower = false := by rcases h with rfl | rfl <;> decide
  obtain ⟨behind, stripped⟩ := Text.exists_strip_cons notBlank notSlash cs
  have some : String.ofList (c :: behind) ≠ "" := by simp
  rw [Source.statementsFrom, stripped, if_neg some,
    parse?_ofList_cons notLower behind]
  exact ⟨_, rfl⟩

/-- A text with such a start is refused for its second line. -/
theorem Opens.exists_error (h : Opens code) :
    ∃ error, Source.statements (render code) = .error error := by
  cases h with
  | @intro caption line code oneLine addresses =>
      obtain ⟨c, cs, starts, sign⟩ := exists_text_of_addresses addresses
      have notNewline : c ≠ '\n' := by rcases sign with rfl | rfl <;> decide
      have first : '\n' ∉ (Line.comment caption).text.toList := by
        rw [Line.text, String.toList_append, List.mem_append, not_or]
        exact ⟨by decide, oneLine⟩
      have whole : (render (.comment caption :: line :: code)).toList =
          (Line.comment caption).text.toList ++
            '\n' :: c :: (cs ++ '\n' :: (render code).toList) := by
        simp [render_cons, starts]
      rw [Source.statements_eq, whole, Text.lines_append_newline, Text.lines_of_not_mem first,
        List.singleton_append, lines_cons_of_ne notNewline, Source.statementsFrom,
        strip_text_comment]
      exact statementsFrom_of_addresses sign _ _ _

/-! ## Code that opens -/

/-- The code of a command starts with a line that addresses something. -/
theorem exists_addresses_of_code {command : Command} (h : command.code unit context = .ok block) :
    ∃ line rest, block = line :: rest ∧ line.Addresses := by
  have made := Command.code_eq_ok h
  cases command with
  | operate op =>
      obtain rfl : block = Code.operation context.comparisons op := made
      rcases op with op | op | op <;> exact ⟨_, _, rfl, trivial⟩
  | push segment index =>
      cases segment with
      | constant =>
          obtain ⟨value, rfl, -⟩ := made
          exact ⟨_, _, rfl, trivial⟩
      | region region =>
          obtain ⟨place, rfl, -⟩ := made
          cases place <;> exact ⟨_, _, rfl, trivial⟩
  | pop segment index =>
      cases segment with
      | constant => exact made.elim
      | region region =>
          obtain ⟨place, rfl, -⟩ := made
          cases place <;> exact ⟨_, _, rfl, trivial⟩
  | function name locals | call name args =>
      obtain ⟨count, rfl, -⟩ := made
      exact ⟨_, _, rfl, trivial⟩
  | label name | goto name | ifGoto name | ret =>
      obtain rfl : block = _ := made
      exact ⟨_, _, rfl, trivial⟩

theorem opens_of_generate {captions : List Captioned}
    (oneLine : ∀ captioned ∈ captions, '\n' ∉ captioned.text.toList)
    (h : (generate unit context captions).result = .ok code) : code = [] ∨ Opens code := by
  cases captions with
  | nil => exact .inl (Except.ok.inj h).symm
  | cons captioned rest =>
      obtain ⟨block, following, hblock, -, rfl⟩ := generate_cons_eq_ok.mp h
      obtain ⟨line, others, rfl, addresses⟩ := exists_addresses_of_code hblock
      exact .inr (.intro (oneLine captioned (List.mem_cons_self ..)) addresses)

/-- What a unit adds to a program opens, if it is anything. -/
theorem Settles.opens {outcome : Except UnitError Code}
    (h : Settles context unit source outcome last) : added outcome = [] ∨ Opens (added outcome) := by
  cases h with
  | unread | inexpressible => exact .inl rfl
  | made hread hcode =>
      have noNewline := newline_not_mem_of_statements hread
      refine opens_of_generate (fun captioned member => ?_) hcode
      obtain ⟨statement, inRead, rfl⟩ := List.mem_map.mp member
      exact noNewline statement inRead

theorem SettleEach.opens {units : List (String × String)} {outcomes : List (Except UnitError Code)}
    (h : SettleEach context units outcomes last) :
    outcomes.flatMap added = [] ∨ Opens (outcomes.flatMap added) := by
  induction h with
  | nil context => exact .inl rfl
  | cons here _ ih =>
      rw [List.flatMap_cons]
      rcases here.opens with nothing | opens
      · rwa [nothing, List.nil_append]
      · exact .inr (opens.append _)

theorem Bootstrap.opens (bootstrap : Bootstrap) : Opens bootstrap.code :=
  .intro (by decide) trivial

/-- A program has no code, for want of a bootstrap and of commands, or its code opens. -/
theorem exists_code_of_compile {units : List (String × String)}
    (made : compile bootstrap units = .ok text) :
    ∃ code, text = render code ∧ (bootstrap = none ∧ code = [] ∨ Opens code) := by
  obtain ⟨outcomes, last, composed⟩ := exists_composed bootstrap units
  have whole := composed.compiled.symm.trans made
  split at whole
  · cases whole
  · obtain rfl := Except.ok.inj whole
    have each := ((composed.settled outcomes last).mpr ⟨rfl, rfl⟩).opens
    refine ⟨Run.program { bootstrap, context := last, code := outcomes.flatMap added },
      (finish_of_code outcomes).symm, ?_⟩
    cases bootstrap with
    | none => exact each.imp (fun nothing => ⟨rfl, nothing⟩) id
    | some bootstrap => exact .inr (bootstrap.opens.append _)

/-- **Programs are no sources.** A program without a text has no bootstrap. A program with one is
not what any unit can be read from. -/
theorem exists_error_of_compile {units : List (String × String)}
    (made : compile bootstrap units = .ok text) :
    bootstrap = none ∧ text = "" ∨ ∃ error, Source.statements text = .error error := by
  obtain ⟨code, rfl, ⟨noBootstrap, rfl⟩ | opens⟩ := exists_code_of_compile made
  · exact .inl ⟨noBootstrap, rfl⟩
  · exact .inr opens.exists_error

end StackToHack
