import StackToHack.Proofs.Additions
import StackToHack.Proofs.Renumbering
import StackToHack.Proofs.Scope

/-!
# Units next to each other

What a unit finds in the context is two counts and the function that the units before it left open,
if they left one open. The counts only number symbols. The function makes labels its own which the
unit names in front of its first `function` or `return`, although they stand in no function of
that unit. So units are independent of each other as long as none that leaves a function open meets
one that names a label up there, and then their order in a program does not matter but for numbers.
-/

namespace StackToHack

open Hack

/-! ## Leading labels -/

/-- The commands in front of the first one that enters or leaves a function. -/
def leading (commands : List Command) : List Command :=
  commands.takeWhile fun command => command.entered?.isNone

/-- A label is named in front of the first `function` or `return`. -/
def NamesLeading (commands : List Command) : Prop :=
  ∃ command ∈ leading commands, command.branchLabel?.isSome = true

/-- A command with more in front of the label that it names. -/
def Command.qualified (qualifier : String) : Command → Command
  | .label name => .label (qualifier ++ name)
  | .goto name => .goto (qualifier ++ name)
  | .ifGoto name => .ifGoto (qualifier ++ name)
  | command => command

/-- Commands with more in front of the leading labels. -/
def qualifyLeading (qualifier : String) : List Captioned → List Captioned
  | [] => []
  | captioned :: rest =>
    if captioned.command.entered?.isSome then captioned :: rest
    else
      { captioned with command := captioned.command.qualified qualifier } ::
        qualifyLeading qualifier rest

/-- What stands in front of a label that is private to a function. -/
def qualifierOf (unit : String) : Option String → String
  | some function => unit ++ "." ++ function ++ "$"
  | none => ""

/-- The same counts outside of any function. -/
def Context.outside (context : Context) : Context := { context with function := none }

/-- The lines of code as text. -/
def linesOf (code : Code) : List String := code.map Line.text

section Leading

variable {unit qualifier : String} {context : Context} {command : Command}

theorem text_target (unit : String) (function : Option String) (name : String) :
    (Code.target unit function name).text = qualifierOf unit function ++ name := by
  cases function with
  | none => simp [Code.target, qualifierOf, Symbol.text]
  | some f => simp [Code.target, qualifierOf, Symbol.text]

/-- A command in a function has the lines that it has outside with its label written out. -/
theorem linesOf_code_qualified (unit : String) (context : Context) (command : Command) :
    (command.code unit context).map linesOf =
      ((command.qualified (qualifierOf unit context.function)).code unit context.outside).map
        linesOf := by
  cases command with
  | label name | goto name | ifGoto name =>
      simp [Command.code, Command.qualified, Context.outside, Except.map, linesOf, Code.label,
        Code.goto, Code.ifGoto, Line.text, text_target, qualifierOf]
  | _ => rfl

theorem Command.after_qualified (qualifier : String) (command : Command) :
    context.after (command.qualified qualifier) = context.after command := by
  cases command <;> rfl

theorem Command.after_of_stays (context : Context) (h : command.entered? = none) :
    context.outside.after command = (context.after command).outside ∧
      (context.after command).function = context.function := by
  cases command with
  | operate op => cases op <;> exact ⟨rfl, rfl⟩
  | function name locals => cases h
  | ret => cases h
  | _ => exact ⟨rfl, rfl⟩

theorem Command.of_entered (unit : String) (context : Context)
    (h : command.entered?.isSome = true) :
    context.outside.after command = context.after command ∧
      command.code unit context.outside = command.code unit context := by
  cases command with
  | function name locals => exact ⟨rfl, rfl⟩
  | ret => exact ⟨rfl, rfl⟩
  | _ => cases h

/-- The lines of a unit, from those of its first command. -/
theorem map_linesOf_generate_cons (captioned : Captioned) (rest : List Captioned) :
    (generate unit context (captioned :: rest)).result.map linesOf =
      match (captioned.command.code unit context).map linesOf with
      | .error fault => .error { unit, text := captioned.text, fault }
      | .ok block => ((generate unit (context.after captioned.command) rest).result.map linesOf).map
          fun following => ("// " ++ captioned.text) :: block ++ following := by
  obtain ⟨text, command⟩ := captioned
  rw [generate]
  cases command.code unit context with
  | error fault => rfl
  | ok block =>
      cases hrest : (generate unit (context.after command) rest).result with
      | error error => simp [hrest, Except.map]
      | ok following => simp [hrest, Except.map, linesOf, Line.text]

/-- **Leading labels in an open function.** A unit that is met in a function has the lines that it
has outside of any function, once its leading labels are written out as labels of that function. -/
theorem linesOf_generate_qualified (unit : String) (context : Context)
    (commands : List Captioned) :
    (generate unit context commands).result.map linesOf =
      (generate unit context.outside
        (qualifyLeading (qualifierOf unit context.function) commands)).result.map linesOf := by
  induction commands generalizing context with
  | nil => rfl
  | cons captioned rest ih =>
      rw [qualifyLeading]
      split
      · next entered =>
          obtain ⟨after, code⟩ := Command.of_entered unit context entered
          rw [map_linesOf_generate_cons, map_linesOf_generate_cons, after, code]
      · next entered =>
          have stays : captioned.command.entered? = none := by simpa using entered
          obtain ⟨after, function⟩ := Command.after_of_stays context stays
          rw [map_linesOf_generate_cons, map_linesOf_generate_cons, linesOf_code_qualified,
            ih, function, Command.after_qualified, after]

end Leading

/-! ## Where the function shows -/

section Shows

variable {unit qualifier : String} {context : Context} {commands : List Captioned}
  {code code' : Code}

theorem leading_cons (command : Command) (rest : List Command) :
    leading (command :: rest) =
      if command.entered?.isSome then [] else command :: leading rest := by
  cases h : command.entered? <;> simp [leading, h]

theorem namesLeading_cons (command : Command) (rest : List Command) :
    NamesLeading (command :: rest) ↔
      command.entered? = none ∧ (command.branchLabel?.isSome = true ∨ NamesLeading rest) := by
  rw [NamesLeading, leading_cons, NamesLeading]
  cases command.entered? <;> simp

theorem Command.qualified_of_not {command : Command} (h : command.branchLabel?.isSome ≠ true) :
    command.qualified qualifier = command := by
  cases command with
  | label name | goto name | ifGoto name => exact absurd rfl h
  | _ => rfl

theorem qualifyLeading_of_not (h : ¬NamesLeading (commands.map Captioned.command)) :
    qualifyLeading qualifier commands = commands := by
  induction commands with
  | nil => rfl
  | cons captioned rest ih =>
      rw [List.map_cons, namesLeading_cons] at h
      rw [qualifyLeading]
      split
      · rfl
      · next entered =>
          have stays : captioned.command.entered? = none := by simpa using entered
          have noLabel : captioned.command.branchLabel?.isSome ≠ true := by
            intro label
            exact h ⟨stays, .inl label⟩
          have later : ¬NamesLeading (rest.map Captioned.command) := by
            intro names
            exact h ⟨stays, .inr names⟩
          rw [Command.qualified_of_not noLabel, ih later]

/-- A unit that is met outside of any function, or names no leading label, has the lines that it has
outside. -/
theorem linesOf_generate_outside (unit : String)
    (h : context.function = none ∨ ¬NamesLeading (commands.map Captioned.command)) :
    (generate unit context commands).result.map linesOf =
      (generate unit context.outside commands).result.map linesOf := by
  rcases h with outside | noLabel
  · rw [Context.outside, ← outside]
  · rw [linesOf_generate_qualified, qualifyLeading_of_not noLabel]

theorem length_render_code_qualified {command : Command} {block block' : Code}
    (outside : context.function = none) (h : command.code unit context = .ok block)
    (h' : (command.qualified qualifier).code unit context = .ok block') :
    (render block').length =
      (render block).length + if command.branchLabel?.isSome then qualifier.length else 0 := by
  cases command with
  | label name | goto name | ifGoto name =>
      obtain rfl := Except.ok.inj h
      obtain rfl := Except.ok.inj h'
      simp only [outside, Code.target, Code.label, Code.goto, Code.ifGoto, Code.popD, render_append,
        render_cons, render_nil, Line.text, Symbol.text, String.length_append,
        Command.branchLabel?, Option.isSome_some, if_true]
      omega
  | _ =>
      obtain rfl := Except.ok.inj (h.symm.trans h')
      rfl

/-- Outside of any function, every leading label is longer by what it is qualified with. -/
theorem length_render_qualified (outside : context.function = none)
    (h : (generate unit context commands).result = .ok code)
    (h' : (generate unit context (qualifyLeading qualifier commands)).result = .ok code') :
    (render code').length = (render code).length + qualifier.length *
      (leading (commands.map Captioned.command)).countP (·.branchLabel?.isSome) := by
  induction commands generalizing context code code' with
  | nil =>
      obtain rfl := Except.ok.inj (h.symm.trans h')
      rfl
  | cons captioned rest ih =>
      obtain ⟨block, following, hblock, hfollowing, rfl⟩ := generate_cons_eq_ok.mp h
      rw [List.map_cons, leading_cons]
      rw [qualifyLeading] at h'
      split at h'
      · next entered =>
          obtain rfl := Except.ok.inj (h.symm.trans h')
          rw [if_pos entered]
          rfl
      · next entered =>
          have stays : captioned.command.entered? = none := by simpa using entered
          obtain ⟨block', following', hblock', hfollowing', rfl⟩ := generate_cons_eq_ok.mp h'
          have here := length_render_code_qualified outside hblock hblock'
          rw [Command.after_qualified] at hfollowing'
          have outsideBehind := (Command.after_of_stays context stays).2.trans outside
          have later := ih outsideBehind hfollowing hfollowing'
          rw [if_neg entered, List.countP_cons, Nat.mul_add]
          simp only [List.cons_append, render_cons, render_append, String.length_append, here,
            later]
          split <;> omega

/-- Commands that have code in one context have code in every other. -/
theorem exists_code_of_generate (context' : Context)
    (h : (generate unit context commands).result = .ok code) :
    ∃ code', (generate unit context' commands).result = .ok code' := by
  have result := (generate_stopsAtFirstFault unit context commands).result
  have result' := (generate_stopsAtFirstFault unit context' commands).result
  cases hfirst : inexpressible? commands with
  | none =>
      rw [hfirst] at result'
      exact result'
  | some failing =>
      rw [hfirst] at result
      obtain ⟨fault, -, failed⟩ := result
      rw [h] at failed
      cases failed

theorem render_eq_join (code : Code) :
    render code = String.join ((linesOf code).map (· ++ "\n")) := by
  rw [linesOf, List.map_map]
  rfl

theorem render_eq_of_linesOf_eq (h : linesOf code = linesOf code') :
    render code = render code' := by
  rw [render_eq_join, render_eq_join, h]

/-- **Where an open function shows.** A unit that has code has the same text outside of any function
exactly if it is met there, or names no label in front of its first `function` or `return`. -/
theorem render_outside_iff (h : (generate unit context commands).result = .ok code) :
    (∃ code', (generate unit context.outside commands).result = .ok code' ∧
        render code' = render code) ↔
      context.function = none ∨ ¬NamesLeading (commands.map Captioned.command) := by
  have lines := linesOf_generate_qualified unit context commands
  rw [h] at lines
  obtain ⟨qualifiedCode, hqualified, hlines⟩ := map_eq_ok.mp lines.symm
  obtain ⟨plainCode, hplain⟩ := exists_code_of_generate context.outside h
  have sameText := render_eq_of_linesOf_eq hlines
  constructor
  · rintro ⟨code', hcode', same⟩
    obtain rfl : plainCode = code' := Except.ok.inj (hplain.symm.trans hcode')
    have length := length_render_qualified (show context.outside.function = none from rfl) hplain
      hqualified
    rw [sameText, same] at length
    cases hfunction : context.function with
    | none => exact .inl rfl
    | some f =>
        refine .inr fun ⟨command, member, label⟩ => ?_
        -- a qualifier is not empty, so every label that it stands in front of shows
        have labels : 0 < (leading (commands.map Captioned.command)).countP
            (·.branchLabel?.isSome) := List.countP_pos_iff.mpr ⟨command, member, label⟩
        have long : 0 < (qualifierOf unit context.function).length := by
          have dollar : "$".length = 1 := rfl
          rw [hfunction, qualifierOf, String.length_append]
          omega
        have longer := Nat.mul_pos long labels
        omega
  · intro met
    have sameLines := linesOf_generate_outside unit met
    rw [h, hplain] at sameLines
    exact ⟨plainCode, hplain, (render_eq_of_linesOf_eq (Except.ok.inj sameLines)).symm⟩

end Shows

/-! ## Any order -/

/-- What a unit is in a program that leaves its leading labels alone: its commands and their
form. -/
structure Part where
  commands : List Command
  forms : List (List Stencil)

/-- The lines of parts in a row, with numbers that go on from part to part. -/
def fillParts (comparisons callSites : Nat) : List Part → List String
  | [] => []
  | part :: rest =>
    fillEach comparisons callSites part.commands part.forms ++
      fillParts (comparisons + part.commands.countP Command.isComparison)
        (callSites + part.commands.countP Command.isCall) rest

/-- Met outside of any function, commands leave a function open. -/
def LeavesOpen (commands : List Command) : Prop := (Context.fresh.behind commands).function ≠ none

/-- The commands of a source have a property; there are none if it cannot be read. -/
def Reads (source : String) (property : List Command → Prop) : Prop :=
  ∃ commands, Source.commands source = .ok commands ∧ property commands

/-- Neither of two units leaves a function open if the other names a leading label. -/
def Independent (first second : String × String) : Prop :=
  ¬(Reads first.2 LeavesOpen ∧ Reads second.2 NamesLeading) ∧
    ¬(Reads second.2 LeavesOpen ∧ Reads first.2 NamesLeading)

instance : DecidablePred LeavesOpen := fun commands =>
  inferInstanceAs (Decidable ((Context.fresh.behind commands).function ≠ none))

instance : DecidablePred NamesLeading := fun commands =>
  inferInstanceAs (Decidable (∃ command ∈ leading commands, command.branchLabel?.isSome = true))

instance (source : String) (property : List Command → Prop) [DecidablePred property] :
    Decidable (Reads source property) :=
  match h : Source.commands source with
  | .ok commands => decidable_of_iff (property commands) (by simp [Reads, h])
  | .error _ => isFalse (by simp [Reads, h])

instance : DecidableRel Independent := fun _ _ => inferInstanceAs (Decidable (_ ∧ _))

/-- What a unit comes to, wherever no open function shows in it: always the same error, or always
lines of the same form, with numbers from the context on. -/
inductive ComesTo (unit source : String) : Except UnitError Part → Prop
  | error {error : UnitError}
      (fails : ∀ context, ∃ last, Settles context unit source (.error error) last) :
      ComesTo unit source (.error error)
  | part {statements : List Statement} {forms : List (List Stencil)}
      (hread : Source.statements source = .ok statements)
      (fits : List.Forall₂ (Fits unit) (statements.map Statement.captioned) forms)
      (made : ∀ context, context.function = none ∨ ¬Reads source NamesLeading →
        ∃ code last, Settles context unit source (.ok code) last ∧
          linesOf code = fillEach context.comparisons context.callSites
            (statements.map Statement.command) forms) :
      ComesTo unit source (.ok ⟨statements.map Statement.command, forms⟩)

section Order

variable {unit source : String} {context last : Context} {units : List (String × String)}
  {outcomes : List (Except UnitError Code)}

theorem commands_eq_ok {statements : List Statement}
    (h : Source.statements source = .ok statements) :
    Source.commands source = .ok (statements.map Statement.command) := by
  rw [Source.commands, h]
  rfl

theorem Settles.error_everywhere {error : UnitError}
    (h : Settles context unit source (.error error) last) (context' : Context) :
    ∃ last', Settles context' unit source (.error error) last' := by
  cases h with
  | unread hread => exact ⟨_, .unread hread⟩
  | inexpressible hread hfront hfault => exact ⟨_, .inexpressible hread hfront hfault⟩

theorem Settles.context_of_ok {code : Code} {statements : List Statement}
    (h : Settles context unit source (.ok code) last)
    (hread : Source.statements source = .ok statements) :
    last = context.behind (statements.map Statement.command) := by
  cases h with
  | made hread' hcode => rw [Except.ok.inj (hread.symm.trans hread')]

theorem exists_comesTo (unit source : String) : ∃ own, ComesTo unit source own := by
  obtain ⟨outcome, last, settles⟩ := exists_settles .fresh unit source
  cases outcome with
  | error error => exact ⟨_, .error settles.error_everywhere⟩
  | ok code =>
      cases settles with
      | @made statements _ hread hcode =>
          rcases exists_forms unit none (statements.map Statement.captioned) with
            ⟨error, failed⟩ | ⟨forms, fits, filled⟩
          · cases (failed 0 0).symm.trans hcode
          · refine ⟨_, .part hread fits fun context met => ?_⟩
            obtain ⟨plain, hplain, lines⟩ := filled context.comparisons context.callSites
            rw [List.map_map] at lines
            have notShown : context.function = none ∨
                ¬NamesLeading ((statements.map Statement.captioned).map Captioned.command) := by
              rw [List.map_map]
              exact met.imp_right fun noLabel named => noLabel ⟨_, commands_eq_ok hread, named⟩
            have sameLines := linesOf_generate_outside unit notShown
            rw [Context.outside, hplain] at sameLines
            obtain ⟨code, hcode, same⟩ := map_eq_ok.mp sameLines
            exact ⟨code, _, .made hread hcode, same.trans lines⟩

/-- A function that is open behind commands was open in front of them, or they leave it open. -/
theorem Context.function_behind_ne_none {commands : List Command}
    (h : (context.behind commands).function ≠ none) :
    LeavesOpen commands ∨ context.function ≠ none := by
  rw [Context.behind_eq_counted, Context.counted] at h
  rw [LeavesOpen, Context.behind_eq_counted, Context.counted]
  cases hlast : (commands.filterMap Command.entered?).getLast? with
  | none =>
      rw [hlast] at h
      exact .inr h
  | some function =>
      rw [hlast] at h
      exact .inl h

/-- Independent units in a row come to what each of them is on its own. -/
theorem SettleEach.parts {own : String × String → Except UnitError Part}
    (hown : ∀ unit, ComesTo unit.1 unit.2 (own unit))
    (h : SettleEach context units outcomes last) (independent : units.Pairwise Independent)
    (met : context.function ≠ none → ∀ unit ∈ units, ¬Reads unit.2 NamesLeading) :
    match firstError? outcomes with
    | some error => units.mapM own = .error error
    | none => ∃ parts, units.mapM own = .ok parts ∧
        linesOf (outcomes.flatMap added) =
          fillParts context.comparisons context.callSites parts := by
  induction h with
  | nil context => exact ⟨[], rfl, rfl⟩
  | @cons context next last unit source rest outcome outcomes here behind ih =>
      obtain ⟨apart, independent⟩ := List.pairwise_cons.mp independent
      have found : context.function = none ∨ ¬Reads source NamesLeading := by
        by_cases outside : context.function = none
        · exact .inl outside
        · exact .inr (met outside _ (List.mem_cons_self ..))
      rw [List.mapM_cons]
      generalize hhere : own (unit, source) = ownHere
      have comes := hown (unit, source)
      rw [hhere] at comes
      cases comes with
      | error fails =>
          obtain ⟨last', failed⟩ := fails context
          obtain ⟨rfl, -⟩ := failed.unique here
          rfl
      | @part statements forms hread fits made =>
          obtain ⟨code, last', settles, lines⟩ := made context found
          obtain ⟨rfl, rfl⟩ := settles.unique here
          obtain rfl : next = context.behind (statements.map Statement.command) :=
            settles.context_of_ok hread
          have later := ih independent fun openBehind unit member names => by
            have reads := commands_eq_ok hread
            rcases Context.function_behind_ne_none openBehind with leaves | openBefore
            · exact (apart unit member).1 ⟨⟨_, reads, leaves⟩, names⟩
            · exact met openBefore unit (List.mem_cons_of_mem _ member) names
          have noError : firstError? (.ok code :: outcomes) = firstError? outcomes := rfl
          rw [noError]
          cases herror : firstError? outcomes with
          | some error =>
              rw [herror] at later
              have failed : rest.mapM own = .error error := later
              rw [failed]
              rfl
          | none =>
              rw [herror] at later
              obtain ⟨parts, hparts, following⟩ := later
              refine ⟨⟨statements.map Statement.command, forms⟩ :: parts, ?_, ?_⟩
              · rw [hparts]
                rfl
              · rw [List.flatMap_cons, linesOf, List.map_append, ← linesOf, ← linesOf, following,
                  Context.behind_eq_counted, fillParts]
                exact congrArg (· ++ _) lines

theorem Independent.symm {first second : String × String} (h : Independent first second) :
    Independent second first :=
  ⟨h.2, h.1⟩

/-- Independent units make the program of their parts. -/
theorem compile_of_independent {own : String × String → Except UnitError Part}
    (hown : ∀ unit, ComesTo unit.1 unit.2 (own unit)) (independent : units.Pairwise Independent)
    (bootstrap : Option Bootstrap) :
    compile bootstrap units = (units.mapM own).map fun parts =>
      prologue bootstrap ++ String.join ((fillParts 0 0 parts).map (· ++ "\n")) := by
  obtain ⟨outcomes, last, composed⟩ := exists_composed bootstrap units
  have settled : SettleEach .fresh units outcomes last := (composed.settled _ _).mpr ⟨rfl, rfl⟩
  have parts := settled.parts hown independent fun inside => absurd rfl inside
  rw [composed.compiled]
  cases herror : firstError? outcomes with
  | some error =>
      rw [herror] at parts
      have failed : units.mapM own = .error error := parts
      rw [failed]
      rfl
  | none =>
      rw [herror] at parts
      obtain ⟨parts, hparts, lines⟩ := parts
      rw [hparts]
      refine congrArg Except.ok ?_
      rw [programText, ← render_flatMap_added, render_eq_join, lines]
      rfl

end Order

/-! ## Runs -/

/-- The block of a unit that is met in a context, compared with what it is outside of any function
from the same counts. -/
structure Compared (context : Context) (unit : String) (statements : List Statement)
    (code plain qualified : Code) : Prop where
  madeOutside : (generateStatements unit context.outside statements).result = .ok plain
  madeQualified : (generate unit context.outside (qualifyLeading (qualifierOf unit context.function)
    (statements.map Statement.captioned))).result = .ok qualified
  lines : linesOf code = linesOf qualified
  same : render code = render plain ↔
    context.function = none ∨ ¬NamesLeading (statements.map Statement.command)

theorem exists_compared {unit : String} {context : Context} {statements : List Statement}
    {code : Code} (h : (generateStatements unit context statements).result = .ok code) :
    ∃ plain qualified, Compared context unit statements code plain qualified := by
  obtain ⟨plain, hplain⟩ := exists_code_of_generate context.outside h
  have lines := linesOf_generate_qualified unit context (statements.map Statement.captioned)
  have made : (generate unit context (statements.map Statement.captioned)).result = .ok code := h
  rw [made] at lines
  obtain ⟨qualified, hqualified, hlines⟩ := map_eq_ok.mp lines.symm
  refine ⟨plain, qualified, hplain, hqualified, hlines.symm, ?_⟩
  have shows := render_outside_iff h
  rw [List.map_map] at shows
  refine Iff.trans ⟨fun same => ⟨plain, hplain, same.symm⟩, ?_⟩ shows
  rintro ⟨plain', hplain', same⟩
  obtain rfl : plain = plain' := Except.ok.inj (hplain.symm.trans hplain')
  exact same.symm

/-- **What reaches from unit to unit.** The block that a unit adds to a run of others has the lines
that it has outside of any function from the same counts, once its leading labels are written out as
labels of the function that these left open; and this shows in its text exactly if there is such a
function and there is such a label. So units of which none leaves a function open while another
names a leading label make up the same parts of a program in every order, with numbers that go on
from part to part. -/
theorem units_meet_in_open_functions (bootstrap : Option Bootstrap)
    (units : List (String × String)) :
    (let run := ((Run.start bootstrap).addEach units).2
      ∀ unit source code, (run.add unit source).result = .ok () →
        (run.add unit source).run.code = run.code ++ code →
          ∃ statements plain qualified, Source.statements source = .ok statements ∧
            Compared run.context unit statements code plain qualified) ∧
    (units.Pairwise Independent →
      ∃ own : String × String → Except UnitError Part,
        (∀ unit, ComesTo unit.1 unit.2 (own unit)) ∧
        ∀ reordered, units.Perm reordered →
          compile bootstrap reordered = (reordered.mapM own).map fun parts =>
            prologue bootstrap ++ String.join ((fillParts 0 0 parts).map (· ++ "\n"))) := by
  constructor
  · intro run unit source code success adds
    obtain ⟨outcome, last, settles⟩ := exists_settles run.context unit source
    obtain ⟨result, behind⟩ := settles.add run
    rw [result] at success
    rw [behind] at adds
    cases settles with
    | unread hread => cases success
    | inexpressible hread hfront hfault => cases success
    | made hread hcode =>
        obtain rfl := List.append_cancel_left adds
        obtain ⟨plain, qualified, compared⟩ := exists_compared hcode
        exact ⟨_, plain, qualified, hread, compared⟩
  · intro independent
    choose own hown using fun unit : String × String => exists_comesTo unit.1 unit.2
    refine ⟨own, hown, fun reordered permuted => ?_⟩
    have independent' := (permuted.pairwise_iff Independent.symm).mp independent
    exact compile_of_independent hown independent' bootstrap

/-- Two units of which one names labels up front and neither leaves a function open, in both orders;
and a label that is met in a function which another unit leaves open. -/
theorem units_meet_in_open_functions_both_orders :
    let first := ("A", "label L\neq\nif-goto L\n")
    let second := ("B", "function f 0\ngt\ncall f 0\nreturn\n")
    [first, second].Pairwise Independent ∧
      (∃ own : String × String → Except UnitError Part,
        compile none [first, second] = ([first, second].mapM own).map (fun parts =>
          "" ++ String.join ((fillParts 0 0 parts).map (· ++ "\n"))) ∧
        compile none [second, first] = ([second, first].mapM own).map fun parts =>
          "" ++ String.join ((fillParts 0 0 parts).map (· ++ "\n"))) ∧
      ∃ statements plain qualified, Source.statements "label L\n" = .ok statements ∧
        Compared { function := some "g" } "D" statements
          [.comment "label L", .mark (.label "D" "g" "L")] plain qualified := by
  intro first second
  have independent : [first, second].Pairwise Independent := by decide +kernel
  obtain ⟨own, -, ordered⟩ := (units_meet_in_open_functions none [first, second]).2 independent
  refine ⟨independent, ⟨own, ?_, ?_⟩, ?_⟩
  · exact ordered _ (.refl _)
  · exact ordered _ (.swap ..)
  · have met := (units_meet_in_open_functions none [("C", "function g 0\n")]).1
    generalize hrun : ((Run.start none).addEach [("C", "function g 0\n")]).2 = run at met
    have inside : run.context = { function := some "g" } := by
      rw [← hrun]
      decide +kernel
    have success : (run.add "D" "label L\n").result = .ok () := by
      rw [← hrun]
      decide +kernel
    have adds : (run.add "D" "label L\n").run.code =
        run.code ++ [.comment "label L", .mark (.label "D" "g" "L")] := by
      rw [← hrun]
      decide +kernel
    exact inside ▸ met "D" "label L\n" _ success adds

/-- A function that is left open takes the labels of the next unit: `Sys.init` runs in circles and
does not return, and so the label `MAIN`, which stands in no function at all, is defined under
another name than outside. -/
theorem open_function_takes_labels :
    let sys := "function Sys.init 0\nlabel HALT\ngoto HALT\n"
    let top := "label MAIN\ngoto MAIN\n"
    let context := ((Run.start none).add "Sys" sys).run.context
    ∃ statements code plain, Source.statements top = .ok statements ∧
      (generateStatements "Top" context statements).result = .ok code ∧
      (generateStatements "Top" context.outside statements).result = .ok plain ∧
      linesOf code = ["// label MAIN", "(Top.Sys.init$MAIN)",
        "// goto MAIN", "@Top.Sys.init$MAIN", "0;JMP"] ∧
      linesOf plain = ["// label MAIN", "(MAIN)", "// goto MAIN", "@MAIN", "0;JMP"] := by
  let taken : Symbol := .label "Top" "Sys.init" "MAIN"
  let outside : Symbol := .plain "MAIN"
  refine ⟨[⟨1, "label MAIN", .label "MAIN"⟩, ⟨2, "goto MAIN", .goto "MAIN"⟩],
    .comment "label MAIN" :: Code.label taken ++ .comment "goto MAIN" :: Code.goto taken,
    .comment "label MAIN" :: Code.label outside ++ .comment "goto MAIN" :: Code.goto outside,
    ?_, ?_, ?_, ?_, ?_⟩ <;> decide +kernel

end StackToHack
