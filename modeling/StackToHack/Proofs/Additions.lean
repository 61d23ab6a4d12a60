import StackToHack.Proofs.Faults
import StackToHack.Run

/-!
# Units in a row

A run takes units one after the other, and any of them may fail. What becomes of a unit is up to
its source and the context that it is met in (`Settles`): a line that cannot be read leaves that
context alone, a command without code leaves it as the commands in front made it, and only a unit
that has neither brings code. A program is the code of those units, in order, behind the bootstrap.
-/

namespace StackToHack

open Hack

/-! ## One unit -/

/-- What becomes of a unit that is met in a context: its code or the error that keeps it from
having any, and the context behind it. -/
inductive Settles (context : Context) (unit source : String) :
    Except UnitError Code → Context → Prop
  /-- A line cannot be read, whatever the lines in front of it ask for. -/
  | unread {error : LineError} (hread : Source.statements source = .error error) :
      Settles context unit source (.error (.line unit error)) context
  /-- All of it can be read, but a command has no code, and it is the first such command. -/
  | inexpressible {front back : List Statement} {failing : Statement} {fault : Fault}
      (hread : Source.statements source = .ok (front ++ failing :: back))
      (hfront : ∀ statement ∈ front, statement.command.fault? = none)
      (hfault : failing.command.fault? = some fault) :
      Settles context unit source (.error (.command { unit, text := failing.text, fault }))
        (context.behind (front.map Statement.command))
  /-- Every command has code. -/
  | made {statements : List Statement} {code : Code}
      (hread : Source.statements source = .ok statements)
      (hcode : (generateStatements unit context statements).result = .ok code) :
      Settles context unit source (.ok code) (context.behind (statements.map Statement.command))

/-- The code that a unit adds to a program. -/
def added : Except UnitError Code → Code
  | .ok code => code
  | .error _ => []

/-- Whether a unit succeeded, and its error if it did not. -/
def status (outcome : Except UnitError Code) : Except UnitError Unit := outcome.map fun _ => ()

section Unit

variable {context last last' : Context} {unit source : String} {run : Run}
  {outcome outcome' : Except UnitError Code}

/-- Generation does not get past the first command that has no code. -/
theorem generate_of_fault {front back : List Captioned} {failing : Captioned} {fault : Fault}
    (hfront : ∀ captioned ∈ front, captioned.command.fault? = none)
    (hfault : failing.command.fault? = some fault) :
    (generate unit context (front ++ failing :: back)).result =
        .error { unit, text := failing.text, fault } ∧
      (generate unit context (front ++ failing :: back)).context =
        context.behind (front.map Captioned.command) := by
  have passed : ∀ captioned ∈ front, captioned.command.fault?.isNone = true :=
    fun captioned member => Option.isNone_iff_eq_none.mpr (hfront captioned member)
  have first : inexpressible? (front ++ failing :: back) = some failing := by
    refine List.find?_eq_some_iff_append.mpr ⟨by rw [hfault]; rfl, front, back, rfl,
      fun captioned member => ?_⟩
    rw [hfront captioned member]
    rfl
  have before : expressible (front ++ failing :: back) = front := by
    rw [expressible, List.takeWhile_append_of_pos passed,
      List.takeWhile_cons_of_neg (by rw [hfault]; exact Bool.false_ne_true), List.append_nil]
  obtain ⟨result, behind⟩ := generate_stopsAtFirstFault unit context (front ++ failing :: back)
  constructor
  · rw [first] at result
    obtain ⟨fault', isFault, hresult⟩ := result
    obtain rfl : fault = fault' := Option.some.inj (hfault.symm.trans isFault)
    exact hresult
  · rw [behind, before, ← Context.behind_eq_counted]

/-- So it is with statements under any texts. -/
theorem generate_map_of_fault (unit : String) (context : Context) (caption : Statement → Captioned)
    (hcaption : ∀ statement, (caption statement).command = statement.command)
    {front : List Statement} {failing : Statement} {fault : Fault}
    (hfront : ∀ statement ∈ front, statement.command.fault? = none)
    (hfault : failing.command.fault? = some fault) (back : List Statement) :
    (generate unit context ((front ++ failing :: back).map caption)).result =
        .error { unit, text := (caption failing).text, fault } ∧
      (generate unit context ((front ++ failing :: back).map caption)).context =
        context.behind (front.map Statement.command) := by
  have commands : (front.map caption).map Captioned.command = front.map Statement.command := by
    rw [List.map_map]
    exact List.map_congr_left fun statement _ => hcaption statement
  rw [List.map_append, List.map_cons, ← commands]
  refine generate_of_fault (fun captioned member => ?_) (hcaption failing ▸ hfault)
  obtain ⟨statement, inFront, rfl⟩ := List.mem_map.mp member
  rw [hcaption]
  exact hfront statement inFront

/-- Adding a unit to a run adds what becomes of it in the context of the run. -/
theorem Settles.add (run : Run) (h : Settles run.context unit source outcome last) :
    (run.add unit source).result = status outcome ∧
      (run.add unit source).run =
        { run with context := last, code := run.code ++ added outcome } := by
  rw [Run.add]
  cases h with
  | unread hread =>
      rw [hread]
      simp [status, added, Except.map]
  | @inexpressible front back failing fault hread hfront hfault =>
      obtain ⟨result, behind⟩ := generate_map_of_fault unit run.context Statement.captioned
        (fun _ => rfl) hfront hfault back
      rw [hread]
      simp only [generateStatements, result, behind]
      simp [status, added, Except.map, Statement.captioned]
  | @made statements code hread hcode =>
      rw [hread]
      simp only [hcode, context_of_generateStatements hcode]
      exact ⟨rfl, rfl⟩

theorem exists_settles (context : Context) (unit source : String) :
    ∃ outcome last, Settles context unit source outcome last := by
  cases hread : Source.statements source with
  | error error => exact ⟨_, _, .unread hread⟩
  | ok statements =>
      cases hfirst : statements.find? fun statement => statement.command.fault?.isSome with
      | some failing =>
          obtain ⟨isFault, front, back, rfl, hfront⟩ := List.find?_eq_some_iff_append.mp hfirst
          obtain ⟨fault, hfault⟩ := Option.isSome_iff_exists.mp isFault
          exact ⟨_, _, .inexpressible hread (by simpa using hfront) hfault⟩
      | none =>
          have noFault : inexpressible? (statements.map Statement.captioned) = none := by
            rw [inexpressible?, List.find?_map]
            exact congrArg _ hfirst
          have result := (generate_stopsAtFirstFault unit context
            (statements.map Statement.captioned)).result
          rw [noFault] at result
          obtain ⟨code, hcode⟩ := result
          exact ⟨_, _, .made hread hcode⟩

/-- A context and a source leave no choice in what becomes of a unit. -/
theorem Settles.unique (h : Settles context unit source outcome last)
    (h' : Settles context unit source outcome' last') : outcome' = outcome ∧ last' = last := by
  obtain ⟨result, behind⟩ := Settles.add { context } h
  obtain ⟨result', behind'⟩ := Settles.add { context } h'
  rw [result] at result'
  rw [behind, Run.mk.injEq] at behind'
  obtain ⟨-, rfl, sameCode⟩ := behind'
  refine ⟨?_, rfl⟩
  cases outcome with
  | error error =>
      cases outcome' with
      | error error' => rw [Except.error.inj result']
      | ok code' => cases result'
  | ok code =>
      cases outcome' with
      | error error' => cases result'
      | ok code' => exact congrArg _ sameCode.symm

end Unit

/-! ## Units in a row -/

/-- What becomes of units, each met in the context that the one before left. -/
inductive SettleEach : Context → List (String × String) → List (Except UnitError Code) →
    Context → Prop
  | nil (context : Context) : SettleEach context [] [] context
  | cons {context next last : Context} {unit source : String} {rest : List (String × String)}
      {outcome : Except UnitError Code} {outcomes : List (Except UnitError Code)}
      (here : Settles context unit source outcome next)
      (behind : SettleEach next rest outcomes last) :
      SettleEach context ((unit, source) :: rest) (outcome :: outcomes) last

/-- Adds units to a run, whether or not those before have failed: how each of them came out, and the
run behind them. -/
def Run.addEach (run : Run) : List (String × String) → List (Except UnitError Unit) × Run
  | [] => ([], run)
  | (unit, source) :: rest =>
    let here := run.add unit source
    let behind := here.run.addEach rest
    (here.result :: behind.1, behind.2)

/-- The error of the first unit that failed. -/
def firstError? (outcomes : List (Except UnitError Code)) : Option UnitError :=
  outcomes.findSome? fun
    | .error error => some error
    | .ok _ => none

/-- The text of the bootstrap, if there is one. -/
def prologue : Option Bootstrap → String
  | some bootstrap => render bootstrap.code
  | none => ""

/-- The bootstrap and then the text of every unit that has code. -/
def programText (bootstrap : Option Bootstrap) (outcomes : List (Except UnitError Code)) : String :=
  prologue bootstrap ++ String.join ((outcomes.filterMap Except.toOption).map render)

section Row

variable {context last : Context} {units : List (String × String)} {run : Run}
  {outcomes : List (Except UnitError Code)}

theorem exists_settleEach (context : Context) (units : List (String × String)) :
    ∃ outcomes last, SettleEach context units outcomes last := by
  induction units generalizing context with
  | nil => exact ⟨[], context, .nil context⟩
  | cons head rest ih =>
      obtain ⟨unit, source⟩ := head
      obtain ⟨outcome, next, here⟩ := exists_settles context unit source
      obtain ⟨outcomes, last, behind⟩ := ih next
      exact ⟨outcome :: outcomes, last, .cons here behind⟩

theorem SettleEach.unique {outcomes' : List (Except UnitError Code)} {last' : Context}
    (h : SettleEach context units outcomes last) (h' : SettleEach context units outcomes' last') :
    outcomes' = outcomes ∧ last' = last := by
  induction h generalizing outcomes' last' with
  | nil context =>
      cases h'
      exact ⟨rfl, rfl⟩
  | cons here behind ih =>
      cases h' with
      | cons here' behind' =>
          obtain ⟨rfl, rfl⟩ := here.unique here'
          obtain ⟨rfl, rfl⟩ := ih behind'
          exact ⟨rfl, rfl⟩

theorem SettleEach.addEach (run : Run)
    (h : SettleEach run.context units outcomes last) :
    run.addEach units = (outcomes.map status,
      { run with context := last, code := run.code ++ outcomes.flatMap added }) := by
  generalize hcontext : run.context = context at h
  induction h generalizing run with
  | nil context =>
      subst hcontext
      simp [Run.addEach]
  | cons here behind ih =>
      subst hcontext
      obtain ⟨result, next⟩ := here.add run
      have rest := ih _ (congrArg Run.context next)
      rw [Run.addEach, rest, result, next]
      simp

/-- Units are added up to the first error, and that is the result. -/
theorem SettleEach.addAll (run : Run)
    (h : SettleEach run.context units outcomes last) :
    match firstError? outcomes with
    | some error => (run.addAll units).result = .error error
    | none => (run.addAll units).result = .ok () ∧
        (run.addAll units).run =
          { run with context := last, code := run.code ++ outcomes.flatMap added } := by
  generalize hcontext : run.context = context at h
  induction h generalizing run with
  | nil context =>
      subst hcontext
      simp [Run.addAll, firstError?]
  | @cons _ _ _ unit source rest outcome outcomes here behind ih =>
      subst hcontext
      obtain ⟨result, next⟩ := here.add run
      have later := ih _ (congrArg Run.context next)
      rw [Run.addAll]
      cases outcome with
      | error error =>
          have failed : (run.add unit source).result = .error error := result
          simp only [failed, firstError?, List.findSome?_cons]
      | ok code =>
          have passed : (run.add unit source).result = .ok () := result
          rw [next] at later
          simp only [passed, next]
          simpa [firstError?, added] using later

/-- What became of one of several units. -/
theorem SettleEach.exists_of_mem {unit source : String} (h : SettleEach context units outcomes last)
    (member : (unit, source) ∈ units) :
    ∃ here outcome next, Settles here unit source outcome next ∧ outcome ∈ outcomes := by
  induction h with
  | nil => cases member
  | @cons here _ _ _ _ _ outcome _ settles _ ih =>
      rcases List.mem_cons.mp member with same | behind
      · cases same
        exact ⟨here, outcome, _, settles, List.mem_cons_self ..⟩
      · obtain ⟨here, outcome, next, settles, inside⟩ := ih behind
        exact ⟨here, outcome, next, settles, List.mem_cons_of_mem _ inside⟩

theorem render_flatMap_added (outcomes : List (Except UnitError Code)) :
    render (outcomes.flatMap added) =
      String.join ((outcomes.filterMap Except.toOption).map render) := by
  induction outcomes with
  | nil => rfl
  | cons outcome outcomes ih =>
      rw [List.flatMap_cons, render_append, ih]
      cases outcome with
      | error error =>
          have noCode : (Except.error error : Except UnitError Code).toOption = none := rfl
          simp [added, render_nil, noCode]
      | ok code => simp [added, Except.toOption]

theorem finish_of_code {bootstrap : Option Bootstrap} (outcomes : List (Except UnitError Code)) :
    Run.finish { bootstrap, context, code := outcomes.flatMap added } =
      programText bootstrap outcomes := by
  rw [programText, ← render_flatMap_added]
  cases bootstrap with
  | none => simp [Run.finish, Run.program, prologue]
  | some bootstrap => exact render_append _ _

end Row

/-! ## Commands of a program -/

theorem exists_code_of_firstError? {outcomes : List (Except UnitError Code)}
    {outcome : Except UnitError Code} (h : firstError? outcomes = none) (member : outcome ∈ outcomes) :
    ∃ code, outcome = .ok code := by
  cases outcome with
  | error error =>
      have none := List.findSome?_eq_none_iff.mp h _ member
      cases none
  | ok code => exact ⟨code, rfl⟩

/-- In a program, every command of every unit has its code. -/
theorem exists_block_of_addAll {bootstrap : Option Bootstrap} {units : List (String × String)}
    {unit source : String} {commands : List Command} {command : Command}
    (made : ((Run.start bootstrap).addAll units).result = .ok ())
    (member : (unit, source) ∈ units) (read : Source.commands source = .ok commands)
    (inside : command ∈ commands) :
    ∃ context block, command.code unit context = .ok block ∧
      block ⊆ ((Run.start bootstrap).addAll units).run.program := by
  obtain ⟨outcomes, last, settled⟩ := exists_settleEach .fresh units
  have all := settled.addAll (Run.start bootstrap)
  cases herror : firstError? outcomes with
  | some error =>
      rw [herror] at all
      cases made.symm.trans all
  | none =>
      rw [herror] at all
      obtain ⟨here, outcome, next, settles, among⟩ := settled.exists_of_mem member
      obtain ⟨code, rfl⟩ := exists_code_of_firstError? herror among
      cases settles with
      | @made statements _ hread hcode =>
        rw [Source.commands, hread] at read
        obtain rfl := Except.ok.inj read
        obtain ⟨statement, inStatements, rfl⟩ := List.mem_map.mp inside
        obtain ⟨front, back, rfl⟩ := List.append_of_mem inStatements
        rw [generateStatements, List.map_append, List.map_cons] at hcode
        obtain ⟨before, block, behind, -, hblock, rfl⟩ := exists_block_of_generate hcode
        refine ⟨_, block, hblock, fun line inBlock => ?_⟩
        have inCode : line ∈ outcomes.flatMap added :=
          List.mem_flatMap.mpr ⟨_, among, by simp [added, inBlock]⟩
        rw [all.2, Run.program]
        cases bootstrap <;> simp [Run.start, inCode]

/-! ## Whole runs -/

/-- A run of units, of which some may have failed, in terms of what became of each. -/
structure Composed (bootstrap : Option Bootstrap) (units : List (String × String))
    (outcomes : List (Except UnitError Code)) (last : Context) : Prop where
  /-- Every unit was met in the context behind those before it. -/
  settled : ∀ outcomes' last', SettleEach .fresh units outcomes' last' ↔
    outcomes' = outcomes ∧ last' = last
  results : ((Run.start bootstrap).addEach units).1 = outcomes.map status
  context : ((Run.start bootstrap).addEach units).2.context = last
  text : ((Run.start bootstrap).addEach units).2.finish = programText bootstrap outcomes
  compiled : compile bootstrap units =
    match firstError? outcomes with
    | some error => .error error
    | none => .ok (programText bootstrap outcomes)

theorem exists_composed (bootstrap : Option Bootstrap) (units : List (String × String)) :
    ∃ outcomes last, Composed bootstrap units outcomes last := by
  obtain ⟨outcomes, last, settled⟩ := exists_settleEach .fresh units
  have each := settled.addEach (Run.start bootstrap)
  have all := settled.addAll (Run.start bootstrap)
  refine ⟨outcomes, last, ?_, ?_, ?_, ?_, ?_⟩
  · intro outcomes' last'
    constructor
    · exact settled.unique
    · rintro ⟨rfl, rfl⟩
      exact settled
  · rw [each]
  · rw [each]
  · rw [each]
    exact finish_of_code outcomes
  · rw [compile]
    cases herror : firstError? outcomes with
    | some error =>
        rw [herror] at all
        simp only [all]
        rfl
    | none =>
        rw [herror] at all
        obtain ⟨result, behind⟩ := all
        simp only [result, behind]
        exact congrArg _ (finish_of_code outcomes)

/-- **A program is its successful units.** A unit that is added to a run changes its context and its
code by what becomes of that unit, and nothing else. So whichever units fail on the way, the text of
a run is the bootstrap and then the code of those that did not; and units together make a program
if none of them fails, and else the first error is all there is. -/
theorem program_is_its_successful_units :
    (∀ (run : Run) (unit source : String), ∃ outcome last,
      Settles run.context unit source outcome last ∧
      (run.add unit source).result = status outcome ∧
      (run.add unit source).run =
        { run with context := last, code := run.code ++ added outcome }) ∧
    ∀ (bootstrap : Option Bootstrap) (units : List (String × String)),
      ∃ outcomes last, Composed bootstrap units outcomes last := by
  refine ⟨fun run unit source => ?_, exists_composed⟩
  obtain ⟨outcome, last, settles⟩ := exists_settles run.context unit source
  exact ⟨outcome, last, settles, settles.add run⟩

end StackToHack
