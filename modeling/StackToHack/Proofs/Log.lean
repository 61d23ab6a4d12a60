import StackToHack.Proofs.Additions

/-!
# The log of a run

A unit that is added to a run is read first, and nothing is logged if that fails. Then there is a
message for every statement that generation reaches, and the one it stops at is reached, too. Only
a unit that has code ends with a message of its own. The numbers in that one count commands from
the beginning of the run, also those of units that failed, as far as they had code
(`log_accounts_for_commands`).
-/

namespace StackToHack

open Hack

/-! ## Messages -/

/-- The message for a statement that is reached. -/
def reachedMessage (unit : String) (statement : Statement) : String :=
  "TRACE " ++ unit ++ ": " ++ statement.text

/-- The message for a unit that has code, with all the commands that have code in the run by
then. -/
def addedMessage (unit : String) (statements : List Statement) (generated : List Command) :
    String :=
  "DEBUG translated unit " ++ unit ++ " (" ++ toString statements.length ++ " commands, " ++
    toString (generated.countP Command.isComparison) ++ " comparisons, " ++
    toString (generated.countP Command.isCall) ++ " call sites so far)"

/-- What a unit leaves in the log of a run in which the given commands have code before it: how it
came out, its messages, and the commands that have code behind it. -/
inductive Logs (generated : List Command) (unit source : String) :
    Except UnitError Unit → List String → List Command → Prop
  /-- A line cannot be read. -/
  | unread {error : LineError} (hread : Source.statements source = .error error) :
      Logs generated unit source (.error (.line unit error)) [] generated
  /-- All of it can be read, but a command has no code, and it is the first such command. -/
  | stopped {front back : List Statement} {failing : Statement} {fault : Fault}
      (hread : Source.statements source = .ok (front ++ failing :: back))
      (hfront : ∀ statement ∈ front, statement.command.fault? = none)
      (hfault : failing.command.fault? = some fault) :
      Logs generated unit source (.error (.command { unit, text := failing.text, fault }))
        ((front ++ [failing]).map (reachedMessage unit))
        (generated ++ front.map Statement.command)
  /-- Every command has code. -/
  | completed {statements : List Statement}
      (hread : Source.statements source = .ok statements)
      (hall : ∀ statement ∈ statements, statement.command.fault? = none) :
      Logs generated unit source (.ok ())
        (statements.map (reachedMessage unit) ++
          [addedMessage unit statements (generated ++ statements.map Statement.command)])
        (generated ++ statements.map Statement.command)

/-- What units leave in the log, one after the other. -/
inductive LogEach : List Command → List (String × String) →
    List (Except UnitError Unit × List String) → Prop
  | nil (generated : List Command) : LogEach generated [] []
  | cons {generated next : List Command} {unit source : String} {rest : List (String × String)}
      {result : Except UnitError Unit} {messages : List String}
      {behind : List (Except UnitError Unit × List String)}
      (here : Logs generated unit source result messages next)
      (later : LogEach next rest behind) :
      LogEach generated ((unit, source) :: rest) ((result, messages) :: behind)

/-! ## What is reached -/

section Reached

variable {unit : String} {context : Context} {front back statements : List Statement}
  {statement failing : Statement} {fault : Fault} {code block : Code}

theorem reached_cons (h : statement.command.code unit context = .ok block) :
    (generateStatements unit context (statement :: statements)).reached =
      statement.text ::
        (generateStatements unit (context.after statement.command) statements).reached := by
  rw [generateStatements, List.map_cons, Statement.captioned, generate, h]
  rfl

/-- The statement that generation stops at is reached. -/
theorem reached_of_fault (hfront : ∀ statement ∈ front, statement.command.fault? = none)
    (hfault : failing.command.fault? = some fault) :
    (generateStatements unit context (front ++ failing :: back)).reached =
      (front ++ [failing]).map Statement.text := by
  induction front generalizing context with
  | nil =>
      have decided := failing.command.decided_code unit context
      rw [hfault] at decided
      have failed : failing.command.code unit context = .error fault := decided
      rw [List.nil_append, generateStatements, List.map_cons, Statement.captioned, generate,
        failed]
      rfl
  | cons statement front ih =>
      obtain ⟨here, behind⟩ := List.forall_mem_cons.mp hfront
      obtain ⟨block, made⟩ := Command.fault?_eq_none_iff.mp here
      rw [List.cons_append, reached_cons made, ih behind]
      rfl

/-- Where everything has code, everything is reached. -/
theorem reached_of_code (h : (generateStatements unit context statements).result = .ok code) :
    (∀ statement ∈ statements, statement.command.fault? = none) ∧
      (generateStatements unit context statements).reached =
        statements.map Statement.text := by
  induction statements generalizing context code with
  | nil => exact ⟨fun _ member => absurd member List.not_mem_nil, rfl⟩
  | cons statement rest ih =>
      obtain ⟨block, following, made, hrest, -⟩ := generate_cons_eq_ok.mp h
      obtain ⟨noFault, reached⟩ := ih hrest
      have here := Command.fault?_eq_none_iff.mpr ⟨block, made⟩
      refine ⟨List.forall_mem_cons.mpr ⟨here, noFault⟩, ?_⟩
      rw [reached_cons made]
      exact congrArg (statement.text :: ·) reached

end Reached

/-! ## What is counted -/

/-- The numbers of a context are those of the commands that have code. -/
structure Context.Counts (context : Context) (generated : List Command) : Prop where
  comparisons : context.comparisons = generated.countP Command.isComparison
  callSites : context.callSites = generated.countP Command.isCall

theorem Context.Counts.behind {context : Context} {generated : List Command}
    (h : context.Counts generated) (commands : List Command) :
    (context.behind commands).Counts (generated ++ commands) := by
  rw [behind_eq_counted]
  constructor
  · rw [List.countP_append, ← h.comparisons]
    rfl
  · rw [List.countP_append, ← h.callSites]
    rfl

/-! ## What is logged -/

/-- The messages for what happens while a unit is added. -/
def Added.messages (added : Added) : List String := added.events.map Event.render

theorem render_reached (unit : String) (statement : Statement) :
    (Event.reached unit statement.text).render = reachedMessage unit statement := by
  have level : "TRACE" ++ " " = "TRACE " := by decide
  show "TRACE" ++ " " ++ (unit ++ ": " ++ statement.text) = "TRACE " ++ unit ++ ": " ++ _
  rw [level]
  simp only [String.append_assoc]

theorem render_added {context : Context} {generated : List Command}
    (h : context.Counts generated) (unit : String) (statements : List Statement) :
    (Event.added unit statements.length context.comparisons context.callSites).render =
      addedMessage unit statements generated := by
  have level : "DEBUG" ++ " " ++ "translated unit " = "DEBUG translated unit " := by decide
  rw [h.comparisons, h.callSites]
  show "DEBUG" ++ " " ++ ("translated unit " ++ unit ++ _ ++ _ ++ _ ++ _ ++ _ ++ _ ++ _) =
    "DEBUG translated unit " ++ unit ++ _ ++ _ ++ _ ++ _ ++ _ ++ _ ++ _
  rw [← level]
  simp only [String.append_assoc]

theorem render_map_reached (unit : String) (statements : List Statement) :
    ((statements.map Statement.text).map (Event.reached unit)).map Event.render =
      statements.map (reachedMessage unit) := by
  rw [List.map_map, List.map_map]
  exact List.map_congr_left fun statement _ => render_reached unit statement

section Unit

variable {run : Run} {unit source : String} {statements : List Statement}
  {generated : List Command}

theorem events_of_error {error : CommandError} (hread : Source.statements source = .ok statements)
    (failed : (generateStatements unit run.context statements).result = .error error) :
    (run.add unit source).events =
      (generateStatements unit run.context statements).reached.map (.reached unit) := by
  rw [Run.add, hread]
  simp only [failed]

theorem events_of_code {code : Code} (hread : Source.statements source = .ok statements)
    (hcode : (generateStatements unit run.context statements).result = .ok code) :
    (run.add unit source).events =
      (generateStatements unit run.context statements).reached.map (.reached unit) ++
        [.added unit statements.length
          (run.context.behind (statements.map Statement.command)).comparisons
          (run.context.behind (statements.map Statement.command)).callSites] := by
  rw [Run.add, hread]
  simp only [hcode, context_of_generateStatements hcode]

/-- **One unit.** What a unit leaves in the log is up to it and to the commands that have code
before it. -/
theorem exists_logs (run : Run) (unit source : String) (h : run.context.Counts generated) :
    ∃ next, (run.add unit source).run.context.Counts next ∧
      Logs generated unit source (run.add unit source).result (run.add unit source).messages
        next := by
  obtain ⟨outcome, last, settles⟩ := exists_settles run.context unit source
  obtain ⟨result, behind⟩ := settles.add run
  have context : (run.add unit source).run.context = last := by rw [behind]
  rw [result, context, Added.messages]
  cases settles with
  | unread hread =>
      have events : (run.add unit source).events = [] := by rw [Run.add, hread]
      refine ⟨generated, h, ?_⟩
      rw [events]
      exact .unread hread
  | inexpressible hread hfront hfault =>
      obtain ⟨failed, -⟩ := generate_map_of_fault unit run.context Statement.captioned
        (fun _ => rfl) hfront hfault _
      refine ⟨_, h.behind _, ?_⟩
      rw [events_of_error hread failed, reached_of_fault hfront hfault, render_map_reached]
      exact .stopped hread hfront hfault
  | @made statements code hread hcode =>
      obtain ⟨noFault, reached⟩ := reached_of_code hcode
      have counts := h.behind (statements.map Statement.command)
      refine ⟨_, counts, ?_⟩
      rw [events_of_code hread hcode, reached, List.map_append, render_map_reached,
        List.map_singleton, render_added counts]
      exact .completed hread noFault

end Unit

/-! ## Units in a row -/

/-- What becomes of units that are added to a run, whether or not those before have failed. -/
def Run.additions (run : Run) : List (String × String) → List Added
  | [] => []
  | (unit, source) :: rest =>
    let here := run.add unit source
    here :: here.run.additions rest

/-- Every unit goes on from the commands that the units in front of it gave code. -/
theorem logEach_additions {generated : List Command} (run : Run)
    (h : run.context.Counts generated) (units : List (String × String)) :
    LogEach generated units
      ((run.additions units).map fun added => (added.result, added.messages)) := by
  induction units generalizing run generated with
  | nil => exact .nil generated
  | cons head rest ih =>
      obtain ⟨unit, source⟩ := head
      obtain ⟨next, counts, here⟩ := exists_logs run unit source h
      exact .cons here (ih _ counts)

/-- **The log accounts for the commands.** Of units that are added to a new run, each leaves
messages for its statements up to the first whose command has no code, and if all have code, one
more with their number and with those of the comparisons and the calls that have code in the run so
far. -/
theorem log_accounts_for_commands (bootstrap : Option Bootstrap) (units : List (String × String)) :
    (∀ (command : Command) (unit : String) (context : Context),
      command.fault? = none ↔ ∃ code, command.code unit context = .ok code) ∧
    LogEach [] units
      (((Run.start bootstrap).additions units).map fun added =>
        (added.result, added.messages)) :=
  ⟨fun _ _ _ => Command.fault?_eq_none_iff,
    logEach_additions (Run.start bootstrap) ⟨rfl, rfl⟩ units⟩

end StackToHack
