import StackToHack.Proofs.Machine.Listing
import StackToHack.Proofs.Numbering
import StackToHack.Proofs.RoundTrip
import StackToHack.Proofs.Spelling

/-!
# Commands where they stand

A program is its commands in a row, each with the unit that it stands in and the context that the
commands before it left, whichever units those stand in. What the text of a run defines can be read
off them: the marks of the commands, one after the other (`definedIn_compile`).
-/

namespace StackToHack

open Hack

/-! ## Occurrences -/

/-- A command with the unit that it stands in and the context in front of it. -/
structure Occurrence where
  unit : String
  context : Context
  command : Command

/-- Commands of units with the contexts that they are met in. -/
def occurrences (context : Context) : List (String × Command) → List Occurrence
  | [] => []
  | (unit, command) :: rest =>
    { unit, context, command } :: occurrences (context.after command) rest

theorem occurrences_append (context : Context) (front back : List (String × Command)) :
    occurrences context (front ++ back) =
      occurrences context front ++ occurrences (context.behind (front.map Prod.snd)) back := by
  induction front generalizing context with
  | nil => rfl
  | cons head front ih =>
      rw [List.cons_append, occurrences, ih]
      rfl

/-- The commands of sources, each with its unit. A source that cannot be read has none. -/
def commandsOf : List (String × String) → List (String × Command)
  | [] => []
  | (unit, source) :: rest =>
    match Source.commands source with
    | .ok commands => commands.map (unit, ·) ++ commandsOf rest
    | .error _ => commandsOf rest

/-- The commands of a whole program. -/
def program (units : List (String × String)) : List Occurrence :=
  occurrences .fresh (commandsOf units)

namespace Occurrence

variable {context : Context} {commands : List (String × Command)} {occurrence : Occurrence}

/-- What is defined here. -/
def marks (occurrence : Occurrence) : List Symbol :=
  occurrence.command.marks occurrence.unit occurrence.context

/-- The number that is given out here. -/
def serial? (occurrence : Occurrence) : Option Serial :=
  occurrence.command.serial? occurrence.context

/-- All names that a command and its place bring along are names. -/
structure Named (occurrence : Occurrence) : Prop where
  unit : Name.IsName occurrence.unit
  function : ∀ f ∈ occurrence.context.function, Name.IsName f
  command : occurrence.command.WellNamed

theorem named_of_mem (inside : ∀ f ∈ context.function, Name.IsName f)
    (named : ∀ entry ∈ commands, Name.IsName entry.1 ∧ entry.2.WellNamed)
    (h : occurrence ∈ occurrences context commands) : occurrence.Named := by
  induction commands generalizing context with
  | nil => exact absurd h List.not_mem_nil
  | cons entry rest ih =>
      obtain ⟨unitNamed, commandNamed⟩ := named entry (List.mem_cons_self ..)
      rw [occurrences] at h
      rcases List.mem_cons.mp h with rfl | h
      · exact ⟨unitNamed, inside, commandNamed⟩
      · exact ih (Context.isName_function_after commandNamed inside)
          (fun e he => named e (List.mem_cons_of_mem _ he)) h

theorem Named.symbol (named : occurrence.Named) {symbol : Symbol} (h : symbol ∈ occurrence.marks) :
    symbol.Named := by
  obtain ⟨unit, context, command⟩ := occurrence
  obtain ⟨hunit, hfunction, hcommand⟩ := named
  have hname : ∀ name ∈ command.names, Name.IsName name := hcommand
  cases command with
  | operate op =>
      cases op with
      | comparison op =>
          simp only [marks, Command.marks, List.mem_cons, List.not_mem_nil, or_false] at h
          rcases h with rfl | rfl | rfl <;> trivial
      | _ => exact absurd h List.not_mem_nil
  | label name =>
      obtain rfl := List.mem_singleton.mp h
      exact Symbol.named_target hunit hfunction (hname name (List.mem_singleton_self _))
  | function name locals =>
      have proper := hname name (List.mem_singleton_self _)
      simp only [marks, Command.marks, List.mem_cons, List.not_mem_nil, or_false] at h
      rcases h with rfl | rfl | rfl | rfl
      · exact ⟨hunit, proper⟩
      · exact proper
      · exact ⟨hunit, proper⟩
      · exact ⟨hunit, proper⟩
  | call name args =>
      obtain rfl := List.mem_singleton.mp h
      exact ⟨hunit, hname name (List.mem_singleton_self _)⟩
  | _ => exact absurd h List.not_mem_nil

/-! ## Numbers of occurrences -/

theorem hasIssued_of_mem {serial : Serial} (issued : context.HasIssued serial)
    (h : occurrence ∈ occurrences context commands) : occurrence.context.HasIssued serial := by
  induction commands generalizing context with
  | nil => exact absurd h List.not_mem_nil
  | cons entry rest ih =>
      rw [occurrences] at h
      rcases List.mem_cons.mp h with rfl | h
      · exact issued
      · exact ih (issued.after _) h

/-- No number is given out twice. -/
theorem pairwise_serial (context : Context) (commands : List (String × Command)) :
    (occurrences context commands).Pairwise fun earlier later =>
      ∀ serial, earlier.serial? = some serial → later.serial? ≠ some serial := by
  induction commands generalizing context with
  | nil => exact List.Pairwise.nil
  | cons entry rest ih =>
      refine List.pairwise_cons.mpr ⟨?_, ih _⟩
      intro later member serial first second
      have given := hasIssued_of_mem (Command.issues_serial first).2 member
      exact (Command.issues_serial second).1 given

end Occurrence

/-! ## What the code of a program defines -/

/-- The symbols that the commands of a program define, in order. -/
def symbolsOf (program : List Occurrence) : List Symbol := program.flatMap Occurrence.marks

theorem symbolsOf_append (front back : List Occurrence) :
    symbolsOf (front ++ back) = symbolsOf front ++ symbolsOf back := List.flatMap_append

theorem marks_of_generate {unit : String} {context : Context} {commands : List Captioned}
    {code : Code} (h : (generate unit context commands).result = .ok code) :
    marks code = symbolsOf (occurrences context
      (commands.map fun captioned => (unit, captioned.command))) := by
  induction commands generalizing context code with
  | nil =>
      obtain rfl : [] = code := Except.ok.inj h
      rfl
  | cons captioned rest ih =>
      obtain ⟨block, following, hblock, hfollowing, rfl⟩ := generate_cons_eq_ok.mp h
      rw [List.cons_append, marks_comment, marks_append, marks_of_code_eq_ok hblock, ih hfollowing]
      rfl

/-! ## What text defines -/

/-- The symbol in parentheses, if a line consists of that. -/
def definedBy? : List Char → Option String
  | '(' :: cs => if cs.getLast? = some ')' then some (String.ofList cs.dropLast) else none
  | _ => none

/-- The symbols that the lines of a text define. -/
def definedIn (text : String) : List String := (Text.lines text.toList).filterMap definedBy?

/-- The lines of code are lines of a text. -/
def OneLined (code : Code) : Prop := ∀ line ∈ code, '\n' ∉ line.text.toList

theorem oneLined_of_readable {code : Code} (h : Readable code) : OneLined code :=
  fun line member => newline_not_mem_text (h line member)

theorem definedBy?_text (line : Line) :
    definedBy? line.text.toList =
      match line with
      | .mark symbol => some symbol.text
      | _ => none := by
  cases line with
  | mark symbol => simp [Line.text, definedBy?]
  | comment text => simp [Line.text, definedBy?]
  | number value => simp [Line.text, definedBy?]
  | symbol symbol => simp [Line.text, definedBy?]
  | compute dest comp jump =>
      have mnemonic := all_isMnemonic_text dest comp jump
      have notOpening : isMnemonic '(' = false := by decide
      unfold definedBy?
      split
      · next cs text => simp [text, notOpening] at mnemonic
      · rfl

/-- The text of code defines what the code defines. -/
theorem definedIn_render {code : Code} (h : OneLined code) :
    definedIn (render code) = (marks code).map Symbol.text := by
  induction code with
  | nil => rfl
  | cons line code ih =>
      have rest := ih fun l hl => h l (List.mem_cons_of_mem _ hl)
      have newline : (line.text ++ "\n" ++ render code).toList =
          line.text.toList ++ '\n' :: (render code).toList := by
        simp
      rw [definedIn] at rest
      rw [definedIn, render_cons, newline, Text.lines_append_newline,
        Text.lines_of_not_mem (h line (List.mem_cons_self ..)), List.singleton_append,
        List.filterMap_cons, definedBy?_text, rest]
      cases line <;> rfl

/-! ## What runs define -/

/-- The texts of statements are parts of lines. -/
theorem newline_not_mem_of_statementsFrom {number : Nat} {lines : List (List Char)}
    {read : List Statement} (noNewline : ∀ line ∈ lines, '\n' ∉ line)
    (h : Source.statementsFrom number lines = .ok read) :
    ∀ statement ∈ read, '\n' ∉ statement.text.toList := by
  induction lines generalizing number read with
  | nil =>
      obtain rfl : [] = read := Except.ok.inj h
      exact fun _ member => absurd member List.not_mem_nil
  | cons line rest ih =>
      have here := noNewline line (List.mem_cons_self ..)
      have behind := fun l hl => noNewline l (List.mem_cons_of_mem _ hl)
      rw [Source.statementsFrom] at h
      split at h
      · exact ih behind h
      · split at h
        · cases h
        · obtain ⟨others, hothers, rfl⟩ := map_eq_ok.mp h
          refine List.forall_mem_cons.mpr ⟨?_, ih behind hothers⟩
          rw [String.toList_ofList]
          exact fun member => here ((Text.strip_sublist line).subset member)

theorem newline_not_mem_of_statements {source : String} {read : List Statement}
    (h : Source.statements source = .ok read) :
    ∀ statement ∈ read, '\n' ∉ statement.text.toList :=
  newline_not_mem_of_statementsFrom (fun _ member => Text.not_mem_of_mem_lines member)
    ((Source.statements_eq source).symm.trans h)

theorem Context.isName_function_behind {context : Context} {commands : List Command}
    (named : ∀ command ∈ commands, command.WellNamed)
    (inside : ∀ f ∈ context.function, Name.IsName f) :
    ∀ f ∈ (context.behind commands).function, Name.IsName f := by
  induction commands generalizing context with
  | nil => exact inside
  | cons command rest ih =>
      exact ih (fun c hc => named c (List.mem_cons_of_mem _ hc))
        (isName_function_after (named command (List.mem_cons_self ..)) inside)

/-- The code of statements that were read is made line by line. -/
theorem oneLined_of_generateStatements {unit source : String} {context : Context}
    {statements : List Statement} {code : Code} (unitNamed : Name.IsName unit)
    (inside : ∀ f ∈ context.function, Name.IsName f)
    (hread : Source.statements source = .ok statements)
    (hcode : (generateStatements unit context statements).result = .ok code) : OneLined code := by
  have wellNamed := Source.wellNamed_of_statementsFrom hread
  have noNewline := newline_not_mem_of_statements hread
  refine oneLined_of_readable (readable_of_generate unitNamed inside ?_ ?_ hcode)
  · intro captioned member
    obtain ⟨statement, inRead, rfl⟩ := List.mem_map.mp member
    exact noNewline statement inRead
  · intro captioned member
    obtain ⟨statement, inRead, rfl⟩ := List.mem_map.mp member
    exact wellNamed statement inRead

namespace Run

/-- A run has gone on by commands: it has more code, made line by line, which defines what these
commands do. -/
structure GoneOn (run : Run) (commands : List (String × Command)) (behind : Run) : Prop where
  bootstrap : behind.bootstrap = run.bootstrap
  context : behind.context = run.context.behind (commands.map Prod.snd)
  code : ∃ code, behind.code = run.code ++ code ∧ OneLined code ∧
    marks code = symbolsOf (occurrences run.context commands)

theorem GoneOn.nil (run : Run) : run.GoneOn [] run :=
  ⟨rfl, rfl, [], (List.append_nil _).symm, fun _ member => absurd member List.not_mem_nil, rfl⟩

theorem GoneOn.append {first second last : Run} {front back : List (String × Command)}
    (h : first.GoneOn front second) (k : second.GoneOn back last) :
    first.GoneOn (front ++ back) last where
  bootstrap := k.bootstrap.trans h.bootstrap
  context := by rw [k.context, h.context, List.map_append, Context.behind_append]
  code := by
    obtain ⟨earlier, hearlier, lined, defined⟩ := h.code
    obtain ⟨later, hlater, lined', defined'⟩ := k.code
    refine ⟨earlier ++ later, ?_, List.forall_mem_append.mpr ⟨lined, lined'⟩, ?_⟩
    · rw [hlater, hearlier, List.append_assoc]
    · rw [marks_append, defined, defined', h.context, occurrences_append, symbolsOf_append]

/-- A unit that succeeds makes a run go on by its commands. -/
theorem goneOn_add {run : Run} {unit source : String} (unitNamed : Name.IsName unit)
    (inside : ∀ f ∈ run.context.function, Name.IsName f)
    (h : (run.add unit source).result = .ok ()) :
    ∃ commands, Source.commands source = .ok commands ∧
      run.GoneOn (commands.map (unit, ·)) (run.add unit source).run := by
  rw [Run.add] at h ⊢
  cases hread : Source.statements source with
  | error error =>
      rw [hread] at h
      cases h
  | ok statements =>
      simp only [hread] at h ⊢
      cases hcode : (generateStatements unit run.context statements).result with
      | error error =>
          rw [hcode] at h
          cases h
      | ok code =>
          have commands : Source.commands source = .ok (statements.map Statement.command) := by
            rw [Source.commands, hread]
            rfl
          have behind := context_of_generateStatements hcode
          have defined := marks_of_generate hcode
          rw [List.map_map] at defined
          have lined := oneLined_of_generateStatements unitNamed inside hread hcode
          refine ⟨_, commands, rfl, ?_, code, rfl, lined, ?_⟩
          · rw [List.map_map]
            simpa using behind
          · rw [List.map_map]
            exact defined

theorem goneOn_addAll {run : Run} {units : List (String × String)}
    (named : ∀ unit ∈ units, Name.IsName unit.1)
    (inside : ∀ f ∈ run.context.function, Name.IsName f)
    (h : (run.addAll units).result = .ok ()) :
    run.GoneOn (commandsOf units) (run.addAll units).run := by
  induction units generalizing run with
  | nil => exact .nil run
  | cons head units ih =>
      obtain ⟨unit, source⟩ := head
      rw [Run.addAll] at h ⊢
      cases hadded : (run.add unit source).result with
      | error error => simp [hadded] at h
      | ok done =>
          obtain ⟨commands, hread, gone⟩ :=
            goneOn_add (named _ (List.mem_cons_self ..)) inside hadded
          have wellNamed := Source.wellNamed_of_commands hread
          have insideBehind : ∀ f ∈ (run.add unit source).run.context.function, Name.IsName f := by
            rw [gone.context]
            refine Context.isName_function_behind (fun command member => ?_) inside
            rw [List.map_map] at member
            exact wellNamed command (by simpa using member)
          simp only [hadded] at h ⊢
          rw [commandsOf, hread]
          exact gone.append (ih (fun u hu => named u (List.mem_cons_of_mem _ hu)) insideBehind h)

end Run

theorem oneLined_bootstrap {bootstrap : Bootstrap} (entry : '\n' ∉ bootstrap.entry.toList) :
    OneLined bootstrap.code := by
  have digits := not_mem_toDigits (n := bootstrap.stackBase.toNat)
    (show '\n'.isDigit = false by decide)
  intro line member
  simp only [Bootstrap.code, List.mem_cons, List.not_mem_nil, or_false] at member
  rcases member with rfl | rfl | rfl | rfl | rfl | rfl | rfl
  · decide
  · simp [Line.text, digits]
  · decide
  · decide
  · decide
  · simp [Line.text, Symbol.text, entry]
  · decide

/-- **What a program defines.** The text of a program defines what its commands do, in their order,
as long as the name of its entry does not run over the end of a line. -/
theorem definedIn_compile {bootstrap : Option Bootstrap} {units : List (String × String)}
    {text : String} (entry : ∀ b ∈ bootstrap, '\n' ∉ b.entry.toList)
    (named : ∀ unit ∈ units, Name.IsName unit.1) (success : compile bootstrap units = .ok text) :
    definedIn text = (symbolsOf (program units)).map Symbol.text := by
  obtain ⟨done, hdone, rfl⟩ := map_eq_ok.mp success
  have gone := Run.goneOn_addAll named
    (show ∀ f ∈ Context.fresh.function, Name.IsName f from nofun) hdone
  obtain ⟨code, hcode, oneLined, hmarks⟩ := gone.code
  rw [Run.finish, Run.program, gone.bootstrap, hcode]
  cases bootstrap with
  | none => exact (definedIn_render oneLined).trans (congrArg _ hmarks)
  | some bootstrap =>
      have start := oneLined_bootstrap (entry bootstrap rfl)
      refine (definedIn_render (List.forall_mem_append.mpr ⟨start, oneLined⟩)).trans ?_
      rw [marks_append, hmarks]
      rfl

end StackToHack
