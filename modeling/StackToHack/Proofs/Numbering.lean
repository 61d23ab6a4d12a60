import Mathlib.Data.List.Nodup
import StackToHack.Proofs.Additions
import StackToHack.Proofs.SymbolText

/-!
# Numbered symbols through the life of a context

Comparisons and calls define symbols of their own and jump to them. What keeps these symbols apart
is the number in each of them, which the context counts on (`Context.HasIssued`): a number is given
out once, whatever is made in between, for whichever unit, and whether or not it succeeds.

Symbols that were made between two contexts are apart from all that were made before the first or
behind the second (`Issued`); that property is put together along commands, then units, then whole
sessions.
-/

namespace StackToHack

open Hack

/-! ## Numbers that a context has given out -/

/-- The number was given out before. -/
def Context.HasIssued (context : Context) : Serial → Prop
  | .comparison number => number < context.comparisons
  | .call site => site < context.callSites

/-- The number that a command takes, if it takes one. -/
def Command.serial? (context : Context) : Command → Option Serial
  | .operate (.comparison _) => some (.comparison context.comparisons)
  | .call _ _ => some (.call context.callSites)
  | _ => none

theorem Context.le_after (context : Context) (command : Command) :
    context.comparisons ≤ (context.after command).comparisons ∧
      context.callSites ≤ (context.after command).callSites := by
  unfold Context.after
  split <;> constructor <;> first | exact Nat.le_refl _ | exact Nat.le_succ _

/-- What was given out stays given out. -/
theorem Context.HasIssued.after {context : Context} {serial : Serial}
    (h : context.HasIssued serial) (command : Command) :
    (context.after command).HasIssued serial := by
  obtain ⟨comparisons, callSites⟩ := context.le_after command
  cases serial with
  | comparison number => exact Nat.lt_of_lt_of_le h comparisons
  | call site => exact Nat.lt_of_lt_of_le h callSites

/-- The number of a command is new in front of it and given out behind it. -/
theorem Command.issues_serial {context : Context} {command : Command} {serial : Serial}
    (h : command.serial? context = some serial) :
    ¬context.HasIssued serial ∧ (context.after command).HasIssued serial := by
  unfold Command.serial? at h
  split at h <;> cases h
  · exact ⟨Nat.lt_irrefl _, Nat.lt_succ_self _⟩
  · exact ⟨Nat.lt_irrefl _, Nat.lt_succ_self _⟩

/-- Symbols with pairwise different texts, whose numbers were given out between two contexts. -/
structure Issued (first last : Context) (symbols : List Symbol) : Prop where
  grows : ∀ serial, first.HasIssued serial → last.HasIssued serial
  between : ∀ symbol ∈ symbols, ∃ serial, symbol.serial? = some serial ∧
    ¬first.HasIssued serial ∧ last.HasIssued serial
  nodup : (symbols.map Symbol.text).Nodup

namespace Issued

variable {first second last : Context} {earlier later : List Symbol}

theorem none (grows : ∀ serial, first.HasIssued serial → last.HasIssued serial) :
    Issued first last [] :=
  ⟨grows, fun _ h => absurd h List.not_mem_nil, List.nodup_nil⟩

/-- What was made later has none of the texts of what was made earlier. -/
theorem append (h : Issued first second earlier) (k : Issued second last later) :
    Issued first last (earlier ++ later) where
  grows serial issued := k.grows serial (h.grows serial issued)
  between symbol member := by
    rcases List.mem_append.mp member with member | member
    · obtain ⟨serial, hserial, new, given⟩ := h.between symbol member
      exact ⟨serial, hserial, new, k.grows serial given⟩
    · obtain ⟨serial, hserial, new, given⟩ := k.between symbol member
      exact ⟨serial, hserial, fun old => new (h.grows serial old), given⟩
  nodup := by
    rw [List.map_append]
    refine List.nodup_append.mpr ⟨h.nodup, k.nodup, ?_⟩
    intro text inEarlier text' inLater same
    obtain ⟨s, hs, rfl⟩ := List.mem_map.mp inEarlier
    obtain ⟨t, ht, rfl⟩ := List.mem_map.mp inLater
    obtain ⟨a, ha, -, given⟩ := h.between s hs
    obtain ⟨b, hb, new, -⟩ := k.between t ht
    -- one text means one number, which would be given out already and still be new
    have serials : a = b := Symbol.serial_eq_of_text_eq ha hb same
    exact new (serials ▸ given)

end Issued

/-! ## Commands -/

/-- A command takes a number: its code jumps within itself, or is jumped back to. -/
def Command.isNumbered : Command → Bool
  | .operate (.comparison _) | .call _ _ => true
  | _ => false

theorem Command.isNumbered_iff {context : Context} {command : Command} :
    command.isNumbered = true ↔ ∃ serial, command.serial? context = some serial := by
  cases command with
  | operate op => cases op <;> simp [isNumbered, serial?]
  | _ => simp [isNumbered, serial?]

/-- A command with the code it was given, and the text in front of that code. -/
structure Block where
  text : String
  command : Command
  code : Code

namespace Block

def lines (block : Block) : Code := .comment block.text :: block.code

/-- The block was made, for some unit and in some context. -/
def Made (block : Block) : Prop :=
  ∃ unit context, block.command.code unit context = .ok block.code

/-- The symbols that a block defines if it is the block of a comparison or of a call. -/
def numbered (block : Block) : List Symbol :=
  if block.command.isNumbered then marks block.code else []

end Block

section Command

variable {unit : String} {context : Context} {command : Command}

theorem Command.serial_of_mem_marks {serial : Serial}
    (h : command.serial? context = some serial) :
    ∀ symbol ∈ command.marks unit context, symbol.serial? = some serial := by
  unfold Command.serial? at h
  split at h <;> cases h
  · simp [Command.marks, Symbol.serial?]
  · simp [Command.marks, Symbol.serial?]

/-- The three symbols of a comparison have three texts, and a call has one symbol only. -/
theorem Command.nodup_marks {serial : Serial} (h : command.serial? context = some serial) :
    ((command.marks unit context).map Symbol.text).Nodup := by
  have arms : ∀ {arm other : Arm} {number : Nat}, arm ≠ other →
      (Symbol.comparison arm number).text ≠ (Symbol.comparison other number).text :=
    fun ne same => ne (Symbol.comparison_eq_of_text_eq same).1
  unfold Command.serial? at h
  split at h <;> cases h
  · simp [Command.marks, arms]
  · simp [Command.marks]

/-- What a block defines is new. -/
theorem issued_block (block : Block)
    (h : block.command.code unit context = .ok block.code) :
    Issued context (context.after block.command) block.numbered := by
  have grows : ∀ serial, context.HasIssued serial →
      (context.after block.command).HasIssued serial := fun _ issued => issued.after _
  rw [Block.numbered]
  split
  · next hnumbered =>
      obtain ⟨serial, hserial⟩ := Command.isNumbered_iff.mp hnumbered
      rw [marks_of_code_eq_ok h]
      refine ⟨grows, ?_, Command.nodup_marks hserial⟩
      intro symbol member
      exact ⟨serial, Command.serial_of_mem_marks hserial symbol member,
        Command.issues_serial hserial⟩
  · exact .none grows

/-- The numbered symbols that a command loads: the ways of a comparison, and the address that a
call is returned to. -/
def Command.ways (unit : String) (context : Context) : Command → List Symbol
  | .operate (.comparison _) =>
    [.comparison .whenTrue context.comparisons, .comparison .done context.comparisons]
  | .call name _ => [.returnSite unit name context.callSites]
  | _ => []

theorem Command.ways_of_code_eq_ok {code : Code} (h : command.code unit context = .ok code)
    (hnumbered : command.isNumbered = true) :
    (loads code).filter (·.serial?.isSome) = command.ways unit context := by
  have made := Command.code_eq_ok h
  cases command with
  | operate op =>
      obtain rfl : code = Code.operation context.comparisons op := made
      cases op with
      | comparison op => rfl
      | _ => simp [Command.isNumbered] at hnumbered
  | call name args =>
      obtain ⟨count, rfl, -⟩ := made
      rfl
  | _ => simp [Command.isNumbered] at hnumbered

theorem Command.mem_marks_of_mem_ways {symbol : Symbol} (h : symbol ∈ command.ways unit context) :
    symbol ∈ command.marks unit context := by
  unfold Command.ways at h
  split at h
  · simp only [List.mem_cons, List.not_mem_nil, or_false] at h
    rcases h with rfl | rfl <;> simp [Command.marks]
  · exact h
  · exact absurd h List.not_mem_nil

/-- A block that takes a number defines, exactly once, every numbered symbol that it loads. -/
theorem count_text_of_mem_loads {block : Block}
    (h : block.command.code unit context = .ok block.code)
    (hnumbered : block.command.isNumbered = true) {symbol : Symbol}
    (loaded : symbol ∈ loads block.code) (hserial : symbol.serial?.isSome = true) :
    ((marks block.code).map Symbol.text).count symbol.text = 1 := by
  obtain ⟨serial, taken⟩ := Command.isNumbered_iff.mp hnumbered
  have member : symbol ∈ block.command.ways unit context := by
    rw [← Command.ways_of_code_eq_ok h hnumbered]
    exact List.mem_filter.mpr ⟨loaded, hserial⟩
  rw [marks_of_code_eq_ok h]
  exact List.count_eq_one_of_mem (Command.nodup_marks taken)
    (List.mem_map_of_mem (Command.mem_marks_of_mem_ways member))

end Command

/-! ## Units -/

section Unit

variable {unit : String} {context : Context}

theorem Context.HasIssued.generate {serial : Serial} (h : context.HasIssued serial)
    (commands : List Captioned) : (generate unit context commands).context.HasIssued serial := by
  induction commands generalizing context with
  | nil => exact h
  | cons captioned rest ih =>
      obtain ⟨text, command⟩ := captioned
      rw [StackToHack.generate]
      cases command.code unit context with
      | error fault => exact h
      | ok code => exact ih (h.after command)

/-- The code of a unit is made of blocks, and what they define is new. -/
theorem exists_blocks_of_generate {commands : List Captioned} {code : Code}
    (h : (generate unit context commands).result = .ok code) :
    ∃ blocks : List Block, code = blocks.flatMap Block.lines ∧ (∀ block ∈ blocks, block.Made) ∧
      Issued context (generate unit context commands).context (blocks.flatMap Block.numbered) := by
  rw [context_of_generate_eq_ok h]
  induction commands generalizing context code with
  | nil =>
      obtain rfl : [] = code := Except.ok.inj h
      exact ⟨[], rfl, fun _ h => absurd h List.not_mem_nil, .none fun _ issued => issued⟩
  | cons captioned rest ih =>
      obtain ⟨text, command⟩ := captioned
      obtain ⟨made, following, hmade, hfollowing, rfl⟩ := generate_cons_eq_ok.mp h
      obtain ⟨blocks, rfl, hblocks, hissued⟩ := ih hfollowing
      refine ⟨{ text, command, code := made } :: blocks, rfl, ?_, ?_⟩
      · intro block member
        rcases List.mem_cons.mp member with rfl | member
        · exact ⟨unit, context, hmade⟩
        · exact hblocks block member
      · exact (issued_block ⟨text, command, made⟩ hmade).append hissued

end Unit

/-! ## Sessions -/

/-- One use of a context: commands under their canonical spelling, commands that were read, or a
source that is read and added to a run. -/
inductive Job
  | canonical (unit : String) (commands : List Command)
  | verbatim (unit : String) (statements : List Statement)
  | read (unit source : String)

/-- The code of a job, if it succeeds, and the context behind it in any case. -/
def Job.perform (context : Context) : Job → Option Code × Context
  | .canonical unit commands =>
    let generation := generateCommands unit context commands
    (generation.result.toOption, generation.context)
  | .verbatim unit statements =>
    let generation := generateStatements unit context statements
    (generation.result.toOption, generation.context)
  | .read unit source =>
    let added := Run.add { context } unit source
    (added.result.toOption.map fun _ => added.run.code, added.run.context)

/-- Whatever a run holds already, what it adds is what the job makes. -/
theorem Run.add_run (run : Run) (unit source : String) :
    (run.add unit source).run =
      { run with
        context := ((Job.read unit source).perform run.context).2
        code := run.code ++ ((Job.read unit source).perform run.context).1.getD [] } := by
  simp only [Job.perform, Run.add]
  cases Source.statements source with
  | error error => simp [Except.toOption]
  | ok statements =>
      dsimp only
      cases (generateStatements unit run.context statements).result with
      | error error => simp [Except.toOption]
      | ok code => simp [Except.toOption]

/-- The codes of the jobs that succeed, each done in the context that the one before left. -/
def outputs (context : Context) : List Job → List Code
  | [] => []
  | job :: rest => (job.perform context).1.toList ++ outputs (job.perform context).2 rest

/-- Units that are added to a run, whether or not some of them fail, are a session of jobs that read
them, and what the jobs make goes behind the code that the run holds already. -/
theorem Run.code_addEach (run : Run) (units : List (String × String)) :
    (run.addEach units).2.code =
      run.code ++ (outputs run.context (units.map fun unit => .read unit.1 unit.2)).flatten := by
  induction units generalizing run with
  | nil => simp [addEach, outputs]
  | cons unit rest ih =>
      rw [addEach, ih, add_run, List.map_cons, outputs, List.flatten_append, List.append_assoc]
      cases ((Job.read unit.1 unit.2).perform run.context).1 <;> simp

/-- Every job is the generation of some commands; those of a source that cannot be read are
none. -/
theorem Job.perform_eq_generate (context : Context) (job : Job) :
    ∃ unit commands, (job.perform context).2 = (generate unit context commands).context ∧
      ∀ code, (job.perform context).1 = some code →
        (generate unit context commands).result = .ok code := by
  have toOption : ∀ {result : Except CommandError Code} {code : Code},
      result.toOption = some code → result = .ok code := by
    intro result code h
    cases result with
    | error error => cases h
    | ok made =>
        obtain rfl : made = code := Option.some.inj h
        rfl
  cases job with
  | canonical unit commands => exact ⟨unit, _, rfl, fun code h => toOption h⟩
  | verbatim unit statements => exact ⟨unit, _, rfl, fun code h => toOption h⟩
  | read unit source =>
      simp only [perform, Run.add]
      cases Source.statements source with
      | error error => exact ⟨unit, [], rfl, fun code h => by cases h⟩
      | ok statements =>
          refine ⟨unit, statements.map Statement.captioned, ?_⟩
          dsimp only
          cases hresult : (generateStatements unit context statements).result with
          | error error => exact ⟨rfl, fun code h => by cases h⟩
          | ok made =>
              refine ⟨rfl, fun code h => ?_⟩
              obtain rfl : made = code := Option.some.inj h
              exact hresult

theorem exists_blocks_of_outputs (context : Context) (jobs : List Job) :
    ∃ units : List (List Block), outputs context jobs = units.map (·.flatMap Block.lines) ∧
      (∀ block ∈ units.flatten, block.Made) ∧
      ∃ last, Issued context last (units.flatten.flatMap Block.numbered) := by
  induction jobs generalizing context with
  | nil =>
      exact ⟨[], rfl, fun _ h => absurd h List.not_mem_nil, context, .none fun _ issued => issued⟩
  | cons job rest ih =>
      obtain ⟨units, houtputs, hmade, last, hissued⟩ := ih (job.perform context).2
      obtain ⟨unit, commands, hcontext, hresult⟩ := job.perform_eq_generate context
      rw [outputs, houtputs]
      cases hcode : (job.perform context).1 with
      | none =>
          -- a job that fails adds no code, but numbers it took are gone
          have grows : ∀ serial, context.HasIssued serial →
              (job.perform context).2.HasIssued serial :=
            fun serial issued => hcontext ▸ issued.generate commands
          exact ⟨units, rfl, hmade, last, (Issued.none grows).append hissued⟩
      | some code =>
          obtain ⟨blocks, rfl, hblocks, hnew⟩ := exists_blocks_of_generate (hresult code hcode)
          rw [← hcontext] at hnew
          refine ⟨blocks :: units, rfl, ?_, last, ?_⟩
          · intro block member
            rw [List.flatten_cons, List.mem_append] at member
            exact member.elim (hblocks block) (hmade block)
          · rw [List.flatten_cons, List.flatMap_append]
            exact hnew.append hissued

/-- **Numbered symbols never repeat.** Take the code of all jobs of a session apart into the blocks
of its commands: what the blocks of comparisons and calls define has pairwise different texts, and
each of them defines, exactly once, the numbered symbols that it loads. -/
theorem numbered_symbols_distinct (context : Context) (jobs : List Job) :
    ∃ units : List (List Block), outputs context jobs = units.map (·.flatMap Block.lines) ∧
      (∀ block ∈ units.flatten, block.Made) ∧
      ((units.flatten.flatMap Block.numbered).map Symbol.text).Nodup ∧
      ∀ block ∈ units.flatten, block.command.isNumbered = true →
        ∀ symbol ∈ loads block.code, symbol.serial?.isSome = true →
          ((marks block.code).map Symbol.text).count symbol.text = 1 := by
  obtain ⟨units, houtputs, hmade, last, hissued⟩ := exists_blocks_of_outputs context jobs
  refine ⟨units, houtputs, hmade, hissued.nodup, ?_⟩
  intro block member hnumbered symbol loaded hserial
  obtain ⟨unit, made, hcode⟩ := hmade block member
  exact count_text_of_mem_loads hcode hnumbered loaded hserial

end StackToHack
