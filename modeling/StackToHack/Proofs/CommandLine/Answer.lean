import StackToHack.CommandLine.Report
import StackToHack.Proofs.CommandLine.Directory
import StackToHack.Proofs.CommandLine.Verdict

/-!
# Answers

A command line is answered by looking at the disk until there is a text and an output to write it
to, or a failure (`Process.prepared`). Only then is anything written, and it is written at one place
(`Process.ends_answer`). So disks on which a path stands for the same units are answered alike
(`Process.answer_congr`).

All of this is about a process and the disk that it sees. Every lawful host answers as its process
does on the disk in view (`Host.Lawful.answer`).
-/

namespace StackToHack

variable {σ : Type} {view : σ → Disk} {host : Host (StateM σ)} {process : Process}
  {disk other : Disk} {location : Location} {path : String} {options : Options}

/-! ## Sources -/

/-- What a path can stand for: itself, if it is no directory, or the files of units in a directory,
or nothing since these cannot be found or the directory has no name. -/
inductive Process.StandsFor (process : Process) (disk : Disk) (path : String) :
    Except Failure Sources → Prop
  | file (other : process.isDirectory disk path = false) :
      StandsFor process disk path (.ok (.ofFile path))
  | unlisted {failure : Failure} (isDirectory : process.isDirectory disk path = true)
      (listed : process.listUnits disk path = .error failure) :
      StandsFor process disk path (.error failure)
  | empty (isDirectory : process.isDirectory disk path = true)
      (listed : process.listUnits disk path = .ok []) :
      StandsFor process disk path (.error (.noUnits path))
  | unresolved {units : List String} {error : FileError}
      (isDirectory : process.isDirectory disk path = true)
      (listed : process.listUnits disk path = .ok units) (some : units ≠ [])
      (named : process.directoryName disk path = .error error) :
      StandsFor process disk path (.error (.system error))
  | nameless {units : List String} (isDirectory : process.isDirectory disk path = true)
      (listed : process.listUnits disk path = .ok units) (some : units ≠ [])
      (named : process.directoryName disk path = .ok none) :
      StandsFor process disk path (.error (.nameless path))
  | directory {units : List String} {name : String}
      (isDirectory : process.isDirectory disk path = true)
      (listed : process.listUnits disk path = .ok units) (some : units ≠ [])
      (named : process.directoryName disk path = .ok (.some name)) :
      StandsFor process disk path (.ok (.inDirectory path name units))

namespace Process

theorem exists_standsFor (process : Process) (disk : Disk) (path : String) :
    ∃ result, process.StandsFor disk path result := by
  cases isDirectory : process.isDirectory disk path with
  | false => exact ⟨_, .file isDirectory⟩
  | true =>
      cases listed : process.listUnits disk path with
      | error failure => exact ⟨_, .unlisted isDirectory listed⟩
      | ok units =>
          by_cases some : units = []
          · subst some
            exact ⟨_, .empty isDirectory listed⟩
          · cases named : process.directoryName disk path with
            | error error => exact ⟨_, .unresolved isDirectory listed some named⟩
            | ok name? =>
                cases name? with
                | none => exact ⟨_, .nameless isDirectory listed some named⟩
                | some name => exact ⟨_, .directory isDirectory listed some named⟩

end Process

namespace Host.Lawful

theorem ofDirectory_of_ne_nil {s : σ} {units : List String} (lawful : host.Lawful process view)
    (listed : process.listUnits (view s) path = .ok units) (some : units ≠ []) :
    Does view (Sources.ofDirectory host path) s
      (match process.directoryName (view s) path with
        | .error error => .error (.system error)
        | .ok none => .error (.nameless path)
        | .ok (.some name) => .ok (.inDirectory path name units)) (view s) := by
  obtain ⟨unit, rest, rfl⟩ := List.exists_cons_of_ne_nil some
  refine (lawful.listUnits s path).bind fun s' seen => ?_
  rw [listed]
  refine (lawful.directoryName s' path).bind fun s'' seen' => ?_
  rw [seen] at seen' ⊢
  rcases process.directoryName (view s) path with error | _ | name <;> exact .pure _ seen'

/-- Sources are found without any change to the disk. -/
theorem ofPath {s : σ} {result : Except Failure Sources} (lawful : host.Lawful process view)
    (h : process.StandsFor (view s) path result) :
    Does view (Sources.ofPath host path) s result (view s) := by
  refine (lawful.isDirectory s path).bind fun s' seen => ?_
  rw [← seen] at h ⊢
  cases h with
  | file other =>
      rw [other]
      exact .pure _ rfl
  | unlisted isDirectory listed =>
      rw [isDirectory]
      refine (lawful.listUnits s' path).bind fun s'' seen' => ?_
      rw [listed]
      exact .pure _ seen'
  | empty isDirectory listed =>
      rw [isDirectory]
      refine (lawful.listUnits s' path).bind fun s'' seen' => ?_
      rw [listed]
      exact .pure _ seen'
  | unresolved isDirectory listed some named | nameless isDirectory listed some named
  | directory isDirectory listed some named =>
      have finds := lawful.ofDirectory_of_ne_nil listed some
      rw [named] at finds
      rw [isDirectory]
      exact finds

end Host.Lawful

namespace Process

/-- What a path stands for. -/
def sources (process : Process) (disk : Disk) (path : String) : Except Failure Sources :=
  ((Sources.ofPath process.host path).run disk).1

theorem StandsFor.sources_eq {result : Except Failure Sources}
    (h : process.StandsFor disk path result) : process.sources disk path = result :=
  (process.lawful_host.ofPath h).result

theorem standsFor_sources (process : Process) (disk : Disk) (path : String) :
    process.StandsFor disk path (process.sources disk path) := by
  obtain ⟨result, standsFor⟩ := process.exists_standsFor disk path
  rwa [standsFor.sources_eq]

theorem StandsFor.unique {sources sources' : Sources}
    (h : process.StandsFor disk path (.ok sources))
    (h' : process.StandsFor disk path (.ok sources')) : sources = sources' :=
  Except.ok.inj (h.sources_eq.symm.trans h'.sources_eq)

/-- What a process enters stands for the units that it finds there. -/
theorem Enters.standsFor {above : Location} {name : String} (enters : process.Enters path)
    (resolved : process.refusals.resolve path = none)
    (found : disk.find process.work path = .ok (above ++ [name], .directory))
    (some : process.unitNames disk path (above ++ [name]) ≠ []) :
    process.StandsFor disk path
      (.ok (.inDirectory path name (process.unitNames disk path (above ++ [name])))) := by
  have named := directoryName_eq resolved found
  rw [List.getLast?_concat] at named
  exact .directory (isDirectory_iff.mpr ⟨enters.seen, _, found⟩) (enters.listUnits_eq found) some
    named

/-- A directory with a program has a name, and the program is that of the units found in it. -/
theorem StandsFor.exists_of_directory {sources : Sources}
    (standsFor : process.StandsFor disk path (.ok sources))
    (isDirectory : process.isDirectory disk path = true) :
    ∃ above name, disk.find process.work path = .ok (above ++ [name], .directory) ∧
      sources = .inDirectory path name (process.unitNames disk path (above ++ [name])) := by
  obtain ⟨seen, location, found⟩ := Process.isDirectory_iff.mp isDirectory
  cases standsFor with
  | file other =>
      rw [isDirectory] at other
      cases other
  | @directory units name _ listed some named =>
      have listed' : process.refusals.list path = none := by
        cases refused : process.refusals.list path with
        | none => rfl
        | some error =>
            rw [Process.listUnits_of_list refused] at listed
            cases listed
      have whole : process.refusals.entry path = none := by
        cases broken : process.refusals.entry path with
        | none => rfl
        | some error =>
            rw [Process.listUnits_of_entry listed' broken found] at listed
            cases listed
      have enters : process.Enters path := ⟨seen, listed', whole⟩
      rw [enters.listUnits_eq found] at listed
      obtain rfl := Except.ok.inj listed
      have last : location.getLast? = .some name := by
        rw [Process.directoryName] at named
        cases resolved : process.refusals.resolve path with
        | some error =>
            rw [resolved] at named
            cases named
        | none =>
            have named' := Process.directoryName_eq resolved found
            rw [Process.directoryName, named] at named'
            exact (Except.ok.inj named').symm
      obtain ⟨above, rfl⟩ := List.getLast?_eq_some_iff.mp last
      exact ⟨above, name, found, rfl⟩

/-- A path that is read as a unit leads to a file that is a text. -/
theorem exists_find_of_unit {unit : String × String}
    (h : process.unit disk path = .ok unit) :
    ∃ input content, disk.find process.work path = .ok (input, .file content) ∧
      String.fromUTF8? content = some unit.2 ∧ Path.unitName? path = some unit.1 := by
  rw [Process.unit] at h
  cases read : process.readText disk path with
  | error error =>
      rw [read] at h
      cases h
  | ok source =>
      rw [read] at h
      dsimp only at h
      cases named : Path.unitName? path with
      | none =>
          rw [named] at h
          cases h
      | some name =>
          rw [named] at h
          obtain rfl := Except.ok.inj h
          rw [Process.readText] at read
          cases refused : process.refusals.read path with
          | some error =>
              rw [refused] at read
              cases read
          | none =>
              rw [refused, Process.unlessRefused] at read
              obtain ⟨input, content, found, text⟩ := Disk.exists_file_of_readText read
              exact ⟨input, content, found, text, rfl⟩

/-! ## Compiling -/

/-- What compiling comes to, and the disk behind it. -/
def compiled (process : Process) (disk : Disk) (options : Options) : Outcome × Disk :=
  match process.sources disk options.path with
  | .error failure => ({ events := [], failure? := some failure }, disk)
  | .ok sources =>
    let output := options.output?.getD sources.output
    let gathered := process.gathered disk options.bootstrap? sources.paths
    match gathered.failure? with
    | some _ => (gathered.toOutcome, disk)
    | none =>
      match process.target disk output with
      | .error error =>
        ({ events := gathered.events, failure? := some (.writing output error) }, disk)
      | .ok location =>
        ({ events := gathered.events ++ [.wrote output sources.paths.length]
           failure? := none },
          disk.put location (.file gathered.run.finish.toUTF8))

/-- What is reported, and the disk behind it. -/
def answer (process : Process) (disk : Disk) (options : Options) : Report × Disk :=
  let done := process.compiled disk options
  (done.1.report options.verbose, done.2)

end Process

theorem Host.Lawful.compiles (lawful : host.Lawful process view) (options : Options) (s : σ) :
    Does view (options.compile host) s (process.compiled (view s) options).1
      (process.compiled (view s) options).2 := by
  refine (lawful.ofPath (process.standsFor_sources (view s) options.path)).bind fun s' seen => ?_
  rw [Process.compiled, ← seen]
  cases process.sources (view s') options.path with
  | error failure => exact .pure _ rfl
  | ok sources =>
      refine (lawful.gather_start options.bootstrap? sources.paths s').bind fun s'' seen' => ?_
      dsimp only
      rw [← seen']
      generalize process.gathered (view s'') options.bootstrap? sources.paths = gathered
      cases gathered.failure? with
      | some failure => exact .pure _ rfl
      | none =>
          dsimp only
          cases target : process.target (view s'') (options.output?.getD sources.output) with
          | error error =>
              exact (lawful.writeText_of_error _ target).bind fun _ seen => .pure _ seen
          | ok location =>
              exact (lawful.writeText_of_ok _ target).bind fun _ seen => .pure _ seen

/-! ## Answering -/

/-- The report of a command line that is answered on a host, and the state behind it. -/
def Host.answer (host : Host (StateM σ)) (options : Options) (s : σ) : Report × σ :=
  ((Request.compile options).answer host).run s

/-- **Answers.** A lawful host answers as its process does on the disk in view. -/
theorem Host.Lawful.answer (lawful : host.Lawful process view) (options : Options) (s : σ) :
    (host.answer options s).1 = (process.answer (view s) options).1 ∧
      view (host.answer options s).2 = (process.answer (view s) options).2 := by
  have answers : Does view ((Request.compile options).answer host) s
      (process.answer (view s) options).1 (process.answer (view s) options).2 :=
    (lawful.compiles options s).bind fun _ seen => .pure _ seen
  exact ⟨answers.result, answers.view⟩

namespace Process

/-- The text that is to be written and the path it goes to, or why there is none. -/
def prepared (process : Process) (disk : Disk) (options : Options) :
    Except Failure (String × String) :=
  match process.sources disk options.path with
  | .error failure => .error failure
  | .ok sources =>
    (verdict options.bootstrap? (takeUnits (process.unit disk) sources.paths)).map fun text =>
      (options.output?.getD sources.output, text)

end Process

structure Report.Fails (report : Report) (failure : Failure) : Prop where
  exitCode : report.exitCode = 1
  errors : report.errors = failure.report

structure Report.Succeeds (report : Report) : Prop where
  exitCode : report.exitCode = 0
  errors : report.errors = ""

namespace Process

/-- How an answer ends, by what was prepared: with nothing to write, with an output that cannot be
written to, or with the text at the place of the output. -/
inductive Ends (process : Process) (disk : Disk) (report : Report) :
    Except Failure (String × String) → Disk → Prop
  | failed {failure : Failure} (fails : report.Fails failure) :
      Ends process disk report (.error failure) disk
  | unwritten {output text : String} {error : FileError}
      (target : process.target disk output = .error error)
      (fails : report.Fails (.writing output error)) :
      Ends process disk report (.ok (output, text)) disk
  | written {output text : String} {location : Location}
      (target : process.target disk output = .ok location) (succeeds : report.Succeeds) :
      Ends process disk report (.ok (output, text)) (disk.put location (.file text.toUTF8))

theorem ends_answer (process : Process) (disk : Disk) (options : Options) :
    process.Ends disk (process.answer disk options).1 (process.prepared disk options)
      (process.answer disk options).2 := by
  rw [answer, compiled, prepared]
  cases process.sources disk options.path with
  | error failure => exact .failed ⟨rfl, rfl⟩
  | ok sources =>
      dsimp only
      rw [verdict_eq_gathered]
      generalize process.gathered disk options.bootstrap? sources.paths = gathered
      cases failed : gathered.failure? with
      | some failure =>
          refine .failed ⟨?_, ?_⟩
          · simp [Outcome.report, failed]
          · simp [Outcome.report, failed]
      | none =>
          cases target : process.target disk (options.output?.getD sources.output) with
          | error error => exact .unwritten target ⟨rfl, rfl⟩
          | ok location => exact .written target ⟨rfl, rfl⟩

section Ends

variable {report : Report} {after : Disk} {result : Except Failure (String × String)}

theorem Ends.written_of {output text : String}
    (h : process.Ends disk report (.ok (output, text)) after)
    (target : process.target disk output = .ok location) :
    report.Succeeds ∧ after = disk.put location (.file text.toUTF8) := by
  cases h with
  | unwritten failed => cases target.symm.trans failed
  | written target' succeeds =>
      obtain rfl := Except.ok.inj (target.symm.trans target')
      exact ⟨succeeds, rfl⟩

/-- What is reported to have been done was prepared, and it was written. -/
theorem Ends.exists_of_success (h : process.Ends disk report result after)
    (success : report.exitCode = 0) :
    ∃ output text location, result = .ok (output, text) ∧
      process.target disk output = .ok location ∧
      after = disk.put location (.file text.toUTF8) := by
  cases h with
  | failed fails | unwritten _ fails =>
      exact absurd (fails.exitCode.symm.trans success) (by decide)
  | written target _ => exact ⟨_, _, _, rfl, target, rfl⟩

theorem Ends.eq_of_failure (h : process.Ends disk report result after)
    (failure : report.exitCode ≠ 0) : after = disk := by
  cases h with
  | failed _ | unwritten _ _ => rfl
  | written _ succeeds => exact absurd succeeds.exitCode failure

end Ends

end Process

/-- A lawful host ends as its process does. -/
theorem Host.Lawful.ends (lawful : host.Lawful process view) (options : Options) (s : σ) :
    process.Ends (view s) (host.answer options s).1 (process.prepared (view s) options)
      (view (host.answer options s).2) := by
  obtain ⟨reports, after⟩ := lawful.answer options s
  rw [reports, after]
  exact process.ends_answer (view s) options

/-- A command line succeeds where a path stands for files that make a program and the output can be
written to. -/
theorem Host.Lawful.succeeds {s : σ} {sources : Sources} {text : String}
    (lawful : host.Lawful process view)
    (standsFor : process.StandsFor (view s) options.path (.ok sources))
    (made : verdict options.bootstrap? (takeUnits (process.unit (view s)) sources.paths) = .ok text)
    (target : process.target (view s) (options.output?.getD sources.output) = .ok location) :
    (host.answer options s).1.Succeeds ∧
      view (host.answer options s).2 = (view s).put location (.file text.toUTF8) := by
  have ends := lawful.ends options s
  rw [Process.prepared, standsFor.sources_eq] at ends
  dsimp only at ends
  rw [made] at ends
  exact ends.written_of target

/-! ## Answers that agree -/

/-- On two disks nothing is changed, or the same at the same place. -/
def SameChange (disk other after after' : Disk) : Prop :=
  after = disk ∧ after' = other ∨
    ∃ location node, after = disk.put location node ∧ after' = other.put location node

namespace Process

/-- An answer depends on the sources, the units they are, and where the output leads if all of them
can be read. -/
theorem answer_congr
    (stands : process.sources other options.path = process.sources disk options.path)
    (agree : ∀ sources, process.sources disk options.path = .ok sources →
      takeUnits (process.unit other) sources.paths = takeUnits (process.unit disk) sources.paths ∧
      ((takeUnits (process.unit disk) sources.paths).2 = none →
        process.target other (options.output?.getD sources.output) =
          process.target disk (options.output?.getD sources.output))) :
    (process.answer other options).1 = (process.answer disk options).1 ∧
      SameChange disk other (process.answer disk options).2 (process.answer other options).2 := by
  rw [answer, answer, compiled, compiled, stands]
  cases found : process.sources disk options.path with
  | error failure => exact ⟨rfl, .inl ⟨rfl, rfl⟩⟩
  | ok sources =>
      obtain ⟨units, target⟩ := agree sources found
      have gathered : process.gathered other options.bootstrap? sources.paths =
          process.gathered disk options.bootstrap? sources.paths := by
        rw [Process.gathered, Process.gathered, units]
      dsimp only
      rw [gathered]
      cases whole : (process.gathered disk options.bootstrap? sources.paths).failure? with
      | some failure => exact ⟨rfl, .inl ⟨rfl, rfl⟩⟩
      | none =>
          dsimp only
          rw [target (unread_eq_none_of_gathered whole)]
          cases process.target disk (options.output?.getD sources.output) with
          | error error => exact ⟨rfl, .inl ⟨rfl, rfl⟩⟩
          | ok location => exact ⟨rfl, .inr ⟨location, _, rfl, rfl⟩⟩

end Process

end StackToHack
