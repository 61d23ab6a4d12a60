import StackToHack.CommandLine.Options
import StackToHack.CommandLine.Sources

/-!
# Compiling files

Each file is a unit under the stem of its name. The files are read and added to one run, one after
the other, and only when all of them are in is the program written: a failure on the way leaves
every file as it was. Whether a path ends in a name at all is seen once its file has been read.
-/

namespace StackToHack

/-- What comes of compiling: its events, and the failure that ended it. -/
structure Outcome where
  events : List Event
  failure? : Option Failure

/-- What comes of adding files to a run. -/
structure Gathered extends Outcome where
  run : Run

variable {m : Type → Type} [Monad m]

/-- Reads files and adds them to a run, up to and including the first that fails. -/
def Run.gather (host : Host m) (run : Run) : List String → m Gathered
  | [] => return { run, events := [], failure? := none }
  | path :: rest => do
    match ← host.readText path with
    | .error error => return { run, events := [], failure? := some (.reading path error) }
    | .ok source =>
      match Path.unitName? path with
      | none => return { run, events := [], failure? := some (.unnamed path) }
      | some unit =>
        let added := run.add unit source
        match added.result with
        | .error error =>
          return { run := added.run, events := added.events, failure? := some (.unit error) }
        | .ok () =>
          let behind ← added.run.gather host rest
          return { behind with events := added.events ++ behind.events }

/-- Makes the program that the options ask for and writes it. -/
def Options.compile (host : Host m) (options : Options) : m Outcome := do
  match ← Sources.ofPath host options.path with
  | .error failure => return { events := [], failure? := some failure }
  | .ok sources =>
    let output := options.output?.getD sources.output
    let gathered ← (Run.start options.bootstrap?).gather host sources.paths
    match gathered.failure? with
    | some _ => return gathered.toOutcome
    | none =>
      match ← host.writeText output gathered.run.finish with
      | .error error =>
        return { events := gathered.events, failure? := some (.writing output error) }
      | .ok () =>
        let wrote := Event.wrote output sources.paths.length
        return { events := gathered.events ++ [wrote], failure? := none }

end StackToHack
