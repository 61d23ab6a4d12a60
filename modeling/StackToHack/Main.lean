import StackToHack.CommandLine.Report

/-!
# Command line

The program itself: its arguments, the files of the machine it runs on, and what it prints. All
that is decided here is how an error of the system is called.
-/

namespace StackToHack

/-! ## The files of the machine -/

def FileError.ofSystem : IO.Error → FileError
  | .noFileOrDirectory _ _ _ => .missing
  | .inappropriateType _ 20 _ => .notDirectory
  | .inappropriateType _ 21 _ => .isDirectory
  | .invalidArgument _ 36 _ => .nameTooLong
  | error => .other (toString error)

/-- Runs an action for its result or its error. -/
def attempt {α : Type} (action : IO α) : IO (Except FileError α) := do
  try
    return .ok (← action)
  catch error =>
    return .error (.ofSystem error)

/-- What kind of thing a path leads to, if to anything. -/
def kind? (path : String) : IO (Option IO.FS.FileType) := do
  let place : IO.FS.DirEntry := { root := path, fileName := "" }
  try
    return some (← place.root.metadata).type
  catch _ =>
    return none

/-- The files as the system shows them to this process. -/
def systemHost : Host IO where
  isDirectory path := return (← kind? path) == some .dir
  isFile path := return (← kind? path) == some .file
  entryNames path := attempt do
    let place : IO.FS.DirEntry := { root := path, fileName := "" }
    return (← place.root.readDir).toList.map fun entry => .ok entry.fileName
  directoryName path := attempt do
    return (← IO.FS.realPath path).fileName
  readText path := do
    match ← attempt (do (← IO.FS.Handle.mk path .read).readBinToEnd) with
    | .error error => return .error error
    | .ok bytes =>
      match String.fromUTF8? bytes with
      | some text => return .ok text
      | none => return .error .notText
  writeText path text := attempt (IO.FS.writeFile path text)

/-! ## Texts of the program's own -/

def usage : String :=
  "Usage: stack-to-hack [OPTIONS] <PATH>\n"

def help : String :=
  "Compiles stack code to Hack assembly\n\n" ++ usage ++
  "\nArguments:\n" ++
  "  <PATH>  A `.vm` file, or a directory whose `.vm` files form one program\n" ++
  "\nOptions:\n" ++
  "  -o, --output <OUTPUT>  Output file (by default `<file>.asm` or `<dir>/<dir>.asm`)\n" ++
  "      --entry <ENTRY>    Function the bootstrap jumps to (by default Sys.init)\n" ++
  "      --no-bootstrap     Omit the bootstrap prologue\n" ++
  "  -v, --verbose          Show what is done\n" ++
  "  -h, --help             Print help\n"

/-- What a request prints besides its report. -/
def announce : Request → IO Unit
  | .refused => IO.eprint usage
  | .help => IO.print help
  | .compile _ => return

end StackToHack

open StackToHack in
/-- Answers the arguments and shows what the answer says. -/
def main (arguments : List String) : IO UInt32 := do
  let request := Request.ofArguments arguments
  announce request
  let report ← request.answer systemHost
  IO.eprint (String.ofList (ConsoleLine.renderAll report.console))
  return report.exitCode
