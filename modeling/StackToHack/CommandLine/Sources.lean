import StackToHack.CommandLine.Failure
import StackToHack.CommandLine.Path

/-!
# Sources

What a path stands for: the files of one program, in the order in which they are compiled, and the
place where the program goes unless another one is given.

- A directory stands for the regular files directly inside of it whose extension is `vm`, in the
  order of their names, whatever the order they are listed in. A file that cannot be reached by way
  of the directory's path is left out. The program goes into the directory and under its name.
- Any other path stands for itself, whatever its extension. Its program goes beside it.
-/

namespace StackToHack

structure Sources where
  paths : List String
  output : String
  deriving DecidableEq

namespace Sources

def ofFile (path : String) : Sources :=
  { paths := [path], output := Path.withExtension path "asm" }

/-- The files of units in a directory, and the program that is called as the directory is. -/
def inDirectory (path name : String) (units : List String) : Sources :=
  { paths := units.map (Path.join path), output := Path.join path (name ++ ".asm") }

/-! ## Names of units -/

/-- The names of a listing, or the first error in it. -/
def collect : List (Except FileError String) → Except FileError (List String)
  | [] => .ok []
  | .error error :: _ => .error error
  | .ok name :: rest => (collect rest).map (name :: ·)

/-- The names that belong to units, among those of files in a directory, in their order. -/
def unitNames (names : List String) : List String :=
  (names.filter fun name => Path.extension? name = some "vm").mergeSort fun a b => decide (a ≤ b)

variable {m : Type → Type} [Monad m]

/-- The names that lead to regular files, among those in a directory. -/
def filesAmong (host : Host m) (path : String) : List String → m (List String)
  | [] => return []
  | name :: rest => do
    let isFile ← host.isFile (Path.join path name)
    let others ← filesAmong host path rest
    return if isFile then name :: others else others

def listUnits (host : Host m) (path : String) : m (Except Failure (List String)) := do
  match ← host.entryNames path with
  | .error error => return .error (.listing path error)
  | .ok entries =>
    match collect entries with
    | .error error => return .error (.system error)
    | .ok names => return .ok (unitNames (← filesAmong host path names))

/-! ## Sources of a path -/

def ofDirectory (host : Host m) (path : String) : m (Except Failure Sources) := do
  match ← listUnits host path with
  | .error failure => return .error failure
  | .ok [] => return .error (.noUnits path)
  | .ok (unit :: units) =>
    match ← host.directoryName path with
    | .error error => return .error (.system error)
    | .ok none => return .error (.nameless path)
    | .ok (some name) => return .ok (inDirectory path name (unit :: units))

def ofPath (host : Host m) (path : String) : m (Except Failure Sources) := do
  if ← host.isDirectory path then ofDirectory host path else return .ok (ofFile path)

end Sources

end StackToHack
