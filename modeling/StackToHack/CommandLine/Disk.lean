import StackToHack.CommandLine.Host
import StackToHack.CommandLine.Path

/-!
# Disks

A tree of files as a list of what is where, in no particular order. A location is the names that
lead to it from the root, which itself is always there.

Following a path checks every step: what a path goes through must exist and be a directory, even
where the next step stays or goes up again. So a slash behind the name of a file is an error.

A process sees a disk from the directory that it works in, and the system may refuse it anything:
permissions and faults of the machine come down to an error in place of what is on the disk. What is
refused depends on the path and on what is to be done there, and not on when that is. A process that
is refused nothing sees the disk as it is.
-/

namespace StackToHack

/-- The names that lead from the root to a file or directory. -/
abbrev Location := List String

inductive Node
  | file (bytes : ByteArray)
  | directory

instance : DecidableEq Node
  | .directory, .directory => isTrue rfl
  | .directory, .file _ => isFalse nofun
  | .file _, .directory => isFalse nofun
  | .file a, .file b =>
    match ByteArray.instDecidableEq a b with
    | isTrue h => isTrue (h ▸ rfl)
    | isFalse h => isFalse fun e => h (Node.file.inj e)

/-- No location is listed twice. -/
structure Disk where
  entries : List (Location × Node) := []
  distinct : (entries.map Prod.fst).Nodup := by simp

namespace Disk

/-! ## Nodes -/

def node? (disk : Disk) (location : Location) : Option Node :=
  if location = [] then some .directory else disk.entries.lookup location

def put (disk : Disk) (location : Location) (node : Node) : Disk where
  entries := (location, node) :: disk.entries.filter fun entry => entry.1 ≠ location
  distinct := by
    rw [List.map_cons, List.nodup_cons]
    refine ⟨by simp, ?_⟩
    exact disk.distinct.sublist (List.filter_sublist.map Prod.fst)

theorem node?_put_self {location : Location} (h : location ≠ []) (disk : Disk) (node : Node) :
    (disk.put location node).node? location = some node := by
  simp [node?, put, h]

theorem lookup_filter_ne {other location : Location} (h : other ≠ location)
    (entries : List (Location × Node)) :
    (entries.filter fun entry => entry.1 ≠ location).lookup other = entries.lookup other := by
  induction entries with
  | nil => rfl
  | cons entry entries ih =>
    by_cases hentry : entry.1 = location
    · have hother : (other == entry.1) = false := by simpa [hentry] using h
      rw [List.filter_cons_of_neg (by simpa using hentry), ih, List.lookup_cons, hother]
    · rw [List.filter_cons_of_pos (by simpa using hentry), List.lookup_cons, List.lookup_cons, ih]

/-- **Frame.** What is put at a location changes nothing anywhere else. -/
theorem node?_put_of_ne {other location : Location} (h : other ≠ location) (disk : Disk)
    (node : Node) : (disk.put location node).node? other = disk.node? other := by
  have hother : (other == location) = false := by simpa using h
  simp only [node?, put, List.lookup_cons, hother, lookup_filter_ne h]

/-- Makes a directory and those that lead to it, where there are none yet. -/
def putDirectory (disk : Disk) (location : Location) : Disk :=
  ((List.range (location.length + 1)).map location.take).foldl
    (fun disk above => if (disk.node? above).isNone then disk.put above .directory else disk) disk

/-- Puts a file, with the directories that lead to it. -/
def putFile (disk : Disk) (location : Location) (bytes : ByteArray) : Disk :=
  (disk.putDirectory location.dropLast).put location (.file bytes)

/-! ## Following paths -/

/-- Where one step leads. There is nothing above the root. -/
def step (here : Location) (name : String) : Location :=
  if name = "" ∨ name = "." then here
  else if name = ".." then here.dropLast
  else here ++ [name]

/-- Where steps lead, whether or not anything is there. -/
def walk (disk : Disk) (here : Location) : List String → Except FileError Location
  | [] => .ok here
  | name :: rest =>
    match disk.node? here with
    | none => .error .missing
    | some (.file _) => .error .notDirectory
    | some .directory =>
      if Path.stepFits name then disk.walk (step here name) rest else .error .nameTooLong

/-- Where a path starts when `work` is the working directory. -/
def origin (work : Location) (path : String) : Location :=
  if Path.isAbsolute path then [] else work

/-- What a path leads to. No path is empty. -/
def find (disk : Disk) (work : Location) (path : String) : Except FileError (Location × Node) := do
  if path = "" then throw .missing
  unless Path.fits path do throw .nameTooLong
  let location ← disk.walk (origin work path) (Path.steps path)
  match disk.node? location with
  | some node => return (location, node)
  | none => throw .missing

/-! ## Reading -/

def isDirectory (disk : Disk) (work : Location) (path : String) : Bool :=
  match disk.find work path with
  | .ok (_, .directory) => true
  | _ => false

def isFile (disk : Disk) (work : Location) (path : String) : Bool :=
  match disk.find work path with
  | .ok (_, .file _) => true
  | _ => false

/-- The names directly below a location. -/
def namesBelow (disk : Disk) (location : Location) : List String :=
  disk.entries.filterMap fun entry =>
    if entry.1.dropLast = location then entry.1.getLast? else none

def names (disk : Disk) (work : Location) (path : String) : Except FileError (List String) := do
  match ← disk.find work path with
  | (location, .directory) => return disk.namesBelow location
  | (_, .file _) => throw .notDirectory

def directoryName (disk : Disk) (work : Location) (path : String) :
    Except FileError (Option String) :=
  (disk.find work path).map fun found => found.1.getLast?

def readText (disk : Disk) (work : Location) (path : String) : Except FileError String := do
  match ← disk.find work path with
  | (_, .directory) => throw .isDirectory
  | (_, .file bytes) =>
    match String.fromUTF8? bytes with
    | some text => return text
    | none => throw .notText

/-! ## Writing -/

/-- Where a path leads that is to be written to. The directory it lies in must be there; the name
itself must stand at the end, and stand for a file if for anything. -/
def target (disk : Disk) (work : Location) (path : String) : Except FileError Location := do
  if path = "" then throw .missing
  unless Path.fits path do throw .nameTooLong
  let steps := (Path.steps path).reverse.dropWhile (· = "")
  let parent ← disk.walk (origin work path) steps.tail.reverse
  match disk.node? parent, steps with
  | none, _ => throw .missing
  | some (.file _), _ => throw .notDirectory
  | some .directory, [] => throw .isDirectory
  | some .directory, name :: _ =>
    let location := step parent name
    if Path.endsWithSlash path ∨ name = "." ∨ name = ".." then throw .isDirectory
    else if disk.node? location = some .directory then throw .isDirectory
    else if Path.stepFits name then return location
    else throw .nameTooLong

/-! ## Comparing -/

/-- The files below a location that are new or have another content, each with its path from
there. -/
def changedBelow (before after : Disk) (location : Location) : List (String × ByteArray) :=
  after.entries.filterMap fun entry =>
    match entry.2 with
    | .directory => none
    | .file bytes =>
      if location.isPrefixOf entry.1 ∧ before.node? entry.1 ≠ some entry.2
      then some ("/".intercalate (entry.1.drop location.length), bytes)
      else none

end Disk

/-! ## Processes -/

/-- What the system refuses, path by path.

- `look` — to tell what a path leads to.
- `list` — to list a directory, and `entry` — to go through all of its entries.
- `resolve` — to tell what a directory is called.
- `read`, `write` — to read and to write a file. -/
structure Refusals where
  look : String → Bool := fun _ => false
  list : String → Option FileError := fun _ => none
  entry : String → Option FileError := fun _ => none
  resolve : String → Option FileError := fun _ => none
  read : String → Option FileError := fun _ => none
  write : String → Option FileError := fun _ => none

structure Process where
  work : Location
  refusals : Refusals := {}

namespace Process

/-- A refusal comes before anything that the disk says. -/
def unlessRefused {α : Type} : Option FileError → Except FileError α → Except FileError α
  | some error, _ => .error error
  | none, result => result

variable (process : Process) (disk : Disk) (path : String)

/-! ## Looking and reading -/

def isDirectory : Bool := !process.refusals.look path && disk.isDirectory process.work path

def isFile : Bool := !process.refusals.look path && disk.isFile process.work path

def entryNames : Except FileError (List (Except FileError String)) :=
  unlessRefused (process.refusals.list path) <|
    (disk.names process.work path).map fun names =>
      names.map .ok ++ (process.refusals.entry path).toList.map .error

def directoryName : Except FileError (Option String) :=
  unlessRefused (process.refusals.resolve path) (disk.directoryName process.work path)

def readText : Except FileError String :=
  unlessRefused (process.refusals.read path) (disk.readText process.work path)

/-! ## Writing -/

/-- Where a path leads that the process is to write to. -/
def target : Except FileError Location :=
  unlessRefused (process.refusals.write path) (disk.target process.work path)

def writeText (text : String) : Except FileError Disk :=
  (process.target disk path).map fun location => disk.put location (.file text.toUTF8)

/-! ## As a host -/

/-- The files of a disk as a process sees them. -/
def host : Host (StateM Disk) where
  isDirectory path := return process.isDirectory (← get) path
  isFile path := return process.isFile (← get) path
  entryNames path := return process.entryNames (← get) path
  directoryName path := return process.directoryName (← get) path
  readText path := return process.readText (← get) path
  writeText path text := do
    match process.writeText (← get) path text with
    | .ok disk => set disk; return .ok ()
    | .error error => return .error error

end Process

/-- The files of a disk as they are seen from a working directory. -/
def Disk.host (work : Location) : Host (StateM Disk) := Process.host { work }

end StackToHack
