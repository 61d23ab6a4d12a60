import StackToHack.Proofs.ByteOrder
import StackToHack.Proofs.CommandLine.FileName
import StackToHack.Proofs.CommandLine.Host

/-!
# Directories

The path of a name inside of a directory leads to what lies there under that name, provided the path
is not too long to be followed (`find_join`). So the names of units that a process finds in a
directory, in whatever order its disk has its entries, are those of the files that it reaches, and
they stand in the order of their bytes, none of them twice (`exists_unitFiles`).
-/

namespace StackToHack

/-! ## Entries -/

namespace Disk

/-- All names on a disk are such as directories can hold. -/
def WellNamed (disk : Disk) : Prop :=
  ∀ entry ∈ disk.entries, ∀ name ∈ entry.1, Path.IsEntryName name

instance : DecidablePred WellNamed := fun disk =>
  inferInstanceAs
    (Decidable (∀ entry ∈ disk.entries, ∀ name ∈ entry.1, Path.IsEntryName name))

variable {disk other : Disk} {location here there : Location} {node : Node} {name path : String}
  {work : Location}

theorem lookup_eq_some_iff_mem :
    disk.entries.lookup location = some node ↔ (location, node) ∈ disk.entries := by
  constructor
  · intro found
    obtain ⟨front, back, whole, -⟩ := List.lookup_eq_some_iff.mp found
    rw [whole]
    exact List.mem_append_right _ (List.mem_cons_self ..)
  · intro member
    obtain ⟨front, back, whole⟩ := List.append_of_mem member
    refine List.lookup_eq_some_iff.mpr ⟨front, back, whole, fun entry inFront => ?_⟩
    -- the location is listed once only
    have distinct := disk.distinct
    rw [whole, List.map_append, List.map_cons, List.nodup_append] at distinct
    rw [bne_iff_ne]
    exact (distinct.2.2 _ (List.mem_map_of_mem inFront) _ (List.mem_cons_self ..)).symm

theorem node?_eq_some_iff (h : location ≠ []) :
    disk.node? location = some node ↔ (location, node) ∈ disk.entries := by
  rw [node?, if_neg h, lookup_eq_some_iff_mem]

/-- The order of the entries makes no difference to what is where. -/
theorem node?_of_perm (h : disk.entries.Perm other.entries) (location : Location) :
    disk.node? location = other.node? location := by
  by_cases root : location = []
  · simp [node?, root]
  · refine Option.ext fun node => ?_
    rw [node?_eq_some_iff root, node?_eq_some_iff root, h.mem_iff]

/-- What is directly below a location is called by the last name that leads there. -/
theorem nameBelow_eq_some_iff {entry : Location × Node} :
    (if entry.1.dropLast = location then entry.1.getLast? else none) = some name ↔
      entry.1 = location ++ [name] := by
  constructor
  · intro below
    split at below
    · next parent => rw [← parent, List.dropLast_append_getLast? name below]
    · cases below
  · intro whole
    simp [whole]

theorem mem_namesBelow_iff :
    name ∈ disk.namesBelow location ↔ ∃ node, disk.node? (location ++ [name]) = some node := by
  have notRoot : location ++ [name] ≠ [] := List.append_ne_nil_of_right_ne_nil _ (by simp)
  simp only [node?_eq_some_iff notRoot, namesBelow, List.mem_filterMap, nameBelow_eq_some_iff]
  constructor
  · rintro ⟨⟨place, node⟩, member, rfl⟩
    exact ⟨node, member⟩
  · rintro ⟨node, member⟩
    exact ⟨_, member, rfl⟩

theorem nodup_namesBelow (disk : Disk) (location : Location) :
    (disk.namesBelow location).Nodup := by
  have distinct := List.pairwise_map.mp disk.distinct
  refine List.Pairwise.filterMap _ ?_ distinct
  rintro entry entry' apart name below name' below' rfl
  rw [nameBelow_eq_some_iff] at below below'
  exact apart (below.trans below'.symm)

theorem WellNamed.isEntryName (h : disk.WellNamed)
    (found : disk.node? (location ++ [name]) = some node) : Path.IsEntryName name := by
  have notRoot : location ++ [name] ≠ [] := List.append_ne_nil_of_right_ne_nil _ (by simp)
  exact h _ ((node?_eq_some_iff notRoot).mp found) name (by simp)

/-! ## Following paths -/

/-- A path is followed step by step. -/
theorem walk_append (disk : Disk) (here : Location) (front back : List String) :
    disk.walk here (front ++ back) =
      (disk.walk here front).bind fun there => disk.walk there back := by
  induction front generalizing here with
  | nil => rfl
  | cons step front ih =>
      rw [List.cons_append, walk, walk]
      split
      · rfl
      · rfl
      · split
        · exact ih _
        · rfl

/-- Where a path leads is up to its steps; what is there only decides whether it leads there. -/
theorem eq_foldl_of_walk {steps : List String} (h : disk.walk here steps = .ok there) :
    there = steps.foldl step here := by
  induction steps generalizing here with
  | nil => exact (Except.ok.inj h).symm
  | cons name steps ih =>
      rw [walk] at h
      split at h
      · cases h
      · cases h
      · split at h
        · exact ih h
        · cases h

/-- What lies at a location that was found. -/
def located (disk : Disk) (location : Location) : Except FileError (Location × Node) :=
  match disk.node? location with
  | some node => .ok (location, node)
  | none => .error .missing

theorem find_eq (disk : Disk) (work : Location) (path : String) :
    disk.find work path =
      if path = "" then .error .missing
      else if Path.fits path then
        (disk.walk (origin work path) (Path.steps path)).bind disk.located
      else .error .nameTooLong := by
  rw [find]
  by_cases empty : path = ""
  · rw [if_pos empty, if_pos empty]
    rfl
  rw [if_neg empty, if_neg empty]
  by_cases fits : Path.fits path = true
  · rw [if_pos fits, if_pos fits]
    cases disk.walk (origin work path) (Path.steps path) with
    | error error => rfl
    | ok location =>
        show (match disk.node? location with
          | some node => _
          | none => _) = disk.located location
        rw [located]
        cases disk.node? location <;> rfl
  · rw [if_neg fits, if_neg fits]
    rfl

theorem find_eq_ok_iff :
    disk.find work path = .ok (location, node) ↔
      (path ≠ "" ∧ Path.fits path = true) ∧
        disk.walk (origin work path) (Path.steps path) = .ok location ∧
        disk.node? location = some node := by
  have found : ∀ {there}, disk.located there = .ok (location, node) ↔
      there = location ∧ disk.node? location = some node := by
    intro there
    rw [located]
    cases h : disk.node? there with
    | none =>
        constructor
        · exact fun e => by cases e
        · rintro ⟨rfl, e⟩
          rw [h] at e
          cases e
    | some node' =>
        constructor
        · intro e
          cases e
          exact ⟨rfl, h⟩
        · rintro ⟨rfl, e⟩
          obtain rfl := Option.some.inj (h.symm.trans e)
          rfl
  rw [find_eq]
  by_cases empty : path = ""
  · simp [empty]
  by_cases fits : Path.fits path = true
  · cases hwalk : disk.walk (origin work path) (Path.steps path) with
    | error error => simp [empty, fits, Except.bind]
    | ok there => simp [empty, fits, Except.bind, found]
  · simp [empty, fits]

theorem nonempty_of_find (h : disk.find work path = .ok (location, node)) : path ≠ "" :=
  (find_eq_ok_iff.mp h).1.1

theorem eq_of_find {node' : Node} (h : disk.find work path = .ok (location, node))
    (h' : other.find work path = .ok (here, node')) : here = location := by
  obtain ⟨-, walked, -⟩ := find_eq_ok_iff.mp h
  obtain ⟨-, walked', -⟩ := find_eq_ok_iff.mp h'
  rw [eq_foldl_of_walk walked, eq_foldl_of_walk walked']

section Congr

variable (same : ∀ place, other.node? place = disk.node? place)
include same

theorem walk_congr (here : Location) (steps : List String) :
    other.walk here steps = disk.walk here steps := by
  induction steps generalizing here with
  | nil => rfl
  | cons step steps ih => simp only [walk, same, ih]

theorem find_congr (work : Location) (path : String) :
    other.find work path = disk.find work path := by
  have located : other.located = disk.located := by
    funext place
    rw [Disk.located, Disk.located, same]
  rw [find_eq, find_eq, walk_congr same, located]

theorem target_congr (work : Location) (path : String) :
    other.target work path = disk.target work path := by
  simp only [target, walk_congr same, same]

end Congr

theorem step_name (here : Location) (named : Path.IsEntryName name) :
    step here name = here ++ [name] := by
  have stays : ¬(name = "" ∨ name = ".") := not_or.mpr ⟨named.nonempty, named.notHere⟩
  rw [step, if_neg stays, if_neg named.notAbove]

/-- A name leads from a directory to what it holds under it. -/
theorem walk_name (h : disk.node? here = some .directory) (named : Path.IsEntryName name) :
    disk.walk here [name] = .ok (here ++ [name]) := by
  rw [walk, h]
  simp only [named.fits, if_true, walk, step_name here named]

theorem walk_stay {steps : List String} (h : disk.node? here = some .directory)
    (stays : ∀ name ∈ steps, name = "" ∨ name = ".") : disk.walk here steps = .ok here := by
  induction steps with
  | nil => rfl
  | cons name steps ih =>
      obtain ⟨first, rest⟩ := List.forall_mem_cons.mp stays
      have fits : Path.stepFits name = true := by rcases first with rfl | rfl <;> decide
      rw [walk, h]
      simp only [fits, if_true, step, first]
      exact ih rest

/-- **Names of a directory.** Where a path leads to a directory, a name behind it leads to what lies
in the directory, unless the path gets too long by it. -/
theorem find_join (named : Path.IsEntryName name)
    (found : disk.find work path = .ok (location, .directory)) :
    disk.find work (Path.join path name) =
      if Path.fits (Path.join path name) then disk.located (location ++ [name])
      else .error .nameTooLong := by
  obtain ⟨-, walked, isDirectory⟩ := find_eq_ok_iff.mp found
  obtain ⟨front, joined, parts⟩ := Path.steps_join named.noSlash path
  have reached : disk.walk (origin work path) front = .ok location := by
    rcases parts with whole | whole
    · rwa [whole] at walked
    · rw [whole, walk_append] at walked
      cases h : disk.walk (origin work path) front with
      | error error =>
          rw [h] at walked
          cases walked
      | ok there =>
          -- the empty step behind a slash stays where it is
          rw [h] at walked
          rw [show location = there from eq_foldl_of_walk walked]
  have start : origin work (Path.join path name) = origin work path := by
    rw [origin, origin, Path.isAbsolute_join (nonempty_of_find found)]
  have last := walk_name isDirectory named
  rw [find_eq, if_neg (Path.join_ne_empty path name), start, joined, walk_append, reached]
  simp only [Except.bind, last]

/-! ## Files of a directory -/

section Files

variable {content : ByteArray}

theorem isDirectory_eq_true_iff :
    disk.isDirectory work path = true ↔
      ∃ location, disk.find work path = .ok (location, .directory) := by
  rw [isDirectory]
  constructor
  · intro h
    split at h
    · next location found => exact ⟨location, found⟩
    · cases h
  · rintro ⟨location, found⟩
    rw [found]

theorem isFile_join_iff (named : Path.IsEntryName name)
    (found : disk.find work path = .ok (location, .directory)) :
    disk.isFile work (Path.join path name) = true ↔
      Path.fits (Path.join path name) = true ∧
        ∃ content, disk.node? (location ++ [name]) = some (.file content) := by
  rw [isFile, find_join named found]
  by_cases fits : Path.fits (Path.join path name) = true
  · rw [if_pos fits, located]
    cases disk.node? (location ++ [name]) with
    | none => simp
    | some node => cases node <;> simp [fits]
  · simp [fits]

/-- What reading a file gives. -/
def textOf (content : ByteArray) : Except FileError String :=
  match String.fromUTF8? content with
  | some text => .ok text
  | none => .error .notText

theorem readText_of_find (found : disk.find work path = .ok (location, .file content)) :
    disk.readText work path = textOf content := by
  rw [readText, found]
  show (match String.fromUTF8? content with
    | some text => _
    | none => _) = textOf content
  rw [textOf]
  cases String.fromUTF8? content <;> rfl

/-- Only a file that is a text can be read. -/
theorem exists_file_of_readText {text : String} (h : disk.readText work path = .ok text) :
    ∃ location content, disk.find work path = .ok (location, .file content) ∧
      String.fromUTF8? content = some text := by
  cases found : disk.find work path with
  | error error =>
      rw [readText, found] at h
      cases h
  | ok place =>
      obtain ⟨location, node⟩ := place
      cases node with
      | directory =>
          rw [readText, found] at h
          cases h
      | file content =>
          rw [readText_of_find found, textOf] at h
          cases read : String.fromUTF8? content with
          | none =>
              rw [read] at h
              cases h
          | some source =>
              rw [read] at h
              exact ⟨location, content, rfl, read.trans (congrArg some (Except.ok.inj h))⟩

theorem readText_join (named : Path.IsEntryName name)
    (found : disk.find work path = .ok (location, .directory))
    (fits : Path.fits (Path.join path name) = true)
    (h : disk.node? (location ++ [name]) = some (.file content)) :
    disk.readText work (Path.join path name) = textOf content := by
  have below : disk.find work (Path.join path name) = .ok (location ++ [name], .file content) := by
    rw [find_join named found, if_pos fits, located, h]
  exact readText_of_find below

theorem names_eq (found : disk.find work path = .ok (location, .directory)) :
    disk.names work path = .ok (disk.namesBelow location) := by
  rw [names, found]
  rfl

end Files

end Disk

/-! ## Directories as a process sees them -/

namespace Process

variable {process : Process} {disk : Disk} {path name : String} {location : Location}

/-- A path that a process is able to look at: it is short enough, and nothing bars it. -/
structure Reaches (process : Process) (path : String) : Prop where
  fits : Path.fits path = true
  seen : process.refusals.look path = false

/-- A directory whose entries a process is able to go through. -/
structure Enters (process : Process) (path : String) : Prop where
  seen : process.refusals.look path = false
  listed : process.refusals.list path = none
  whole : process.refusals.entry path = none

theorem isDirectory_iff :
    process.isDirectory disk path = true ↔
      process.refusals.look path = false ∧
        ∃ location, disk.find process.work path = .ok (location, .directory) := by
  rw [isDirectory, Bool.and_eq_true, Bool.not_eq_true', Disk.isDirectory_eq_true_iff]

theorem isFile_join_iff (named : Path.IsEntryName name)
    (found : disk.find process.work path = .ok (location, .directory)) :
    process.isFile disk (Path.join path name) = true ↔
      process.Reaches (Path.join path name) ∧
        ∃ content, disk.node? (location ++ [name]) = some (.file content) := by
  rw [isFile, Bool.and_eq_true, Bool.not_eq_true', Disk.isFile_join_iff named found]
  constructor
  · rintro ⟨seen, fits, file⟩
    exact ⟨⟨fits, seen⟩, file⟩
  · rintro ⟨⟨fits, seen⟩, file⟩
    exact ⟨seen, fits, file⟩

theorem directoryName_eq (resolved : process.refusals.resolve path = none)
    (found : disk.find process.work path = .ok (location, .directory)) :
    process.directoryName disk path = .ok location.getLast? := by
  rw [directoryName, resolved, unlessRefused, Disk.directoryName, found]
  rfl

/-- The names of units that a process is able to look at in a directory. -/
def unitNames (process : Process) (disk : Disk) (path : String) (location : Location) :
    List String :=
  Sources.unitNames ((disk.namesBelow location).filter fun name =>
    process.isFile disk (Path.join path name))

theorem listUnits_of_list {error : FileError}
    (refused : process.refusals.list path = some error) :
    process.listUnits disk path = .error (.listing path error) := by
  rw [listUnits, entryNames, refused]
  rfl

theorem listUnits_of_entry {error : FileError} (listed : process.refusals.list path = none)
    (refused : process.refusals.entry path = some error)
    (found : disk.find process.work path = .ok (location, .directory)) :
    process.listUnits disk path = .error (.system error) := by
  rw [listUnits, entryNames, listed, unlessRefused, Disk.names_eq found, refused]
  simp only [Except.map, Option.toList_some, List.map_cons, List.map_nil]
  have member : .error error ∈ (disk.namesBelow location).map Except.ok ++ [.error error] := by simp
  rw [Sources.collect_of_mem member (by simp)]

theorem Enters.listUnits_eq (enters : process.Enters path)
    (found : disk.find process.work path = .ok (location, .directory)) :
    process.listUnits disk path = .ok (process.unitNames disk path location) := by
  rw [listUnits, entryNames, enters.listed, unlessRefused, Disk.names_eq found, enters.whole]
  simp only [Except.map, Option.toList_none, List.map_nil, List.append_nil]
  rw [Sources.collect_of_forall (by simp), unitNames]
  simp [List.filterMap_map, Function.comp_def, Except.toOption]

end Process

/-! ## Files of units -/

/-- The file names of units: something in front of the extension `vm`. -/
def IsUnitName (name : String) : Prop := ∃ stem, stem ≠ "" ∧ name = stem ++ ".vm"

/-- The regular files with names of units that lie in a directory and that a process reaches by the
path of the directory, in the order of the bytes of their names. -/
structure UnitFiles (process : Process) (disk : Disk) (path : String) (location : Location)
    (files : List (String × ByteArray)) : Prop where
  ordered : files.Pairwise fun file next => Text.bytes file.1 < Text.bytes next.1
  mem_iff : ∀ name content, (name, content) ∈ files ↔
    disk.node? (location ++ [name]) = some (.file content) ∧ IsUnitName name ∧
      process.Reaches (Path.join path name)

section UnitFiles

variable {process : Process} {disk : Disk} {location : Location} {path name : String}
  {names : List String}

/-- Files of units are the same wherever the same files have names of units. -/
theorem UnitFiles.unique {other : Disk} {files files' : List (String × ByteArray)}
    (h : UnitFiles process disk path location files)
    (h' : UnitFiles process other path location files')
    (same : ∀ name content, IsUnitName name →
      (disk.node? (location ++ [name]) = some (.file content) ↔
        other.node? (location ++ [name]) = some (.file content))) : files = files' := by
  let less (file next : String × ByteArray) : Prop := Text.bytes file.1 < Text.bytes next.1
  have : Std.Antisymm less :=
    ⟨fun _ _ before behind => (List.lt_asymm before behind).elim⟩
  have : Std.Irrefl less := ⟨fun _ => List.lt_irrefl _⟩
  refine List.Pairwise.eq_of_mem_iff (r := less) h.ordered h'.ordered fun ⟨name, content⟩ => ?_
  rw [h.mem_iff, h'.mem_iff]
  exact and_congr_left fun ⟨isUnit, _⟩ => same name content isUnit

theorem extension?_eq_vm_iff (h : '/' ∉ name.toList) :
    Path.extension? name = some "vm" ↔ IsUnitName name := by
  have noDot : '.' ∉ "vm".toList := by decide
  rw [Path.extension?_eq_some_iff h noDot, IsUnitName]
  simp only [String.append_assoc]
  exact Iff.rfl

theorem IsUnitName.eq_stem_append (isUnit : IsUnitName name) :
    name = Path.stem name ++ ".vm" := by
  obtain ⟨stem, nonempty, rfl⟩ := isUnit
  have parts : stem ++ ".vm" = stem ++ "." ++ "vm" := by
    rw [String.append_assoc]
    rfl
  rw [parts, Path.stem_append nonempty (by decide), ← parts]

theorem mem_unitNames_iff :
    name ∈ Sources.unitNames names ↔ name ∈ names ∧ Path.extension? name = some "vm" := by
  rw [Sources.unitNames, (List.mergeSort_perm _ _).mem_iff, List.mem_filter, decide_eq_true_iff]

theorem nodup_unitNames (distinct : names.Nodup) : (Sources.unitNames names).Nodup :=
  (List.mergeSort_perm _ _).nodup_iff.mpr (distinct.filter _)

/-- Different names are put into the order of their bytes. -/
theorem pairwise_unitNames (distinct : names.Nodup) :
    (Sources.unitNames names).Pairwise fun name next => Text.bytes name < Text.bytes next := by
  refine ((Sources.pairwise_le_unitNames names).and (nodup_unitNames distinct)).imp
    fun {name next} h => Text.bytes_lt_of_lt ?_
  obtain ⟨inOrder, ne⟩ := h
  exact String.not_le.mp fun back => ne (String.le_antisymm inOrder back)

/-- Names that stand for something each, with what they stand for. -/
theorem exists_map_fst {α β : Type} {property : α → β → Prop} {keys : List α}
    (h : ∀ key ∈ keys, ∃ value, property key value) :
    ∃ entries : List (α × β), entries.map Prod.fst = keys ∧
      ∀ entry ∈ entries, property entry.1 entry.2 := by
  induction keys with
  | nil => exact ⟨[], rfl, fun _ member => absurd member List.not_mem_nil⟩
  | cons key keys ih =>
      obtain ⟨here, behind⟩ := List.forall_mem_cons.mp h
      obtain ⟨value, hvalue⟩ := here
      obtain ⟨entries, rfl, hentries⟩ := ih behind
      exact ⟨(key, value) :: entries, rfl, List.forall_mem_cons.mpr ⟨hvalue, hentries⟩⟩

/-- What a name of a unit stands for that a process finds in a directory. -/
theorem mem_unitNames_of_directory_iff (wellNamed : disk.WellNamed)
    (found : disk.find process.work path = .ok (location, .directory)) (name : String) :
    name ∈ process.unitNames disk path location ↔
      (∃ content, disk.node? (location ++ [name]) = some (.file content)) ∧ IsUnitName name ∧
        process.Reaches (Path.join path name) := by
  rw [Process.unitNames, mem_unitNames_iff, List.mem_filter, Disk.mem_namesBelow_iff]
  constructor
  · rintro ⟨⟨⟨node, there⟩, isFile⟩, isUnit⟩
    have named := wellNamed.isEntryName there
    obtain ⟨reaches, file⟩ := (Process.isFile_join_iff named found).mp isFile
    exact ⟨file, (extension?_eq_vm_iff named.noSlash).mp isUnit, reaches⟩
  · rintro ⟨⟨content, there⟩, isUnit, reaches⟩
    have named := wellNamed.isEntryName there
    have isFile := (Process.isFile_join_iff named found).mpr ⟨reaches, content, there⟩
    exact ⟨⟨⟨_, there⟩, isFile⟩, (extension?_eq_vm_iff named.noSlash).mpr isUnit⟩

/-- **Files of units.** The names of units that a process finds in a directory are those of its unit
files, and these are on the disk what they hold. -/
theorem exists_unitFiles (wellNamed : disk.WellNamed)
    (found : disk.find process.work path = .ok (location, .directory)) :
    ∃ files, UnitFiles process disk path location files ∧
      process.unitNames disk path location = files.map Prod.fst ∧
      ∀ file ∈ files, disk.readText process.work (Path.join path file.1) = Disk.textOf file.2 := by
  have mem_iff := mem_unitNames_of_directory_iff wellNamed found
  obtain ⟨files, units, hfiles⟩ := exists_map_fst fun name member => ((mem_iff name).mp member).1
  refine ⟨files, ⟨?_, ?_⟩, units.symm, ?_⟩
  · have inOrder := pairwise_unitNames ((disk.nodup_namesBelow location).filter
      fun name => process.isFile disk (Path.join path name))
    rw [← Process.unitNames, ← units, List.pairwise_map] at inOrder
    exact inOrder
  · intro name content
    constructor
    · intro member
      have listed : name ∈ files.map Prod.fst := List.mem_map_of_mem member
      rw [units] at listed
      exact ⟨hfiles _ member, ((mem_iff name).mp listed).2⟩
    · rintro ⟨there, isUnit⟩
      have listed := (mem_iff name).mpr ⟨⟨content, there⟩, isUnit⟩
      rw [← units] at listed
      obtain ⟨⟨name, content'⟩, member, rfl⟩ := List.mem_map.mp listed
      have same := (hfiles _ member).symm.trans there
      rw [Option.some.injEq, Node.file.injEq] at same
      exact same ▸ member
  · intro file member
    have listed : file.1 ∈ files.map Prod.fst := List.mem_map_of_mem member
    rw [units] at listed
    have there := hfiles file member
    exact Disk.readText_join (wellNamed.isEntryName there) found
      ((mem_iff file.1).mp listed).2.2.fits there

end UnitFiles

end StackToHack
