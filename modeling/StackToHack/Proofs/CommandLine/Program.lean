import StackToHack.Proofs.CommandLine.Output
import StackToHack.Proofs.Generation

/-!
# Programs of directories

What a command line makes of a directory is what `compile` makes of its unit files, in the order of
the bytes of their names, unless the directory itself or its name is refused (`Lists.prepares`).
Nothing else in the directory matters, nor does the order in which it is listed
(`directory_is_its_unit_files`).
-/

namespace StackToHack

variable {σ : Type} {view : σ → Disk} {host : Host (StateM σ)} {process : Process}
  {disk other : Disk} {location : Location} {path : String} {options : Options}
  {files : List (String × ByteArray)}

/-! ## Files as units -/

namespace Process

/-- What a file in a directory is as a unit, as far as a process can read it. -/
def unitOfFile (process : Process) (path : String) (file : String × ByteArray) :
    Except Failure (String × String) :=
  match process.refusals.read (Path.join path file.1), String.fromUTF8? file.2 with
  | some error, _ => .error (.reading (Path.join path file.1) error)
  | none, some text => .ok (Path.stem file.1, text)
  | none, none => .error (.reading (Path.join path file.1) .notText)

/-- What a directory stands for by its unit files. -/
def sourcesOfFiles (process : Process) (path : String) (location : Location)
    (files : List (String × ByteArray)) : Except Failure Sources :=
  match process.refusals.list path, process.refusals.entry path with
  | some error, _ => .error (.listing path error)
  | none, some error => .error (.system error)
  | none, none =>
    if files = [] then .error (.noUnits path)
    else
      match process.refusals.resolve path, location.getLast? with
      | some error, _ => .error (.system error)
      | none, none => .error (.nameless path)
      | none, some name => .ok (.inDirectory path name (files.map Prod.fst))

theorem unit_join {file : String × ByteArray} (named : Path.IsEntryName file.1)
    (h : disk.readText process.work (Path.join path file.1) = Disk.textOf file.2) :
    process.unit disk (Path.join path file.1) = process.unitOfFile path file := by
  rw [unit, readText, h, Disk.textOf, unitOfFile, Path.unitName?_join named]
  cases process.refusals.read (Path.join path file.1) with
  | some error => rfl
  | none => cases String.fromUTF8? file.2 <;> rfl

end Process

/-- A directory on a disk as its unit files. -/
structure Lists (process : Process) (disk : Disk) (path : String) (location : Location)
    (files : List (String × ByteArray)) : Prop where
  found : disk.find process.work path = .ok (location, .directory)
  unitFiles : UnitFiles process disk path location files
  stems : ∀ file ∈ files, file.1 = Path.stem file.1 ++ ".vm"
  names : process.unitNames disk path location = files.map Prod.fst
  taken : takeUnits (process.unit disk) ((files.map Prod.fst).map (Path.join path)) =
    takeUnits (process.unitOfFile path) files

theorem exists_lists (process : Process) (wellNamed : disk.WellNamed)
    (found : disk.find process.work path = .ok (location, .directory)) :
    ∃ files, Lists process disk path location files := by
  obtain ⟨files, unitFiles, names, texts⟩ := exists_unitFiles wellNamed found
  refine ⟨files, found, unitFiles, ?_, names, ?_⟩
  · rintro ⟨name, content⟩ member
    obtain ⟨-, isUnit, -⟩ := (unitFiles.mem_iff name content).mp member
    exact isUnit.eq_stem_append
  · rw [List.map_map]
    refine takeUnits_map fun ⟨name, content⟩ member => ?_
    have there := ((unitFiles.mem_iff name content).mp member).1
    exact Process.unit_join (wellNamed.isEntryName there) (texts _ member)

/-- A directory stands for its unit files if the process can tell that it is one. -/
theorem Lists.sources_eq (h : Lists process disk path location files)
    (seen : process.refusals.look path = false) :
    process.sources disk path = process.sourcesOfFiles path location files := by
  have isDirectory := Process.isDirectory_iff.mpr ⟨seen, location, h.found⟩
  rw [Process.sourcesOfFiles]
  cases refused : process.refusals.list path with
  | some error =>
      exact (Process.StandsFor.unlisted isDirectory (Process.listUnits_of_list refused)).sources_eq
  | none =>
      cases broken : process.refusals.entry path with
      | some error =>
          have listed := Process.listUnits_of_entry refused broken h.found
          exact (Process.StandsFor.unlisted isDirectory listed).sources_eq
      | none =>
          have enters : process.Enters path := ⟨seen, refused, broken⟩
          have listed := enters.listUnits_eq h.found
          rw [h.names] at listed
          dsimp only
          by_cases none : files = []
          · rw [if_pos none]
            rw [none] at listed
            exact (Process.StandsFor.empty isDirectory listed).sources_eq
          · rw [if_neg none]
            have some : files.map Prod.fst ≠ [] := by simpa using none
            cases resolved : process.refusals.resolve path with
            | some error =>
                have named : process.directoryName disk path = .error error := by
                  rw [Process.directoryName, resolved]
                  rfl
                exact (Process.StandsFor.unresolved isDirectory listed some named).sources_eq
            | none =>
                have named := Process.directoryName_eq resolved h.found
                cases last : location.getLast? with
                | none =>
                    rw [last] at named
                    exact (Process.StandsFor.nameless isDirectory listed some named).sources_eq
                | some name =>
                    rw [last] at named
                    exact (Process.StandsFor.directory isDirectory listed some named).sources_eq

/-! ## What is prepared -/

/-- The path that the program of a directory goes to, by the name of the directory. -/
def Options.outputIn (options : Options) (name : String) : String :=
  options.output?.getD (Path.join options.path (name ++ ".asm"))

/-- What is to be written for the unit files of a directory, and the path it goes to, or why there
is nothing. A directory that the process may not look at is taken for a file, which it is not. -/
inductive Prepares (process : Process) (options : Options) (location : Location)
    (files : List (String × ByteArray)) : Except Failure (String × String) → Prop
  | unseen (barred : process.refusals.look options.path = true) :
      Prepares process options location files
        (.error (.reading options.path
          ((process.refusals.read options.path).getD .isDirectory)))
  | refused {failure : Failure} (seen : process.refusals.look options.path = false)
      (stands : process.sourcesOfFiles options.path location files = .error failure) :
      Prepares process options location files (.error failure)
  | failed {sources : Sources} {failure : Failure}
      (seen : process.refusals.look options.path = false)
      (stands : process.sourcesOfFiles options.path location files = .ok sources)
      (verdict : Verdict (process.unitOfFile options.path) options.bootstrap? files
        (.error failure)) :
      Prepares process options location files (.error failure)
  | made {sources : Sources} {text : String}
      (seen : process.refusals.look options.path = false)
      (stands : process.sourcesOfFiles options.path location files = .ok sources)
      (verdict : Verdict (process.unitOfFile options.path) options.bootstrap? files (.ok text)) :
      Prepares process options location files
        (.ok (options.output?.getD sources.output, text))

theorem exists_of_sourcesOfFiles {sources : Sources}
    (h : process.sourcesOfFiles path location files = .ok sources) :
    ∃ name, location.getLast? = some name ∧
      sources = .inDirectory path name (files.map Prod.fst) := by
  rw [Process.sourcesOfFiles] at h
  split at h
  · cases h
  · cases h
  · split at h
    · cases h
    · split at h
      · cases h
      · cases h
      · next name _ last =>
        exact ⟨name, last, (Except.ok.inj h).symm⟩

theorem Lists.prepared_eq {sources : Sources} (h : Lists process disk options.path location files)
    (seen : process.refusals.look options.path = false)
    (stands : process.sourcesOfFiles options.path location files = .ok sources) :
    process.prepared disk options =
      (verdict options.bootstrap? (takeUnits (process.unitOfFile options.path) files)).map fun text =>
        (options.output?.getD sources.output, text) := by
  obtain ⟨name, -, whole⟩ := exists_of_sourcesOfFiles stands
  have paths : sources.paths = (files.map Prod.fst).map (Path.join options.path) := by
    rw [whole]
    rfl
  rw [Process.prepared, h.sources_eq seen, stands]
  dsimp only
  rw [paths, h.taken]

/-- What may not be looked at is taken for a file. -/
theorem sources_of_barred (barred : process.refusals.look path = true) :
    process.sources disk path = .ok (.ofFile path) := by
  have other : process.isDirectory disk path = false := by simp [Process.isDirectory, barred]
  exact (Process.StandsFor.file other).sources_eq

/-- A directory is no text. -/
theorem unit_of_directory (found : disk.find process.work path = .ok (location, .directory)) :
    process.unit disk path =
      .error (.reading path ((process.refusals.read path).getD .isDirectory)) := by
  have directory : disk.readText process.work path = .error .isDirectory := by
    rw [Disk.readText, found]
    rfl
  rw [Process.unit, Process.readText, directory]
  cases process.refusals.read path <;> rfl

theorem takeUnits_of_directory
    (found : disk.find process.work path = .ok (location, .directory)) :
    takeUnits (process.unit disk) (Sources.ofFile path).paths =
      ([], some (.reading path ((process.refusals.read path).getD .isDirectory))) := by
  rw [Sources.ofFile, takeUnits, unit_of_directory found]

theorem Lists.prepares (h : Lists process disk options.path location files) :
    Prepares process options location files (process.prepared disk options) := by
  cases seen : process.refusals.look options.path with
  | true =>
      have start : compile options.bootstrap? [] = .ok (Run.start options.bootstrap?).finish := rfl
      rw [Process.prepared, sources_of_barred seen]
      dsimp only
      rw [takeUnits_of_directory h.found, verdict_of_eq_ok start]
      exact .unseen seen
  | false =>
      cases stands : process.sourcesOfFiles options.path location files with
      | error failure =>
          rw [Process.prepared, h.sources_eq seen, stands]
          exact .refused seen stands
      | ok sources =>
          rw [h.prepared_eq seen stands]
          have judged := verdict_takeUnits (process.unitOfFile options.path) options.bootstrap? files
          generalize verdict options.bootstrap?
            (takeUnits (process.unitOfFile options.path) files) = outcome at judged ⊢
          cases outcome with
          | error failure => exact .failed seen stands judged
          | ok text => exact .made seen stands judged

/-! ## What makes no difference -/

/-- A process answers alike on two disks that list the same unit files, if the output leads to the
same place. -/
theorem Lists.answer_congr (h : Lists process disk options.path location files)
    (h' : Lists process other options.path location files)
    (target : ∀ name, location.getLast? = some name →
      process.target other (options.outputIn name) =
        process.target disk (options.outputIn name)) :
    (process.answer other options).1 = (process.answer disk options).1 ∧
      SameChange disk other (process.answer disk options).2 (process.answer other options).2 := by
  cases seen : process.refusals.look options.path with
  | true =>
      have stands : process.sources disk options.path = _ := sources_of_barred seen
      refine Process.answer_congr ((sources_of_barred seen).trans stands.symm)
        fun sources found => ?_
      obtain rfl := Except.ok.inj (stands.symm.trans found)
      rw [takeUnits_of_directory h.found, takeUnits_of_directory h'.found]
      exact ⟨rfl, nofun⟩
  | false =>
      have stands := h.sources_eq seen
      refine Process.answer_congr ((h'.sources_eq seen).trans stands.symm) fun sources found => ?_
      obtain ⟨name, last, rfl⟩ := exists_of_sourcesOfFiles (stands.symm.trans found)
      exact ⟨h'.taken.trans h.taken.symm, fun _ => target name last⟩

/-- Two disks on which a directory has the same files with names of units. -/
def SameUnitFiles (disk other : Disk) (location : Location) : Prop :=
  ∀ name content, IsUnitName name →
    (other.node? (location ++ [name]) = some (.file content) ↔
      disk.node? (location ++ [name]) = some (.file content))

/-- **Elsewhere.** A process answers alike on two disks on which a directory has the same unit files
and the output can be written to, or cannot for the same reason. -/
theorem answer_elsewhere (wellNamed : disk.WellNamed)
    (found : disk.find process.work options.path = .ok (location, .directory))
    (wellNamed' : other.WellNamed)
    (isDirectory : other.isDirectory process.work options.path = true)
    (same : SameUnitFiles disk other location)
    (target : ∀ name error, location.getLast? = some name →
      (process.target other (options.outputIn name) = .error error ↔
        process.target disk (options.outputIn name) = .error error)) :
    (process.answer other options).1 = (process.answer disk options).1 ∧
      SameChange disk other (process.answer disk options).2 (process.answer other options).2 := by
  obtain ⟨location', found'⟩ := Disk.isDirectory_eq_true_iff.mp isDirectory
  obtain rfl := Disk.eq_of_find found found'
  obtain ⟨files, lists⟩ := exists_lists process wellNamed found
  obtain ⟨files', lists'⟩ := exists_lists process wellNamed' found'
  obtain rfl := lists'.unitFiles.unique lists.unitFiles same
  exact lists.answer_congr lists' fun name last =>
    Process.target_eq_of_error_iff fun error => target name error last

theorem node?_put_congr (same : ∀ place, other.node? place = disk.node? place) (location : Location)
    (node : Node) (place : Location) :
    (other.put location node).node? place = (disk.put location node).node? place := by
  by_cases there : place = location
  · subst there
    by_cases root : place = []
    · simp [Disk.node?, root]
    · rw [Disk.node?_put_self root, Disk.node?_put_self root]
  · rw [Disk.node?_put_of_ne there, Disk.node?_put_of_ne there, same]

theorem SameChange.node?_eq {after after' : Disk} (h : SameChange disk other after after')
    (same : ∀ place, other.node? place = disk.node? place) (place : Location) :
    after'.node? place = after.node? place := by
  rcases h with ⟨rfl, rfl⟩ | ⟨location, node, rfl, rfl⟩
  · exact same place
  · exact node?_put_congr same location node place

/-- **Programs of directories.** A command line that is given a directory does what its options say
with the unit files in it, in the order of the bytes of their names. What else there is in the
directory or anywhere makes no difference unless the output can no longer be written to for it, and
the order of listing makes none at all, be it that of the disk or that of another host. -/
theorem directory_is_its_unit_files (lawful : host.Lawful process view) (options : Options) (s : σ)
    (wellNamed : (view s).WellNamed)
    (found : (view s).find process.work options.path = .ok (location, .directory)) :
    (∃ files result, UnitFiles process (view s) options.path location files ∧
      (∀ file ∈ files, file.1 = Path.stem file.1 ++ ".vm") ∧
      Prepares process options location files result ∧
      process.Ends (view s) (host.answer options s).1 result (view (host.answer options s).2)) ∧
    (∀ (σ' : Type) (view' : σ' → Disk) (host' : Host (StateM σ')) (s' : σ'),
      host'.Lawful process view' → (view' s').WellNamed →
      (view' s').isDirectory process.work options.path = true →
      SameUnitFiles (view s) (view' s') location →
      (∀ name error, location.getLast? = some name →
        (process.target (view' s') (options.outputIn name) = .error error ↔
          process.target (view s) (options.outputIn name) = .error error)) →
      (host'.answer options s').1 = (host.answer options s).1 ∧
        SameChange (view s) (view' s') (view (host.answer options s).2)
          (view' (host'.answer options s').2)) ∧
    ∀ (σ' : Type) (view' : σ' → Disk) (host' : Host (StateM σ')) (s' : σ'),
      host'.Lawful process view' → (view' s').entries.Perm (view s).entries →
      (host'.answer options s').1 = (host.answer options s).1 ∧
        ∀ place, (view' (host'.answer options s').2).node? place =
          (view (host.answer options s).2).node? place := by
  obtain ⟨reports, after⟩ := lawful.answer options s
  rw [reports, after]
  generalize view s = disk at wellNamed found ⊢
  obtain ⟨files, lists⟩ := exists_lists process wellNamed found
  refine ⟨⟨files, _, lists.unitFiles, lists.stems, lists.prepares, process.ends_answer disk options⟩,
    ?_, ?_⟩
  · intro σ' view' host' s' lawful' wellNamed' isDirectory same target
    obtain ⟨reports', after'⟩ := lawful'.answer options s'
    rw [reports', after']
    exact answer_elsewhere wellNamed found wellNamed' isDirectory same target
  · intro σ' view' host' s' lawful' perm
    obtain ⟨reports', after'⟩ := lawful'.answer options s'
    rw [reports', after']
    generalize view' s' = other at perm ⊢
    have same := Disk.node?_of_perm perm
    have wellNamed' : other.WellNamed :=
      fun entry member => wellNamed entry (perm.mem_iff.mp member)
    have found' : other.find process.work options.path = .ok (location, .directory) := by
      rw [Disk.find_congr same, found]
    have targets : ∀ path, process.target other path = process.target disk path := by
      intro path
      rw [Process.target, Process.target, Disk.target_congr same]
    obtain ⟨reports, changes⟩ := answer_elsewhere wellNamed found wellNamed'
      (Disk.isDirectory_eq_true_iff.mpr ⟨location, found'⟩) (fun name content _ => by rw [same])
      (fun name error _ => by rw [targets])
    exact ⟨reports, changes.node?_eq same⟩

/-- A directory of two files, and what may stand around them, however it is listed. -/
theorem directory_is_its_unit_files_among_others :
    let disk : Disk :=
      { entries :=
          [(["d"], .directory), (["d", "B.vm"], .file "sub".toUTF8),
            (["d", "A.vm"], .file "add\n".toUTF8)]
        distinct := by decide }
    let other : Disk :=
      { entries :=
          [(["d", ".vm"], .file "neg".toUTF8), (["d", "A.vm"], .file "add\n".toUTF8),
            (["d", "x.vm", "C.vm"], .file "not".toUTF8), (["d", "x.vm"], .directory),
            (["d", "B.vm"], .file "sub".toUTF8), (["d", "A.txt"], .file "".toUTF8),
            (["d"], .directory)]
        distinct := by decide }
    let process : Process := { work := [] }
    let options : Options :=
      { path := "d", output? := none, bootstrap? := some { entry := "Main.main" },
        verbose := false }
    let answer := (Disk.host []).answer options disk
    let answer' := (Disk.host []).backwards.answer options other
    (Disk.host []).Lawful process id ∧ disk.WellNamed ∧ other.WellNamed ∧
      disk.find [] "d" = .ok (["d"], .directory) ∧
      (∃ files result, UnitFiles process disk "d" ["d"] files ∧
        Prepares process options ["d"] files result ∧
        process.Ends disk answer.1 result answer.2) ∧
      answer'.1 = answer.1 ∧ SameChange disk other answer.2 answer'.2 := by
  intro disk other process options answer answer'
  have lawful : (Disk.host []).Lawful process id := process.lawful_host
  have wellNamed : disk.WellNamed := by decide
  have wellNamed' : other.WellNamed := by decide
  have found : disk.find [] "d" = .ok (["d"], .directory) := by rfl
  have found' : other.find [] "d" = .ok (["d"], .directory) := by rfl
  obtain ⟨⟨files, result, unitFiles, -, prepares, ends⟩, elsewhere, -⟩ :=
    directory_is_its_unit_files lawful options disk wellNamed found
  refine ⟨lawful, wellNamed, wellNamed', found, ⟨files, result, unitFiles, prepares, ends⟩,
    elsewhere Disk id _ other lawful.backwards wellNamed'
      (Disk.isDirectory_eq_true_iff.mpr ⟨["d"], found'⟩) ?_ ?_⟩
  · rintro name content ⟨stem, nonempty, rfl⟩
    rw [id, id, Disk.node?_eq_some_iff (by simp), Disk.node?_eq_some_iff (by simp)]
    have chars : stem.toList ≠ [] := by simpa using nonempty
    have notHidden : stem ++ ".vm" ≠ ".vm" := by
      rw [Ne, ← String.toList_inj, String.toList_append, List.append_left_eq_self]
      exact chars
    have notText : stem ++ ".vm" ≠ "A.txt" := by
      intro same
      have last := congrArg (fun text => text.toList.getLast?) same
      simp at last
    simp [disk, other, notHidden, notText, or_comm]
  · intro name error last
    obtain rfl : "d" = name := Option.some.inj last
    have output : Path.join "d" ("d" ++ ".asm") = "d/d.asm" := by decide
    have target : process.target other "d/d.asm" = process.target disk "d/d.asm" := by rfl
    rw [id, id, Options.outputIn, Option.getD_none, output, target]

/-! ## Files out of reach

A path has less than 4096 bytes. A directory can have a path that leaves room for some of the names
in it only, and then files with longer names are left out without a word.
-/

section OutOfReach

/-- A path to the directory `d`, which stays there for a number of steps. -/
def longWay : Nat → String
  | 0 => "d/"
  | n + 1 => longWay n ++ "./"

theorem utf8ByteSize_longWay (n : Nat) : (longWay n).utf8ByteSize = 2 * n + 2 := by
  induction n with
  | zero => rfl
  | succ n ih =>
      have more : "./".utf8ByteSize = 2 := rfl
      rw [longWay, String.utf8ByteSize_append, ih, more]
      omega

theorem exists_toList_longWay (n : Nat) :
    ∃ front, (longWay n).toList = front ++ ['/'] ∧
      Text.cut (· == '/') front = ['d'] :: List.replicate n ['.'] := by
  induction n with
  | zero => exact ⟨['d'], rfl, rfl⟩
  | succ n ih =>
      obtain ⟨front, whole, pieces⟩ := ih
      refine ⟨front ++ '/' :: ['.'], by simp [longWay, whole], ?_⟩
      rw [Text.cut_append_cons (by rfl), pieces, List.replicate_succ']
      rfl

theorem steps_longWay (n : Nat) :
    Path.steps (longWay n) = "d" :: (List.replicate n "." ++ [""]) := by
  obtain ⟨front, whole, pieces⟩ := exists_toList_longWay n
  rw [Path.steps, whole, Text.cut_append_cons (by rfl), pieces]
  simp [Text.cut]

theorem find_longWay (isDirectory : disk.node? ["d"] = some .directory) {n : Nat}
    (short : 2 * n + 2 < 4096) : disk.find [] (longWay n) = .ok (["d"], .directory) := by
  rw [Disk.find_eq_ok_iff]
  have nonempty : longWay n ≠ "" := by
    intro empty
    have size := utf8ByteSize_longWay n
    rw [empty] at size
    cases size
  refine ⟨⟨nonempty, by simpa [Path.fits, utf8ByteSize_longWay] using short⟩, ?_, isDirectory⟩
  have start : Disk.origin [] (longWay n) = [] := by rw [Disk.origin, ite_self]
  have first : disk.walk [] ["d"] = .ok ["d"] :=
    Disk.walk_name (by rfl) (by decide : Path.IsEntryName "d")
  rw [start, steps_longWay, ← List.singleton_append, Disk.walk_append, first]
  exact Disk.walk_stay isDirectory (by simp [or_comm])

theorem fits_join_longWay {n : Nat} {name : String} :
    Path.fits (Path.join (longWay n) name) = true ↔ 2 * n + 2 + name.utf8ByteSize < 4096 := by
  obtain ⟨front, whole, -⟩ := exists_toList_longWay n
  have slash : Path.endsWithSlash (longWay n) = true := by simp [Path.endsWithSlash, whole]
  rw [Path.join, if_pos slash, Path.fits, String.utf8ByteSize_append, utf8ByteSize_longWay,
    decide_eq_true_iff]

/-- What a path asks for that has no bootstrap and `out.asm` as its output. -/
def bareOptions (path : String) : Options :=
  { path, output? := some "out.asm", bootstrap? := none, verbose := false }

/-- A directory `d` that holds two files of units. -/
def farDisk : Disk where
  entries :=
    [(["d"], .directory), (["d", "A.vm"], .file "add".toUTF8),
      (["d", "LongName.vm"], .file "eq".toUTF8)]
  distinct := by decide

section Beyond

variable {n : Nat} (reached : 2 * n + 2 + 4 < 4096) (beyond : 4096 ≤ 2 * n + 2 + 11)
include reached beyond

theorem unitFiles_longWay :
    UnitFiles { work := [] } farDisk (longWay n) ["d"] [("A.vm", "add".toUTF8)] where
  ordered := List.pairwise_singleton ..
  mem_iff name content := by
    rw [Disk.node?_eq_some_iff (by simp)]
    constructor
    · intro member
      obtain ⟨rfl, rfl⟩ := Prod.mk.inj (List.mem_singleton.mp member)
      exact ⟨by simp [farDisk], ⟨"A", by decide, rfl⟩, fits_join_longWay.mpr reached, rfl⟩
    · rintro ⟨member, -, reaches⟩
      have short := fits_join_longWay.mp reaches.fits
      have either : name = "A.vm" ∧ content = "add".toUTF8 ∨
          name = "LongName.vm" ∧ content = "eq".toUTF8 := by
        simpa [farDisk] using member
      rcases either with ⟨rfl, rfl⟩ | ⟨rfl, rfl⟩
      · exact List.mem_singleton.mpr rfl
      · exact absurd short (Nat.not_lt.mpr beyond)

theorem answer_longWay {text : String} (made : compile none [("A", "add")] = .ok text) :
    let answer := (Disk.host []).answer (bareOptions (longWay n)) farDisk
    answer.1.exitCode = 0 ∧ answer.2.node? ["out.asm"] = some (.file text.toUTF8) := by
  let process : Process := { work := [] }
  have lawful : (Disk.host []).Lawful process id := process.lawful_host
  have found : farDisk.find [] (longWay n) = .ok (["d"], .directory) :=
    find_longWay (by rfl) (by omega)
  obtain ⟨files, lists⟩ := exists_lists process (by decide) found
  obtain rfl := (unitFiles_longWay reached beyond).unique lists.unitFiles fun _ _ _ => Iff.rfl
  have standsFor := process.standsFor_sources farDisk (longWay n)
  rw [lists.sources_eq rfl] at standsFor
  have judged : verdict none (takeUnits (process.unit farDisk)
      (["A.vm"].map (Path.join (longWay n)))) = .ok text := by
    rw [show ["A.vm"] = [("A.vm", "add".toUTF8)].map Prod.fst from rfl, lists.taken]
    exact verdict_of_eq_ok made
  have target : process.target farDisk "out.asm" = .ok ["out.asm"] := by rfl
  obtain ⟨succeeds, after⟩ := @Host.Lawful.succeeds _ _ _ _ _ (bareOptions (longWay n)) farDisk _ _
    lawful standsFor judged target
  intro answer
  refine ⟨succeeds.exitCode, ?_⟩
  rw [id] at after
  rw [after, id, Disk.node?_put_self (by simp)]

end Beyond

/-- **Out of reach.** One of two files of units in a directory makes the program alone, since the
path of the other is too long. -/
theorem file_out_of_reach_left_out :
    let path := longWay 2042
    let answer := (Disk.host []).answer (bareOptions path) farDisk
    farDisk.WellNamed ∧ farDisk.find [] path = .ok (["d"], .directory) ∧
    farDisk.node? ["d", "LongName.vm"] = some (.file "eq".toUTF8) ∧
    ∃ text whole, compile none [("A", "add")] = .ok text ∧
      compile none [("A", "add"), ("LongName", "eq")] = .ok whole ∧ text ≠ whole ∧
      answer.1.exitCode = 0 ∧ answer.2.node? ["out.asm"] = some (.file text.toUTF8) := by
  obtain ⟨text, made⟩ := exists_of_isOk (by decide +kernel : (compile none [("A", "add")]).isOk)
  obtain ⟨whole, madeWhole⟩ :=
    exists_of_isOk (by decide +kernel : (compile none [("A", "add"), ("LongName", "eq")]).isOk)
  have differ : compile none [("A", "add")] ≠ compile none [("A", "add"), ("LongName", "eq")] := by
    decide +kernel
  rw [made, madeWhole] at differ
  refine ⟨by decide, find_longWay (by rfl) (by decide), by rfl, text, whole, made, madeWhole,
    fun same => differ (congrArg _ same), ?_⟩
  exact answer_longWay (by decide) (by decide) made

end OutOfReach

end StackToHack
