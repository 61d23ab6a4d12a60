import StackToHack.Proofs.CommandLine.Program
import StackToHack.Proofs.Unreadable

/-!
# Default outputs

Where no output is given, the program of a file goes beside it, and that of a directory into it. The
files of units in a directory have another extension than programs, so none of them is in the way. A
path that is no directory may have any extension. If it has that of programs, it is its own output,
and what it held is gone; nothing else that is read as a unit is ever touched
(`default_output_spares_units`).

A disk stays as it is if the same is done to it once more. What is read a second time is what was
read before, or it is a program, and a program is no source.
-/

namespace StackToHack

/-! ## Texts as bytes -/

theorem fromUTF8?_toUTF8 (text : String) : String.fromUTF8? text.toUTF8 = some text := by
  rw [String.fromUTF8?, String.toUTF8_eq_toByteArray, dif_pos text.isValidUTF8]
  rfl

/-! ## Programs of one unit -/

section Single

variable {bootstrap : Option Bootstrap} {unit source text : String} {content : ByteArray}

theorem compile_of_unread {error : LineError} (h : Source.statements source = .error error) :
    compile bootstrap [(unit, source)] = .error (.line unit error) := by
  simp only [compile, Run.addAll, Run.add, h, Except.map]

theorem compile_empty : compile none [(unit, "")] = .ok "" := rfl

/-- A unit is not the program that it makes, unless both are empty. -/
theorem toUTF8_eq_iff (read : String.fromUTF8? content = some source)
    (made : compile bootstrap [(unit, source)] = .ok text) :
    text.toUTF8 = content ↔ content = .empty ∧ bootstrap = none := by
  constructor
  · rintro rfl
    obtain rfl := Option.some.inj (read.symm.trans (fromUTF8?_toUTF8 text))
    rcases exists_error_of_compile made with ⟨noBootstrap, rfl⟩ | ⟨error, unread⟩
    · exact ⟨rfl, noBootstrap⟩
    · rw [compile_of_unread unread] at made
      cases made
  · rintro ⟨rfl, rfl⟩
    obtain rfl := Option.some.inj (read.symm.trans (fromUTF8?_toUTF8 ""))
    obtain rfl := Except.ok.inj (compile_empty.symm.trans made)
    rfl

/-- A program that is taken for a unit makes no other program. -/
theorem eq_of_compile_program {units : List (String × String)} {text' : String}
    (made : compile bootstrap units = .ok text)
    (again : compile bootstrap [(unit, text)] = .ok text') : text' = text := by
  rcases exists_error_of_compile made with ⟨rfl, rfl⟩ | ⟨error, unread⟩
  · exact (Except.ok.inj (compile_empty.symm.trans again)).symm
  · rw [compile_of_unread unread] at again
    cases again

end Single

/-! ## Where outputs lead -/

section Places

variable {process : Process} {disk : Disk} {work here location input output : Location}
  {path name other : String} {sources : Sources} {content : ByteArray}

/-- A path that is no directory, as far as a process can tell, and that is its own output, since its
extension is that of programs already. -/
structure Process.IsOwnOutput (process : Process) (disk : Disk) (path : String) : Prop where
  notDirectory : process.isDirectory disk path = false
  extension : Path.extension? path = some "asm"

/-- A file that a path stands for, by its place and its content. It is read as a unit unless it is
refused, or one before it fails. -/
def Process.ReadsUnit (process : Process) (disk : Disk) (path : String) (location : Location)
    (content : ByteArray) : Prop :=
  ∃ sources file, process.StandsFor disk path (.ok sources) ∧ file ∈ sources.paths ∧
    disk.find process.work file = .ok (location, .file content)

theorem append_eq_step_iff (named : Path.IsEntryName name) :
    here ++ [name] = Disk.step here other ↔ name = other := by
  constructor
  · intro same
    rw [Disk.step] at same
    split at same
    · exact absurd (congrArg List.length same) (by simp)
    · split at same
      · have lengths := congrArg List.length same
        rw [List.length_append, List.length_dropLast, List.length_singleton] at lengths
        omega
      · simpa using same
  · rintro rfl
    exact (Disk.step_name here named).symm

/-- The output beside a file is that file only if it has the extension of programs. -/
theorem eq_output_of_file_iff (found : disk.find work path = .ok (input, .file content))
    (target : disk.target work (Path.withExtension path "asm") = .ok output) :
    output = input ↔ Path.extension? path = some "asm" := by
  have noSlash : '/' ∉ "asm".toList := by decide
  obtain ⟨front, whole, replaced⟩ := Path.exists_steps_withExtension noSlash path
  obtain ⟨-, walked, -⟩ := Disk.find_eq_ok_iff.mp found
  obtain ⟨above, front', name, rfl, named, -, parted, walked', -, -⟩ :=
    Disk.exists_name_of_target target
  obtain ⟨rfl, rfl⟩ := List.append_singleton_inj.mp (replaced.symm.trans parted)
  have origin : Disk.origin work (Path.withExtension path "asm") = Disk.origin work path := by
    rw [Disk.origin, Disk.origin, Path.isAbsolute_withExtension noSlash]
  rw [origin] at walked'
  rw [whole, Disk.walk_append, walked'] at walked
  have leads : input = Disk.step above (Path.fileName path) := Disk.eq_foldl_of_walk walked
  rw [leads, append_eq_step_iff named]
  exact Path.fileName_withExtension_eq_iff noSlash (by decide) named.notAbove

theorem not_isUnitName_asm (name : String) : ¬IsUnitName (name ++ ".asm") := by
  rintro ⟨stem, -, same⟩
  have reversed := congrArg (fun text => text.toList.reverse) same
  simp at reversed

/-- The output in a directory has the name of the directory with the extension of programs. -/
theorem exists_above_of_target_join (named : Path.IsEntryName name)
    (target : disk.target work (Path.join path (name ++ ".asm")) = .ok output) :
    ∃ above, output = above ++ [name ++ ".asm"] := by
  obtain ⟨above, front, last, rfl, -, -, parted, -⟩ := Disk.exists_name_of_target target
  have noSlash : '/' ∉ (name ++ ".asm").toList := by simp [named.noSlash]
  obtain ⟨front', whole, -⟩ := Path.steps_join noSlash path
  obtain ⟨-, rfl⟩ := List.append_singleton_inj.mp (whole.symm.trans parted)
  exact ⟨above, rfl⟩

/-- The files that a directory stands for are those with names of units in it. -/
theorem exists_isUnitName_of_readsUnit (wellNamed : disk.WellNamed)
    (isDirectory : process.isDirectory disk path = true)
    (foundDirectory : disk.find process.work path = .ok (here, .directory))
    (reads : process.ReadsUnit disk path location content) :
    ∃ name, location = here ++ [name] ∧ IsUnitName name := by
  obtain ⟨sources, file, standsFor, member, found⟩ := reads
  obtain ⟨above, directory, foundDirectory', rfl⟩ := standsFor.exists_of_directory isDirectory
  obtain rfl := Disk.eq_of_find foundDirectory foundDirectory'
  obtain ⟨name, inUnits, rfl⟩ := List.mem_map.mp member
  obtain ⟨⟨content', lies⟩, isUnit, reaches⟩ :=
    (mem_unitNames_of_directory_iff wellNamed foundDirectory name).mp inUnits
  rw [Disk.find_join (wellNamed.isEntryName lies) foundDirectory, if_pos reaches.fits,
    Disk.located, lies] at found
  cases found
  exact ⟨name, rfl, isUnit⟩

/-- **Places.** The place of an output is that of no unit, unless the path is its own output. -/
theorem eq_output_iff (wellNamed : disk.WellNamed)
    (standsFor : process.StandsFor disk path (.ok sources))
    (target : disk.target process.work sources.output = .ok output)
    (reads : process.ReadsUnit disk path location content) :
    output = location ↔ process.IsOwnOutput disk path := by
  cases isDirectory : process.isDirectory disk path with
  | false =>
      have stands := Process.StandsFor.file isDirectory
      obtain rfl := standsFor.unique stands
      obtain ⟨sources, file, standsFor', member, found⟩ := reads
      obtain rfl := stands.unique standsFor'
      obtain rfl := List.mem_singleton.mp member
      exact (eq_output_of_file_iff found target).trans
        ⟨fun extension => ⟨isDirectory, extension⟩, Process.IsOwnOutput.extension⟩
  | true =>
      obtain ⟨above, directory, found, rfl⟩ := standsFor.exists_of_directory isDirectory
      have named := wellNamed.isEntryName (Disk.find_eq_ok_iff.mp found).2.2
      obtain ⟨above', rfl⟩ := exists_above_of_target_join named target
      obtain ⟨name, rfl, isUnit⟩ :=
        exists_isUnitName_of_readsUnit wellNamed isDirectory found reads
      constructor
      · intro same
        obtain ⟨-, rfl⟩ := List.append_singleton_inj.mp same
        exact absurd isUnit (not_isUnitName_asm directory)
      · intro own
        rw [own.notDirectory] at isDirectory
        cases isDirectory

end Places

/-! ## What is written -/

/-- What a command line without an output writes: the program of what its path stands for, to where
the output of that leads. -/
structure Process.Writes (process : Process) (disk : Disk) (options : Options) (sources : Sources)
    (text : String) (output : Location) : Prop where
  standsFor : process.StandsFor disk options.path (.ok sources)
  makes : ∃ units, TakenAs (process.unit disk) sources.paths units ∧
    compile options.bootstrap? units = .ok text
  target : process.target disk sources.output = .ok output

section Writes

variable {process : Process} {disk : Disk} {output location : Location} {options : Options}
  {sources : Sources} {text : String} {content : ByteArray}

/-- A command line fails and leaves the disk alone, or it writes one file. -/
theorem Process.fails_or_exists_writes (process : Process) (disk : Disk)
    (noOutput : options.output? = none) :
    (process.answer disk options).1.exitCode ≠ 0 ∧ (process.answer disk options).2 = disk ∨
      (process.answer disk options).1.exitCode = 0 ∧ ∃ sources text output,
        process.Writes disk options sources text output ∧
          (process.answer disk options).2 = disk.put output (.file text.toUTF8) := by
  have ends := process.ends_answer disk options
  by_cases success : (process.answer disk options).1.exitCode = 0
  · obtain ⟨output, text, location, prepared, target, after⟩ := ends.exists_of_success success
    obtain ⟨sources, units, standsFor, takenAs, made, rfl⟩ := Process.exists_of_prepared prepared
    rw [noOutput, Option.getD_none] at target
    exact .inr ⟨success, sources, text, location, ⟨standsFor, ⟨units, takenAs, made⟩, target⟩,
      after⟩
  · exact .inl ⟨success, ends.eq_of_failure success⟩

/-- Where a path is no directory, it is the one file that is read. -/
theorem Process.Writes.exists_source (h : process.Writes disk options sources text output)
    (notDirectory : process.isDirectory disk options.path = false) :
    sources = .ofFile options.path ∧ ∃ input content unit,
      disk.find process.work options.path = .ok (input, .file content) ∧
      process.unit disk options.path = .ok unit ∧
      String.fromUTF8? content = some unit.2 ∧
      compile options.bootstrap? [unit] = .ok text := by
  obtain rfl := h.standsFor.unique (.file notDirectory)
  obtain ⟨units, takenAs, made⟩ := h.makes
  obtain ⟨unit, rest, here, nothing, rfl⟩ := List.forall₂_cons_left_iff.mp takenAs
  obtain rfl := List.forall₂_nil_left_iff.mp nothing
  obtain ⟨input, content, found, read, -⟩ := Process.exists_find_of_unit here
  exact ⟨rfl, input, content, unit, found, here, read, made⟩

theorem Process.Writes.leads (h : process.Writes disk options sources text output) :
    disk.target process.work sources.output = .ok output :=
  (Process.target_eq_ok_iff.mp h.target).2

theorem Process.Writes.free (h : process.Writes disk options sources text output) :
    disk.node? output ≠ some .directory := by
  obtain ⟨above, front, name, -, -, -, -, -, -, free⟩ := Disk.exists_name_of_target h.leads
  exact free

theorem Process.Writes.ne_nil (h : process.Writes disk options sources text output) :
    output ≠ [] := by
  obtain ⟨above, front, name, rfl, -⟩ := Disk.exists_name_of_target h.leads
  simp

/-- What can be written to once can be written to again. -/
theorem Process.Writes.target_put (h : process.Writes disk options sources text output)
    (content : ByteArray) :
    process.target (disk.put output (.file content)) sources.output = .ok output := by
  obtain ⟨refused, leads⟩ := Process.target_eq_ok_iff.mp h.target
  exact Process.target_eq_ok_iff.mpr ⟨refused, Disk.target_put leads content⟩

/-- A unit is overwritten only by its own program, and kept only where that program is the same. -/
theorem Process.Writes.node?_ne_iff (h : process.Writes disk options sources text output)
    (wellNamed : disk.WellNamed) (reads : process.ReadsUnit disk options.path location content) :
    (disk.put output (.file text.toUTF8)).node? location ≠ some (.file content) ↔
      process.IsOwnOutput disk options.path ∧
        ¬(content = .empty ∧ options.bootstrap? = none) := by
  have place := eq_output_iff wellNamed h.standsFor h.leads reads
  obtain ⟨sources', file, standsFor, member, found⟩ := reads
  by_cases own : process.IsOwnOutput disk options.path
  · obtain rfl := place.mpr own
    obtain ⟨rfl, input, content', ⟨unit, source⟩, found', -, read, made⟩ :=
      h.exists_source own.notDirectory
    obtain rfl := h.standsFor.unique standsFor
    obtain rfl := List.mem_singleton.mp member
    obtain ⟨-, same⟩ := Prod.mk.inj (Except.ok.inj (found.symm.trans found'))
    obtain rfl := Node.file.inj same
    rw [Disk.node?_put_self h.ne_nil, ne_eq, Option.some.injEq, Node.file.injEq,
      toUTF8_eq_iff read made]
    exact (and_iff_right own).symm
  · have apart : location ≠ output := fun same => own (place.mp same.symm)
    rw [Disk.node?_put_of_ne apart, (Disk.find_eq_ok_iff.mp found).2.2]
    simp [own]

end Writes

/-! ## Doing it again -/

section Again

variable {process : Process} {disk after after' : Disk} {output location : Location}
  {options : Options} {sources : Sources} {text : String} {content : ByteArray}

theorem isDirectory_of_file {path : String}
    (found : disk.find process.work path = .ok (location, .file content)) :
    process.isDirectory disk path = false := by
  rw [Process.isDirectory, Disk.isDirectory, found, Bool.and_false]

/-- Two disks on which a process reports the same and changes the same. -/
def AnsweredAlike (process : Process) (options : Options) (disk other : Disk) : Prop :=
  (process.answer other options).1 = (process.answer disk options).1 ∧
    SameChange disk other (process.answer disk options).2 (process.answer other options).2

/-- The same change made twice is made once. -/
theorem SameChange.eq_of_again (h : SameChange disk after after after') : after' = after := by
  rcases h with ⟨-, rfl⟩ | ⟨location, node, rfl, rfl⟩
  · rfl
  · exact Disk.put_put disk location node node

/-- A program in a directory is none of the units there. -/
theorem Process.Writes.again_of_directory (h : process.Writes disk options sources text output)
    (noOutput : options.output? = none) (wellNamed : disk.WellNamed)
    (isDirectory : process.isDirectory disk options.path = true) (content : ByteArray) :
    AnsweredAlike process options disk (disk.put output (.file content)) := by
  have free := h.free
  have again := h.target_put content
  obtain ⟨above, directory, found, rfl⟩ := h.standsFor.exists_of_directory isDirectory
  have lies := (Disk.find_eq_ok_iff.mp found).2.2
  obtain ⟨above', rfl⟩ := exists_above_of_target_join (wellNamed.isEntryName lies) h.leads
  refine answer_elsewhere wellNamed found (wellNamed.put h.leads _)
    (Disk.isDirectory_eq_true_iff.mpr ⟨above ++ [directory], ?_⟩) ?_ ?_
  · exact Disk.find_put_of_find found free (Disk.node?_put_of_directory lies free _)
  · intro name content' isUnit
    have apart : above ++ [directory] ++ [name] ≠ above' ++ [directory ++ ".asm"] := by
      intro same
      obtain ⟨-, rfl⟩ := List.append_singleton_inj.mp same
      exact not_isUnitName_asm directory isUnit
    rw [Disk.node?_put_of_ne apart]
  · intro name error last
    rw [List.getLast?_concat, Option.some.injEq] at last
    have output : options.outputIn name =
        (Sources.inDirectory options.path directory
          (process.unitNames disk options.path (above ++ [directory]))).output := by
      rw [Options.outputIn, noOutput, Option.getD_none, ← last]
      rfl
    rw [output, h.target, again]

/-- A program beside the one file is not that file, unless they have one extension. -/
theorem Process.Writes.again_of_file (h : process.Writes disk options sources text output)
    (noOutput : options.output? = none)
    (notDirectory : process.isDirectory disk options.path = false)
    (other : Path.extension? options.path ≠ some "asm") (content : ByteArray) :
    AnsweredAlike process options disk (disk.put output (.file content)) := by
  obtain ⟨rfl, input, read, unit, found, here, -, -⟩ := h.exists_source notDirectory
  have apart : input ≠ output :=
    fun same => other ((eq_output_of_file_iff found h.leads).mp same.symm)
  have found' : (disk.put output (.file content)).find process.work options.path =
      .ok (input, .file read) := by
    refine Disk.find_put_of_find found h.free ?_
    rw [Disk.node?_put_of_ne apart, (Disk.find_eq_ok_iff.mp found).2.2]
  have stands := (Process.StandsFor.file notDirectory).sources_eq
  have stands' := (Process.StandsFor.file (isDirectory_of_file found')).sources_eq
  refine Process.answer_congr (stands'.trans stands.symm) fun sources standsFor => ?_
  obtain rfl := Except.ok.inj (stands.symm.trans standsFor)
  have unit : process.unit (disk.put output (.file content)) options.path =
      process.unit disk options.path := by
    rw [Process.unit, Process.unit, Process.readText, Process.readText,
      Disk.readText_of_find found, Disk.readText_of_find found']
  rw [noOutput, Option.getD_none, h.target, h.target_put content]
  exact ⟨by simp only [Sources.ofFile, takeUnits, unit], fun _ => rfl⟩

/-- What overwrites its source is a source no more, or it has no text. -/
theorem Process.Writes.again_of_isOwnOutput (h : process.Writes disk options sources text output)
    (noOutput : options.output? = none) (own : process.IsOwnOutput disk options.path) :
    (process.answer (disk.put output (.file text.toUTF8)) options).2 =
      disk.put output (.file text.toUTF8) := by
  obtain ⟨rfl, input, content, ⟨unit, source⟩, found, here, -, made⟩ :=
    h.exists_source own.notDirectory
  obtain rfl := (eq_output_of_file_iff found h.leads).mpr own.extension
  have found' := Disk.find_put_of_find found h.free
    (Disk.node?_put_self h.ne_nil disk (.file text.toUTF8))
  rcases process.fails_or_exists_writes (disk.put output (.file text.toUTF8)) noOutput with
    ⟨-, same⟩ | ⟨-, sources', text', output', h', same⟩
  · exact same
  · obtain ⟨rfl, input', content', ⟨unit', source'⟩, found'', here', read, made'⟩ :=
      h'.exists_source (isDirectory_of_file found')
    cases found'.symm.trans found''
    obtain rfl : text = source' := Option.some.inj ((fromUTF8?_toUTF8 text).symm.trans read)
    obtain ⟨-, -, -, -, named⟩ := Process.exists_find_of_unit here
    obtain ⟨-, -, -, -, named'⟩ := Process.exists_find_of_unit here'
    obtain rfl := Option.some.inj (named.symm.trans named')
    obtain rfl := eq_of_compile_program made made'
    have target := Except.ok.inj (h'.target.symm.trans (h.target_put _))
    rw [same, target, Disk.put_put]

/-- A program is written where it stays if it is made again. -/
theorem Process.Writes.again (h : process.Writes disk options sources text output)
    (noOutput : options.output? = none) (wellNamed : disk.WellNamed)
    (written : (process.answer disk options).2 = disk.put output (.file text.toUTF8)) :
    (process.answer (process.answer disk options).2 options).2 =
        (process.answer disk options).2 ∧
      (¬process.IsOwnOutput disk options.path →
        (process.answer (process.answer disk options).2 options).1 =
          (process.answer disk options).1) := by
  by_cases own : process.IsOwnOutput disk options.path
  · rw [written]
    exact ⟨h.again_of_isOwnOutput noOutput own, fun notOwn => absurd own notOwn⟩
  · have alike : AnsweredAlike process options disk (disk.put output (.file text.toUTF8)) := by
      cases isDirectory : process.isDirectory disk options.path with
      | true => exact h.again_of_directory noOutput wellNamed isDirectory _
      | false =>
          have other := fun extension => own ⟨isDirectory, extension⟩
          exact h.again_of_file noOutput isDirectory other _
    rw [← written] at alike
    obtain ⟨reports, changes⟩ := alike
    exact ⟨changes.eq_of_again, fun _ => reports⟩

end Again

/-! ## Default outputs -/

section DefaultOutput

variable {σ : Type} {view : σ → Disk} {host : Host (StateM σ)} {process : Process}

/-- **Default outputs.** A command line that is given no output changes no file that is read as a
unit but the one that is its own output, and that one if it succeeds, unless there is nothing in it
and nothing to write. To answer the same once more changes nothing in any case; and the report is
the same then, unless the source has gone. -/
theorem default_output_spares_units (lawful : host.Lawful process view) (options : Options)
    (s : σ) (noOutput : options.output? = none) (wellNamed : (view s).WellNamed) :
    (∀ location content, process.ReadsUnit (view s) options.path location content →
      ((view (host.answer options s).2).node? location ≠ some (.file content) ↔
        (host.answer options s).1.exitCode = 0 ∧ process.IsOwnOutput (view s) options.path ∧
          ¬(content = .empty ∧ options.bootstrap? = none))) ∧
    view (host.answer options (host.answer options s).2).2 = view (host.answer options s).2 ∧
    (¬process.IsOwnOutput (view s) options.path →
      (host.answer options (host.answer options s).2).1 = (host.answer options s).1) := by
  obtain ⟨reports', after'⟩ := lawful.answer options (host.answer options s).2
  obtain ⟨reports, after⟩ := lawful.answer options s
  rw [reports', after', reports, after]
  generalize view s = disk at wellNamed ⊢
  rcases process.fails_or_exists_writes disk noOutput with
    ⟨fails, same⟩ | ⟨success, sources, text, output, writes, written⟩
  · rw [same]
    refine ⟨fun location content reads => ?_, same, fun _ => rfl⟩
    obtain ⟨sources, file, -, -, found⟩ := reads
    rw [(Disk.find_eq_ok_iff.mp found).2.2]
    simp [fails]
  · refine ⟨fun location content reads => ?_, writes.again noOutput wellNamed written⟩
    rw [written, writes.node?_ne_iff wellNamed reads]
    exact (and_iff_right success).symm

/-- A file under an extension of its own, which is still there and is read again. -/
theorem default_output_spares_units_of_text_file :
    let disk : Disk :=
      { entries :=
          [(["w"], .directory), (["w", "A.asm"], .file "add\n".toUTF8),
            (["w", "A.txt"], .file "push static 3\n".toUTF8)]
        distinct := by decide }
    let process : Process := { work := ["w"] }
    let options : Options :=
      { path := "A.txt", output? := none, bootstrap? := some {}, verbose := false }
    let answer := (Disk.host ["w"]).answer options disk
    let again := (Disk.host ["w"]).answer options answer.2
    (Disk.host ["w"]).Lawful process id ∧ disk.WellNamed ∧ answer.1.exitCode = 0 ∧
      process.ReadsUnit disk "A.txt" ["w", "A.txt"] "push static 3\n".toUTF8 ∧
      answer.2.node? ["w", "A.txt"] = some (.file "push static 3\n".toUTF8) ∧
      again.2 = answer.2 ∧ again.1 = answer.1 := by
  intro disk process options answer again
  have lawful : (Disk.host ["w"]).Lawful process id := process.lawful_host
  have success : answer.1.exitCode = 0 := by decide +kernel
  have notOwn : ¬process.IsOwnOutput disk "A.txt" :=
    fun own => absurd own.extension (by decide)
  have reads : process.ReadsUnit disk "A.txt" ["w", "A.txt"] "push static 3\n".toUTF8 :=
    ⟨.ofFile "A.txt", "A.txt", .file (by rfl), List.mem_singleton_self _, by rfl⟩
  have wellNamed : disk.WellNamed := by decide
  obtain ⟨changes, unchanged, reports⟩ :=
    default_output_spares_units lawful options disk rfl wellNamed
  refine ⟨lawful, wellNamed, success, reads, ?_, unchanged, reports notOwn⟩
  exact not_not.mp fun changed => notOwn ((changes _ _ reads).mp changed).2.1

/-- A file that has the extension of programs is replaced by its program. -/
theorem own_output_is_overwritten :
    ¬∀ (disk : Disk) (work : Location) (options : Options),
      options.output? = none → disk.WellNamed →
        ∀ location content, Process.ReadsUnit { work } disk options.path location content →
          ((Disk.host work).answer options disk).2.node? location = some (.file content) := by
  let disk : Disk :=
    { entries := [(["w"], .directory), (["w", "x.asm"], .file "push constant 1\n".toUTF8)]
      distinct := by decide }
  let options : Options :=
    { path := "x.asm", output? := none, bootstrap? := some {}, verbose := false }
  have reads :
      Process.ReadsUnit { work := ["w"] } disk "x.asm" ["w", "x.asm"] "push constant 1\n".toUTF8 :=
    ⟨.ofFile "x.asm", "x.asm", .file (by rfl), List.mem_singleton_self _, by rfl⟩
  intro spared
  have kept := spared disk ["w"] options rfl (by decide) _ _ reads
  exact absurd kept (by decide +kernel)

end DefaultOutput

end StackToHack
