import StackToHack.Proofs.CommandLine.Answer

/-!
# Outputs

A path that can be written to leads to a name in a directory, where no directory lies
(`exists_name_of_target`). Putting a file there changes nothing about the directories that the path
goes through, so what is written to a path is found there afterwards (`find_put`).

With what an answer can end in, it follows that a command line writes all or nothing
(`writes_all_or_nothing`).
-/

namespace StackToHack

namespace Disk

variable {disk : Disk} {work location here there : Location} {node : Node} {path text : String}
  {steps : List String}

/-! ## Places that can be written to -/

theorem exists_steps_of_target (h : disk.target work path = .ok location) :
    ∃ parent name rest, (Path.steps path).reverse.dropWhile (· = "") = name :: rest ∧
      Path.fits path = true ∧ disk.walk (origin work path) rest.reverse = .ok parent ∧
      disk.node? parent = some .directory ∧ Path.stepFits name = true ∧
      ¬(Path.endsWithSlash path = true ∨ name = "." ∨ name = "..") ∧
      location = step parent name ∧ disk.node? location ≠ some .directory := by
  rw [target] at h
  generalize (Path.steps path).reverse.dropWhile (· = "") = steps at h
  by_cases empty : path = ""
  · rw [if_pos empty] at h
    cases h
  rw [if_neg empty] at h
  by_cases fits : Path.fits path = true
  · rw [if_pos fits] at h
    change (disk.walk (origin work path) steps.tail.reverse).bind _ = _ at h
    cases walked : disk.walk (origin work path) steps.tail.reverse with
    | error error =>
        rw [walked] at h
        cases h
    | ok parent =>
        rw [walked, Except.bind] at h
        split at h
        · cases h
        · cases h
        · cases h
        · next name rest isDirectory =>
          dsimp only at h
          by_cases improper : Path.endsWithSlash path = true ∨ name = "." ∨ name = ".."
          · rw [if_pos improper] at h
            cases h
          by_cases taken : disk.node? (step parent name) = some .directory
          · rw [if_neg improper, if_pos taken] at h
            cases h
          by_cases short : Path.stepFits name = true
          · rw [if_neg improper, if_neg taken, if_pos short] at h
            obtain rfl := Except.ok.inj h
            exact ⟨parent, name, rest, rfl, fits, walked, isDirectory, short, improper, rfl, taken⟩
          · rw [if_neg improper, if_neg taken, if_neg short] at h
            cases h
  · rw [if_neg fits] at h
    cases h

/-- Where a path can be written to at all, it leads to one place. -/
theorem eq_of_target {other : Disk} (h : disk.target work path = .ok here)
    (h' : other.target work path = .ok there) : there = here := by
  obtain ⟨parent, name, rest, last, -, walked, -, -, -, rfl, -⟩ := exists_steps_of_target h
  obtain ⟨parent', name', rest', last', -, walked', -, -, -, rfl, -⟩ := exists_steps_of_target h'
  obtain ⟨rfl, rfl⟩ := List.cons.inj (last'.symm.trans last)
  rw [eq_foldl_of_walk walked, eq_foldl_of_walk walked']

theorem exists_name_of_target (h : disk.target work path = .ok location) :
    ∃ above front name, location = above ++ [name] ∧ Path.IsEntryName name ∧
      (path ≠ "" ∧ Path.fits path = true) ∧ Path.steps path = front ++ [name] ∧
      disk.walk (origin work path) front = .ok above ∧ disk.node? above = some .directory ∧
      disk.node? location ≠ some .directory := by
  obtain ⟨above, name, rest, last, fits, walked, isDirectory, short, proper, rfl, free⟩ :=
    exists_steps_of_target h
  simp only [not_or] at proper
  obtain ⟨noSlashBehind, notHere, notAbove⟩ := proper
  have nonempty : path ≠ "" := by
    rintro rfl
    cases last
  obtain ⟨front, whole⟩ := Path.exists_steps_eq path
  have named := Path.fileName_ne_empty nonempty noSlashBehind
  rw [whole, List.reverse_append, List.reverse_singleton, List.singleton_append,
    List.dropWhile_cons_of_neg (by simpa using named)] at last
  obtain ⟨rfl, rfl⟩ := List.cons.inj last
  have noSlash : '/' ∉ (Path.fileName path).toList :=
    Path.slash_not_mem_of_mem_steps (by rw [whole]; simp)
  rw [List.reverse_reverse] at walked
  have isEntryName : Path.IsEntryName (Path.fileName path) :=
    ⟨named, notHere, notAbove, noSlash, short⟩
  exact ⟨above, front, _, step_name above isEntryName, isEntryName, ⟨nonempty, fits⟩, whole, walked,
    isDirectory, free⟩

/-! ## Finding what was written -/

/-- A directory stays where it is if something is put where none is. -/
theorem node?_put_of_directory (h : disk.node? here = some .directory)
    (free : disk.node? location ≠ some .directory) (node : Node) :
    (disk.put location node).node? here = some .directory := by
  have apart : here ≠ location := by
    rintro rfl
    exact free h
  rw [node?_put_of_ne apart, h]

/-- Ways lead through directories, so what is put where none is changes no way that leads on. -/
theorem walk_put (free : disk.node? location ≠ some .directory)
    (h : disk.walk here steps = .ok there) :
    (disk.put location node).walk here steps = .ok there := by
  induction steps generalizing here with
  | nil => exact h
  | cons name rest ih =>
      rw [walk] at h ⊢
      split at h
      · cases h
      · cases h
      · next isDirectory =>
        rw [node?_put_of_directory isDirectory free]
        split at h
        · next fits => exact (if_pos fits).trans (ih h)
        · cases h

theorem find_put (h : disk.target work path = .ok location) (node : Node) :
    (disk.put location node).find work path = .ok (location, node) := by
  obtain ⟨above, front, name, rfl, named, fits, whole, walked, isDirectory, free⟩ :=
    exists_name_of_target h
  have there := node?_put_of_directory isDirectory free node
  rw [find_eq_ok_iff]
  refine ⟨fits, ?_, node?_put_self (by simp) disk node⟩
  rw [whole, walk_append, walk_put free walked]
  exact walk_name there named

/-- Only what was put last at a location stays there. -/
theorem put_put (disk : Disk) (location : Location) (node node' : Node) :
    (disk.put location node).put location node' = disk.put location node' := by
  simp [put]

/-- Paths that led on lead to what is there now. -/
theorem find_put_of_find {other : Node} (found : disk.find work path = .ok (here, node))
    (free : disk.node? location ≠ some .directory) {node' : Node}
    (lies : (disk.put location node').node? here = some other) :
    (disk.put location node').find work path = .ok (here, other) := by
  obtain ⟨fits, walked, -⟩ := find_eq_ok_iff.mp found
  exact find_eq_ok_iff.mpr ⟨fits, walk_put free walked, lies⟩

/-- What can be written to once can be written to again. -/
theorem target_put (h : disk.target work path = .ok location) (content : ByteArray) :
    (disk.put location (.file content)).target work path = .ok location := by
  obtain ⟨parent, name, rest, last, fits, walked, isDirectory, short, proper, rfl, free⟩ :=
    exists_steps_of_target h
  have notRoot : step parent name ≠ [] := by
    intro root
    exact free (by simp [root, node?])
  have nonempty : path ≠ "" := by
    rintro rfl
    cases last
  have there := node?_put_of_directory isDirectory free (.file content)
  rw [target, last, if_neg nonempty, if_pos fits]
  show (walk _ _ rest.reverse).bind _ = _
  rw [walk_put free walked]
  simp only [Except.bind, there, node?_put_self notRoot, if_neg proper, short, Option.some.injEq,
    reduceCtorEq, if_false, if_true]
  rfl

theorem WellNamed.put (h : disk.WellNamed) (target : disk.target work path = .ok location)
    (node : Node) : (disk.put location node).WellNamed := by
  obtain ⟨above, front, name, rfl, named, -, -, -, isDirectory, -⟩ := exists_name_of_target target
  have namesAbove : ∀ name ∈ above, Path.IsEntryName name := by
    by_cases root : above = []
    · simp [root]
    · exact h _ ((node?_eq_some_iff root).mp isDirectory)
  intro entry member
  rcases List.mem_cons.mp member with rfl | other
  · intro step inside
    rcases List.mem_append.mp inside with inAbove | itself
    · exact namesAbove step inAbove
    · exact List.mem_singleton.mp itself ▸ named
  · exact h entry (List.mem_of_mem_filter other)

/-- A file with a text lies where a path leads to, and elsewhere all is as it was before. -/
def Wrote (disk after : Disk) (work : Location) (path text : String) : Prop :=
  ∃ location, after.find work path = .ok (location, .file text.toUTF8) ∧
    ∀ other ≠ location, after.node? other = disk.node? other

theorem wrote_put (h : disk.target work path = .ok location) (text : String) :
    disk.Wrote (disk.put location (.file text.toUTF8)) work path text :=
  ⟨location, find_put h _, fun _ apart => node?_put_of_ne apart disk _⟩

end Disk

/-! ## All or nothing -/

section AllOrNothing

variable {σ : Type} {view : σ → Disk} {host : Host (StateM σ)} {process : Process} {disk : Disk}
  {options : Options} {path output text : String} {location : Location}

theorem Process.target_eq_ok_iff :
    process.target disk path = .ok location ↔
      process.refusals.write path = none ∧ disk.target process.work path = .ok location := by
  rw [target]
  cases process.refusals.write path <;> simp [unlessRefused]

/-- Outputs lead alike if they cannot be written to for the same reasons. -/
theorem Process.target_eq_of_error_iff {other : Disk}
    (h : ∀ error, process.target other path = .error error ↔
      process.target disk path = .error error) :
    process.target other path = process.target disk path := by
  cases leads : process.target disk path with
  | error error => exact (h error).mpr leads
  | ok location =>
      cases leads' : process.target other path with
      | error error =>
          have failed := (h error).mp leads'
          rw [leads] at failed
          cases failed
      | ok location' =>
          rw [Disk.eq_of_target (target_eq_ok_iff.mp leads).2 (target_eq_ok_iff.mp leads').2]

theorem Process.exists_of_prepared (h : process.prepared disk options = .ok (output, text)) :
    ∃ sources units, process.StandsFor disk options.path (.ok sources) ∧
      TakenAs (process.unit disk) sources.paths units ∧
      compile options.bootstrap? units = .ok text ∧
      output = options.output?.getD sources.output := by
  have standsFor := process.standsFor_sources disk options.path
  rw [prepared] at h
  cases found : process.sources disk options.path with
  | error failure =>
      rw [found] at h
      cases h
  | ok sources =>
      rw [found] at h standsFor
      dsimp only at h
      cases made : verdict options.bootstrap? (takeUnits (process.unit disk) sources.paths) with
      | error failure =>
          rw [made] at h
          cases h
      | ok whole =>
          rw [made] at h
          obtain ⟨rfl, rfl⟩ := Prod.mk.inj (Except.ok.inj h)
          obtain ⟨units, takenAs, made⟩ := exists_takenAs_of_verdict made
          exact ⟨sources, units, standsFor, takenAs, made, rfl⟩

/-- What is written if a command line succeeds. -/
theorem Host.Lawful.exists_of_success (lawful : host.Lawful process view) {s : σ}
    (success : (host.answer options s).1.exitCode = 0) :
    ∃ sources units text,
      process.StandsFor (view s) options.path (.ok sources) ∧
      TakenAs (process.unit (view s)) sources.paths units ∧
      compile options.bootstrap? units = .ok text ∧
      (view s).Wrote (view (host.answer options s).2) process.work
        (options.output?.getD sources.output) text := by
  obtain ⟨output, text, location, prepared, target, after⟩ :=
    (lawful.ends options s).exists_of_success success
  obtain ⟨sources, units, standsFor, takenAs, made, rfl⟩ := Process.exists_of_prepared prepared
  have leads := (Process.target_eq_ok_iff.mp target).2
  rw [after]
  exact ⟨sources, units, text, standsFor, takenAs, made, Disk.wrote_put leads text⟩

end AllOrNothing

end StackToHack
