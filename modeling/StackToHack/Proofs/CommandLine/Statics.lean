import Mathlib.Data.List.Nodup
import Mathlib.Data.Set.Function
import StackToHack.Proofs.Additions
import StackToHack.Proofs.CommandLine.Output
import StackToHack.Proofs.Machine.Assembler
import StackToHack.Proofs.SymbolText

/-!
# Statics

The symbol of a static is the name of its unit, a dot, and its index. Names can hold dots and
digits, but an index holds no dot, so the last dot of the symbol is where the name ends
(`static_text_eq_iff`). The files of a directory have different names and all of them end in `.vm`,
so their units have different names too (`nodup_map_unitName?`), and the symbol of a static in one
file is that of no static in another.

In a program, what such a symbol stands for is a cell that belongs to it alone, unless the program
has a label of the same text. Then it stands for the address of that label (`statics_are_private`),
and statics of different files can have one cell (`labels_take_statics`).
-/

namespace StackToHack

open Hack

/-! ## Symbols of statics -/

section Symbols

variable {unit other : String} {index index' : UInt32} {command : Command} {context : Context}

theorem toList_text_static (unit : String) (index : UInt32) :
    (Symbol.static unit index).text.toList =
      unit.toList ++ '.' :: Nat.toDigits 10 index.toNat := by
  simp [Symbol.text]

/-- A static is known by its text. -/
theorem static_text_eq_iff :
    (Symbol.static unit index).text = (Symbol.static other index').text ↔
      unit = other ∧ index = index' := by
  constructor
  · intro same
    have lists := congrArg String.toList same
    rw [toList_text_static, toList_text_static] at lists
    have digits : ∀ n : Nat, '.' ∉ Nat.toDigits 10 n := fun n => not_mem_toDigits (by decide)
    obtain ⟨units, indices⟩ := append_cons_inj_of_not_mem (digits _) (digits _) lists
    exact ⟨String.toList_inj.mp units, UInt32.toNat_inj.mp (toDigits_injective indices)⟩
  · rintro ⟨rfl, rfl⟩
    rfl

theorem predefined?_text_static (unit : String) (index : UInt32) :
    predefined? (Symbol.static unit index).text = none :=
  predefined?_eq_none_of_mem (dot_mem_text_static unit index) (by decide)

theorem text_static_ne_comparison (arm : Arm) (number : Nat) :
    (Symbol.static unit index).text ≠ (Symbol.comparison arm number).text := by
  intro same
  have dot := dot_mem_text_static unit index
  rw [same] at dot
  exact dot_not_mem_text_comparison arm number dot

theorem not_all_isDigit_text_static (unit : String) (index : UInt32) :
    ¬(Symbol.static unit index).text.toList.all Char.isDigit = true := by
  intro digits
  have dot := List.all_eq_true.mp digits '.' (dot_mem_text_static unit index)
  exact absurd dot (by decide)

/-! ## Accesses -/

/-- Commands that push or pop a static. -/
inductive Command.AccessesStatic (index : UInt32) : Command → Prop
  | push : AccessesStatic index (.push (.region .static) index)
  | pop : AccessesStatic index (.pop (.region .static) index)

/-- An access to a static has code, and that loads the static and the stack pointer only. -/
theorem Command.AccessesStatic.exists_code (h : command.AccessesStatic index) (unit : String)
    (context : Context) :
    ∃ code, command.code unit context = .ok code ∧
      ∀ text, .load text ∈ items code ↔ text = "SP" ∨ text = (Symbol.static unit index).text := by
  have pointer : (Symbol.register .sp).text = "SP" := rfl
  cases h with
  | push =>
      refine ⟨_, rfl, fun text => ?_⟩
      simp [items, Code.fetch, Code.pushD, Line.item?, Line.register, Line.set, pointer, or_comm]
  | pop =>
      refine ⟨_, rfl, fun text => ?_⟩
      simp [items, Code.store, Code.popD, Line.item?, Line.register, Line.set, pointer]

end Symbols

/-! ## Cells -/

section Cells

variable {cells : String → Word} {program : List Item} {text : String}

theorem exists_address? {pc : Nat} (h : .mark text ∈ program) :
    ∃ address, address? text pc program = some address := by
  induction program generalizing pc with
  | nil => cases h
  | cons item rest ih =>
      cases item with
      | mark marked =>
          by_cases same : marked = text
          · exact ⟨pc, if_pos same⟩
          · rw [address?, if_neg same]
            exact ih (by simpa [Ne.symm same] using h)
      | _ => exact ih (by simpa using h)

/-- A static stands for its cell, unless it stands for the address of a label. -/
theorem symbols_static (cells : String → Word) (program : List Item) (unit : String)
    (index : UInt32) :
    symbols cells program (Symbol.static unit index).text =
      (address? (Symbol.static unit index).text 0 program).elim
        (cells (Symbol.static unit index).text) (BitVec.ofNat 16) := by
  have notNumber : number? (Symbol.static unit index).text = none :=
    number?_eq_none_of_mem (dot_mem_text_static unit index) (by decide)
  rw [symbols, notNumber, predefined?_text_static]
  cases address? (Symbol.static unit index).text 0 program <;> rfl

/-- Where a label has the text of a static, the static stands for its address. -/
theorem symbols_static_of_mark {unit : String} {index : UInt32}
    (marked : .mark (Symbol.static unit index).text ∈ program) :
    ∃ address, address? (Symbol.static unit index).text 0 program = some address ∧
      symbols cells program (Symbol.static unit index).text = BitVec.ofNat 16 address := by
  obtain ⟨address, first⟩ := exists_address? marked
  refine ⟨address, first, ?_⟩
  rw [symbols_static, first, Option.elim]

theorem static_mem_variableTexts {unit : String} {index : UInt32}
    (loaded : .load (Symbol.static unit index).text ∈ program)
    (unmarked : .mark (Symbol.static unit index).text ∉ program) :
    (Symbol.static unit index).text ∈ variableTexts program := by
  have notNumber : number? (Symbol.static unit index).text = none :=
    number?_eq_none_of_mem (dot_mem_text_static unit index) (by decide)
  refine List.mem_filterMap.mpr ⟨_, loaded, ?_⟩
  exact if_pos ⟨notNumber, predefined?_text_static unit index, unmarked⟩

end Cells

/-! ## Files of a directory -/

section Directory

variable {process : Process} {disk : Disk} {path : String} {sources : Sources}
  {options : Options} {units : List (String × String)}

/-- Every file that a directory stands for has the name of a unit, by which it is known. -/
theorem exists_stem_of_mem_paths (wellNamed : disk.WellNamed)
    (isDirectory : process.isDirectory disk path = true)
    (standsFor : process.StandsFor disk path (.ok sources)) {file : String}
    (member : file ∈ sources.paths) :
    ∃ stem, Path.unitName? file = some stem ∧ file = Path.join path (stem ++ ".vm") := by
  obtain ⟨above, directory, found, rfl⟩ := standsFor.exists_of_directory isDirectory
  obtain ⟨name, inUnits, rfl⟩ := List.mem_map.mp member
  obtain ⟨⟨content, there⟩, isUnit, -⟩ :=
    (mem_unitNames_of_directory_iff wellNamed found name).mp inUnits
  refine ⟨Path.stem name, Path.unitName?_join (wellNamed.isEntryName there) path, ?_⟩
  rw [← isUnit.eq_stem_append]

/-- Files of a directory have different names, and so have their units. -/
theorem nodup_map_unitName? (wellNamed : disk.WellNamed)
    (isDirectory : process.isDirectory disk path = true)
    (standsFor : process.StandsFor disk path (.ok sources)) :
    (sources.paths.map Path.unitName?).Nodup := by
  have distinct : sources.paths.Nodup := by
    obtain ⟨above, directory, found, rfl⟩ := standsFor.exists_of_directory isDirectory
    refine List.Nodup.map_on (fun name _ other _ same => ?_)
      (nodup_unitNames ((disk.nodup_namesBelow _).filter _))
    exact Path.join_injective path same
  refine List.Nodup.map_on (fun file member other member' same => ?_) distinct
  obtain ⟨stem, named, whole⟩ := exists_stem_of_mem_paths wellNamed isDirectory standsFor member
  obtain ⟨stem', named', whole'⟩ :=
    exists_stem_of_mem_paths wellNamed isDirectory standsFor member'
  obtain rfl := Option.some.inj (named.symm.trans (same.trans named'))
  rw [whole, whole']

theorem map_fst_of_takenAs {paths : List String} (h : TakenAs (process.unit disk) paths units) :
    (units.map Prod.fst).map some = paths.map Path.unitName? := by
  induction h with
  | nil => rfl
  | cons here _ ih =>
      obtain ⟨-, -, -, -, named⟩ := Process.exists_find_of_unit here
      rw [List.map_cons, List.map_cons, List.map_cons, ih, named]

/-- A command line that makes a program of the files in a directory, each of them read as a unit. -/
structure Process.Makes (process : Process) (disk : Disk) (options : Options) (sources : Sources)
    (units : List (String × String)) : Prop where
  isDirectory : process.isDirectory disk options.path = true
  standsFor : process.StandsFor disk options.path (.ok sources)
  takenAs : TakenAs (process.unit disk) sources.paths units
  made : ((Run.start options.bootstrap?).addAll units).result = .ok ()

/-- A directory that a process enters, whose units make a program. -/
theorem Process.Makes.of_names {above : Location} {name : String} {names : List String}
    (enters : process.Enters options.path) (resolved : process.refusals.resolve options.path = none)
    (found : disk.find process.work options.path = .ok (above ++ [name], .directory))
    (named : process.unitNames disk options.path (above ++ [name]) = names) (some : names ≠ [])
    (takenAs : TakenAs (process.unit disk) (names.map (Path.join options.path)) units)
    (made : ((Run.start options.bootstrap?).addAll units).result = .ok ()) :
    process.Makes disk options (.inDirectory options.path name names) units := by
  subst named
  have isDirectory := Process.isDirectory_iff.mpr ⟨enters.seen, _, found⟩
  exact ⟨isDirectory, enters.standsFor resolved found some, takenAs, made⟩

/-- A file is read as a unit with a command that pushes or pops a static. -/
def Process.Accesses (process : Process) (disk : Disk) (file unit : String) (index : UInt32) :
    Prop :=
  ∃ source commands command, process.unit disk file = .ok (unit, source) ∧
    Source.commands source = .ok commands ∧ command ∈ commands ∧ command.AccessesStatic index

/-- A file that is read is one of the units. -/
theorem mem_of_takenAs {paths : List String} (h : TakenAs (process.unit disk) paths units)
    {file : String} (member : file ∈ paths) {unit : String × String}
    (read : process.unit disk file = .ok unit) : unit ∈ units := by
  induction h with
  | nil => cases member
  | cons here _ ih =>
      rcases List.mem_cons.mp member with rfl | behind
      · obtain rfl := Except.ok.inj (here.symm.trans read)
        exact List.mem_cons_self ..
      · exact List.mem_cons_of_mem _ (ih behind)

/-- What a file accesses is loaded by the program. -/
theorem Process.Makes.load_mem_items {file unit : String} {index : UInt32}
    (h : process.Makes disk options sources units) (member : file ∈ sources.paths)
    (accesses : process.Accesses disk file unit index) :
    .load (Symbol.static unit index).text ∈
      items ((Run.start options.bootstrap?).addAll units).run.program := by
  obtain ⟨source, commands, command, read, hread, inside, static⟩ := accesses
  have among := mem_of_takenAs h.takenAs member read
  obtain ⟨context, block, hblock, subset⟩ := exists_block_of_addAll h.made among hread inside
  obtain ⟨block', hblock', loads⟩ := static.exists_code unit context
  obtain rfl := Except.ok.inj (hblock.symm.trans hblock')
  obtain ⟨line, inBlock, item⟩ := List.mem_filterMap.mp ((loads _).mpr (.inr rfl))
  exact List.mem_filterMap.mpr ⟨line, subset inBlock, item⟩

/-- Files of a program access the same unit only if they are the same file. -/
theorem Process.Makes.unit_eq_iff {file file' unit unit' : String} {index index' : UInt32}
    (h : process.Makes disk options sources units) (wellNamed : disk.WellNamed)
    (member : file ∈ sources.paths) (member' : file' ∈ sources.paths)
    (accesses : process.Accesses disk file unit index)
    (accesses' : process.Accesses disk file' unit' index') : unit = unit' ↔ file = file' := by
  obtain ⟨source, -, -, read, -⟩ := accesses
  obtain ⟨source', -, -, read', -⟩ := accesses'
  obtain ⟨-, -, -, -, named⟩ := Process.exists_find_of_unit read
  obtain ⟨-, -, -, -, named'⟩ := Process.exists_find_of_unit read'
  have distinct := nodup_map_unitName? wellNamed h.isDirectory h.standsFor
  constructor
  · rintro rfl
    exact List.inj_on_of_nodup_map distinct member member' (named.trans named'.symm)
  · rintro rfl
    exact Option.some.inj (named.symm.trans named')

/-- What a command line makes of a directory is up to the disk. -/
theorem Process.Makes.unique {sources' : Sources} {units' : List (String × String)}
    (h : process.Makes disk options sources units)
    (h' : process.Makes disk options sources' units') : sources = sources' ∧ units = units' := by
  obtain rfl := h.standsFor.unique h'.standsFor
  have taken := takeUnits_append h.takenAs []
  have taken' := takeUnits_append h'.takenAs []
  rw [taken] at taken'
  simpa [takeUnits] using taken'

/-- What is made is written, if the output can be written to. -/
theorem Process.Makes.succeeds {σ : Type} {view : σ → Disk} {host : Host (StateM σ)} {s : σ}
    {location : Location} (lawful : host.Lawful process view)
    (h : process.Makes (view s) options sources units)
    (target : process.target (view s) (options.output?.getD sources.output) = .ok location) :
    (host.answer options s).1.exitCode = 0 := by
  have taken := takeUnits_append h.takenAs []
  rw [List.append_nil, takeUnits, List.append_nil] at taken
  have made : verdict options.bootstrap? (takeUnits (process.unit (view s)) sources.paths) =
      .ok ((Run.start options.bootstrap?).addAll units).run.finish := by
    rw [taken]
    exact verdict_of_eq_ok (by rw [compile, h.made]; rfl)
  exact (lawful.succeeds h.standsFor made target).1.exitCode

/-- A command line that succeeds with a directory makes a program of the files in it, and writes
that program. -/
theorem exists_makes {σ : Type} {view : σ → Disk} {host : Host (StateM σ)} {s : σ}
    (lawful : host.Lawful process view)
    (isDirectory : process.isDirectory (view s) options.path = true)
    (success : (host.answer options s).1.exitCode = 0) :
    ∃ sources units, process.Makes (view s) options sources units ∧
      (view s).Wrote (view (host.answer options s).2) process.work
        (options.output?.getD sources.output)
        ((Run.start options.bootstrap?).addAll units).run.finish := by
  obtain ⟨sources, units, text, standsFor, takenAs, compiled, wrote⟩ :=
    lawful.exists_of_success success
  obtain ⟨⟨⟩, made, rfl⟩ := map_eq_ok.mp compiled
  exact ⟨sources, units, ⟨isDirectory, standsFor, takenAs, made⟩, wrote⟩

end Directory

/-- **Statics are private.** Pushing and popping a static of a unit load one symbol besides the
stack pointer. No other static has it, no register and no comparison, and it is no number. In a run
over a directory, units have different names. So what two files of a program access is one cell only
if they are one file and the index is the same, unless a label of the program has the text of such a
static: the static stands for the address of that label then. -/
theorem statics_are_private (unit unit' : String) (index index' : UInt32) :
    (∀ (context : Context) (access : Command), access.AccessesStatic index →
      ∃ code, access.code unit context = .ok code ∧
        ∀ text, .load text ∈ items code ↔
          text = "SP" ∨ text = (Symbol.static unit index).text) ∧
    ((Symbol.static unit index).text = (Symbol.static unit' index').text ↔
      unit = unit' ∧ index = index') ∧
    (predefined? (Symbol.static unit index).text = none ∧
      (∀ arm number, (Symbol.static unit index).text ≠ (Symbol.comparison arm number).text) ∧
      ¬(Symbol.static unit index).text.toList.all Char.isDigit = true) ∧
    (∀ (process : Process) (disk : Disk) (path : String) (sources : Sources),
      disk.WellNamed → process.isDirectory disk path = true →
        process.StandsFor disk path (.ok sources) →
        (sources.paths.map Path.unitName?).Nodup ∧
        ((takeUnits (process.unit disk) sources.paths).1.map Prod.fst).map some <+:
          sources.paths.map Path.unitName?) ∧
    ∀ (σ : Type) (view : σ → Disk) (host : Host (StateM σ)) (process : Process)
      (options : Options) (s : σ),
      host.Lawful process view → (view s).WellNamed →
        process.isDirectory (view s) options.path = true →
        (host.answer options s).1.exitCode = 0 →
        ∃ sources units, process.Makes (view s) options sources units ∧
          let run := ((Run.start options.bootstrap?).addAll units).run
          (view s).Wrote (view (host.answer options s).2) process.work
            (options.output?.getD sources.output) run.finish ∧
          ∀ cells : String → Word,
            Set.InjOn cells {text | text ∈ variableTexts (items run.program)} →
            ∀ file ∈ sources.paths, ∀ file' ∈ sources.paths,
              process.Accesses (view s) file unit index →
              process.Accesses (view s) file' unit' index' →
              (.mark (Symbol.static unit index).text ∈ items run.program →
                ∃ address,
                  address? (Symbol.static unit index).text 0 (items run.program) = some address ∧
                  symbols cells (items run.program) (Symbol.static unit index).text =
                    BitVec.ofNat 16 address) ∧
              (.mark (Symbol.static unit index).text ∉ items run.program →
                .mark (Symbol.static unit' index').text ∉ items run.program →
                (symbols cells (items run.program) (Symbol.static unit index).text =
                    symbols cells (items run.program) (Symbol.static unit' index').text ↔
                  file = file' ∧ index = index')) := by
  refine ⟨fun context access h => h.exists_code unit context, static_text_eq_iff,
    ⟨predefined?_text_static unit index, text_static_ne_comparison,
      not_all_isDigit_text_static unit index⟩, ?_, ?_⟩
  · intro process disk path sources wellNamed isDirectory standsFor
    refine ⟨nodup_map_unitName? wellNamed isDirectory standsFor, ?_⟩
    obtain ⟨front, back, whole, takenAs, -⟩ := exists_takenAs (process.unit disk) sources.paths
    rw [map_fst_of_takenAs takenAs, whole, List.map_append]
    exact List.prefix_append ..
  · intro σ view host process options s lawful wellNamed isDirectory success
    obtain ⟨sources, units, makes, wrote⟩ := exists_makes lawful isDirectory success
    refine ⟨sources, units, makes, wrote, fun cells own file member file' member' accesses
      accesses' => ⟨symbols_static_of_mark, fun unmarked unmarked' => ?_⟩⟩
    have isVariable := static_mem_variableTexts (makes.load_mem_items member accesses) unmarked
    have isVariable' :=
      static_mem_variableTexts (makes.load_mem_items member' accesses') unmarked'
    rw [symbols_static, symbols_static, address?_eq_none unmarked, address?_eq_none unmarked',
      Option.elim, Option.elim, own.eq_iff isVariable isVariable', static_text_eq_iff]
    exact and_congr_left fun _ => makes.unit_eq_iff wellNamed member member' accesses accesses'

/-- Units `A` and `A.1` in one directory, with statics `A.10` and `A.1.0`. -/
theorem statics_are_private_in_similar_files :
    let disk : Disk :=
      { entries :=
          [(["d"], .directory), (["d", "A.1.vm"], .file "pop static 0\n".toUTF8),
            (["d", "A.vm"], .file "push static 10\n".toUTF8)]
        distinct := by decide }
    let process : Process := { work := [] }
    let options : Options := { path := "d", output? := none, bootstrap? := none, verbose := false }
    let units := [("A.1", "pop static 0\n"), ("A", "push static 10\n")]
    let program := items ((Run.start none).addAll units).run.program
    let cells : String → Word := fun text => if text = "A.1.0" then 16 else 17
    (∃ code, (Command.pop (.region .static) 0).code "A.1" .fresh = .ok code ∧
      .load "A.1.0" ∈ items code) ∧
    disk.WellNamed ∧ ((Disk.host []).answer options disk).1.exitCode = 0 ∧
      ∃ sources, process.Makes disk options sources units ∧
      (sources.paths.map Path.unitName?).Nodup ∧ "d/A.1.vm" ∈ sources.paths ∧
      "d/A.vm" ∈ sources.paths ∧ process.Accesses disk "d/A.1.vm" "A.1" 0 ∧
      process.Accesses disk "d/A.vm" "A" 10 ∧
      Set.InjOn cells {text | text ∈ variableTexts program} ∧
      symbols cells program "A.1.0" ≠ symbols cells program "A.10" := by
  intro disk process options units program cells
  obtain ⟨access, -, -, files, answers⟩ := statics_are_private "A.1" "A" 0 10
  obtain ⟨code, hcode, loads⟩ := access .fresh _ .pop
  have lawful : (Disk.host []).Lawful process id := process.lawful_host
  have wellNamed : disk.WellNamed := by decide
  have found : disk.find [] "d" = .ok ([] ++ ["d"], .directory) := by rfl
  have names : process.unitNames disk "d" ["d"] = ["A.1.vm", "A.vm"] :=
    List.mergeSort_of_pairwise (by decide)
  have takenAs : TakenAs (process.unit disk) (["A.1.vm", "A.vm"].map (Path.join "d")) units :=
    .cons (by rfl) (.cons (by rfl) .nil)
  have makes : process.Makes disk options (.inDirectory "d" "d" ["A.1.vm", "A.vm"]) units :=
    .of_names ⟨rfl, rfl, rfl⟩ rfl found names (by simp) takenAs (by decide +kernel)
  have target : process.target disk "d/d.asm" = .ok ["d", "d.asm"] := by rfl
  have success := Process.Makes.succeeds (s := disk) lawful makes target
  have accesses : process.Accesses disk "d/A.1.vm" "A.1" 0 :=
    ⟨_, [.pop (.region .static) 0], _, by rfl, by decide +kernel, List.mem_singleton_self _, .pop⟩
  have accesses' : process.Accesses disk "d/A.vm" "A" 10 :=
    ⟨_, [.push (.region .static) 10], _, by rfl, by decide +kernel, List.mem_singleton_self _,
      .push⟩
  have texts : variableTexts program = ["A.1.0", "A.10"] := by decide +kernel
  have own : Set.InjOn cells {text | text ∈ variableTexts program} := by
    rw [texts]
    intro text member other member'
    simp only [Set.mem_ofPred_eq, List.mem_cons, List.not_mem_nil, or_false] at member member'
    rcases member with rfl | rfl <;> rcases member' with rfl | rfl <;> decide
  obtain ⟨sources, units', makes', -, cell⟩ :=
    answers Disk id _ process options disk lawful wellNamed makes.isDirectory success
  obtain ⟨rfl, rfl⟩ := makes.unique makes'
  have inside : "d/A.1.vm" ∈ ["d/A.1.vm", "d/A.vm"] := by simp
  have inside' : "d/A.vm" ∈ ["d/A.1.vm", "d/A.vm"] := by simp
  obtain ⟨-, apart⟩ := cell cells own "d/A.1.vm" inside "d/A.vm" inside' accesses accesses'
  refine ⟨⟨code, hcode, (loads _).mpr (.inr (by decide))⟩, wellNamed, success, _, makes,
    (files process disk "d" _ wellNamed makes.isDirectory makes.standsFor).1, inside, inside',
    accesses, accesses', own, fun same => ?_⟩
  have file := ((apart (by decide +kernel) (by decide +kernel)).mp same).1
  exact absurd file (by decide)

/-- Labels of one file that have the texts of statics, of its own and of another file: both statics
stand for the address of these labels. -/
theorem labels_take_statics :
    let source := "label A.0\nlabel B.0\npush constant 7\npop static 0\n"
    let disk : Disk :=
      { entries :=
          [(["d"], .directory), (["d", "A.vm"], .file source.toUTF8),
            (["d", "B.vm"], .file "push static 0\n".toUTF8)]
        distinct := by decide }
    let process : Process := { work := [] }
    let options : Options := { path := "d", output? := none, bootstrap? := none, verbose := false }
    let units := [("A", source), ("B", "push static 0\n")]
    let program := items ((Run.start none).addAll units).run.program
    disk.WellNamed ∧ ((Disk.host []).answer options disk).1.exitCode = 0 ∧
      ∃ sources, process.Makes disk options sources units ∧
      "d/A.vm" ∈ sources.paths ∧ "d/B.vm" ∈ sources.paths ∧
      process.Accesses disk "d/A.vm" "A" 0 ∧ process.Accesses disk "d/B.vm" "B" 0 ∧
      ∀ cells, symbols cells program (Symbol.static "A" 0).text =
        symbols cells program (Symbol.static "B" 0).text := by
  intro source disk process options units program
  have lawful : (Disk.host []).Lawful process id := process.lawful_host
  have wellNamed : disk.WellNamed := by decide
  have found : disk.find [] "d" = .ok ([] ++ ["d"], .directory) := by rfl
  have names : process.unitNames disk "d" ["d"] = ["A.vm", "B.vm"] :=
    List.mergeSort_of_pairwise (by decide)
  have takenAs : TakenAs (process.unit disk) (["A.vm", "B.vm"].map (Path.join "d")) units :=
    .cons (by decide +kernel) (.cons (by rfl) .nil)
  have makes : process.Makes disk options (.inDirectory "d" "d" ["A.vm", "B.vm"]) units :=
    .of_names ⟨rfl, rfl, rfl⟩ rfl found names (by simp) takenAs (by decide +kernel)
  have target : process.target disk "d/d.asm" = .ok ["d", "d.asm"] := by rfl
  have success := Process.Makes.succeeds (s := disk) lawful makes target
  have accesses : process.Accesses disk "d/A.vm" "A" 0 :=
    ⟨source, [.label "A.0", .label "B.0", .push .constant 7, .pop (.region .static) 0], _,
      by decide +kernel, by decide +kernel, by simp, .pop⟩
  have accesses' : process.Accesses disk "d/B.vm" "B" 0 :=
    ⟨_, [.push (.region .static) 0], _, by rfl, by decide +kernel, List.mem_singleton_self _,
      .push⟩
  refine ⟨wellNamed, success, _, makes, List.mem_cons_self .., .tail _ (List.mem_singleton_self _),
    accesses, accesses', fun cells => ?_⟩
  have marked : address? (Symbol.static "A" 0).text 0 program = some 0 := by decide +kernel
  have marked' : address? (Symbol.static "B" 0).text 0 program = some 0 := by decide +kernel
  rw [symbols_static, symbols_static, marked, marked']
  rfl

end StackToHack
