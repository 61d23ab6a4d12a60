import Mathlib.Data.List.Basic
import StackToHack.Proofs.Grammar
import StackToHack.Proofs.Spelling
import StackToHack.Source

/-!
# Canonical source texts

Commands with proper names, written one to a line in their canonical spelling, are read as what they
are: no line of such a text is blank, holds a comment, or loses a character when it is stripped.
What was read from any source has proper names, so its canonical text says the same as the source
did.
-/

namespace StackToHack

open Hack Grammar

/-! ## Fields of the canonical spelling -/

theorem isBlank_of_isPlain {c : Char} (h : isPlain c = true) : Text.isBlank c = false := by
  rw [isPlain, Bool.and_eq_true, Bool.not_eq_true'] at h
  exact h.2

namespace Grammar

theorem isField_of_all_isPlain {cs : List Char} (nonempty : cs ≠ [])
    (plain : cs.all isPlain = true) : IsField cs :=
  ⟨nonempty, fun c member =>
    not_separator_of_not_blank (isBlank_of_isPlain (List.all_eq_true.mp plain c member))⟩

/-- Fields with one space between any two. -/
theorem separated_intercalate {fields : List String} (nonempty : fields ≠ [])
    (h : ∀ field ∈ fields, IsField field.toList) :
    Separated (" ".intercalate fields).toList (fields.map String.toList) := by
  rw [String.toList_intercalate]
  induction fields with
  | nil => exact absurd rfl nonempty
  | cons field fields ih =>
      have here := h field (List.mem_cons_self ..)
      cases fields with
      | nil => simpa using Separated.one here
      | cons next fields =>
          have rest := ih (List.cons_ne_nil _ _) fun f hf => h f (List.mem_cons_of_mem _ hf)
          have gap : IsGap " ".toList := ⟨by simp, by simp⟩
          rw [List.map_cons, List.map_cons, List.intercalate_cons_cons, List.append_assoc,
            ← List.map_cons]
          exact .more here gap rest

/-- A text of fields without white space is trimmed. -/
theorem Separated.trim_eq {text : List Char} {fields : List (List Char)}
    (h : Separated text fields)
    (notBlank : ∀ field ∈ fields, ∀ c ∈ field, Text.isBlank c = false) :
    Text.trim text = text := by
  refine trim_eq_self_iff.mpr ⟨?_, ?_⟩
  · intro c first
    cases h with
    | one hfield => exact notBlank _ (List.mem_singleton_self _) c (List.mem_of_mem_head? first)
    | more hfield hgap hrest =>
        rw [List.head?_append_of_ne_nil _ hfield.1] at first
        exact notBlank _ (List.mem_cons_self ..) c (List.mem_of_mem_head? first)
  · intro c last
    induction h with
    | one hfield => exact notBlank _ (List.mem_singleton_self _) c (List.mem_of_getLast? last)
    | more hfield hgap hrest ih =>
        rw [← List.append_assoc, List.getLast?_append_of_ne_nil _ hrest.ne_nil] at last
        exact ih (fun field member => notBlank field (List.mem_cons_of_mem _ member)) last

end Grammar

section Render

variable {command : Command}

theorem toFields_ne_nil (command : Command) : command.toFields ≠ [] := by
  cases command <;> exact List.cons_ne_nil _ _

theorem toList_ne_nil_of_mem_toFields (named : command.WellNamed) {field : String}
    (h : field ∈ command.toFields) : field.toList ≠ [] := by
  have known : ∀ word ∈ keywords, word.toList ≠ [] := by decide
  rcases Command.mem_toFields_cases h with keyword | ⟨n, rfl⟩ | name
  · exact known field keyword
  · exact (Numeral.isNumeral_write n).1
  · exact (isName_iff.mp (named field name)).nonempty

theorem separated_render (named : command.WellNamed) :
    Separated command.render.toList (command.toFields.map String.toList) :=
  separated_intercalate (toFields_ne_nil command) fun _ member =>
    isField_of_all_isPlain (toList_ne_nil_of_mem_toFields named member)
      (all_isPlain_of_mem_toFields named member)

/-- The words of a command denote it. -/
theorem denotes_toFields (named : command.WellNamed) : Denotes command.toFields command := by
  have spelled : ∀ n, Spells (Numeral.write n) n := fun n =>
    read?_eq_some_iff_spells.mp (Numeral.read?_write n)
  have isSymbol : ∀ name ∈ command.names, IsSymbol name := fun name member =>
    isName_iff.mp (named name member)
  cases command with
  | operate op => exact .operation op
  | push segment index => exact .push segment (spelled index)
  | pop segment index => exact .pop segment (spelled index)
  | label name => exact .label (isSymbol name (List.mem_singleton_self _))
  | goto name => exact .goto (isSymbol name (List.mem_singleton_self _))
  | ifGoto name => exact .ifGoto (isSymbol name (List.mem_singleton_self _))
  | function name locals =>
      exact .function (isSymbol name (List.mem_singleton_self _)) (spelled locals)
  | call name args => exact .call (isSymbol name (List.mem_singleton_self _)) (spelled args)
  | ret => exact .ret

theorem wellNamed_of_denotes {words : List String} (h : Denotes words command) :
    command.WellNamed := by
  cases h with
  | operation | push | pop | ret => exact fun name member => absurd member List.not_mem_nil
  | label hname | goto hname | ifGoto hname | function hname | call hname =>
      exact fun name member => List.mem_singleton.mp member ▸ isName_iff.mpr hname

/-- What is read as a command has names that could be written. -/
theorem wellNamed_of_parse? {text : String} (h : Command.parse? text = some command) :
    command.WellNamed := by
  obtain ⟨fields, -, denotes⟩ := parse?_eq_some_iff_denotes.mp h
  exact wellNamed_of_denotes denotes

/-- A command is read from its canonical spelling. -/
theorem parse?_render (named : command.WellNamed) :
    Command.parse? command.render = some command := by
  have texts : (command.toFields.map String.toList).map String.ofList = command.toFields := by
    simp [Function.comp_def]
  exact parse?_eq_some_iff_denotes.mpr
    ⟨_, separated_render named, texts.symm ▸ denotes_toFields named⟩

/-- Stripping leaves the canonical spelling as it is. -/
theorem strip_render (named : command.WellNamed) :
    Text.strip command.render.toList = command.render.toList := by
  have noSlash : '/' ∉ command.render.toList :=
    not_mem_toList_intercalate (by decide) fun _ member =>
      not_mem_of_all_isPlain (by decide) (all_isPlain_of_mem_toFields named member)
  rw [Text.strip, Text.beforeComment_of_not_mem noSlash]
  refine (separated_render named).trim_eq ?_
  intro field member c hc
  obtain ⟨word, inFields, rfl⟩ := List.mem_map.mp member
  exact isBlank_of_isPlain (List.all_eq_true.mp (all_isPlain_of_mem_toFields named inFields) c hc)

end Render

/-! ## Whole texts -/

namespace Source

/-- The canonical text of commands, one to a line. -/
def canonical (commands : List Command) : String :=
  "\n".intercalate (commands.map Command.render)

theorem statementsFrom_render {command : Command} (named : command.WellNamed) (number : Nat)
    (rest : List (List Char)) :
    statementsFrom number (command.render.toList :: rest) =
      (statementsFrom (number + 1) rest).map
        ({ line := number, text := command.render, command } :: ·) := by
  have nonempty : command.render ≠ "" := by
    intro empty
    exact (separated_render named).ne_nil (by rw [empty]; rfl)
  simp only [statementsFrom, strip_render named, String.ofList_toList, if_neg nonempty,
    parse?_render named]

/-- Every command has its line. -/
theorem lines_canonical {commands : List Command} (nonempty : commands ≠ [])
    (named : ∀ command ∈ commands, command.WellNamed) :
    Text.lines (canonical commands).toList =
      commands.map fun command => command.render.toList := by
  have lines : ∀ line ∈ (commands.map Command.render).map String.toList, '\n' ∉ line := by
    simp only [List.mem_map, forall_exists_index, and_imp, forall_apply_eq_imp_iff₂]
    exact fun command member => newline_not_mem_render (named command member)
  have some : (commands.map Command.render).map String.toList ≠ [] := by simpa using nonempty
  rw [canonical, String.toList_intercalate, show "\n".toList = ['\n'] from rfl,
    Text.lines_intercalate some lines, List.map_map]
  rfl

theorem statementsFrom_renders {commands : List Command}
    (named : ∀ command ∈ commands, command.WellNamed) (number : Nat) :
    (statementsFrom number (commands.map fun command => command.render.toList)).map
      (fun read => read.map Statement.command) = .ok commands := by
  induction commands generalizing number with
  | nil => rfl
  | cons command commands ih =>
      have rest := ih (fun c hc => named c (List.mem_cons_of_mem _ hc)) (number + 1)
      obtain ⟨read, hread, rfl⟩ := map_eq_ok.mp rest
      rw [List.map_cons, statementsFrom_render (named command (List.mem_cons_self ..)), hread]
      rfl

/-- The canonical text of commands is read as the commands. -/
theorem commands_canonical {commands : List Command}
    (named : ∀ command ∈ commands, command.WellNamed) :
    Source.commands (canonical commands) = .ok commands := by
  by_cases empty : commands = []
  · subst empty
    rfl
  · rw [Source.commands, statements_eq, lines_canonical empty named]
    exact statementsFrom_renders named 1

theorem wellNamed_of_statementsFrom {number : Nat} {lines : List (List Char)}
    {read : List Statement} (h : statementsFrom number lines = .ok read) :
    ∀ statement ∈ read, statement.command.WellNamed := by
  induction lines generalizing number read with
  | nil =>
      obtain rfl : [] = read := Except.ok.inj h
      exact fun _ member => absurd member List.not_mem_nil
  | cons line rest ih =>
      rw [statementsFrom] at h
      split at h
      · exact ih h
      · split at h
        · cases h
        · next command hparse =>
            obtain ⟨others, hothers, rfl⟩ := map_eq_ok.mp h
            exact List.forall_mem_cons.mpr
              ⟨wellNamed_of_parse? hparse, ih hothers⟩

/-- What is read from a source has proper names. -/
theorem wellNamed_of_commands {source : String} {commands : List Command}
    (h : Source.commands source = .ok commands) : ∀ command ∈ commands, command.WellNamed := by
  obtain ⟨read, hread, rfl⟩ := map_eq_ok.mp h
  intro command member
  obtain ⟨statement, inRead, rfl⟩ := List.mem_map.mp member
  exact wellNamed_of_statementsFrom hread statement inRead

end Source

/-- **Reading undoes writing.** Commands with proper names are read from their canonical text, and
whatever was read from a source is such commands: its canonical text is read as the same. -/
theorem reading_undoes_writing :
    (∀ {commands : List Command}, (∀ command ∈ commands, command.WellNamed) →
      Source.commands (Source.canonical commands) = .ok commands) ∧
    ∀ {source : String} {commands : List Command}, Source.commands source = .ok commands →
      (∀ command ∈ commands, command.WellNamed) ∧
        Source.commands (Source.canonical commands) = .ok commands :=
  ⟨Source.commands_canonical, fun h =>
    ⟨Source.wellNamed_of_commands h, Source.commands_canonical (Source.wellNamed_of_commands h)⟩⟩

/-- A source with layout, comments and leading zeros, and what its canonical text is. -/
theorem reading_undoes_writing_layout :
    let source := "// start\n\tpush  constant 007 // seven\r\n\n if-goto a$b\n"
    let commands : List Command := [.push .constant 7, .ifGoto "a$b"]
    (∀ command ∈ commands, command.WellNamed) ∧
      Source.commands source = .ok commands ∧
      Source.canonical commands = "push constant 7\nif-goto a$b" ∧
      Source.commands (Source.canonical commands) = .ok commands := by
  intro source commands
  have read : Source.commands source = .ok commands := by decide +kernel
  have again := reading_undoes_writing.2 read
  exact ⟨again.1, read, by decide, reading_undoes_writing.1 again.1⟩

end StackToHack
