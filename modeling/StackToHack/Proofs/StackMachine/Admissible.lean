import StackToHack.Proofs.Machine.Assembler
import StackToHack.Proofs.Numbering
import StackToHack.Proofs.Scope
import StackToHack.Proofs.Spelling
import StackToHack.Proofs.StackMachine.Blocks

/-!
# Stack code that can be assembled

Stack code without functions whose labels are names, differ, and mean nothing else to the assembler
(`Admissible`) can be read and assembled: all that it defines besides its labels are the symbols of
its comparisons. The symbols of its statics are left for variables.
-/

namespace StackToHack

open Hack

/-! ## Labels of stack code -/

/-- The names that commands define, in order. -/
def labels (commands : List Command) : List String :=
  commands.filterMap fun
    | .label name => some name
    | _ => none

/-- What is asked of stack code: no functions, no other names than those of labels, and labels that
are names, that differ, and that the assembler takes for nothing else. -/
structure Admissible (unit : String) (commands : List Command) : Prop where
  functionFree : ∀ command ∈ commands, command.isFunctionFree = true
  unitNamed : Name.IsName unit
  named : ∀ name ∈ labels commands, Name.IsName name
  complete : ∀ command ∈ commands, ∀ name ∈ command.names, name ∈ labels commands
  distinct : (labels commands).Nodup
  notPredefined : ∀ name ∈ labels commands, predefined? name = none
  notStatic : ∀ name ∈ labels commands, ∀ index, name ≠ (Symbol.static unit index).text
  notComparison : ∀ name ∈ labels commands, ∀ arm number,
    name ≠ (Symbol.comparison arm number).text

/-! ## The function that code without functions is in -/

theorem Command.not_isFunction_of_isFunctionFree {command : Command}
    (h : command.isFunctionFree = true) : command.isFunction = false := by
  cases command <;> first | rfl | cases h

theorem Context.function_behind_eq_none {context : Context} {commands : List Command}
    (h : ∀ command ∈ commands, command.isFunctionFree = true) (hnone : context.function = none) :
    (context.behind commands).function = none := by
  rw [Context.function_behind
    (fun command member => Command.not_isFunction_of_isFunctionFree (h command member)), hnone,
    ite_self]

/-! ## What stack code without functions defines -/

section Marks

variable {unit : String} {context : Context}

/-- A command outside of any function defines what it numbers, or the label that it is. -/
theorem marks_of_isFunctionFree {block : Block}
    (hcode : block.command.code unit context = .ok block.code)
    (functionFree : block.command.isFunctionFree = true) (outside : context.function = none) :
    marks block.code = block.numbered ++ (labels [block.command]).map Symbol.plain ∧
      ∀ symbol ∈ block.numbered, ∃ arm number, symbol = .comparison arm number := by
  obtain ⟨text, command, code⟩ := block
  have hmarks := marks_of_code_eq_ok hcode
  cases command with
  | operate op =>
      rw [Block.numbered, hmarks]
      cases op <;> simp [Command.isNumbered, Command.marks, labels]
  | label name =>
      rw [Block.numbered, hmarks]
      simp [Command.isNumbered, Command.marks, labels, Code.target, outside]
  | function name locals => cases functionFree
  | call name args => cases functionFree
  | ret => cases functionFree
  | _ =>
      rw [Block.numbered, hmarks]
      simp [Command.isNumbered, Command.marks, labels]

/-- What stack code without functions defines, up to order: the symbols of its comparisons, which
are new, and its labels. -/
theorem exists_perm_marks {commands : List Captioned} {code : Code}
    (hcode : (generate unit context commands).result = .ok code)
    (functionFree : ∀ captioned ∈ commands, captioned.command.isFunctionFree = true)
    (outside : context.function = none) :
    ∃ numbered : List Symbol,
      Issued context (context.behind (commands.map Captioned.command)) numbered ∧
      (∀ symbol ∈ numbered, ∃ arm number, symbol = .comparison arm number) ∧
      (marks code).Perm
        (numbered ++ (labels (commands.map Captioned.command)).map Symbol.plain) := by
  induction commands generalizing context code with
  | nil =>
      obtain rfl : [] = code := Except.ok.inj hcode
      exact ⟨[], .none fun _ issued => issued, fun _ h => absurd h List.not_mem_nil, .refl _⟩
  | cons captioned rest ih =>
      obtain ⟨made, following, hmade, hfollowing, rfl⟩ := generate_cons_eq_ok.mp hcode
      have free := functionFree captioned (List.mem_cons_self ..)
      have outside' : (context.behind [captioned.command]).function = none :=
        Context.function_behind_eq_none (by simpa using free) outside
      obtain ⟨later, hlater, hcomparisons, hperm⟩ := ih hfollowing
        (fun c hc => functionFree c (List.mem_cons_of_mem _ hc)) outside'
      let block : Block := ⟨captioned.text, captioned.command, made⟩
      have hcode : block.command.code unit context = .ok block.code := hmade
      obtain ⟨hmarks, hnumbered⟩ := marks_of_isFunctionFree hcode free outside
      refine ⟨block.numbered ++ later, (issued_block block hcode).append hlater, ?_, ?_⟩
      · intro symbol member
        exact (List.mem_append.mp member).elim (hnumbered symbol) (hcomparisons symbol)
      · have together : labels (captioned.command :: rest.map Captioned.command) =
            labels [captioned.command] ++ labels (rest.map Captioned.command) :=
          List.filterMap_append (l := [captioned.command])
        -- what the command numbers comes first, then its label moves behind all later numbers
        rw [List.map_cons, together, List.map_append, List.cons_append, marks_comment, marks_append]
        rw [show marks made = _ from hmarks, List.append_assoc, List.append_assoc]
        refine List.Perm.append_left _ ?_
        refine (List.Perm.append_left _ hperm).trans ?_
        exact List.perm_append_comm_assoc ..

end Marks

/-! ## Assembling stack code -/

section Assembling

variable {unit : String} {commands : List Command} {code : Code}

/-- No name is a number. -/
theorem number?_eq_none_of_isName {name : String} (h : Name.IsName name) : number? name = none := by
  rw [Name.IsName] at h
  cases hcs : name.toList with
  | nil => simp [hcs, Name.isNameList] at h
  | cons c cs =>
      rw [hcs, Name.isNameList, Bool.and_eq_true] at h
      have member : c ∈ name.toList := by simp [hcs]
      exact number?_eq_none_of_mem member (isDigit_of_isInitial h.1)

theorem perm_marks_of_admissible (admissible : Admissible unit commands)
    (hcode : (generateCommands unit .fresh commands).result = .ok code) :
    ∃ numbered : List Symbol, (numbered.map Symbol.text).Nodup ∧
      (∀ symbol ∈ numbered, ∃ arm number, symbol = .comparison arm number) ∧
      (marks code).Perm (numbered ++ (labels commands).map Symbol.plain) := by
  have captions : (commands.map Command.captioned).map Captioned.command = commands := by
    rw [List.map_map]
    exact List.map_id _
  have functionFree : ∀ captioned ∈ commands.map Command.captioned,
      captioned.command.isFunctionFree = true := by
    intro captioned member
    obtain ⟨command, inCommands, rfl⟩ := List.mem_map.mp member
    exact admissible.functionFree command inCommands
  obtain ⟨numbered, issued, comparisons, perm⟩ := exists_perm_marks hcode functionFree rfl
  rw [captions] at perm
  exact ⟨numbered, issued.nodup, comparisons, perm⟩

/-- Every mark of stack code is that of a comparison or a label. -/
theorem mem_marks_cases (admissible : Admissible unit commands)
    (hcode : (generateCommands unit .fresh commands).result = .ok code) {symbol : Symbol}
    (h : symbol ∈ marks code) :
    (∃ arm number, symbol = .comparison arm number) ∨
      ∃ name ∈ labels commands, symbol = .plain name := by
  obtain ⟨numbered, -, comparisons, perm⟩ := perm_marks_of_admissible admissible hcode
  rcases List.mem_append.mp (perm.mem_iff.mp h) with member | member
  · exact .inl (comparisons symbol member)
  · obtain ⟨name, inLabels, rfl⟩ := List.mem_map.mp member
    exact .inr ⟨name, inLabels, rfl⟩

theorem wellNamed_of_admissible (admissible : Admissible unit commands) {command : Command}
    (h : command ∈ commands) : command.WellNamed :=
  fun name member => admissible.named name (admissible.complete command h name member)

/-- The code of admissible stack code can be read. -/
theorem readable_of_admissible (admissible : Admissible unit commands)
    (hcode : (generateCommands unit .fresh commands).result = .ok code) : Readable code := by
  have outside : ∀ f ∈ Context.fresh.function, Name.IsName f := nofun
  refine readable_of_generate admissible.unitNamed outside ?_ ?_ hcode
  · intro captioned member
    obtain ⟨command, inCommands, rfl⟩ := List.mem_map.mp member
    exact newline_not_mem_render (wellNamed_of_admissible admissible inCommands)
  · intro captioned member
    obtain ⟨command, inCommands, rfl⟩ := List.mem_map.mp member
    exact wellNamed_of_admissible admissible inCommands

/-- Admissible stack code assembles. -/
theorem assembles_of_admissible (admissible : Admissible unit commands)
    (hcode : (generateCommands unit .fresh commands).result = .ok code)
    (fits : size code < 65536) : Assembles code where
  readable := readable_of_admissible admissible hcode
  distinct := by
    obtain ⟨numbered, nodup, comparisons, perm⟩ := perm_marks_of_admissible admissible hcode
    have texts : ((labels commands).map Symbol.plain).map Symbol.text = labels commands := by
      rw [List.map_map]
      exact List.map_id _
    rw [(perm.map Symbol.text).nodup_iff, List.map_append, texts, List.nodup_append]
    refine ⟨nodup, admissible.distinct, ?_⟩
    rintro text member name inLabels rfl
    obtain ⟨symbol, inNumbered, same⟩ := List.mem_map.mp member
    obtain ⟨arm, number, rfl⟩ := comparisons symbol inNumbered
    exact admissible.notComparison text inLabels arm number same.symm
  notNumber symbol member := by
    rcases mem_marks_cases admissible hcode member with ⟨arm, number, rfl⟩ | ⟨name, inLabels, rfl⟩
    · exact number?_eq_none_of_mem (underscore_mem_text_comparison arm number) (by decide)
    · exact number?_eq_none_of_isName (admissible.named name inLabels)
  notPredefined symbol member := by
    rcases mem_marks_cases admissible hcode member with ⟨arm, number, rfl⟩ | ⟨name, inLabels, rfl⟩
    · exact predefined?_eq_none_of_mem (underscore_mem_text_comparison arm number) (by decide)
    · exact admissible.notPredefined name inLabels
  fits := fits

/-- The symbols of statics are left for variables. -/
theorem static_left_over (admissible : Admissible unit commands)
    (hcode : (generateCommands unit .fresh commands).result = .ok code) (index : UInt32) :
    number? (Symbol.static unit index).text = none ∧
      predefined? (Symbol.static unit index).text = none ∧
      .mark (Symbol.static unit index).text ∉ items code := by
  have dot := dot_mem_text_static unit index
  refine ⟨number?_eq_none_of_mem dot (by decide), predefined?_eq_none_of_mem dot (by decide), ?_⟩
  intro marked
  obtain ⟨symbol, member, same⟩ := List.mem_map.mp (mark_mem_items.mp marked)
  rcases mem_marks_cases admissible hcode member with ⟨arm, number, rfl⟩ | ⟨name, inLabels, rfl⟩
  · exact dot_not_mem_text_comparison arm number (same ▸ dot)
  · exact admissible.notStatic name inLabels index same

/-- The statics have the cells of their variables. -/
theorem staticCells_symbols (admissible : Admissible unit commands)
    (hcode : (generateCommands unit .fresh commands).result = .ok code) (cells : String → Word) :
    staticCells (symbols cells (items code)) unit = staticCells cells unit := by
  funext index
  obtain ⟨notNumber, notPredefined, notMarked⟩ := static_left_over admissible hcode index
  exact congrArg cell (symbols_of_not_mem notNumber notPredefined notMarked)

/-- The statics that code loads are among its variables. -/
theorem mem_variableTexts_static (admissible : Admissible unit commands)
    (hcode : (generateCommands unit .fresh commands).result = .ok code) {index : UInt32}
    (loaded : .symbol (.static unit index) ∈ code) :
    (Symbol.static unit index).text ∈ variableTexts (items code) := by
  have leftOver := static_left_over admissible hcode index
  have inItems : .load (Symbol.static unit index).text ∈ items code :=
    List.mem_filterMap.mpr ⟨_, loaded, rfl⟩
  exact List.mem_filterMap.mpr ⟨_, inItems, if_pos leftOver⟩

end Assembling

end StackToHack
