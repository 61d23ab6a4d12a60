import StackToHack.Unit

/-!
# The code of a unit, command by command

A unit that has code has the code of its commands in a row, each behind its comment line and each
made in the context that the commands before it left (`Context.behind`). So the code of some
commands and some more is the code of the first ones and then that of the others
(`generate_append_eq_ok`).
-/

namespace StackToHack

open Hack

/-- The context behind commands. -/
def Context.behind (context : Context) (commands : List Command) : Context :=
  commands.foldl Context.after context

namespace Context

@[simp] theorem behind_nil (context : Context) : context.behind [] = context := rfl

@[simp] theorem behind_cons (context : Context) (command : Command) (rest : List Command) :
    context.behind (command :: rest) = (context.after command).behind rest :=
  rfl

theorem behind_append (context : Context) (front back : List Command) :
    context.behind (front ++ back) = (context.behind front).behind back :=
  List.foldl_append

end Context

/-! ## Units that have code -/

variable {unit : String} {context : Context} {captioned : Captioned}
  {front back rest : List Captioned} {code : Code}

theorem generate_cons_eq_ok :
    (generate unit context (captioned :: rest)).result = .ok code ↔
      ∃ block following, captioned.command.code unit context = .ok block ∧
        (generate unit (context.after captioned.command) rest).result = .ok following ∧
        code = .comment captioned.text :: block ++ following := by
  obtain ⟨text, command⟩ := captioned
  rw [generate]
  cases hcode : command.code unit context with
  | error fault => simp
  | ok block =>
      cases hrest : (generate unit (context.after command) rest).result with
      | error error => simp [hrest, Except.map]
      | ok following =>
          simp only [hrest, Except.map, Except.ok.injEq]
          constructor
          · rintro rfl
            exact ⟨block, following, rfl, rfl, rfl⟩
          · rintro ⟨block, following, rfl, rfl, rfl⟩
            rfl

theorem generate_append_eq_ok :
    (generate unit context (front ++ back)).result = .ok code ↔
      ∃ before behind, (generate unit context front).result = .ok before ∧
        (generate unit (context.behind (front.map Captioned.command)) back).result = .ok behind ∧
        code = before ++ behind := by
  induction front generalizing context code with
  | nil => simp [generate]
  | cons captioned front ih =>
      simp only [List.cons_append, generate_cons_eq_ok, ih, List.map_cons, Context.behind_cons]
      constructor
      · rintro ⟨block, _, hblock, ⟨before, behind, hbefore, hbehind, rfl⟩, rfl⟩
        exact ⟨_, behind, ⟨block, before, hblock, hbefore, rfl⟩, hbehind, by simp⟩
      · rintro ⟨_, behind, ⟨block, before, hblock, hbefore, rfl⟩, hbehind, rfl⟩
        exact ⟨block, _, hblock, ⟨before, behind, hbefore, hbehind, rfl⟩, by simp⟩

/-- One command of a unit that has code. -/
theorem exists_block_of_generate
    (h : (generate unit context (front ++ captioned :: back)).result = .ok code) :
    ∃ before block behind, (generate unit context front).result = .ok before ∧
      captioned.command.code unit (context.behind (front.map Captioned.command)) = .ok block ∧
      code = before ++ (.comment captioned.text :: block ++ behind) := by
  obtain ⟨before, _, hbefore, hrest, rfl⟩ := generate_append_eq_ok.mp h
  obtain ⟨block, behind, hblock, -, rfl⟩ := generate_cons_eq_ok.mp hrest
  exact ⟨before, block, behind, hbefore, hblock, rfl⟩

/-- A unit that has code leaves the context that all of its commands make. -/
theorem context_of_generate_eq_ok {commands : List Captioned}
    (h : (generate unit context commands).result = .ok code) :
    (generate unit context commands).context =
      context.behind (commands.map Captioned.command) := by
  induction commands generalizing context code with
  | nil => rfl
  | cons captioned rest ih =>
      obtain ⟨block, following, hblock, hrest, -⟩ := generate_cons_eq_ok.mp h
      obtain ⟨text, command⟩ := captioned
      simp only [generate, hblock]
      exact ih hrest

/-- So does a unit of statements. -/
theorem context_of_generateStatements {statements : List Statement}
    (h : (generateStatements unit context statements).result = .ok code) :
    (generateStatements unit context statements).context =
      context.behind (statements.map Statement.command) := by
  rw [generateStatements, context_of_generate_eq_ok h, List.map_map]
  rfl

/-! ## Symbols that code defines and loads -/

/-- The symbols that code defines, in order. -/
def marks (code : Code) : List Symbol :=
  code.filterMap fun
    | .mark symbol => some symbol
    | _ => none

/-- The symbols whose words code loads, in order. -/
def loads (code : Code) : List Symbol :=
  code.filterMap fun
    | .symbol symbol => some symbol
    | _ => none

@[simp] theorem marks_append (before behind : Code) :
    marks (before ++ behind) = marks before ++ marks behind :=
  List.filterMap_append

@[simp] theorem marks_comment (text : String) (code : Code) :
    marks (.comment text :: code) = marks code :=
  rfl

theorem mem_marks {symbol : Symbol} : symbol ∈ marks code ↔ .mark symbol ∈ code := by
  rw [marks, List.mem_filterMap]
  constructor
  · rintro ⟨line, hline, hmark⟩
    cases line <;> simp_all
  · exact fun h => ⟨_, h, rfl⟩

/-- The symbols that a command defines. -/
def Command.marks (unit : String) (context : Context) : Command → List Symbol
  | .operate (.comparison _) =>
    [.comparison .whenFalse context.comparisons, .comparison .whenTrue context.comparisons,
     .comparison .done context.comparisons]
  | .label name => [Code.target unit context.function name]
  | .function name _ =>
    [.function unit name, .plain name, .localsLoop unit name, .localsEnd unit name]
  | .call name _ => [.returnSite unit name context.callSites]
  | .operate (.unary _) | .operate (.binary _) | .push _ _ | .pop _ _ | .goto _ | .ifGoto _
  | .ret => []

theorem map_eq_ok {ε α β : Type} {f : α → β} {result : Except ε α} {b : β} :
    result.map f = .ok b ↔ ∃ a, result = .ok a ∧ f a = b := by
  cases result <;> simp [Except.map]

theorem exists_of_isOk {ε α : Type} {result : Except ε α} (h : result.isOk = true) :
    ∃ a, result = .ok a := by
  cases result with
  | error error => cases h
  | ok a => exact ⟨a, rfl⟩

theorem Code.eq_toNat_of_loadable {fault : UInt32 → Fault} {n : UInt32} {value : Nat}
    (h : Code.loadable fault n = .ok value) : value = n.toNat := by
  rw [Code.loadable] at h
  split at h
  · exact (Except.ok.inj h).symm
  · cases h

theorem Code.le_of_loadable {fault : UInt32 → Fault} {n : UInt32} {value : Nat}
    (h : Code.loadable fault n = .ok value) : value ≤ 32767 := by
  rw [Code.eq_toNat_of_loadable h]
  rw [Code.loadable] at h
  split at h
  · next small => exact UInt32.le_iff_toNat_le.mp small
  · cases h

/-- Where the cells of the regions are found, and which indices have one. -/
theorem Code.place_cases {index : UInt32} {region : Region} {place : Place}
    (h : Code.place unit index region = .ok place) :
    match region with
    | .locals => place = .offset .lcl index.toNat ∧ index.toNat ≤ 32767
    | .argument => place = .offset .arg index.toNat ∧ index.toNat ≤ 32767
    | .this => place = .offset .this index.toNat ∧ index.toNat ≤ 32767
    | .that => place = .offset .that index.toNat ∧ index.toNat ≤ 32767
    | .static => place = .cell (.static unit index)
    | .pointer => index = 0 ∧ place = .cell (.register .this) ∨
        index = 1 ∧ place = .cell (.register .that)
    | .temp => ∃ number, number.val = 5 + index.toNat ∧ number.val < 13 ∧
        place = .cell (.register (.r number)) := by
  cases region with
  | static => exact (Except.ok.inj h).symm
  | pointer =>
      rw [Code.place] at h
      split at h
      · next zero => exact .inl ⟨zero, (Except.ok.inj h).symm⟩
      · split at h
        · next one => exact .inr ⟨one, (Except.ok.inj h).symm⟩
        · cases h
  | temp =>
      rw [Code.place] at h
      split at h
      · next small => exact ⟨_, rfl, Nat.add_lt_add_left small 5, (Except.ok.inj h).symm⟩
      · cases h
  | _ =>
      obtain ⟨value, hvalue, rfl⟩ := map_eq_ok.mp h
      obtain rfl := Code.eq_toNat_of_loadable hvalue
      exact ⟨rfl, Code.le_of_loadable hvalue⟩

/-- The ways in which commands come to their code. -/
theorem Command.code_eq_ok {block : Code} {command : Command}
    (h : command.code unit context = .ok block) :
    match command with
    | .push .constant n => ∃ value, block = Code.pushNumber value ∧
        Code.loadable .constantOutOfRange n = .ok value
    | .push (.region region) index => ∃ place, block = Code.fetch place ∧
        Code.place unit index region = .ok place
    | .pop .constant _ => False
    | .pop (.region region) index => ∃ place, block = Code.store place ∧
        Code.place unit index region = .ok place
    | .function name locals => ∃ count, block = Code.enter unit name count ∧
        Code.loadable .countOutOfRange locals = .ok count
    | .call name args => ∃ count,
        block = Code.invoke name (.returnSite unit name context.callSites) count ∧
        Code.loadable .countOutOfRange args = .ok count
    | .operate op => block = Code.operation context.comparisons op
    | .label name => block = Code.label (Code.target unit context.function name)
    | .goto name => block = Code.goto (Code.target unit context.function name)
    | .ifGoto name => block = Code.ifGoto (Code.target unit context.function name)
    | .ret => block = Code.ret := by
  cases command with
  | push segment index =>
      cases segment <;>
        obtain ⟨value, hvalue, rfl⟩ := map_eq_ok.mp h <;> exact ⟨value, rfl, hvalue⟩
  | pop segment index =>
      cases segment with
      | constant => cases h
      | region region =>
          obtain ⟨place, hplace, rfl⟩ := map_eq_ok.mp h
          exact ⟨place, rfl, hplace⟩
  | function name locals =>
      obtain ⟨count, hcount, rfl⟩ := map_eq_ok.mp h
      exact ⟨count, rfl, hcount⟩
  | call name args =>
      obtain ⟨count, hcount, rfl⟩ := map_eq_ok.mp h
      exact ⟨count, rfl, hcount⟩
  | _ => exact (Except.ok.inj h).symm

/-- What the code of a command defines depends on its kind, names and context alone. -/
theorem marks_of_code_eq_ok {block : Code} {command : Command}
    (h : command.code unit context = .ok block) :
    StackToHack.marks block = command.marks unit context := by
  have made := Command.code_eq_ok h
  cases command with
  | operate op =>
      obtain rfl : block = Code.operation context.comparisons op := made
      rcases op with op | op | op <;> rfl
  | push segment index =>
      cases segment with
      | constant =>
          obtain ⟨value, rfl, -⟩ := made
          rfl
      | region region =>
          obtain ⟨place, rfl, -⟩ := made
          cases place <;> rfl
  | pop segment index =>
      cases segment with
      | constant => exact made.elim
      | region region =>
          obtain ⟨place, rfl, -⟩ := made
          cases place <;> rfl
  | function name locals =>
      obtain ⟨count, rfl, -⟩ := made
      rfl
  | call name args =>
      obtain ⟨count, rfl, -⟩ := made
      rfl
  | label name =>
      obtain rfl : block = Code.label _ := made
      rfl
  | goto name =>
      obtain rfl : block = Code.goto _ := made
      rfl
  | ifGoto name =>
      obtain rfl : block = Code.ifGoto _ := made
      rfl
  | ret =>
      obtain rfl : block = Code.ret := made
      rfl

end StackToHack
