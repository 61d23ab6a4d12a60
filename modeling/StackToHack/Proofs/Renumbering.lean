import Mathlib.Data.List.Forall2
import StackToHack.Proofs.Faults

/-!
# Where the numbers stand

The counts of the context come into the code of a unit as the numbers of its comparisons and return
sites, and in no other way. So the lines of a unit have a form that does not know where counting
starts (`exists_forms`): a few of them have a gap, and the numbers that are filled in go on from
command to command. From two contexts of one function come two texts of one form.
-/

namespace StackToHack

open Hack

/-! ## Forms -/

/-- A line of text, or what stands around the number in a line that has one. -/
inductive Stencil
  | whole (text : String)
  | around (before behind : String)

namespace Stencil

def fill (number : Nat) : Stencil → String
  | .whole text => text
  | .around before behind => before ++ toString number ++ behind

def gap? : Stencil → Option (String × String)
  | .whole _ => none
  | .around before behind => some (before, behind)

end Stencil

/-- What stands around the numbers in the lines of a command: a comparison has its number in five
lines, a call has it in two. -/
def Command.gaps (unit : String) : Command → List (String × String)
  | .operate (.comparison _) =>
    [("@TRUE_", ""), ("(FALSE_", ")"), ("@ENDIF_", ""), ("(TRUE_", ")"), ("(ENDIF_", ")")]
  | .call name _ =>
    [("@" ++ unit ++ "." ++ name ++ "$ret.", ""), ("(" ++ unit ++ "." ++ name ++ "$ret.", ")")]
  | _ => []

/-- The number of a command, if it is one that takes a number. -/
def Command.number (comparisons callSites : Nat) (command : Command) : Nat :=
  if command.isCall then callSites else comparisons

/-- The form of the lines of a command: its comment, and behind it lines with the gaps that the
command has. -/
def Fits (unit : String) (captioned : Captioned) (form : List Stencil) : Prop :=
  ∃ lines, form = .whole ("// " ++ captioned.text) :: lines ∧
    lines.filterMap Stencil.gap? = captioned.command.gaps unit

/-- The lines of commands, from their forms. A comparison takes the next number of one count, a
call that of the other. -/
def fillEach (comparisons callSites : Nat) : List Command → List (List Stencil) → List String
  | command :: commands, form :: forms =>
    form.map (Stencil.fill (command.number comparisons callSites)) ++
      fillEach (if command.isComparison then comparisons + 1 else comparisons)
        (if command.isCall then callSites + 1 else callSites) commands forms
  | _, _ => []

/-- Where counting starts makes no difference to the number of lines. -/
theorem length_fillEach (c k c' k' : Nat) (commands : List Command)
    (forms : List (List Stencil)) :
    (fillEach c k commands forms).length = (fillEach c' k' commands forms).length := by
  induction commands generalizing forms c k c' k' with
  | nil => rfl
  | cons command commands ih =>
      cases forms with
      | nil => rfl
      | cons form forms =>
          rw [fillEach, fillEach, List.length_append, List.length_append, List.length_map,
            List.length_map]
          exact congrArg _ (ih ..)

/-! ## Commands -/

/-- The form of a line: comparisons and return sites are the symbols with a gap. -/
def Hack.Line.stencil : Line → Stencil
  | .symbol (.comparison arm _) => .around ("@" ++ arm.text ++ "_") ""
  | .mark (.comparison arm _) => .around ("(" ++ arm.text ++ "_") ")"
  | .symbol (.returnSite unit callee _) => .around ("@" ++ unit ++ "." ++ callee ++ "$ret.") ""
  | .mark (.returnSite unit callee _) => .around ("(" ++ unit ++ "." ++ callee ++ "$ret.") ")"
  | line => .whole line.text

section Line

@[simp] theorem stencil_register (register : Register) (n : Nat) :
    (Line.symbol (.register register)).stencil.fill n =
      (Line.symbol (.register register)).text :=
  rfl

@[simp] theorem stencil_set (dest : Dest) (comp : Comp) (n : Nat) :
    (Line.set dest comp).stencil.fill n = (Line.set dest comp).text :=
  rfl

@[simp] theorem stencil_goto (comp : Comp) (jump : Jump) (n : Nat) :
    (Line.goto comp jump).stencil.fill n = (Line.goto comp jump).text :=
  rfl

@[simp] theorem stencil_number (value n : Nat) :
    (Line.number value).stencil.fill n = (Line.number value).text :=
  rfl

@[simp] theorem stencil_plain (name : String) (n : Nat) :
    (Line.symbol (.plain name)).stencil.fill n = (Line.symbol (.plain name)).text :=
  rfl

@[simp] theorem stencil_comparison (arm : Arm) (m n : Nat) :
    (Line.symbol (.comparison arm m)).stencil.fill n = (Line.symbol (.comparison arm n)).text ∧
      (Line.mark (.comparison arm m)).stencil.fill n = (Line.mark (.comparison arm n)).text := by
  simp [Line.stencil, Stencil.fill, Line.text, Symbol.text, String.append_assoc]

@[simp] theorem stencil_returnSite (unit callee : String) (m n : Nat) :
    (Line.symbol (.returnSite unit callee m)).stencil.fill n =
        (Line.symbol (.returnSite unit callee n)).text ∧
      (Line.mark (.returnSite unit callee m)).stencil.fill n =
        (Line.mark (.returnSite unit callee n)).text := by
  simp [Line.stencil, Stencil.fill, Line.text, Symbol.text, String.append_assoc]

end Line

section Command

variable {unit : String} {function : Option String} {command : Command}

/-- The code of a command in a context has a form, whatever the counts of the context are. -/
def HasForm (unit : String) (function : Option String) (command : Command) : Prop :=
  (∃ fault, ∀ c k, command.code unit ⟨function, c, k⟩ = .error fault) ∨
    ∃ form : List Stencil, form.filterMap Stencil.gap? = command.gaps unit ∧
      ∀ c k, ∃ block, command.code unit ⟨function, c, k⟩ = .ok block ∧
        block.map Line.text = form.map (Stencil.fill (command.number c k))

theorem hasForm_of_unnumbered
    (same : ∀ c k, command.code unit ⟨function, c, k⟩ = command.code unit ⟨function, 0, 0⟩)
    (noGaps : command.gaps unit = []) : HasForm unit function command := by
  cases hcode : command.code unit ⟨function, 0, 0⟩ with
  | error fault => exact .inl ⟨fault, fun c k => (same c k).trans hcode⟩
  | ok block =>
      refine .inr ⟨block.map fun line => .whole line.text, ?_, fun c k => ?_⟩
      · rw [noGaps, List.filterMap_map, List.filterMap_eq_nil_iff]
        exact fun _ _ => rfl
      · refine ⟨block, (same c k).trans hcode, ?_⟩
        rw [List.map_map]
        rfl

theorem hasForm_comparison (op : Comparison) :
    HasForm unit function (.operate (.comparison op)) := by
  refine .inr ⟨(Code.comparison op 0).map Line.stencil, rfl, fun c k => ⟨_, rfl, ?_⟩⟩
  simp [Code.operation, Code.comparison, Code.popOperands, Code.popD, Line.register,
    Command.number, Command.isCall]

theorem hasForm_call (name : String) (args : UInt32) :
    HasForm unit function (.call name args) := by
  cases hload : Code.loadable .countOutOfRange args with
  | error fault =>
      exact .inl ⟨fault, fun c k => by simp [Command.code, Code.call, hload, Except.map]⟩
  | ok count =>
      refine .inr ⟨(Code.invoke name (.returnSite unit name 0) count).map Line.stencil, rfl,
        fun c k => ⟨Code.invoke name (.returnSite unit name k) count, ?_, ?_⟩⟩
      · simp [Command.code, Code.call, hload, Except.map]
      · simp [Code.invoke, Code.save, Code.fetch, Code.pushD, Line.register, Command.number,
          Command.isCall]

theorem Command.hasForm (unit : String) (function : Option String) (command : Command) :
    HasForm unit function command := by
  cases command with
  | operate op =>
      cases op with
      | comparison op => exact hasForm_comparison op
      | _ => exact hasForm_of_unnumbered (fun _ _ => rfl) rfl
  | call name args => exact hasForm_call name args
  | _ => exact hasForm_of_unnumbered (fun _ _ => rfl) rfl

end Command

/-! ## Units -/

theorem Context.after_eq (function : Option String) (c k : Nat) (command : Command) :
    (⟨function, c, k⟩ : Context).after command =
      ⟨command.entered?.getD function, if command.isComparison then c + 1 else c,
        if command.isCall then k + 1 else k⟩ := by
  cases command with
  | operate op => cases op <;> rfl
  | _ => rfl

/-- Commands fail for the same reason, or have the same form, whatever the counts of the context
are. -/
theorem exists_forms (unit : String) (function : Option String) (commands : List Captioned) :
    (∃ error, ∀ c k, (generate unit ⟨function, c, k⟩ commands).result = .error error) ∨
      ∃ forms, List.Forall₂ (Fits unit) commands forms ∧
        ∀ c k, ∃ code, (generate unit ⟨function, c, k⟩ commands).result = .ok code ∧
          code.map Line.text = fillEach c k (commands.map Captioned.command) forms := by
  induction commands generalizing function with
  | nil => exact .inr ⟨[], .nil, fun c k => ⟨[], rfl, rfl⟩⟩
  | cons captioned rest ih =>
      obtain ⟨text, command⟩ := captioned
      rcases command.hasForm unit function with ⟨fault, failed⟩ | ⟨lines, hgaps, made⟩
      · refine .inl ⟨{ unit, text, fault }, fun c k => ?_⟩
        rw [generate, failed c k]
      · rcases ih (command.entered?.getD function) with ⟨error, failed⟩ | ⟨forms, fits, behind⟩
        · refine .inl ⟨error, fun c k => ?_⟩
          obtain ⟨block, hblock, -⟩ := made c k
          rw [generate, hblock, Context.after_eq]
          simp only [failed]
          rfl
        · refine .inr ⟨(.whole ("// " ++ text) :: lines) :: forms,
            .cons ⟨lines, rfl, hgaps⟩ fits, fun c k => ?_⟩
          obtain ⟨block, hblock, hlines⟩ := made c k
          obtain ⟨following, hfollowing, hforms⟩ := behind
            (if command.isComparison then c + 1 else c) (if command.isCall then k + 1 else k)
          refine ⟨.comment text :: block ++ following, ?_, ?_⟩
          · refine generate_cons_eq_ok.mpr ⟨block, following, hblock, ?_, rfl⟩
            rw [Context.after_eq]
            exact hfollowing
          · rw [List.map_append, List.map_cons, hlines, hforms]
            rfl

/-- **Counting on moves the numbers and nothing else.** Commands that are met in one function with
two pairs of counts fail for the same reason, or have texts of one form: line by line the same, but
that the comparisons and the calls of either text have their numbers counted from its own start. The
counts then have grown by the same. -/
theorem numbers_follow_counts (unit : String) (function : Option String)
    (commands : List Captioned) (c k c' k' : Nat) :
    let first := generate unit ⟨function, c, k⟩ commands
    let second := generate unit ⟨function, c', k'⟩ commands
    ((∃ error, first.result = .error error ∧ second.result = .error error) ∨
      ∃ code code' forms, first.result = .ok code ∧ second.result = .ok code' ∧
        List.Forall₂ (Fits unit) commands forms ∧
        code.map Line.text = fillEach c k (commands.map Captioned.command) forms ∧
        code'.map Line.text = fillEach c' k' (commands.map Captioned.command) forms ∧
        code.length = code'.length) ∧
    ∃ function' comparisons callSites,
      first.context = ⟨function', c + comparisons, k + callSites⟩ ∧
      second.context = ⟨function', c' + comparisons, k' + callSites⟩ := by
  intro first second
  constructor
  · rcases exists_forms unit function commands with ⟨error, failed⟩ | ⟨forms, fits, made⟩
    · exact .inl ⟨error, failed c k, failed c' k'⟩
    · obtain ⟨code, hcode, lines⟩ := made c k
      obtain ⟨code', hcode', lines'⟩ := made c' k'
      refine .inr ⟨code, code', forms, hcode, hcode', fits, lines, lines', ?_⟩
      have sameLength := length_fillEach c k c' k' (commands.map Captioned.command) forms
      rwa [← lines, ← lines', List.length_map, List.length_map] at sameLength
  · have counted := (generate_stopsAtFirstFault unit ⟨function, c, k⟩ commands).context
    have counted' := (generate_stopsAtFirstFault unit ⟨function, c', k'⟩ commands).context
    exact ⟨_, _, _, counted, counted'⟩

end StackToHack
