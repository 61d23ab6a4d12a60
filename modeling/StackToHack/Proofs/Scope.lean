import Mathlib.Data.List.TakeWhile
import StackToHack.Proofs.Generation

/-!
# Scope of labels

A label that is written behind `function f k` belongs to `f`, up to the next `return`; from there
on code is outside of any function again, until another `function` command. So a body with a
`return` in the middle has two kinds of labels: those in front of its first `return` are private to
the function, those behind it are global. A branch finds its label if both stand on the same side
of that `return`.
-/

namespace StackToHack

open Hack

/-! ## The function that the context is in -/

def Command.isFunction : Command → Bool
  | .function _ _ => true
  | _ => false

/-- The function that the context is in behind commands that enter none. -/
theorem Context.function_behind {commands : List Command}
    (h : ∀ command ∈ commands, command.isFunction = false) (context : Context) :
    (context.behind commands).function = if .ret ∈ commands then none else context.function := by
  induction commands generalizing context with
  | nil => rfl
  | cons command rest ih =>
      have outside := ih (fun c hc => h c (List.mem_cons_of_mem _ hc)) (context.after command)
      have entersNone := h command (List.mem_cons_self ..)
      rw [behind_cons, outside]
      cases command with
      | ret => simp [after]
      | function name locals => exact absurd entersNone (by simp [Command.isFunction])
      | operate op => cases op <;> simp [after]
      | _ => simp [after]

/-! ## Branches -/

/-- The label that a `label`, `goto` or `if-goto` command names. -/
def Command.branchLabel? : Command → Option String
  | .label name | .goto name | .ifGoto name => some name
  | _ => none

/-- The code of such a command for a label that stands for a symbol. -/
def Command.branchCode (target : Symbol) : Command → Code
  | .label _ => Code.label target
  | .goto _ => Code.goto target
  | .ifGoto _ => Code.ifGoto target
  | _ => []

theorem Command.code_of_branchLabel? {unit name : String} {context : Context} {command : Command}
    (h : command.branchLabel? = some name) :
    command.code unit context =
      .ok (command.branchCode (Code.target unit context.function name)) := by
  unfold Command.branchLabel? at h
  split at h <;> cases h <;> rfl

/-! ## Bodies of functions -/

/-- The body of a function, given all that stands behind its `function` command: it ends in front
of the next one. -/
def bodyOf (behind : List Statement) : List Statement :=
  behind.takeWhile fun statement => !statement.command.isFunction

/-- The symbol of a label in the body of a function, `front` being the part of the body in front of
where the label is written. -/
def bodySymbol (unit function : String) (front : List Statement) (name : String) : Symbol :=
  if .ret ∈ front.map Statement.command then .plain name else .label unit function name

section Body

variable {unit function name : String} {locals : UInt32} {context : Context}
  {statements before behind front back : List Statement} {entry branch : Statement} {code : Code}

theorem not_isFunction_of_mem_bodyOf {statement : Statement} (h : statement ∈ bodyOf behind) :
    statement.command.isFunction = false := by
  simpa using List.mem_takeWhile_imp h

/-- Where a label stands in a body decides what it stands for. -/
theorem target_in_body (hentry : entry.command = .function function locals)
    (hbody : bodyOf behind = front ++ branch :: back) :
    Code.target unit
        (context.behind ((before ++ entry :: front).map Statement.command)).function name =
      bodySymbol unit function front name := by
  have entersNone : ∀ command ∈ front.map Statement.command, command.isFunction = false := by
    intro command member
    obtain ⟨statement, inFront, rfl⟩ := List.mem_map.mp member
    have inBody : statement ∈ bodyOf behind := by
      rw [hbody]
      exact List.mem_append_left _ inFront
    exact not_isFunction_of_mem_bodyOf inBody
  rw [List.map_append, List.map_cons, Context.behind_append, Context.behind_cons,
    Context.function_behind entersNone, hentry, bodySymbol]
  split <;> rfl

/-- The code of a branch in a body, at its place in the code of the unit. -/
theorem code_of_branch_in_body (hsplit : statements = before ++ entry :: behind)
    (hentry : entry.command = .function function locals)
    (hcode : (generateStatements unit context statements).result = .ok code)
    (hbody : bodyOf behind = front ++ branch :: back)
    (hbranch : branch.command.branchLabel? = some name) :
    ∃ earlier later,
      (generateStatements unit context (before ++ entry :: front)).result = .ok earlier ∧
        code = earlier ++ (.comment branch.text ::
          branch.command.branchCode (bodySymbol unit function front name) ++ later) := by
  -- what is behind the body is code of the unit, too, but has no part in where the branch leads
  obtain ⟨others, hothers⟩ : ∃ others, front ++ branch :: back ++ others = behind := by
    rw [← hbody]
    exact ⟨_, List.takeWhile_append_dropWhile⟩
  have whole : statements = (before ++ entry :: front) ++ branch :: (back ++ others) := by
    rw [hsplit, ← hothers]
    simp
  rw [whole, generateStatements, List.map_append, List.map_cons] at hcode
  obtain ⟨earlier, block, later, hearlier, hblock, rfl⟩ := exists_block_of_generate hcode
  refine ⟨earlier, later, hearlier, ?_⟩
  have captions : ((before ++ entry :: front).map Statement.captioned).map Captioned.command =
      (before ++ entry :: front).map Statement.command := by
    rw [List.map_map]
    rfl
  rw [captions] at hblock
  have made := (Command.code_of_branchLabel? hbranch).symm.trans hblock
  rw [target_in_body hentry hbody] at made
  rw [Except.ok.inj made]
  rfl

end Body

/-- **Labels in a body.** A label in front of the first `return` of a body is private to the
function and one behind it is global, whether it is defined or branched to. So a branch leads to a
symbol that the same code defines as soon as its label is defined on the same side of the first
`return`. -/
theorem labels_in_body {unit function : String} {locals : UInt32} {context : Context}
    {statements before behind : List Statement} {entry : Statement} {code : Code}
    (hsplit : statements = before ++ entry :: behind)
    (hentry : entry.command = .function function locals)
    (hcode : (generateStatements unit context statements).result = .ok code) :
    (∀ front branch back name, bodyOf behind = front ++ branch :: back →
      branch.command.branchLabel? = some name →
        ∃ earlier later,
          (generateStatements unit context (before ++ entry :: front)).result = .ok earlier ∧
            code = earlier ++ (.comment branch.text ::
              branch.command.branchCode (bodySymbol unit function front name) ++ later)) ∧
    ∀ front branch back front' definition back' name,
      bodyOf behind = front ++ branch :: back → branch.command.branchLabel? = some name →
      bodyOf behind = front' ++ definition :: back' → definition.command = .label name →
      (.ret ∈ front.map Statement.command ↔ .ret ∈ front'.map Statement.command) →
        bodySymbol unit function front name ∈ marks code := by
  constructor
  · intro front branch back name hbody hbranch
    exact code_of_branch_in_body hsplit hentry hcode hbody hbranch
  · intro front branch back front' definition back' name _ _ hbody hdefinition sameSide
    have hlabel : definition.command.branchLabel? = some name := by rw [hdefinition]; rfl
    obtain ⟨earlier, later, -, rfl⟩ :=
      code_of_branch_in_body hsplit hentry hcode hbody hlabel
    have same : bodySymbol unit function front name = bodySymbol unit function front' name := by
      simp only [bodySymbol, sameSide]
    rw [same, hdefinition, mem_marks]
    simp [Command.branchCode, Code.label]

/-- A function that returns early, with a loop on each side of its first `return`. -/
theorem labels_in_body_early_return :
    let entry : Statement := ⟨1, "function f 0", .function "f" 0⟩
    let body : List Statement :=
      [⟨2, "label L", .label "L"⟩, ⟨3, "if-goto L", .ifGoto "L"⟩, ⟨4, "return", .ret⟩,
        ⟨5, "label M", .label "M"⟩, ⟨6, "goto M", .goto "M"⟩]
    bodyOf body = body ∧
      ∃ code, (generateStatements "U" .fresh (entry :: body)).result = .ok code ∧
        .label "U" "f" "L" ∈ marks code ∧ .plain "M" ∈ marks code := by
  intro entry body
  obtain ⟨code, hcode⟩ :
      ∃ code, (generateStatements "U" .fresh (entry :: body)).result = .ok code := ⟨_, rfl⟩
  have labels := labels_in_body (show entry :: body = [] ++ entry :: body from rfl)
    (show entry.command = .function "f" 0 from rfl) hcode
  refine ⟨rfl, code, hcode, ?_, ?_⟩
  · exact labels.2 (body.take 1) body[1] (body.drop 2) [] body[0] (body.drop 1) "L" rfl rfl rfl rfl
      (by decide)
  · exact labels.2 (body.take 4) body[4] [] (body.take 3) body[3] (body.drop 4) "M" rfl rfl rfl rfl
      (by decide)

/-- Private labels do not reach behind a `return`: here the label is defined as `U.f$L` and the
branch to it leads to `L`, which nothing defines. -/
theorem branch_behind_return_leaves_body :
    ∃ statements code,
      Source.statements "function f 0\nlabel L\nreturn\ngoto L\n" = .ok statements ∧
      statements.map Statement.command = [.function "f" 0, .label "L", .ret, .goto "L"] ∧
      (generateStatements "U" .fresh statements).result = .ok code ∧
      .label "U" "f" "L" ∈ marks code ∧ .plain "L" ∈ loads code ∧
      "L" ∉ (marks code).map Symbol.text := by
  refine ⟨[⟨1, "function f 0", .function "f" 0⟩, ⟨2, "label L", .label "L"⟩, ⟨3, "return", .ret⟩,
    ⟨4, "goto L", .goto "L"⟩], _, by decide +kernel, rfl, rfl, ?_, ?_, ?_⟩ <;> decide

end StackToHack
