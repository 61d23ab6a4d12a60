import StackToHack.Proofs.Comments
import StackToHack.Proofs.Neighbours
import StackToHack.Proofs.Occurrence

/-!
# Echoed and canonical texts

The code of a source has comments, and what they hold depends on the way that it went: the lines
of the source if they are kept, or the canonical spelling of the commands if they are not. The way
makes no other difference. Where one cannot go on, the other cannot, either, and in the texts that
they lead to, the same blocks of lines stand under comments of their own (`Commented`).
-/

namespace StackToHack

open Hack

/-! ## Commands in a row -/

/-- The code of commands, each made in the context that the ones before it left. -/
inductive CodeEach (unit : String) : Context → List Command → List Code → Prop
  | nil (context : Context) : CodeEach unit context [] []
  | cons {context : Context} {command : Command} {block : Code} {commands : List Command}
      {blocks : List Code} (here : command.code unit context = .ok block)
      (behind : CodeEach unit (context.after command) commands blocks) :
      CodeEach unit context (command :: commands) (block :: blocks)

/-- A comment as a line of a text. -/
def commentLine (text : String) : List Char := (Line.comment text).text.toList

/-- The lines of blocks, each block behind the comment with its text. -/
def underComments : List String → List Code → List (List Char)
  | text :: texts, block :: blocks =>
    commentLine text :: (printed block ++ underComments texts blocks)
  | _, _ => []

/-- Lines are the same, or both start like comments. -/
def Alike (line line' : List Char) : Prop :=
  line = line' ∨ isComment line = true ∧ isComment line' = true

section Row

variable {unit : String} {context : Context} {captions : List Captioned} {commands : List Command}
  {statements : List Statement} {blocks : List Code} {code : Code} {texts texts' : List String}

theorem isComment_commentLine (text : String) : isComment (commentLine text) = true := by
  simp [isComment, commentLine, Line.text]

/-- Whatever the texts of commands are, the code between them is the same. -/
theorem exists_code_of_codeEach (h : CodeEach unit context (captions.map Captioned.command) blocks)
    (oneLine : ∀ captioned ∈ captions, '\n' ∉ captioned.text.toList) :
    ∃ code, (generate unit context captions).result = .ok code ∧
      printed code = underComments (captions.map Captioned.text) blocks := by
  induction captions generalizing context blocks with
  | nil =>
      cases h
      exact ⟨[], rfl, rfl⟩
  | cons captioned rest ih =>
      cases h with
      | @cons _ _ block _ blocks here behind =>
          obtain ⟨following, hfollowing, hlines⟩ :=
            ih behind fun c hc => oneLine c (List.mem_cons_of_mem _ hc)
          refine ⟨.comment captioned.text :: block ++ following,
            generate_cons_eq_ok.mpr ⟨block, following, here, hfollowing, rfl⟩, ?_⟩
          have single : Text.lines (commentLine captioned.text) = [commentLine captioned.text] := by
            refine Text.lines_of_not_mem ?_
            simp [commentLine, Line.text, oneLine captioned (List.mem_cons_self ..)]
          rw [List.map_cons, underComments, ← hlines, printed, printed, printed,
            List.flatMap_append, List.flatMap_cons, ← commentLine, single]
          rfl

theorem exists_codeEach (h : (generate unit context captions).result = .ok code) :
    ∃ blocks, CodeEach unit context (captions.map Captioned.command) blocks := by
  induction captions generalizing context code with
  | nil => exact ⟨[], .nil context⟩
  | cons captioned rest ih =>
      obtain ⟨block, following, hblock, hfollowing, -⟩ := generate_cons_eq_ok.mp h
      obtain ⟨blocks, behind⟩ := ih hfollowing
      exact ⟨block :: blocks, .cons hblock behind⟩

theorem CodeEach.length_eq (h : CodeEach unit context commands blocks) :
    blocks.length = commands.length := by
  induction h with
  | nil context => rfl
  | cons here behind ih => rw [List.length_cons, List.length_cons, ih]

theorem forall₂_underComments (sameLength : texts.length = texts'.length) (blocks : List Code) :
    List.Forall₂ Alike (underComments texts blocks) (underComments texts' blocks) := by
  induction texts generalizing texts' blocks with
  | nil =>
      obtain rfl := List.eq_nil_of_length_eq_zero sameLength.symm
      exact .nil
  | cons text texts ih =>
      cases texts' with
      | nil => cases sameLength
      | cons text' texts' =>
          cases blocks with
          | nil => exact .nil
          | cons block blocks =>
              have rest := ih (Nat.succ.inj sameLength) blocks
              have same : List.Forall₂ Alike (printed block) (printed block) :=
                List.forall₂_same.mpr fun _ _ => .inl rfl
              exact .cons (.inr ⟨isComment_commentLine text, isComment_commentLine text'⟩)
                (List.rel_append same rest)

theorem filter_isComment_eq_nil_iff {block : Code} :
    (printed block).filter isComment = [] ↔ ¬HasComment block := by
  simp [HasComment]

/-- The comments are always among the lines that start like one. -/
theorem length_le_filter_underComments (sameLength : blocks.length = texts.length) :
    texts.length ≤ ((underComments texts blocks).filter isComment).length := by
  induction texts generalizing blocks with
  | nil => exact Nat.zero_le _
  | cons text texts ih =>
      cases blocks with
      | nil => cases sameLength
      | cons block blocks =>
          have rest := ih (Nat.succ.inj sameLength)
          rw [underComments, List.filter_cons_of_pos (isComment_commentLine text),
            List.filter_append, List.length_cons, List.length_cons, List.length_append]
          omega

/-- They are all that start like one exactly if no block has such a line of its own. -/
theorem filter_underComments_iff (sameLength : blocks.length = texts.length) :
    (underComments texts blocks).filter isComment = texts.map commentLine ↔
      ∀ block ∈ blocks, ¬HasComment block := by
  induction texts generalizing blocks with
  | nil =>
      obtain rfl := List.eq_nil_of_length_eq_zero sameLength
      simp [underComments]
  | cons text texts ih =>
      cases blocks with
      | nil => cases sameLength
      | cons block blocks =>
          have restLength := Nat.succ.inj sameLength
          rw [underComments, List.filter_cons_of_pos (isComment_commentLine text),
            List.filter_append, List.map_cons, List.cons.injEq, List.forall_mem_cons,
            ← filter_isComment_eq_nil_iff]
          constructor
          · rintro ⟨-, same⟩
            -- the comments behind account for all lines, so none is left for the block
            have lengths := congrArg List.length same
            rw [List.length_append, List.length_map] at lengths
            have comments := length_le_filter_underComments restLength
            have none : (printed block).filter isComment = [] :=
              List.eq_nil_of_length_eq_zero (by omega)
            rw [none, List.nil_append] at same
            exact ⟨none, (ih restLength).mp same⟩
          · rintro ⟨none, noneBehind⟩
            rw [none, List.nil_append]
            exact ⟨rfl, (ih restLength).mpr noneBehind⟩

/-- Commands with proper names add no such function to a context, and may leave it. -/
theorem Context.opensComment_after {command : Command} (named : command.WellNamed) :
    (context.after command).OpensComment ↔ command.entered? = none ∧ context.OpensComment := by
  cases command with
  | operate op => cases op <;> simp [after, Command.entered?, OpensComment]
  | function name locals =>
      have oneLine := newline_not_mem_of_mem_names named (List.mem_singleton_self name)
      have notInName := mt newline_mem_of_opensComment oneLine
      simp [after, Command.entered?, OpensComment, notInName]
  | _ => simp [after, Command.entered?, OpensComment]

/-- A line of commands starts like a comment without being one exactly if the function that they are
met in brings it along and one of them names a leading label. -/
theorem CodeEach.exists_hasComment_iff (hunit : '\n' ∉ unit.toList)
    (named : ∀ command ∈ commands, command.WellNamed) (h : CodeEach unit context commands blocks) :
    (∃ block ∈ blocks, HasComment block) ↔ context.OpensComment ∧ NamesLeading commands := by
  induction h with
  | nil context => simp [NamesLeading, leading]
  | @cons context command block commands blocks here behind ih =>
      obtain ⟨namedHere, namedBehind⟩ := List.forall_mem_cons.mp named
      have entersNone : command.branchLabel?.isSome = true → command.entered? = none := by
        cases command <;> simp [Command.branchLabel?, Command.entered?]
      rw [List.exists_mem_cons_iff, hasComment_iff hunit namedHere here, ih namedBehind,
        Context.opensComment_after namedHere, namesLeading_cons]
      constructor
      · rintro (⟨opens, label⟩ | ⟨⟨stays, opens⟩, leads⟩)
        · exact ⟨opens, entersNone label, .inl label⟩
        · exact ⟨opens, stays, .inr leads⟩
      · rintro ⟨opens, stays, label | leads⟩
        · exact .inl ⟨opens, label⟩
        · exact .inr ⟨⟨stays, opens⟩, leads⟩

/-- How generation ends, and in which context. -/
structure Generation.Ends (generation : Generation) (result : Except CommandError Code)
    (last : Context) : Prop where
  result : generation.result = result
  context : generation.context = last

/-- The text of commands under comments: what its lines are, and when the comments are all the lines
that start like one. -/
structure Commented (context : Context) (commands : List Command) (blocks : List Code)
    (texts : List String) (code : Code) : Prop where
  /-- Behind the last newline there is nothing. -/
  lines : Text.lines (render code).toList = underComments texts blocks ++ [[]]
  comments : (Text.lines (render code).toList).filter isComment = texts.map commentLine ↔
    ¬(context.OpensComment ∧ NamesLeading commands)

theorem exists_commented (caption : Statement → Captioned)
    (hcaption : ∀ statement, (caption statement).command = statement.command)
    (hunit : '\n' ∉ unit.toList)
    (oneLine : ∀ statement ∈ statements, '\n' ∉ (caption statement).text.toList)
    (named : ∀ command ∈ statements.map Statement.command, command.WellNamed)
    (each : CodeEach unit context (statements.map Statement.command) blocks) :
    ∃ code, (generate unit context (statements.map caption)).Ends (.ok code)
        (context.behind (statements.map Statement.command)) ∧
      Commented context (statements.map Statement.command) blocks
        (statements.map fun statement => (caption statement).text) code := by
  have commands : (statements.map caption).map Captioned.command =
      statements.map Statement.command := by
    rw [List.map_map]
    exact List.map_congr_left fun statement _ => hcaption statement
  have texts : (statements.map caption).map Captioned.text =
      statements.map fun statement => (caption statement).text := List.map_map ..
  obtain ⟨code, hcode, hprinted⟩ := exists_code_of_codeEach (commands ▸ each)
    (List.forall_mem_map.mpr oneLine)
  have behind := context_of_generate_eq_ok hcode
  rw [commands] at behind
  rw [texts] at hprinted
  have lines := lines_render code
  rw [hprinted] at lines
  have sameLength : blocks.length =
      (statements.map fun statement => (caption statement).text).length := by
    rw [each.length_eq, List.length_map, List.length_map]
  have noComment : ([[]] : List (List Char)).filter isComment = [] := rfl
  refine ⟨code, ⟨hcode, behind⟩, lines, ?_⟩
  rw [lines, List.filter_append, noComment, List.append_nil, filter_underComments_iff sameLength,
    ← each.exists_hasComment_iff hunit named]
  simp

end Row

/-! ## Sources -/

/-- The texts of the lines of a source that say anything. -/
def Source.texts (source : String) : List String :=
  ((Text.lines source.toList).map fun line => String.ofList (Text.strip line)).filter (· ≠ "")

/-- A source is read as statements, or as their commands. -/
structure ReadAs (source : String) (statements : List Statement) : Prop where
  asStatements : Source.statements source = .ok statements
  asCommands : Source.commands source = .ok (statements.map Statement.command)
  texts : statements.map Statement.text = Source.texts source

/-- What becomes of a source under the texts that it was read from, and under canonical texts. -/
inductive Echoes (unit : String) (context : Context) (source : String) : Prop
  /-- There is a line that cannot be read. -/
  | unread {error : LineError}
      (asStatements : Source.statements source = .error error)
      (asCommands : Source.commands source = .error error)
  /-- There is a command without code, and only its text is reported in two ways. -/
  | inexpressible {statements : List Statement} {failing : Statement} {fault : Fault}
      {last : Context} (read : ReadAs source statements) (member : failing ∈ statements)
      (echoed : (generateStatements unit context statements).Ends
        (.error { unit, text := failing.text, fault }) last)
      (canonical : (generateCommands unit context (statements.map Statement.command)).Ends
        (.error { unit, text := failing.command.render, fault }) last)
  /-- There is code for every command, and both texts have it, each under its own comments. -/
  | made {statements : List Statement} {blocks : List Code} {code code' : Code} {last : Context}
      (read : ReadAs source statements)
      (each : CodeEach unit context (statements.map Statement.command) blocks)
      (echoed : (generateStatements unit context statements).Ends (.ok code) last)
      (canonical : (generateCommands unit context (statements.map Statement.command)).Ends
        (.ok code') last)
      (text : Commented context (statements.map Statement.command) blocks
        (statements.map Statement.text) code)
      (text' : Commented context (statements.map Statement.command) blocks
        (statements.map fun statement => statement.command.render) code')
      (alike : List.Forall₂ Alike (Text.lines (render code).toList)
        (Text.lines (render code').toList))

section Source

variable {unit source : String} {context : Context} {statements : List Statement}

theorem texts_of_statementsFrom {number : Nat} {lines : List (List Char)} {read : List Statement}
    (h : Source.statementsFrom number lines = .ok read) :
    read.map Statement.text =
      (lines.map fun line => String.ofList (Text.strip line)).filter (· ≠ "") := by
  induction lines generalizing number read with
  | nil =>
      obtain rfl : [] = read := Except.ok.inj h
      rfl
  | cons line rest ih =>
      rw [Source.statementsFrom] at h
      split at h
      · next blank => rw [ih h, List.map_cons, List.filter_cons_of_neg (by simp [blank])]
      · next notBlank =>
          split at h
          · cases h
          · obtain ⟨others, hothers, rfl⟩ := map_eq_ok.mp h
            rw [List.map_cons, List.map_cons, List.filter_cons_of_pos (by simpa using notBlank),
              ih hothers]

theorem readAs (h : Source.statements source = .ok statements) : ReadAs source statements :=
  ⟨h, commands_eq_ok h, texts_of_statementsFrom ((Source.statements_eq source).symm.trans h)⟩

/-- **Captions leave the code alone.** A source comes to the same under the texts that it was read
from and under canonical texts. Either way the same line cannot be read, or the same command has no
code for the same reason, or there are two texts which are the same line by line but for the comment
in front of the code of each command; and either way the context behind it is the same. One can tell
the comments by how they start, unless the function that the source is met in has a line in its
name that starts so, too, and there are leading labels to show it. -/
theorem captions_leave_code_alone (hunit : '\n' ∉ unit.toList) (context : Context)
    (source : String) : Echoes unit context source := by
  obtain ⟨outcome, last, settles⟩ := exists_settles context unit source
  cases settles with
  | @unread error hread =>
      refine .unread hread ?_
      rw [Source.commands, hread]
      rfl
  | @inexpressible front back failing fault hread hfront hfault =>
      obtain ⟨failed, behind⟩ := generate_map_of_fault unit context Statement.captioned
        (fun _ => rfl) hfront hfault back
      obtain ⟨failed', behind'⟩ := generate_map_of_fault unit context
        (fun statement => statement.command.captioned) (fun _ => rfl) hfront hfault back
      refine .inexpressible (readAs hread) (by simp) ⟨failed, behind⟩ ?_
      rw [generateCommands, List.map_map]
      exact ⟨failed', behind'⟩
  | @made statements _ hread hcode =>
      have named := Source.wellNamed_of_commands (commands_eq_ok hread)
      have oneLine := newline_not_mem_of_statements hread
      obtain ⟨blocks, each⟩ := exists_codeEach hcode
      rw [List.map_map] at each
      obtain ⟨code, echoed, text⟩ := exists_commented Statement.captioned (fun _ => rfl) hunit
        oneLine named each
      obtain ⟨code', canonical, text'⟩ := exists_commented
        (fun statement => statement.command.captioned) (fun _ => rfl) hunit
        (fun statement member => newline_not_mem_render (named _ (List.mem_map_of_mem member)))
        named each
      refine .made (readAs hread) each echoed ?_ text text' ?_
      · rw [generateCommands, List.map_map]
        exact canonical
      · rw [text.lines, text'.lines]
        exact List.rel_append (forall₂_underComments (by simp) blocks) (.cons (.inl rfl) .nil)

end Source

/-- A source with layout of its own, met in a function, under both kinds of comments. -/
theorem captions_leave_code_alone_layout :
    let source := "\tpush  constant 007 // seven\n\n if-goto L\n"
    let context : Context := { function := some "f" }
    '\n' ∉ "U".toList ∧ Echoes "U" context source ∧
      ∃ statements code code', Source.statements source = .ok statements ∧
        (generateStatements "U" context statements).result = .ok code ∧
        (generateCommands "U" context (statements.map Statement.command)).result = .ok code' ∧
        linesOf code = ["// push  constant 007", "@7", "D=A", "@SP", "A=M", "M=D", "@SP", "M=M+1",
          "// if-goto L", "@SP", "AM=M-1", "D=M", "@U.f$L", "D;JNE"] ∧
        linesOf code' = ["// push constant 7", "@7", "D=A", "@SP", "A=M", "M=D", "@SP", "M=M+1",
          "// if-goto L", "@SP", "AM=M-1", "D=M", "@U.f$L", "D;JNE"] := by
  intro source context
  have oneLine : '\n' ∉ "U".toList := by decide
  have read : Source.statements source = .ok
      [⟨1, "push  constant 007", .push .constant 7⟩, ⟨3, "if-goto L", .ifGoto "L"⟩] := by
    decide +kernel
  have echoes := captions_leave_code_alone oneLine context source
  refine ⟨oneLine, echoes, _, _, _, read, rfl, rfl, ?_, ?_⟩
  · decide
  · decide

/-- A function that nobody could have read has a name of two lines, and the second one starts like a
comment. A label in it is one command with one comment, and yet two lines of its text start so. -/
theorem function_name_looks_like_comment :
    let context := (generateCommands "U" .fresh [.function "f\n// g" 0]).context
    ∃ statements code, Source.statements "label L" = .ok statements ∧ statements.length = 1 ∧
      (generateStatements "U" context statements).result = .ok code ∧
      (Text.lines (render code).toList).filter isComment =
        ["// label L".toList, "// g$L)".toList] := by
  refine ⟨[⟨1, "label L", .label "L"⟩], _, by decide +kernel, rfl, rfl, ?_⟩
  decide

end StackToHack
