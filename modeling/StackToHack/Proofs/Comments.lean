import StackToHack.Proofs.Scope
import StackToHack.Proofs.Spelling
import StackToHack.Proofs.SymbolText

/-!
# Comments among the lines of a text

Code is written line by line, but a line of it is more than one line of text if a name in it runs
over the end of the line. No name in a source does. The function of a context can have such a name,
though: contexts come from commands that nobody has to have read. It then stands in the middle of
labels, and an instruction can bring along a line of text that looks like a comment. These are the
labels that are written out there, and nothing else has such lines (`hasComment_iff`).
-/

namespace StackToHack

open Hack

/-! ## Lines of text -/

/-- A line of a text starts like a comment. -/
def isComment (line : List Char) : Bool := "//".toList.isPrefixOf line

/-- A line of a text other than its first starts like a comment. -/
def OpensComment (text : List Char) : Prop := "\n//".toList <:+: text

/-- The lines of text that code comes to. There are more of them than lines of code if a name runs
over the end of its line. -/
def printed (code : Code) : List (List Char) :=
  code.flatMap fun line => Text.lines line.text.toList

section Lines

variable {text front back : List Char} {c : Char} {code : Code}

theorem lines_render (code : Code) : Text.lines (render code).toList = printed code ++ [[]] := by
  induction code with
  | nil => rfl
  | cons line code ih =>
      have newline : (render (line :: code)).toList =
          line.text.toList ++ '\n' :: (render code).toList := by
        rw [render_cons]
        simp
      rw [newline, Text.lines_append_newline, ih, printed, printed, List.flatMap_cons,
        List.append_assoc]

theorem lines_cons_of_ne (h : c ≠ '\n') (text : List Char) :
    Text.lines (c :: text) = (c :: (Text.lines text).headD []) :: (Text.lines text).tail :=
  Text.cut_cons_of_not (p := (· == '\n')) (beq_eq_false_iff_ne.mpr h) text

/-- A text is its lines with newlines in between. -/
theorem exists_lines_eq_cons (text : List Char) :
    ∃ first others, Text.lines text = first :: others ∧
      text = first ++ (others.map ('\n' :: ·)).flatten := by
  induction text with
  | nil => exact ⟨[], [], rfl, rfl⟩
  | cons c text ih =>
      obtain ⟨first, others, hlines, htext⟩ := ih
      by_cases newline : c = '\n'
      · subst newline
        refine ⟨[], first :: others, ?_, ?_⟩
        · rw [← hlines]
          exact Text.lines_append_newline [] text
        · rw [List.map_cons, List.flatten_cons, List.cons_append, ← htext]
          rfl
      · refine ⟨c :: first, others, ?_, ?_⟩
        · rw [lines_cons_of_ne newline, hlines]
          rfl
        · rw [List.cons_append, ← htext]

theorem isComment_iff : isComment text = true ↔ "//".toList <+: text := List.isPrefixOf_iff_prefix

/-- Where a text starts otherwise, only a newline makes a line of it start like a comment. -/
theorem exists_isComment_iff (start : text.head? ≠ some '/') :
    (∃ line ∈ Text.lines text, isComment line = true) ↔ OpensComment text := by
  constructor
  · obtain ⟨first, others, hlines, htext⟩ := exists_lines_eq_cons text
    rintro ⟨line, member, comment⟩
    rw [hlines] at member
    rcases List.mem_cons.mp member with rfl | inOthers
    · obtain ⟨rest, rfl⟩ := isComment_iff.mp comment
      exact absurd (by rw [htext]; rfl) start
    · have broken : '\n' :: line <:+: text := by
        rw [htext]
        exact (List.infix_of_mem_flatten (List.mem_map_of_mem inOthers)).trans
          (List.suffix_append _ _).isInfix
      exact (List.cons_prefix_cons.mpr ⟨rfl, isComment_iff.mp comment⟩).isInfix.trans broken
  · rintro ⟨before, after, rfl⟩
    have cutHere : Text.lines (before ++ "\n//".toList ++ after) =
        Text.lines before ++ Text.lines ('/' :: '/' :: after) := by
      rw [List.append_assoc]
      exact Text.lines_append_newline before _
    have first : Text.lines ('/' :: '/' :: after) =
        ('/' :: '/' :: (Text.lines after).headD []) :: (Text.lines after).tail := by
      rw [lines_cons_of_ne (by decide), lines_cons_of_ne (by decide)]
      rfl
    refine ⟨'/' :: '/' :: (Text.lines after).headD [], ?_, rfl⟩
    rw [cutHere, first]
    exact List.mem_append_right _ (List.mem_cons_self ..)

theorem newline_mem_of_opensComment (h : OpensComment text) : '\n' ∈ text :=
  h.subset (List.mem_cons_self ..)

/-- What a text starts with does not reach over a character that is not in it. -/
theorem starts_append_cons_iff {start : List Char} (h : c ∉ start) :
    start <+: front ++ c :: back ↔ start <+: front := by
  constructor
  · intro starts
    rcases List.prefix_or_prefix_of_prefix starts (List.prefix_append front _) with
      within | ⟨others, rfl⟩
    · exact within
    · rcases List.prefix_cons_iff.mp ((List.prefix_append_right_inj front).mp starts) with
        rfl | ⟨others, rfl, -⟩
      · simp
      · exact absurd (List.mem_append_right _ (List.mem_cons_self ..)) h
  · intro starts
    exact starts.trans (List.prefix_append _ _)

theorem opensComment_cons :
    OpensComment (c :: text) ↔ "\n//".toList <+: c :: text ∨ OpensComment text :=
  List.infix_cons_iff

theorem opensComment_cons_of_ne (h : c ≠ '\n') : OpensComment (c :: text) ↔ OpensComment text := by
  have notHere : ¬"\n//".toList <+: c :: text := by
    rintro ⟨others, same⟩
    exact h (List.cons.inj same).1.symm
  rw [opensComment_cons, or_iff_right notHere]

theorem not_opensComment_nil : ¬OpensComment [] := by
  intro opens
  exact List.not_mem_nil (newline_mem_of_opensComment opens)

/-- A character that is neither newline nor slash keeps what is on either side of it apart. -/
theorem opensComment_append_cons (h : c ∉ "\n//".toList) :
    OpensComment (front ++ c :: back) ↔ OpensComment front ∨ OpensComment back := by
  induction front with
  | nil =>
      have noNewline : c ≠ '\n' := fun newline => h (newline ▸ List.mem_cons_self ..)
      rw [List.nil_append, opensComment_cons_of_ne noNewline, or_iff_right not_opensComment_nil]
  | cons d front ih =>
      rw [List.cons_append, opensComment_cons, opensComment_cons, or_assoc, ← List.cons_append]
      exact (starts_append_cons_iff h).or ih

end Lines

/-! ## Instructions -/

/-- A symbol does not run over the end of its line. -/
def Hack.Symbol.OneLine (symbol : Symbol) : Prop := '\n' ∉ symbol.text.toList

/-- Among the lines of text that a block comes to, one starts like a comment. -/
def HasComment (block : Code) : Prop := ∃ line ∈ printed block, isComment line = true

section Instruction

variable {unit name : String} {names : List String} {symbol : Symbol} {line : Line}
  {command : Command} {block front back : Code}

theorem Hack.Symbol.Named.oneLine (h : symbol.Named) : symbol.OneLine :=
  not_mem_of_all_isPlain (by decide) h.readable

theorem Hack.Symbol.ComposedOf.oneLine (hunit : '\n' ∉ unit.toList)
    (hnames : ∀ name ∈ names, '\n' ∉ name.toList) (h : symbol.ComposedOf unit names) :
    symbol.OneLine := by
  have digits := fun n => not_mem_toDigits (n := n) (show '\n'.isDigit = false by decide)
  cases symbol with
  | register register => exact Named.oneLine trivial
  | comparison arm number => exact Named.oneLine trivial
  | plain name => exact hnames name h
  | label owner function name => exact h.elim
  | static owner index =>
      obtain rfl : owner = unit := h
      simp [OneLine, text, hunit, digits]
  | function owner name | localsLoop owner name | localsEnd owner name
  | returnSite owner name site =>
      obtain ⟨rfl, member⟩ := h
      simp [OneLine, text, hunit, hnames name member, digits]

theorem newline_not_mem_of_within (h : line.Within Symbol.OneLine) : '\n' ∉ line.text.toList := by
  cases line with
  | comment text => exact h.elim
  | number value =>
      have readable : (Line.number value).Readable := h
      exact newline_not_mem_text readable
  | symbol symbol =>
      have oneLine : '\n' ∉ symbol.text.toList := h
      simp [Line.text, oneLine]
  | mark symbol =>
      have oneLine : '\n' ∉ symbol.text.toList := h
      simp [Line.text, oneLine]
  | compute dest comp jump =>
      have readable : (Line.compute dest comp jump).Readable := trivial
      exact newline_not_mem_text readable

theorem head_text_ne_slash {allowed : Symbol → Prop} (h : line.Within allowed) :
    line.text.toList.head? ≠ some '/' := by
  cases line with
  | comment text => exact h.elim
  | compute dest comp jump =>
      intro start
      have mnemonic := List.all_eq_true.mp (all_isMnemonic_text dest comp jump) _
        (List.mem_of_mem_head? start)
      exact absurd mnemonic (by decide)
  | number value => simp [Line.text]
  | symbol symbol => simp [Line.text]
  | mark symbol => simp [Line.text]

theorem hasComment_cons :
    HasComment (line :: block) ↔
      (∃ part ∈ Text.lines line.text.toList, isComment part = true) ∨ HasComment block := by
  simp only [HasComment, printed, List.flatMap_cons, List.mem_append, or_and_right, exists_or]

theorem hasComment_append : HasComment (front ++ back) ↔ HasComment front ∨ HasComment back := by
  simp only [HasComment, printed, List.flatMap_append, List.mem_append, or_and_right, exists_or]

theorem not_hasComment_of_within (h : Within Symbol.OneLine block) : ¬HasComment block := by
  induction block with
  | nil => exact fun ⟨_, member, _⟩ => absurd member List.not_mem_nil
  | cons line block ih =>
      obtain ⟨within, rest⟩ := within_cons.mp h
      rw [hasComment_cons, exists_isComment_iff (head_text_ne_slash within)]
      rintro (opens | later)
      · exact newline_not_mem_of_within within (newline_mem_of_opensComment opens)
      · exact ih rest later

theorem newline_not_mem_of_mem_names (named : command.WellNamed) (h : name ∈ command.names) :
    '\n' ∉ name.toList :=
  not_mem_of_all_isPlain (by decide)
    (all_isPlain_of_all_isFollowing (all_isFollowing_of_isName (named name h)))

end Instruction

/-! ## Labels -/

/-- The function that code is in brings along a line that starts like a comment. -/
def Context.OpensComment (context : Context) : Prop :=
  ∃ f ∈ context.function, StackToHack.OpensComment f.toList

section Label

variable {unit name : String} {context : Context} {command : Command} {block : Code}

theorem opensComment_target (hunit : '\n' ∉ unit.toList) (hname : '\n' ∉ name.toList) :
    OpensComment (Code.target unit context.function name).text.toList ↔ context.OpensComment := by
  have notInUnit := mt newline_mem_of_opensComment hunit
  have notInName := mt newline_mem_of_opensComment hname
  rw [Context.OpensComment]
  cases context.function with
  | none =>
      simp only [Code.target, Symbol.text, notInName, Option.mem_def, reduceCtorEq, false_and,
        exists_false]
  | some f =>
      have parts : (Code.target unit (some f) name).text.toList =
          unit.toList ++ '.' :: (f.toList ++ '$' :: name.toList) := by
        simp [Code.target, Symbol.text]
      rw [parts, opensComment_append_cons (by decide), opensComment_append_cons (by decide)]
      simp [notInUnit, notInName]

theorem hasComment_branchCode {target : Symbol} (h : command.branchLabel? = some name) :
    HasComment (command.branchCode target) ↔ OpensComment target.text.toList := by
  have loaded : (∃ part ∈ Text.lines (Line.symbol target).text.toList, isComment part = true) ↔
      OpensComment target.text.toList := by
    have parts : (Line.symbol target).text.toList = '@' :: target.text.toList := by
      simp [Line.text]
    rw [parts, exists_isComment_iff (by simp), opensComment_cons_of_ne (by decide)]
  have marked : (∃ part ∈ Text.lines (Line.mark target).text.toList, isComment part = true) ↔
      OpensComment target.text.toList := by
    have parts : (Line.mark target).text.toList = '(' :: (target.text.toList ++ ')' :: []) := by
      simp [Line.text]
    rw [parts, exists_isComment_iff (by simp), opensComment_cons_of_ne (by decide),
      opensComment_append_cons (by decide), or_iff_left not_opensComment_nil]
  have registers : ∀ register, (Symbol.register register).OneLine := fun register =>
    (Symbol.named_register register).oneLine
  have jumps : ∀ comp jump, ¬HasComment [.goto comp jump] := fun comp jump =>
    not_hasComment_of_within (by simp)
  have pops : ¬HasComment Code.popD := not_hasComment_of_within (within_popD registers)
  have nothing : ¬HasComment [] := not_hasComment_of_within within_nil
  cases command with
  | label _ =>
      rw [Command.branchCode, Code.label, hasComment_cons, marked, or_iff_left nothing]
  | goto _ =>
      rw [Command.branchCode, Code.goto, hasComment_cons, loaded, or_iff_left (jumps _ _)]
  | ifGoto _ =>
      rw [Command.branchCode, Code.ifGoto, hasComment_append, or_iff_right pops, hasComment_cons,
        loaded, or_iff_left (jumps _ _)]
  | _ => cases h

/-- In the code of a command, a line starts like a comment only if the name of a function with such
a line in it is put in front of a label. -/
theorem hasComment_iff (hunit : '\n' ∉ unit.toList) (named : command.WellNamed)
    (h : command.code unit context = .ok block) :
    HasComment block ↔ context.OpensComment ∧ command.branchLabel?.isSome = true := by
  cases hlabel : command.branchLabel? with
  | none =>
      have within := (within_of_code_eq_ok hlabel h).mono fun _ composed =>
        composed.oneLine hunit fun _ member => newline_not_mem_of_mem_names named member
      simp [not_hasComment_of_within within]
  | some name =>
      rw [Command.code_of_branchLabel? hlabel] at h
      obtain rfl := Except.ok.inj h
      have hname := newline_not_mem_of_mem_names named (Command.mem_names_of_branchLabel? hlabel)
      rw [hasComment_branchCode hlabel, opensComment_target hunit hname]
      simp

end Label

end StackToHack
