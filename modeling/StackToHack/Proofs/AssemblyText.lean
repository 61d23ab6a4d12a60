import StackToHack.Proofs.Additions
import StackToHack.Proofs.Occurrence

/-!
# The text of a program is assembly

What a line of Hack assembly may look like, said by its characters: a comment, a load of a number or
of a symbol, a symbol in parentheses, or a computation that is put together from mnemonics of the
instruction set (`IsLine`). A text of such lines, each ended by its newline, is a `Listing`.

The code of units with proper names is spelled with them, whatever becomes of the units next to them
(`SettleEach.spelled`), and code that is spelled so is a listing when it is written out. So the text
of a run is one (`runs_write_assembly`).
-/

namespace StackToHack

open Hack

/-! ## Lines of assembly -/

namespace Assembly

/-- The mnemonics of where a computed word goes. The first stands for nowhere. -/
def destinations : List String := ["", "M", "D", "MD", "A", "AM", "AD", "AMD"]

def computations : List String :=
  ["0", "1", "-1", "D", "A", "!D", "!A", "-D", "-A", "D+1", "A+1", "D-1", "A-1", "D+A", "D-A",
   "A-D", "D&A", "D|A", "M", "!M", "-M", "M+1", "M-1", "D+M", "D-M", "M-D", "D&M", "D|M"]

/-- The mnemonics of jumps. The first stands for none. -/
def jumps : List String := ["", "JGT", "JEQ", "JGE", "JLT", "JNE", "JLE", "JMP"]

/-- A computation as it is written: nowhere and no jump are left out with their signs. -/
def instruction (dest comp jump : String) : List Char :=
  (if dest = "" then [] else dest.toList ++ ['=']) ++ comp.toList ++
    (if jump = "" then [] else ';' :: jump.toList)

/-- A symbol of assembly: letters, digits and four signs, and no digit in front. -/
structure IsSymbol (cs : List Char) : Prop where
  nonempty : cs ≠ []
  characters : ∀ c ∈ cs, Grammar.StartsSymbol c ∨ Grammar.IsDigit c ∨ c = '$'
  first : ∀ c ∈ cs.head?, ¬ Grammar.IsDigit c

/-- A line without its newline. -/
inductive IsLine : List Char → Prop
  | comment {text : List Char} (h : '\n' ∉ text) : IsLine ('/' :: '/' :: ' ' :: text)
  | number {digits : List Char} (nonempty : digits ≠ []) (h : ∀ c ∈ digits, Grammar.IsDigit c) :
      IsLine ('@' :: digits)
  | symbol {cs : List Char} (h : IsSymbol cs) : IsLine ('@' :: cs)
  | mark {cs : List Char} (h : IsSymbol cs) : IsLine ('(' :: cs ++ [')'])
  | compute {dest comp jump : String} (hdest : dest ∈ destinations) (hcomp : comp ∈ computations)
      (hjump : jump ∈ jumps) : IsLine (instruction dest comp jump)

/-- A text of lines of assembly. -/
structure Listing (text : List Char) : Prop where
  lines : ∀ line ∈ Text.endedLines text, ∃ body, IsLine body ∧ line = body ++ ['\n']
  /-- No line is blank. -/
  visible : ∀ line ∈ Text.endedLines text, ∃ c ∈ line, Text.isBlank c = false
  /-- A text that is not empty ends with one newline and no more. -/
  ending : text ≠ [] → ∃ front c, c ≠ '\n' ∧ text = front ++ [c, '\n']

theorem IsSymbol.newline_not_mem {cs : List Char} (h : IsSymbol cs) : '\n' ∉ cs := by
  intro member
  have following := Grammar.isFollowing_iff.mpr (h.characters _ member)
  exact absurd following (by decide)

theorem newline_not_mem_digits {digits : List Char} (h : ∀ c ∈ digits, Grammar.IsDigit c) :
    '\n' ∉ digits := by
  intro member
  have digit := Grammar.isDigit_iff.mpr (h _ member)
  exact absurd digit (by decide)

/-- All characters of a text are seen. -/
def isSeen (cs : List Char) : Bool := cs.all fun c => !Text.isBlank c

theorem isBlank_eq_false_of_isSeen {cs : List Char} (h : isSeen cs = true) {c : Char}
    (member : c ∈ cs) : Text.isBlank c = false := by
  simpa using List.all_eq_true.mp h c member

/-- An instruction has characters, and all of them are seen. -/
theorem instruction_visible {dest comp jump : String} (hdest : dest ∈ destinations)
    (hcomp : comp ∈ computations) (hjump : jump ∈ jumps) :
    instruction dest comp jump ≠ [] ∧ ∀ c ∈ instruction dest comp jump, Text.isBlank c = false := by
  have dests : ∀ dest ∈ destinations,
      isSeen (if dest = "" then [] else dest.toList ++ ['=']) = true := by
    decide
  have comps : ∀ comp ∈ computations, comp.toList ≠ [] ∧ isSeen comp.toList = true := by
    decide
  have ends : ∀ jump ∈ jumps,
      isSeen (if jump = "" then [] else ';' :: jump.toList) = true := by
    decide
  obtain ⟨nonempty, seen⟩ := comps comp hcomp
  constructor
  · exact List.append_ne_nil_of_left_ne_nil (List.append_ne_nil_of_right_ne_nil _ nonempty) _
  · intro c member
    rw [instruction, List.mem_append, List.mem_append] at member
    rcases member with (inDest | inComp) | inJump
    · exact isBlank_eq_false_of_isSeen (dests dest hdest) inDest
    · exact isBlank_eq_false_of_isSeen seen inComp
    · exact isBlank_eq_false_of_isSeen (ends jump hjump) inJump

/-- The first character of a line is seen, and none of them is a newline. -/
theorem IsLine.shape {line : List Char} (h : IsLine line) :
    '\n' ∉ line ∧ ∃ c cs, line = c :: cs ∧ Text.isBlank c = false := by
  cases h with
  | @comment text noNewline =>
      refine ⟨?_, _, _, rfl, by decide⟩
      simpa using noNewline
  | @number digits _ isDigits =>
      have noNewline := newline_not_mem_digits isDigits
      refine ⟨?_, _, _, rfl, by decide⟩
      simpa using noNewline
  | symbol isSymbol =>
      have noNewline := isSymbol.newline_not_mem
      refine ⟨?_, _, _, rfl, by decide⟩
      simpa using noNewline
  | mark isSymbol =>
      have noNewline := isSymbol.newline_not_mem
      refine ⟨?_, _, _, rfl, by decide⟩
      simpa using noNewline
  | compute hdest hcomp hjump =>
      obtain ⟨nonempty, visible⟩ := instruction_visible hdest hcomp hjump
      obtain ⟨c, cs, whole⟩ := List.exists_cons_of_ne_nil nonempty
      refine ⟨?_, c, cs, whole, visible c (by rw [whole]; exact List.mem_cons_self ..)⟩
      intro newline
      exact absurd (visible _ newline) (by decide)

/-! ## Listings -/

theorem Listing.nil : Listing [] where
  lines := fun _ member => absurd member List.not_mem_nil
  visible := fun _ member => absurd member List.not_mem_nil
  ending := fun nonempty => absurd rfl nonempty

/-- A line and its newline in front of a listing make another one. -/
theorem Listing.cons {line rest : List Char} (hline : IsLine line) (hrest : Listing rest) :
    Listing (line ++ '\n' :: rest) := by
  obtain ⟨noNewline, c, cs, rfl, visible⟩ := hline.shape
  have cut := Text.endedLines_append_newline noNewline rest
  constructor
  · rw [cut]
    exact List.forall_mem_cons.mpr ⟨⟨_, hline, rfl⟩, hrest.lines⟩
  · rw [cut]
    refine List.forall_mem_cons.mpr ⟨⟨c, ?_, visible⟩, hrest.visible⟩
    exact List.mem_cons_self ..
  · intro _
    by_cases empty : rest = []
    · subst empty
      -- the newline of the line itself is the last one
      have last : (c :: cs).getLast (List.cons_ne_nil _ _) ≠ '\n' := by
        intro newline
        exact noNewline (newline ▸ List.getLast_mem _)
      refine ⟨(c :: cs).dropLast, _, last, ?_⟩
      calc c :: cs ++ ['\n']
        _ = (c :: cs).dropLast ++ [(c :: cs).getLast (List.cons_ne_nil _ _)] ++ ['\n'] := by
          rw [List.dropLast_concat_getLast]
        _ = _ := List.append_assoc ..
    · obtain ⟨front, d, notNewline, rfl⟩ := hrest.ending empty
      exact ⟨c :: cs ++ '\n' :: front, d, notNewline, by simp⟩

end Assembly

/-! ## Code as lines of assembly -/

/-- A text of the characters of names is a name if it starts with one. -/
theorem isName_of_starts {text name : String} (named : Name.IsName name)
    (starts : name.toList <+: text.toList) (following : text.toList.all Name.isFollowing = true) :
    Name.IsName text := by
  rw [Name.IsName] at named ⊢
  obtain ⟨rest, whole⟩ := starts
  cases hname : name.toList with
  | nil => simp [hname, Name.isNameList] at named
  | cons c cs =>
      rw [hname, Name.isNameList, Bool.and_eq_true] at named
      rw [← whole, hname, List.cons_append, List.all_cons, Bool.and_eq_true] at following
      rw [← whole, hname, List.cons_append, Name.isNameList, named.1, following.2]
      rfl

/-- The text of a symbol of proper names is a proper name. -/
theorem Hack.Symbol.Named.isName_text {symbol : Symbol} (h : symbol.Named) :
    Name.IsName symbol.text := by
  have following := h.all_isFollowing
  cases symbol with
  | register register =>
      cases register with
      | r index =>
          have letter : Name.IsName "R" := by decide
          refine isName_of_starts letter ?_ following
          rw [Symbol.text, Register.text, String.toList_append]
          exact List.prefix_append _ _
      | _ => decide
  | comparison arm number =>
      have word : Name.IsName arm.text := by cases arm <;> decide
      refine isName_of_starts word ?_ following
      simp [Symbol.text]
  | plain name => exact h
  | static unit index =>
      have hunit : Name.IsName unit := h
      refine isName_of_starts hunit ?_ following
      simp [Symbol.text]
  | _ =>
      refine isName_of_starts h.1 ?_ following
      simp [Symbol.text]

theorem Hack.Symbol.Named.isSymbol {symbol : Symbol} (h : symbol.Named) :
    Assembly.IsSymbol symbol.text.toList := by
  have isSymbol := Grammar.isName_iff.mp h.isName_text
  refine ⟨isSymbol.nonempty, ?_, ?_⟩
  · intro c member
    exact Grammar.isFollowing_iff.mp (List.all_eq_true.mp h.all_isFollowing c member)
  · intro c first digit
    have initial := Grammar.isInitial_iff.mpr (isSymbol.first c first)
    have noDigit := isDigit_of_isInitial initial
    rw [Grammar.isDigit_iff.mpr digit] at noDigit
    exact Bool.noConfusion noDigit

theorem text_compute (dest : Dest) (comp : Comp) (jump : Jump) :
    (Line.compute dest comp jump).text.toList =
      Assembly.instruction dest.text comp.text jump.text := by
  have nowhere : ∀ dest ∈ Dest.all, dest.text = "" ↔ dest = .none := by decide
  have never : ∀ jump ∈ Jump.all, jump.text = "" ↔ jump = .never := by decide
  rw [Line.text, Assembly.instruction, String.toList_append, String.toList_append]
  simp only [nowhere dest (Dest.mem_all dest), never jump (Jump.mem_all jump)]
  congr 1
  · congr 1
    split <;> simp
  · split <;> simp

theorem isLine_compute (dest : Dest) (comp : Comp) (jump : Jump) :
    Assembly.IsLine (Line.compute dest comp jump).text.toList := by
  have dests : ∀ dest ∈ Dest.all, dest.text ∈ Assembly.destinations := by decide
  have comps : ∀ comp ∈ Comp.all, comp.text ∈ Assembly.computations := by decide
  have ends : ∀ jump ∈ Jump.all, jump.text ∈ Assembly.jumps := by decide
  rw [text_compute]
  exact .compute (dests dest (Dest.mem_all dest)) (comps comp (Comp.mem_all comp))
    (ends jump (Jump.mem_all jump))

theorem text_number (value : Nat) :
    (Line.number value).text.toList = '@' :: Nat.toDigits 10 value := by
  rw [Line.text, String.toList_append]
  exact congrArg _ Nat.toList_repr

theorem isLine_number (value : Nat) : Assembly.IsLine (Line.number value).text.toList := by
  rw [text_number]
  refine .number Nat.toDigits_ne_nil fun c member => ?_
  exact Grammar.isDigit_iff.mp (Nat.isDigit_of_mem_toDigits (by decide) (by decide) member)

/-- A line that is spelled with proper names is one of assembly. -/
theorem Hack.Line.Spelled.isLine {line : Line} (h : line.Spelled) :
    Assembly.IsLine line.text.toList := by
  cases line with
  | comment text =>
      rw [Line.text, String.toList_append]
      exact .comment h
  | number value => exact isLine_number value
  | symbol symbol =>
      have named : symbol.Named := h
      rw [Line.text, String.toList_append]
      exact .symbol named.isSymbol
  | mark symbol =>
      have named : symbol.Named := h
      rw [Line.text, String.toList_append, String.toList_append]
      exact .mark named.isSymbol
  | compute dest comp jump => exact isLine_compute dest comp jump

theorem isLine_bootstrap {bootstrap : Bootstrap} (entry : Name.IsName bootstrap.entry) :
    ∀ line ∈ bootstrap.code, Assembly.IsLine line.text.toList := by
  have entrySpelled : (Line.symbol (.plain bootstrap.entry)).Spelled := entry
  have heading : (Line.comment "bootstrap").Spelled := by
    show '\n' ∉ "bootstrap".toList
    decide
  have pointer : (Line.register .sp).Spelled := trivial
  simp only [Bootstrap.code, List.forall_mem_cons]
  exact ⟨heading.isLine, isLine_number _, isLine_compute _ _ _, pointer.isLine,
    isLine_compute _ _ _, entrySpelled.isLine, isLine_compute _ _ _, List.forall_mem_nil _⟩

/-- Code of such lines is written out as a listing. -/
theorem listing_render {code : Code} (h : ∀ line ∈ code, Assembly.IsLine line.text.toList) :
    Assembly.Listing (render code).toList := by
  induction code with
  | nil => exact .nil
  | cons line code ih =>
      obtain ⟨here, behind⟩ := List.forall_mem_cons.mp h
      have text : (render (line :: code)).toList =
          line.text.toList ++ '\n' :: (render code).toList := by
        rw [render_cons]
        simp
      rw [text]
      exact .cons here (ih behind)

/-! ## Runs -/

section Runs

variable {context last : Context} {unit source : String} {units : List (String × String)}
  {outcome : Except UnitError Code} {outcomes : List (Except UnitError Code)}

/-- What a unit adds to a run is spelled with proper names, and no other name is left behind. -/
theorem Settles.spelled (unitNamed : Name.IsName unit)
    (inside : ∀ f ∈ context.function, Name.IsName f)
    (h : Settles context unit source outcome last) :
    Spelled (added outcome) ∧ ∀ f ∈ last.function, Name.IsName f := by
  cases h with
  | unread hread => exact ⟨spelled_nil, inside⟩
  | @inexpressible front back failing fault hread hfront hfault =>
      refine ⟨spelled_nil, Context.isName_function_behind (fun command member => ?_) inside⟩
      obtain ⟨statement, inFront, rfl⟩ := List.mem_map.mp member
      exact Source.wellNamed_of_statementsFrom hread statement (List.mem_append_left _ inFront)
  | @made statements code hread hcode =>
      have wellNamed := Source.wellNamed_of_statementsFrom hread
      have oneLine := newline_not_mem_of_statements hread
      constructor
      · refine spelled_of_generate unitNamed inside ?_ ?_ hcode
        · exact List.forall_mem_map.mpr oneLine
        · exact List.forall_mem_map.mpr wellNamed
      · refine Context.isName_function_behind (fun command member => ?_) inside
        obtain ⟨statement, inRead, rfl⟩ := List.mem_map.mp member
        exact wellNamed statement inRead

theorem SettleEach.spelled (named : ∀ unit ∈ units, Name.IsName unit.1)
    (inside : ∀ f ∈ context.function, Name.IsName f)
    (h : SettleEach context units outcomes last) : Spelled (outcomes.flatMap added) := by
  induction h with
  | nil context => exact spelled_nil
  | cons here behind ih =>
      obtain ⟨unitNamed, restNamed⟩ := List.forall_mem_cons.mp named
      obtain ⟨spelled, insideBehind⟩ := here.spelled unitNamed inside
      rw [List.flatMap_cons, spelled_append]
      exact ⟨spelled, ih restNamed insideBehind⟩

end Runs

/-- **Runs write assembly.** Whatever units with proper names are added to a run, and whichever of
them fail, the text of the run is a listing of assembly lines, and so is the program that units make
none of which fails. -/
theorem runs_write_assembly {bootstrap : Option Bootstrap} {units : List (String × String)}
    (entry : ∀ b ∈ bootstrap, Name.IsName b.entry) (named : ∀ unit ∈ units, Name.IsName unit.1) :
    Assembly.Listing ((Run.start bootstrap).addEach units).2.finish.toList ∧
      ∀ text, compile bootstrap units = .ok text → Assembly.Listing text.toList := by
  obtain ⟨outcomes, last, composed⟩ := exists_composed bootstrap units
  have settled := (composed.settled outcomes last).mpr ⟨rfl, rfl⟩
  have outside : ∀ f ∈ Context.fresh.function, Name.IsName f := nofun
  have spelled : ∀ line ∈ outcomes.flatMap added, Assembly.IsLine line.text.toList :=
    fun line member => (settled.spelled named outside line member).isLine
  have listing : Assembly.Listing (programText bootstrap outcomes).toList := by
    have text : ({ bootstrap, context := last, code := outcomes.flatMap added } : Run).finish =
        programText bootstrap outcomes := finish_of_code outcomes
    rw [← text]
    refine listing_render ?_
    cases bootstrap with
    | none => exact spelled
    | some b => exact List.forall_mem_append.mpr ⟨isLine_bootstrap (entry b rfl), spelled⟩
  refine ⟨by rwa [composed.text], fun text success => ?_⟩
  rw [composed.compiled] at success
  split at success
  · cases success
  · obtain rfl := Except.ok.inj success
    exact listing

/-- A run in which a unit fails between two others, and what the two make without it. -/
theorem runs_write_assembly_around_failure :
    let units := [("Main", "function Main.main 1\npop local 0 // sum\n"), ("Bad", "push pointer 7"),
      ("Util", "label LOOP\nif-goto LOOP\n")]
    (∀ b ∈ some ({} : Bootstrap), Name.IsName b.entry) ∧ (∀ unit ∈ units, Name.IsName unit.1) ∧
      Assembly.Listing ((Run.start (some {})).addEach units).2.finish.toList ∧
      ∃ text, compile (some {}) (units.filter (·.1 ≠ "Bad")) = .ok text ∧
        Assembly.Listing text.toList := by
  intro units
  have entry : ∀ b ∈ some ({} : Bootstrap), Name.IsName b.entry := by
    intro b member
    obtain rfl := Option.some.inj member
    decide
  have named : ∀ unit ∈ units, Name.IsName unit.1 := by decide
  have others : ∀ unit ∈ units.filter (·.1 ≠ "Bad"), Name.IsName unit.1 := by decide
  obtain ⟨text, made⟩ : ∃ text, compile (some {}) (units.filter (·.1 ≠ "Bad")) = .ok text :=
    exists_of_isOk (by decide +kernel)
  exact ⟨entry, named, (runs_write_assembly entry named).1, text, made,
    (runs_write_assembly entry others).2 text made⟩

end StackToHack
