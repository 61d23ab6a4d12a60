import StackToHack.Command.Word
import StackToHack.Hack.Line
import StackToHack.Text.Line

/-!
# Listings

What the assembler makes of the text of a program, line by line: nothing of a comment, a mark of
what stands in parentheses, a word to load of what stands behind `@`, and a compute instruction of
anything else, as long as it is spelled like one.

Code whose symbols are spelled with plain characters is read as what it is (`read?_render`).
-/

namespace StackToHack.Hack

/-- What the assembler knows of a line. Whether a text that is loaded is a number, it finds out
later. -/
inductive Item
  | mark (text : String)
  | load (text : String)
  | compute (dest : Dest) (comp : Comp) (jump : Jump)
  deriving DecidableEq

/-! ## Mnemonics -/

def Dest.all : List Dest :=
  [false, true].flatMap fun a => [false, true].flatMap fun m => [false, true].map fun d => ⟨a, m, d⟩

def Comp.all : List Comp :=
  [.zero, .one, .minusOne, .d, .notD, .negD, .incD, .decD] ++
    [Operand.a, .m].flatMap fun y =>
      [.read y, .not y, .neg y, .inc y, .dec y, .add y, .sub y, .subFrom y, .and y, .or y]

def Jump.all : List Jump := [.never, .gt, .eq, .ge, .lt, .ne, .le, .always]

theorem Dest.mem_all (dest : Dest) : dest ∈ all := by
  obtain ⟨a, m, d⟩ := dest
  cases a <;> cases m <;> cases d <;> decide

theorem Comp.mem_all (comp : Comp) : comp ∈ all := by
  cases comp with
  | read y | not y | neg y | inc y | dec y | add y | sub y | subFrom y | and y | or y =>
      cases y <;> decide
  | _ => decide

theorem Jump.mem_all (jump : Jump) : jump ∈ all := by
  cases jump <;> decide

def Dest.ofText? (text : String) : Option Dest := all.find? fun dest => dest.text == text

def Comp.ofText? (text : String) : Option Comp := all.find? fun comp => comp.text == text

def Jump.ofText? (text : String) : Option Jump := all.find? fun jump => jump.text == text

theorem Dest.ofText?_text (dest : Dest) : ofText? dest.text = some dest :=
  (find?_word_eq_some_iff mem_all (by decide)).mpr rfl

theorem Comp.ofText?_text (comp : Comp) : ofText? comp.text = some comp :=
  (find?_word_eq_some_iff mem_all (by decide)).mpr rfl

theorem Jump.ofText?_text (jump : Jump) : ofText? jump.text = some jump :=
  (find?_word_eq_some_iff mem_all (by decide)).mpr rfl

/-! ## Compute instructions -/

/-- What stands before and behind the first `c`. -/
def cutOnce (c : Char) : List Char → Option (List Char × List Char)
  | [] => none
  | d :: cs => if d = c then some ([], cs) else (cutOnce c cs).map fun cut => (d :: cut.1, cut.2)

theorem cutOnce_of_not_mem {c : Char} {cs : List Char} (h : c ∉ cs) : cutOnce c cs = none := by
  induction cs with
  | nil => rfl
  | cons d cs ih =>
      rw [List.mem_cons, not_or] at h
      rw [cutOnce, if_neg (Ne.symm h.1), ih h.2]
      rfl

theorem cutOnce_append_cons {c : Char} {front : List Char} (h : c ∉ front) (back : List Char) :
    cutOnce c (front ++ c :: back) = some (front, back) := by
  induction front with
  | nil => simp [cutOnce]
  | cons d front ih =>
      rw [List.mem_cons, not_or] at h
      rw [List.cons_append, cutOnce, if_neg (Ne.symm h.1), ih h.2]
      rfl

/-- Reads a destination, if there is one, a computation, and a jump, if there is one. -/
def compute? (cs : List Char) : Option Item :=
  let (dest, rest) := (cutOnce '=' cs).getD ([], cs)
  let (comp, jump) := (cutOnce ';' rest).getD (rest, [])
  match Dest.ofText? (String.ofList dest), Comp.ofText? (String.ofList comp),
    Jump.ofText? (String.ofList jump) with
  | some dest, some comp, some jump => some (.compute dest comp jump)
  | _, _, _ => none

/-- A destination is cut off in front of what follows it, whether or not it is written. -/
theorem cut_dest (dest : Dest) {rest : List Char} (h : '=' ∉ rest) :
    let cs := (if dest = .none then "" else dest.text ++ "=").toList ++ rest
    (cutOnce '=' cs).getD ([], cs) = (dest.text.toList, rest) := by
  have plain : ∀ dest ∈ Dest.all, '=' ∉ dest.text.toList := by decide
  intro cs
  by_cases nowhere : dest = .none
  · have whole : cs = rest := by simp [cs, nowhere]
    rw [whole, cutOnce_of_not_mem h, nowhere]
    rfl
  · have parts : cs = dest.text.toList ++ '=' :: rest := by simp [cs, nowhere]
    rw [parts, cutOnce_append_cons (plain dest (Dest.mem_all dest))]
    rfl

/-- A jump is cut off behind what it follows, whether or not it is written. -/
theorem cut_jump (jump : Jump) {front : List Char} (h : ';' ∉ front) :
    let cs := front ++ (if jump = .never then "" else ";" ++ jump.text).toList
    (cutOnce ';' cs).getD (cs, []) = (front, jump.text.toList) := by
  intro cs
  by_cases never : jump = .never
  · have whole : cs = front := by simp [cs, never]
    rw [whole, cutOnce_of_not_mem h, never]
    rfl
  · have parts : cs = front ++ ';' :: jump.text.toList := by simp [cs, never]
    rw [parts, cutOnce_append_cons h]
    rfl

theorem compute?_text (dest : Dest) (comp : Comp) (jump : Jump) :
    compute? (Line.compute dest comp jump).text.toList = some (.compute dest comp jump) := by
  have comps : ∀ comp ∈ Comp.all, '=' ∉ comp.text.toList ∧ ';' ∉ comp.text.toList := by decide
  have jumps : ∀ jump ∈ Jump.all,
      '=' ∉ (if jump = .never then "" else ";" ++ jump.text).toList := by decide
  obtain ⟨noEquals, noSemicolon⟩ := comps comp (Comp.mem_all comp)
  have noEqualsBehind : '=' ∉ comp.text.toList ++
      (if jump = .never then "" else ";" ++ jump.text).toList := by
    rw [List.mem_append, not_or]
    exact ⟨noEquals, jumps jump (Jump.mem_all jump)⟩
  have destCut := cut_dest dest noEqualsBehind
  have jumpCut := cut_jump jump noSemicolon
  rw [Line.text, String.toList_append, String.toList_append, List.append_assoc, compute?]
  dsimp only at destCut jumpCut ⊢
  rw [destCut]
  dsimp only
  rw [jumpCut]
  dsimp only
  rw [String.ofList_toList, String.ofList_toList, String.ofList_toList, Dest.ofText?_text,
    Comp.ofText?_text, Jump.ofText?_text]

/-! ## Lines -/

/-- Reads a line that is not blank. -/
def Item.read? : List Char → Option Item
  | '(' :: cs => if cs.getLast? = some ')' then some (.mark (String.ofList cs.dropLast)) else none
  | '@' :: cs => some (.load (String.ofList cs))
  | cs => compute? cs

/-- Reads lines. Those that hold a comment or nothing at all make no item. -/
def readLines? : List (List Char) → Option (List Item)
  | [] => some []
  | line :: rest =>
    match Text.strip line with
    | [] => readLines? rest
    | cs =>
      match Item.read? cs, readLines? rest with
      | some item, some items => some (item :: items)
      | _, _ => none

def read? (text : String) : Option (List Item) := readLines? (Text.lines text.toList)

def Line.item? : Line → Option Item
  | .comment _ => none
  | .number value => some (.load (toString value))
  | .symbol s => some (.load s.text)
  | .mark s => some (.mark s.text)
  | .compute dest comp jump => some (.compute dest comp jump)

/-- What the assembler should know of code. -/
def items (code : Code) : List Item := code.filterMap Line.item?

/-! ## Code that is read as what it is -/

/-- A character that means nothing but itself. -/
def isPlain (c : Char) : Bool := c != '/' && !Text.isBlank c

/-- A line is spelled in a way that it can be read, and a number fits into one instruction. -/
def Line.Readable : Line → Prop
  | .comment text => '\n' ∉ text.toList
  | .number value => value ≤ 32767
  | .symbol s | .mark s => s.text.toList.all isPlain = true
  | .compute _ _ _ => True

/-- All lines of code can be read. -/
def Readable (code : Code) : Prop := ∀ line ∈ code, line.Readable

theorem beforeComment_of_all {cs : List Char} (h : cs.all isPlain = true) :
    Text.beforeComment cs = cs := by
  refine Text.beforeComment_of_not_mem fun slash => ?_
  have plain := List.all_eq_true.mp h '/' slash
  exact absurd plain (by decide)

theorem strip_of_all {cs : List Char} (h : cs.all isPlain = true) : Text.strip cs = cs := by
  have notBlank : ∀ c ∈ cs, Text.isBlank c = false := by
    intro c member
    have plain := List.all_eq_true.mp h c member
    rw [isPlain, Bool.and_eq_true, Bool.not_eq_true'] at plain
    exact plain.2
  have kept : ∀ {cs : List Char}, (∀ c ∈ cs, Text.isBlank c = false) → Text.trimStart cs = cs := by
    intro cs h
    cases cs with
    | nil => rfl
    | cons c cs => rw [Text.trimStart, List.dropWhile_cons_of_neg (by simp [h c])]
  rw [Text.strip, beforeComment_of_all h, Text.trim, kept notBlank, Text.trimEnd, kept,
    List.reverse_reverse]
  intro c member
  exact notBlank c (List.mem_reverse.mp member)

/-- A range of characters without `/` and white space. -/
theorem isPlain_of_toNat {c : Char} {low high : Nat} (hlow : low ≤ c.toNat) (hhigh : c.toNat ≤ high)
    (slash : 47 < low) (blank : ∀ range ∈ Text.blankRanges, range.2 < low ∨ high < range.1) :
    isPlain c = true := by
  have notSlash : c ≠ '/' := by
    rintro rfl
    rw [show '/'.toNat = 47 from rfl] at hlow
    omega
  have notBlank : Text.isBlank c = false := by
    rw [Text.isBlank, List.any_eq_false]
    intro range member
    have outside := blank range member
    rw [decide_eq_true_eq]
    omega
  simp [isPlain, notSlash, notBlank]

theorem isPlain_of_isDigit {c : Char} (h : c.isDigit = true) : isPlain c = true := by
  obtain ⟨low, high⟩ := Char.isDigit_iff_toNat.mp h
  exact isPlain_of_toNat low high (by decide) (by decide)

/-- A plain character that does not tell another kind of line. -/
def isMnemonic (c : Char) : Bool := isPlain c && c != '(' && c != '@'

theorem all_isMnemonic_text (dest : Dest) (comp : Comp) (jump : Jump) :
    (Line.compute dest comp jump).text.toList.all isMnemonic = true := by
  have dests : ∀ dest ∈ Dest.all, dest.text.toList.all isMnemonic = true := by decide
  have comps : ∀ comp ∈ Comp.all, comp.text.toList.all isMnemonic = true := by decide
  have jumps : ∀ jump ∈ Jump.all, jump.text.toList.all isMnemonic = true := by decide
  have equals : "=".toList.all isMnemonic = true := by decide
  have semicolon : ";".toList.all isMnemonic = true := by decide
  have front : (if dest = .none then "" else dest.text ++ "=").toList.all isMnemonic = true := by
    split
    · rfl
    · rw [String.toList_append, List.all_append, dests dest (Dest.mem_all dest), equals]
      rfl
  have back : (if jump = .never then "" else ";" ++ jump.text).toList.all isMnemonic = true := by
    split
    · rfl
    · rw [String.toList_append, List.all_append, jumps jump (Jump.mem_all jump), semicolon]
      rfl
  rw [Line.text, String.toList_append, String.toList_append, List.all_append, List.all_append,
    front, comps comp (Comp.mem_all comp), back]
  rfl

theorem read?_text_compute (dest : Dest) (comp : Comp) (jump : Jump) :
    Item.read? (Line.compute dest comp jump).text.toList = some (.compute dest comp jump) := by
  have mnemonic := all_isMnemonic_text dest comp jump
  have notOpening : isMnemonic '(' = false := by decide
  have notAt : isMnemonic '@' = false := by decide
  rw [← compute?_text dest comp jump]
  unfold Item.read?
  split
  · next cs text => simp [text, notOpening] at mnemonic
  · next cs text => simp [text, notAt] at mnemonic
  · rfl

theorem strip_text_comment (text : String) :
    Text.strip (Line.comment text).text.toList = [] := by
  rw [Line.text, String.toList_append]
  rfl

theorem all_isPlain_text {line : Line} {item : Item} (h : line.Readable)
    (hitem : line.item? = some item) : line.text.toList.all isPlain = true := by
  cases line with
  | comment text => cases hitem
  | number value =>
      have digits : (toString value).toList.all isPlain = true := by
        rw [List.all_eq_true, show (toString value).toList = Nat.toDigits 10 value from
          Nat.toList_repr]
        intro c member
        exact isPlain_of_isDigit (Nat.isDigit_of_mem_toDigits (by decide) (by decide) member)
      simp only [Line.text, String.toList_append, List.all_append, digits, Bool.and_true]
      decide
  | symbol s =>
      have plain : s.text.toList.all isPlain = true := h
      simp only [Line.text, String.toList_append, List.all_append, plain, Bool.and_true]
      decide
  | mark s =>
      have plain : s.text.toList.all isPlain = true := h
      simp only [Line.text, String.toList_append, List.all_append, plain, Bool.and_true]
      decide
  | compute dest comp jump =>
      rw [List.all_eq_true]
      intro c member
      have mnemonic := List.all_eq_true.mp (all_isMnemonic_text dest comp jump) c member
      rw [isMnemonic, Bool.and_eq_true, Bool.and_eq_true] at mnemonic
      exact mnemonic.1.1

theorem read?_text {line : Line} {item : Item} (h : line.item? = some item) :
    Item.read? line.text.toList = some item := by
  cases line with
  | comment text => cases h
  | number value =>
      obtain rfl := Option.some.inj h
      have text : (Line.number value).text.toList = '@' :: (toString value).toList := by
        rw [Line.text, String.toList_append]
        rfl
      rw [text, Item.read?, String.ofList_toList]
  | symbol s =>
      obtain rfl := Option.some.inj h
      simp [Line.text, Item.read?]
  | mark s =>
      obtain rfl := Option.some.inj h
      simp [Line.text, Item.read?]
  | compute dest comp jump =>
      obtain rfl := Option.some.inj h
      exact read?_text_compute dest comp jump

/-- A line that is readable is read as what it is. -/
theorem readLines?_cons {line : Line} (h : line.Readable) {rest : List (List Char)}
    {read : List Item} (hrest : readLines? rest = some read) :
    readLines? (line.text.toList :: rest) = some (line.item?.toList ++ read) := by
  cases hitem : line.item? with
  | none =>
      cases line with
      | comment text =>
          -- nothing is left of it, as of a line that is blank
          rw [readLines?, strip_text_comment, hrest]
          rfl
      | _ => cases hitem
  | some item =>
      have hread := read?_text hitem
      have nonempty : line.text.toList ≠ [] := by
        intro empty
        rw [empty] at hread
        cases hread
      rw [readLines?, strip_of_all (all_isPlain_text h hitem)]
      split
      · next empty => exact absurd empty nonempty
      · rw [hread, hrest]
        rfl

theorem newline_not_mem_text {line : Line} (h : line.Readable) : '\n' ∉ line.text.toList := by
  cases hitem : line.item? with
  | none =>
      cases line with
      | comment text =>
          rw [Line.text, String.toList_append, List.mem_append, not_or]
          exact ⟨by decide, h⟩
      | _ => cases hitem
  | some item =>
      intro member
      exact absurd (List.all_eq_true.mp (all_isPlain_text h hitem) _ member) (by decide)

/-- Readable code is read as what it is. -/
theorem read?_render {code : Code} (h : Readable code) :
    read? (render code) = some (items code) := by
  induction code with
  | nil => rfl
  | cons line code ih =>
      have readable := h line (List.mem_cons_self ..)
      have rest := ih fun l hl => h l (List.mem_cons_of_mem _ hl)
      have newline : (line.text ++ "\n" ++ render code).toList =
          line.text.toList ++ '\n' :: (render code).toList := by
        simp
      rw [read?] at rest
      rw [read?, render_cons, newline, Text.lines_append_newline,
        Text.lines_of_not_mem (newline_not_mem_text readable), List.singleton_append,
        readLines?_cons readable rest]
      cases hitem : line.item? <;> simp [items, hitem]

end StackToHack.Hack
