import StackToHack.Numeral
import StackToHack.Proofs.Generation
import StackToHack.Proofs.Machine.Listing
import StackToHack.Proofs.Machine.Transfer

/-!
# The assembler

What a text stands for is settled in this order: digits are a number, some names are known from the
start, a text that is marked somewhere stands for the address of the next instruction there, and
any other text is a variable, a cell that no one else uses. Which cells the variables get is left
open (`Allocates`).

Code whose marks have different texts and that fits into memory is `Installed` by being assembled,
from its text alone.
-/

namespace StackToHack.Hack

/-! ## What texts stand for -/

/-- The names that are known from the start. -/
def predefined : List (String × Word) :=
  [("SP", 0), ("LCL", 1), ("ARG", 2), ("THIS", 3), ("THAT", 4),
   ("R0", 0), ("R1", 1), ("R2", 2), ("R3", 3), ("R4", 4), ("R5", 5), ("R6", 6), ("R7", 7),
   ("R8", 8), ("R9", 9), ("R10", 10), ("R11", 11), ("R12", 12), ("R13", 13), ("R14", 14),
   ("R15", 15), ("SCREEN", 0x4000), ("KBD", 0x6000)]

def predefined? (text : String) : Option Word := predefined.lookup text

/-- The number that a text of digits spells, as far as it is a word. -/
def number? (text : String) : Option Word :=
  if text.toList ≠ [] ∧ text.toList.all Char.isDigit = true ∧
      Numeral.value text.toList < 65536 then
    some (BitVec.ofNat 16 (Numeral.value text.toList))
  else none

/-- The address of the first mark with a text. -/
def address? (text : String) : Nat → List Item → Option Nat
  | _, [] => none
  | pc, .mark marked :: rest => if marked = text then some pc else address? text pc rest
  | pc, _ :: rest => address? text (pc + 1) rest

/-- What texts stand for, if variables have the given cells. -/
def symbols (cells : String → Word) (program : List Item) : Symbols := fun text =>
  match number? text, predefined? text, address? text 0 program with
  | some word, _, _ => word
  | none, some word, _ => word
  | none, none, some address => BitVec.ofNat 16 address
  | none, none, none => cells text

/-! ## Assembling -/

def Item.instruction? (symbols : Symbols) : Item → Option Instruction
  | .mark _ => none
  | .load text => some (.load (symbols text))
  | .compute dest comp jump => some (.compute dest comp jump)

/-- The instructions of a program. -/
def assemble (cells : String → Word) (program : List Item) : Rom :=
  program.filterMap (Item.instruction? (symbols cells program))

/-- The instructions of the text of a program. -/
def assembleText? (cells : String → Word) (text : String) : Option Rom :=
  (read? text).map (assemble cells)

/-- The texts that the assembler has to find cells for. -/
def variableTexts (program : List Item) : List String :=
  program.filterMap fun
    | .load text =>
      if number? text = none ∧ predefined? text = none ∧ .mark text ∉ program then some text
      else none
    | _ => none

/-- Every variable has a cell of its own, between those of the registers and the stack. -/
structure Allocates (cells : String → Word) (program : List Item) : Prop where
  low : ∀ text ∈ variableTexts program, 16 ≤ (cells text).toNat
  high : ∀ text ∈ variableTexts program, (cells text).toNat ≤ 255
  own : ∀ text ∈ variableTexts program, ∀ other ∈ variableTexts program,
    cells text = cells other → text = other

/-! ## Texts -/

theorem number?_eq_none_of_mem {text : String} {c : Char} (h : c ∈ text.toList)
    (hdigit : c.isDigit = false) : number? text = none := by
  rw [number?, if_neg]
  rintro ⟨-, digits, -⟩
  rw [List.all_eq_true.mp digits c h] at hdigit
  exact Bool.noConfusion hdigit

theorem number?_toString {value : Nat} (h : value ≤ 32767) :
    number? (toString value) = some (BitVec.ofNat 16 value) := by
  have digits : (toString value).toList = Nat.toDigits 10 value := Nat.toList_repr
  have spelled : Numeral.value (toString value).toList = value := by
    rw [digits, Numeral.value, Nat.ofDigitChars_toDigits (by decide) (by decide)]
  rw [number?, spelled, if_pos]
  refine ⟨?_, ?_, by omega⟩
  · rw [digits]
    exact Nat.toDigits_ne_nil
  · rw [digits, List.all_eq_true]
    exact fun c member => Nat.isDigit_of_mem_toDigits (by decide) (by decide) member

theorem predefined?_eq_none_of_mem {text : String} {c : Char} (h : c ∈ text.toList)
    (hother : ∀ entry ∈ predefined, c ∉ entry.1.toList) : predefined? text = none := by
  rw [predefined?, List.lookup_eq_none_iff]
  intro entry member
  rw [bne_iff_ne]
  rintro rfl
  exact hother entry member h

theorem registersNamed (cells : String → Word) (program : List Item) :
    Code.RegistersNamed (symbols cells program) := by
  intro register
  have notNumber : number? register.text = none := by
    cases register with
    | r index => revert index; decide
    | _ => decide
  have known : predefined? register.text = some register.word := by
    cases register with
    | r index => revert index; decide
    | _ => decide
  rw [symbols, notNumber, known]

/-! ## Marks -/

section Marks

variable {front back code : Code} {symbol : Symbol} {text : String} {pc : Nat}

theorem items_cons (line : Line) (code : Code) :
    items (line :: code) = line.item?.toList ++ items code := by
  cases line <;> rfl

theorem mark_mem_items : .mark text ∈ items code ↔ text ∈ (marks code).map Symbol.text := by
  rw [List.mem_map, items, List.mem_filterMap]
  constructor
  · rintro ⟨line, member, hitem⟩
    cases line with
    | mark s => exact ⟨s, mem_marks.mpr member, Item.mark.inj (Option.some.inj hitem)⟩
    | comment text => cases hitem
    | _ => cases Option.some.inj hitem
  · rintro ⟨s, member, rfl⟩
    exact ⟨.mark s, mem_marks.mp member, rfl⟩

theorem address?_eq_none {program : List Item} (h : .mark text ∉ program) :
    address? text pc program = none := by
  induction program generalizing pc with
  | nil => rfl
  | cons item rest ih =>
      rw [List.mem_cons, not_or] at h
      cases item with
      | mark marked => rw [address?, if_neg fun same => h.1 (by rw [same]), ih h.2]
      | _ => exact ih h.2

theorem address?_append_mark (h : text ∉ (marks front).map Symbol.text)
    (same : symbol.text = text) :
    address? text pc (items (front ++ .mark symbol :: back)) = some (pc + size front) := by
  induction front generalizing pc with
  | nil =>
      rw [List.nil_append, items_cons]
      show (if symbol.text = text then some pc else _) = _
      rw [if_pos same]
      rfl
  | cons line front ih =>
      rw [List.cons_append, items_cons, size_cons, ← Nat.add_assoc]
      cases line with
      | mark s =>
          rw [← List.singleton_append, marks_append, List.map_append, List.mem_append, not_or] at h
          show (if s.text = text then some pc else _) = _
          rw [if_neg fun same => h.1 (by simp [marks, same])]
          exact ih h.2
      | _ => exact ih h

/-- A variable stands for its cell. -/
theorem symbols_of_not_mem {cells : String → Word} {program : List Item}
    (notNumber : number? text = none) (notPredefined : predefined? text = none)
    (notMarked : .mark text ∉ program) : symbols cells program text = cells text := by
  rw [symbols, notNumber, notPredefined, address?_eq_none notMarked]

end Marks

/-! ## Code that assembles -/

/-- Code can be read, the texts of its marks are different and of no other use, and addresses are
words. -/
structure Assembles (code : Code) : Prop where
  readable : Readable code
  distinct : ((marks code).map Symbol.text).Nodup
  notNumber : ∀ symbol ∈ marks code, number? symbol.text = none
  notPredefined : ∀ symbol ∈ marks code, predefined? symbol.text = none
  fits : size code < 65536

section Assembles

variable {front back code : Code} {line : Line} {symbol : Symbol} {cells : String → Word}

/-- A mark stands for the address it is at. -/
theorem symbols_mark (h : Assembles (front ++ .mark symbol :: back)) (cells : String → Word) :
    (symbols cells (items (front ++ .mark symbol :: back)) symbol.text).toNat = size front := by
  have member : symbol ∈ marks (front ++ .mark symbol :: back) := mem_marks.mpr (by simp)
  -- the first mark with this text is this one
  have new : symbol.text ∉ (marks front).map Symbol.text := by
    have distinct := h.distinct
    rw [marks_append, List.map_append, List.nodup_append] at distinct
    exact fun old => distinct.2.2 _ old symbol.text (by simp [marks]) rfl
  have fits := h.fits
  rw [size_append] at fits
  rw [symbols, h.notNumber symbol member, h.notPredefined symbol member,
    address?_append_mark new rfl]
  simp only [BitVec.toNat_ofNat, Nat.zero_add]
  omega

/-- The assembler makes of a line what the line is. -/
theorem instruction?_item? (cells : String → Word) (program : List Item) (h : line.Readable) :
    line.item?.bind (Item.instruction? (symbols cells program)) =
      line.instruction? (symbols cells program) := by
  cases line with
  | number value =>
      have spelled : symbols cells program (toString value) = BitVec.ofNat 16 value := by
        rw [symbols, number?_toString h]
      show some (Instruction.load (symbols cells program (toString value))) = _
      rw [spelled]
      rfl
  | _ => rfl

theorem filterMap_cons_eq {α β : Type} (f : α → Option β) (a : α) (as : List α) :
    (a :: as).filterMap f = (f a).toList ++ as.filterMap f := by
  cases h : f a <;> simp [h]

theorem filterMap_items {program : List Item} (h : Readable code) :
    (items code).filterMap (Item.instruction? (symbols cells program)) =
      code.filterMap (Line.instruction? (symbols cells program)) := by
  induction code with
  | nil => rfl
  | cons line code ih =>
      have here := instruction?_item? cells program (h line (List.mem_cons_self ..))
      rw [items_cons, List.filterMap_append, ih fun l hl => h l (List.mem_cons_of_mem _ hl),
        filterMap_cons_eq (Line.instruction? _), ← here]
      cases line.item? with
      | none => rfl
      | some item => rw [Option.toList_some, filterMap_cons_eq]; simp

theorem assemble_items (h : Readable code) :
    assemble cells (items code) =
      code.filterMap (Line.instruction? (symbols cells (items code))) :=
  filterMap_items h

theorem length_instructions (symbols : Symbols) (code : Code) :
    (code.filterMap (Line.instruction? symbols)).length = size code := by
  induction code with
  | nil => rfl
  | cons line code ih =>
      have single : (line.instruction? symbols).toList.length = line.size := by cases line <;> rfl
      rw [filterMap_cons_eq, List.length_append, ih, single, size_cons]

theorem length_assemble (h : Readable code) :
    (assemble cells (items code)).length = size code := by
  rw [assemble_items h, length_instructions]

theorem getElem?_instructions {symbols : Symbols} {instruction : Instruction}
    (h : line.instruction? symbols = some instruction) :
    ((front ++ line :: back).filterMap (Line.instruction? symbols))[size front]? =
      some instruction := by
  rw [List.filterMap_append, List.filterMap_cons_some h, ← length_instructions symbols front,
    List.getElem?_append_right (Nat.le_refl _)]
  simp

/-- **Assembled code is installed** from address 0 on. -/
theorem installed_assemble (h : Assembles code) (cells : String → Word) :
    Installed (symbols cells (items code)) (assemble cells (items code)) 0 code := by
  -- by induction on the lines behind, since the lines in front say which address they have
  suffices behind : ∀ front back, code = front ++ back →
      Installed (symbols cells (items code)) (assemble cells (items code)) (size front) back from
    behind [] code rfl
  intro front back split
  induction back generalizing front with
  | nil => exact trivial
  | cons line back ih =>
      refine ⟨?_, ?_, ?_⟩
      · rintro symbol rfl
        subst split
        exact symbols_mark h cells
      · intro instruction hline
        rw [assemble_items h.readable]
        subst split
        exact getElem?_instructions hline
      · have rest := ih (front ++ [line]) (by rw [split, List.append_assoc, List.singleton_append])
        simpa using rest

/-- Readable code is assembled from its text. -/
theorem assembleText?_render (h : Readable code) :
    assembleText? cells (render code) = some (assemble cells (items code)) := by
  rw [assembleText?, read?_render h]
  rfl

end Assembles

end StackToHack.Hack
