import Mathlib.Data.List.Basic
import Mathlib.Data.List.TakeWhile
import Mathlib.Tactic.Ring
import StackToHack.Command.Parser
import StackToHack.Text.Blank

/-!
# Grammar of commands

What a line may look like, said without reading it: fields with gaps of spaces and tabs between them
(`Separated`), numerals with a value place by place (`Spells`), symbols by the ranges of their
characters (`IsSymbol`), and the forms of commands (`Denotes`). The scanners accept this language,
with the command that the fields denote, and nothing else.

A text denotes one command at most, since fields can also be read as wholes (`ofFields?`). So it is
enough that each scanner accepts nothing but what its kind of command looks like, and all of that: no
scanner can then get in the way of another one, in whatever order they are tried.
-/

namespace StackToHack

namespace Grammar

/-! ## Fields and gaps -/

def IsField (cs : List Char) : Prop := cs ≠ [] ∧ ∀ c ∈ cs, c ≠ ' ' ∧ c ≠ '\t'

instance (cs : List Char) : Decidable (IsField cs) :=
  decidable_of_iff (cs ≠ [] ∧ cs.all (fun c => c != ' ' && c != '\t') = true) (by simp [IsField])

def IsGap (cs : List Char) : Prop := cs ≠ [] ∧ ∀ c ∈ cs, c = ' ' ∨ c = '\t'

/-- A text that starts and ends with a field and has a gap between any two. As no field holds a
character of a gap, the gaps are as long as they can be. -/
inductive Separated : List Char → List (List Char) → Prop
  | one {field : List Char} (h : IsField field) : Separated field [field]
  | more {field gap rest : List Char} {fields : List (List Char)} (hfield : IsField field)
      (hgap : IsGap gap) (hrest : Separated rest fields) :
      Separated (field ++ (gap ++ rest)) (field :: fields)

theorem Separated.ne_nil {text : List Char} {fields : List (List Char)}
    (h : Separated text fields) : text ≠ [] := by
  cases h with
  | one hfield => exact hfield.1
  | more hfield => exact List.append_ne_nil_of_left_ne_nil hfield.1 _

theorem isSeparator_iff {c : Char} : Text.isSeparator c = true ↔ c = ' ' ∨ c = '\t' := by
  simp [Text.isSeparator]

theorem isSeparator_eq_false_iff {c : Char} :
    Text.isSeparator c = false ↔ c ≠ ' ' ∧ c ≠ '\t' := by
  rw [Bool.eq_false_iff, ne_eq, isSeparator_iff, not_or]

theorem fields_of_isField {field : List Char} (h : IsField field) : Text.fields field = [field] :=
  Text.fields_of_forall_not h.1 fun c member => isSeparator_eq_false_iff.mpr (h.2 c member)

/-- Blank space in front of a text adds no field to it. -/
theorem fields_append_of_forall {front : List Char} (h : ∀ c ∈ front, c = ' ' ∨ c = '\t')
    (rest : List Char) : Text.fields (front ++ rest) = Text.fields rest := by
  induction front with
  | nil => rfl
  | cons c front ih =>
      have separator := isSeparator_iff.mpr (h c (List.mem_cons_self ..))
      calc Text.fields (c :: front ++ rest)
        _ = Text.fields [] ++ Text.fields (front ++ rest) :=
          Text.fields_append_cons separator [] (front ++ rest)
        _ = Text.fields rest := ih fun d hd => h d (List.mem_cons_of_mem _ hd)

/-- The fields of a text are known from any way of taking it apart. -/
theorem Separated.fields_eq {text : List Char} {fields : List (List Char)}
    (h : Separated text fields) : Text.fields text = fields := by
  induction h with
  | one hfield => exact fields_of_isField hfield
  | @more field gap rest fields hfield hgap _ ih =>
      obtain ⟨nonempty, blank⟩ := hgap
      cases gap with
      | nil => exact absurd rfl nonempty
      | cons c gap =>
          have separator := isSeparator_iff.mpr (blank c (List.mem_cons_self ..))
          have behind := fields_append_of_forall
            (fun d hd => blank d (List.mem_cons_of_mem _ hd)) rest
          rw [List.cons_append, Text.fields_append_cons separator, fields_of_isField hfield,
            behind, ih]
          rfl

/-- One more character lengthens the first field. -/
theorem Separated.cons {c : Char} (hc : c ≠ ' ' ∧ c ≠ '\t') {text : List Char}
    {fields : List (List Char)} (h : Separated text fields) :
    ∃ fields, Separated (c :: text) fields := by
  have longer : ∀ {field}, IsField field → IsField (c :: field) := fun hfield =>
    ⟨List.cons_ne_nil _ _, List.forall_mem_cons.mpr ⟨hc, hfield.2⟩⟩
  cases h with
  | one hfield => exact ⟨_, .one (longer hfield)⟩
  | more hfield hgap hrest => exact ⟨_, .more (longer hfield) hgap hrest⟩

/-- A text that does not end in a gap can be taken apart, but for what it may start with. -/
theorem exists_separated {text : List Char} (nonempty : text ≠ [])
    (last : ∀ c ∈ text.getLast?, c ≠ ' ' ∧ c ≠ '\t') :
    ∃ front rest fields, text = front ++ rest ∧ (∀ c ∈ front, c = ' ' ∨ c = '\t') ∧
      Separated rest fields := by
  induction text with
  | nil => exact absurd rfl nonempty
  | cons c text ih =>
      by_cases empty : text = []
      · subst empty
        refine ⟨[], [c], [[c]], rfl, fun _ h => absurd h List.not_mem_nil, .one ⟨nonempty, ?_⟩⟩
        simpa using last
      · obtain ⟨front, rest, fields, rfl, blank, separated⟩ :=
          ih empty (by rwa [List.getLast?_cons_of_ne_nil empty] at last)
        by_cases hc : c = ' ' ∨ c = '\t'
        · exact ⟨c :: front, rest, fields, rfl, List.forall_mem_cons.mpr ⟨hc, blank⟩, separated⟩
        · rw [not_or] at hc
          -- either the text in hand starts a field of its own, or its first field gets longer
          by_cases starts : front = []
          · subst starts
            obtain ⟨fields, longer⟩ := separated.cons hc
            exact ⟨[], c :: rest, fields, rfl, fun _ h => absurd h List.not_mem_nil, longer⟩
          · have alone : IsField [c] := ⟨List.cons_ne_nil _ _, by simpa using hc⟩
            exact ⟨[], _, _, rfl, fun _ h => absurd h List.not_mem_nil,
              .more alone ⟨starts, blank⟩ separated⟩

/-! ## Trimmed texts -/

theorem trimStart_eq_self_iff {cs : List Char} :
    Text.trimStart cs = cs ↔ ∀ c ∈ cs.head?, Text.isBlank c = false := by
  cases cs with
  | nil => simp [Text.trimStart]
  | cons c cs =>
      have shorter : (cs.dropWhile Text.isBlank).length < (c :: cs).length :=
        Nat.lt_succ_of_le (List.length_dropWhile_le ..)
      by_cases blank : Text.isBlank c = true
      · have ne : cs.dropWhile Text.isBlank ≠ c :: cs := fun h => by simp [h] at shorter
        simp [Text.trimStart, blank, ne]
      · simp [Text.trimStart, blank]

/-- A trimmed text has no white space at either end. -/
theorem trim_eq_self_iff {cs : List Char} :
    Text.trim cs = cs ↔
      (∀ c ∈ cs.head?, Text.isBlank c = false) ∧ ∀ c ∈ cs.getLast?, Text.isBlank c = false := by
  have atEnd : Text.trimEnd cs = cs ↔ ∀ c ∈ cs.getLast?, Text.isBlank c = false := by
    rw [Text.trimEnd, List.reverse_eq_iff, trimStart_eq_self_iff, List.head?_reverse]
  rw [← trimStart_eq_self_iff, ← atEnd, Text.trim]
  constructor
  · intro h
    have start : Text.trimStart cs = cs := by
      refine (Text.trimStart_sublist cs).eq_of_length_le ?_
      calc cs.length
        _ = (Text.trimEnd (Text.trimStart cs)).length := by rw [h]
        _ ≤ (Text.trimStart cs).length := (Text.trimEnd_sublist _).length_le
    rw [start] at h
    exact ⟨start, h⟩
  · rintro ⟨start, behind⟩
    rw [start, behind]

theorem not_separator_of_not_blank {c : Char} (h : Text.isBlank c = false) :
    c ≠ ' ' ∧ c ≠ '\t' := by
  constructor <;> rintro rfl <;> exact absurd h (by decide)

/-- The fields of a trimmed text are those that it consists of. -/
theorem fields_eq_iff_separated {text : List Char} {fields : List (List Char)}
    (nonempty : text ≠ []) (trimmed : Text.trim text = text) :
    Text.fields text = fields ↔ Separated text fields := by
  obtain ⟨first, last⟩ := trim_eq_self_iff.mp trimmed
  refine ⟨?_, Separated.fields_eq⟩
  rintro rfl
  obtain ⟨front, rest, fields, rfl, blank, separated⟩ := exists_separated nonempty
    fun c member => not_separator_of_not_blank (last c member)
  cases front with
  | nil => exact separated.fields_eq.symm ▸ separated
  | cons c front =>
      have notBlank := not_separator_of_not_blank (first c rfl)
      rcases blank c (List.mem_cons_self ..) with rfl | rfl
      · exact absurd rfl notBlank.1
      · exact absurd rfl notBlank.2

/-! ## Numerals and symbols -/

def IsDigit (c : Char) : Prop := '0' ≤ c ∧ c ≤ '9'

/-- The value of digits, place by place. -/
def decimal : List Char → Nat
  | [] => 0
  | c :: cs => (c.toNat - '0'.toNat) * 10 ^ cs.length + decimal cs

/-- Digits, of which any number may be leading zeros, that denote a 32-bit word. -/
structure Spells (text : String) (n : UInt32) : Prop where
  nonempty : text.toList ≠ []
  digits : ∀ c ∈ text.toList, IsDigit c
  value : decimal text.toList = n.toNat

/-- The characters that a symbol may start with. -/
def StartsSymbol (c : Char) : Prop :=
  'A' ≤ c ∧ c ≤ 'Z' ∨ 'a' ≤ c ∧ c ≤ 'z' ∨ c = '_' ∨ c = '.' ∨ c = ':'

structure IsSymbol (text : String) : Prop where
  nonempty : text.toList ≠ []
  first : ∀ c ∈ text.toList.head?, StartsSymbol c
  others : ∀ c ∈ text.toList.tail, StartsSymbol c ∨ IsDigit c ∨ c = '$'

theorem isDigit_iff {c : Char} : c.isDigit = true ↔ IsDigit c := by
  rw [Char.isDigit_iff_toNat]
  rfl

theorem isInitial_iff {c : Char} : Name.isInitial c = true ↔ StartsSymbol c := by
  have upper : c.isUpper = true ↔ 'A' ≤ c ∧ c ≤ 'Z' := decide_eq_true_iff
  have lower : (decide ('a' ≤ c) && decide (c ≤ 'z')) = true ↔ 'a' ≤ c ∧ c ≤ 'z' := by simp
  have alpha : c.isAlpha = (c.isUpper || (decide ('a' ≤ c) && decide (c ≤ 'z'))) := rfl
  rw [Name.isInitial, alpha, StartsSymbol, ← upper, ← lower]
  simp only [Bool.or_eq_true, beq_iff_eq, or_assoc]

theorem isFollowing_iff {c : Char} :
    Name.isFollowing c = true ↔ StartsSymbol c ∨ IsDigit c ∨ c = '$' := by
  rw [Name.isFollowing, ← isInitial_iff, ← isDigit_iff]
  simp only [Bool.or_eq_true, beq_iff_eq, or_assoc]

theorem isName_iff {text : String} : Name.IsName text ↔ IsSymbol text := by
  rw [Name.IsName]
  cases hcs : text.toList with
  | nil => simpa [Name.isNameList] using fun h : IsSymbol text => h.nonempty hcs
  | cons c cs =>
      simp only [Name.isNameList, Bool.and_eq_true, List.all_eq_true, isInitial_iff,
        isFollowing_iff]
      constructor
      · rintro ⟨first, others⟩
        exact ⟨by simp [hcs], by simpa [hcs] using first, by simpa [hcs] using others⟩
      · rintro ⟨-, first, others⟩
        exact ⟨by simpa [hcs] using first, by simpa [hcs] using others⟩

theorem ofDigitChars_eq (cs : List Char) (n : Nat) :
    Nat.ofDigitChars 10 cs n = n * 10 ^ cs.length + decimal cs := by
  induction cs generalizing n with
  | nil => simp [Nat.ofDigitChars, decimal]
  | cons c cs ih =>
      rw [Nat.ofDigitChars_cons, ih, decimal, List.length_cons, Nat.pow_succ']
      ring

theorem value_eq_decimal (cs : List Char) : Numeral.value cs = decimal cs := by
  rw [Numeral.value, ofDigitChars_eq]
  simp

theorem read?_eq_some_iff_spells {digits : String} {n : UInt32} :
    Numeral.read? digits = some n ↔ Spells digits n := by
  have isNumeral : Numeral.IsNumeral digits.toList ↔
      digits.toList ≠ [] ∧ (∀ c ∈ digits.toList, IsDigit c) ∧
        decimal digits.toList < UInt32.size := by
    simp only [Numeral.IsNumeral, isDigit_iff, value_eq_decimal]
  rw [Numeral.read?, value_eq_decimal]
  constructor
  · intro h
    split at h
    · next numeral =>
        obtain ⟨nonempty, hdigits, small⟩ := isNumeral.mp numeral
        obtain rfl := Option.some.inj h
        exact ⟨nonempty, hdigits, (UInt32.toNat_ofNat_of_lt' small).symm⟩
    · cases h
  · rintro ⟨nonempty, hdigits, value⟩
    rw [if_pos (isNumeral.mpr ⟨nonempty, hdigits, value ▸ n.toNat_lt⟩), value, UInt32.ofNat_toNat]

/-! ## Forms of commands -/

/-- What fields denote, form by form. -/
inductive Denotes : List String → Command → Prop
  | operation (op : Operation) : Denotes [op.word] (.operate op)
  | push (segment : Segment) {digits : String} {n : UInt32} (h : Spells digits n) :
      Denotes ["push", segment.word, digits] (.push segment n)
  | pop (segment : Segment) {digits : String} {n : UInt32} (h : Spells digits n) :
      Denotes ["pop", segment.word, digits] (.pop segment n)
  | label {name : String} (h : IsSymbol name) : Denotes ["label", name] (.label name)
  | goto {name : String} (h : IsSymbol name) : Denotes ["goto", name] (.goto name)
  | ifGoto {name : String} (h : IsSymbol name) : Denotes ["if-goto", name] (.ifGoto name)
  | function {name digits : String} {n : UInt32} (hname : IsSymbol name) (h : Spells digits n) :
      Denotes ["function", name, digits] (.function name n)
  | call {name digits : String} {n : UInt32} (hname : IsSymbol name) (h : Spells digits n) :
      Denotes ["call", name, digits] (.call name n)
  | ret : Denotes ["return"] .ret

theorem readName_eq_some_iff {text name : String} :
    Name.read? text = some name ↔ IsSymbol text ∧ text = name := by
  rw [Name.read?_eq_some_iff]
  constructor
  · rintro ⟨h, rfl⟩
    exact ⟨isName_iff.mp h, rfl⟩
  · rintro ⟨h, rfl⟩
    exact ⟨isName_iff.mpr h, rfl⟩

/-! ## Whole fields -/

/-- Reads a command off its fields. -/
def ofFields? : List String → Option Command
  | ["return"] => some .ret
  | [op] => (Operation.ofWord? op).map .operate
  | ["label", name] => (Name.read? name).map .label
  | ["goto", name] => (Name.read? name).map .goto
  | ["if-goto", name] => (Name.read? name).map .ifGoto
  | ["push", segment, index] => do
    return .push (← Segment.ofWord? segment) (← Numeral.read? index)
  | ["pop", segment, index] => do
    return .pop (← Segment.ofWord? segment) (← Numeral.read? index)
  | ["function", name, locals] => do
    return .function (← Name.read? name) (← Numeral.read? locals)
  | ["call", name, args] => do
    return .call (← Name.read? name) (← Numeral.read? args)
  | _ => none

theorem denotes_of_ofFields? {fields : List String} {command : Command}
    (h : ofFields? fields = some command) : Denotes fields command := by
  unfold ofFields? at h
  split at h
  case h_1 => cases h; exact .ret
  case h_2 =>
    obtain ⟨op, hop, rfl⟩ := Option.map_eq_some_iff.mp h
    exact Operation.ofWord?_eq_some_iff.mp hop ▸ .operation op
  case h_3 | h_4 | h_5 =>
    obtain ⟨name, hname, rfl⟩ := Option.map_eq_some_iff.mp h
    obtain ⟨isSymbol, rfl⟩ := readName_eq_some_iff.mp hname
    constructor
    exact isSymbol
  case h_6 | h_7 =>
    simp only [Option.bind_eq_bind, Option.bind_eq_some_iff, Option.pure_def,
      Option.some.injEq] at h
    obtain ⟨segment, hsegment, index, hindex, rfl⟩ := h
    rw [← Segment.ofWord?_eq_some_iff.mp hsegment]
    constructor
    exact read?_eq_some_iff_spells.mp hindex
  case h_8 | h_9 =>
    simp only [Option.bind_eq_bind, Option.bind_eq_some_iff, Option.pure_def,
      Option.some.injEq] at h
    obtain ⟨name, hname, number, hnumber, rfl⟩ := h
    obtain ⟨isSymbol, rfl⟩ := readName_eq_some_iff.mp hname
    constructor
    · exact isSymbol
    · exact read?_eq_some_iff_spells.mp hnumber
  case h_10 => cases h

theorem word_ne_return (op : Operation) : op.word ≠ "return" := by
  rcases op with op | op | op <;> cases op <;> decide

theorem ofFields?_of_denotes {fields : List String} {command : Command}
    (h : Denotes fields command) : ofFields? fields = some command := by
  have readName : ∀ {name}, IsSymbol name → Name.read? name = some name :=
    fun h => readName_eq_some_iff.mpr ⟨h, rfl⟩
  have readNumber : ∀ {digits n}, Spells digits n → Numeral.read? digits = some n :=
    fun h => read?_eq_some_iff_spells.mpr h
  cases h with
  | operation op => simp [ofFields?, Operation.ofWord?_word, word_ne_return]
  | push segment h => simp [ofFields?, Segment.ofWord?_word, readNumber h]
  | pop segment h => simp [ofFields?, Segment.ofWord?_word, readNumber h]
  | label h => simp [ofFields?, readName h]
  | goto h => simp [ofFields?, readName h]
  | ifGoto h => simp [ofFields?, readName h]
  | function hname h => simp [ofFields?, readName hname, readNumber h]
  | call hname h => simp [ofFields?, readName hname, readNumber h]
  | ret => rfl

/-- Fields are read as what they denote. -/
theorem ofFields?_eq_some_iff {fields : List String} {command : Command} :
    ofFields? fields = some command ↔ Denotes fields command :=
  ⟨denotes_of_ofFields?, ofFields?_of_denotes⟩

/-- A text that consists of fields which denote a command. -/
def Reads (text : List Char) (command : Command) : Prop :=
  ∃ fields, Separated text fields ∧ Denotes (fields.map String.ofList) command

/-- A text denotes one command at most. -/
theorem Reads.unique {text : List Char} {command other : Command} (h : Reads text command)
    (h' : Reads text other) : command = other := by
  obtain ⟨fields, separated, denotes⟩ := h
  obtain ⟨fields', separated', denotes'⟩ := h'
  obtain rfl : fields = fields' := separated.fields_eq.symm.trans separated'.fields_eq
  exact Option.some.inj ((ofFields?_of_denotes denotes).symm.trans (ofFields?_of_denotes denotes'))

/-! ## Fields of a text -/

section Parts

variable {first second third text : List Char}

theorem separated_one_iff : Separated text [first] ↔ IsField first ∧ text = first := by
  constructor
  · intro h
    cases h with
    | one hfield => exact ⟨hfield, rfl⟩
    | more _ _ hrest => cases hrest
  · rintro ⟨hfield, rfl⟩
    exact .one hfield

theorem separated_two_iff : Separated text [first, second] ↔
    IsField first ∧ IsField second ∧ ∃ gap, IsGap gap ∧ text = first ++ (gap ++ second) := by
  constructor
  · intro h
    cases h with
    | more hfield hgap hrest =>
        obtain ⟨hsecond, rfl⟩ := separated_one_iff.mp hrest
        exact ⟨hfield, hsecond, _, hgap, rfl⟩
  · rintro ⟨hfield, hsecond, gap, hgap, rfl⟩
    exact .more hfield hgap (.one hsecond)

theorem separated_three_iff : Separated text [first, second, third] ↔
    IsField first ∧ IsField second ∧ IsField third ∧ ∃ gap gap', IsGap gap ∧ IsGap gap' ∧
      text = first ++ (gap ++ (second ++ (gap' ++ third))) := by
  constructor
  · intro h
    cases h with
    | more hfield hgap hrest =>
        obtain ⟨hsecond, hthird, gap', hgap', rfl⟩ := separated_two_iff.mp hrest
        exact ⟨hfield, hsecond, hthird, _, gap', hgap, hgap', rfl⟩
  · rintro ⟨hfield, hsecond, hthird, gap, gap', hgap, hgap', rfl⟩
    exact .more hfield hgap (.more hsecond hgap' (.one hthird))

end Parts

theorem isField_word (op : Operation) : IsField op.word.toList := by
  rcases op with op | op | op <;> cases op <;> decide

theorem isField_segment (segment : Segment) : IsField segment.word.toList := by
  cases segment with
  | constant => decide
  | region region => cases region <;> decide

theorem IsDigit.ne_blank {c : Char} (h : IsDigit c) : c ≠ ' ' ∧ c ≠ '\t' := by
  constructor <;> rintro rfl <;> exact absurd (isDigit_iff.mpr h) (by decide)

theorem Spells.isField {text : String} {n : UInt32} (h : Spells text n) : IsField text.toList :=
  ⟨h.nonempty, fun c member => (h.digits c member).ne_blank⟩

/-- No blank goes on a symbol. -/
theorem isFollowing_of_blank {c : Char} (h : c = ' ' ∨ c = '\t') : Name.isFollowing c = false := by
  rcases h with rfl | rfl <;> decide

theorem IsSymbol.isField {text : String} (h : IsSymbol text) : IsField text.toList := by
  refine ⟨h.nonempty, fun c member => ?_⟩
  have following : Name.isFollowing c = true := by
    obtain ⟨d, ds, parted⟩ := List.exists_cons_of_ne_nil h.nonempty
    rw [parted, List.mem_cons] at member
    rcases member with rfl | member
    · exact isFollowing_iff.mpr (.inl (h.first c (by rw [parted]; rfl)))
    · exact isFollowing_iff.mpr (h.others c (by rwa [parted]))
  have notBlank : ¬(c = ' ' ∨ c = '\t') := fun blank => by
    rw [isFollowing_of_blank blank] at following
    cases following
  exact not_or.mp notBlank

end Grammar

open Grammar Scanner

namespace Command

variable {cs rest : List Char}

/-! ## What the parts accept -/

theorem scanGap_eq_some_iff {gap : List Char} :
    scanGap cs = some (gap, rest) ↔
      IsGap gap ∧ cs = gap ++ rest ∧ ∀ c ∈ rest.head?, c ≠ ' ' ∧ c ≠ '\t' := by
  rw [scanGap, takeWhile1_eq_some_iff]
  simp only [IsGap, isSeparator_iff, isSeparator_eq_false_iff]
  tauto

theorem scanNumber_eq_some_iff {n : UInt32} :
    scanNumber cs = some (n, rest) ↔
      ∃ digits, Spells digits n ∧ cs = digits.toList ++ rest ∧ ∀ c ∈ rest.head?, ¬IsDigit c := by
  have lifted : ∀ {digits : String} {left : List Char},
      (StateT.lift (Numeral.read? digits) : Scanner UInt32) left = some (n, rest) ↔
        Spells digits n ∧ left = rest := by
    intro digits left
    rw [← read?_eq_some_iff_spells, StateT.lift]
    simp [Option.bind_eq_some_iff]
  rw [scanNumber, bind_eq_some_iff]
  simp only [takeWhile1_eq_some_iff, lifted]
  constructor
  · rintro ⟨digits, left, ⟨nonempty, rfl, -, stops⟩, spells, rfl⟩
    refine ⟨String.ofList digits, spells, by rw [String.toList_ofList], fun c first digit => ?_⟩
    rw [← isDigit_iff, stops c first] at digit
    cases digit
  · rintro ⟨digits, spells, rfl, stops⟩
    refine ⟨digits.toList, rest, ⟨spells.nonempty, rfl, ?_, ?_⟩, ?_, rfl⟩
    · exact fun c member => isDigit_iff.mpr (spells.digits c member)
    · exact fun c first => Bool.eq_false_iff.mpr fun digit => stops c first (isDigit_iff.mp digit)
    · rwa [String.ofList_toList]

theorem scanName_eq_some_iff {name : String} :
    scanName cs = some (name, rest) ↔
      IsSymbol name ∧ cs = name.toList ++ rest ∧
        ∀ c ∈ rest.head?, Name.isFollowing c = false := by
  rw [scanName, bind_eq_some_iff]
  simp only [bind_eq_some_iff, satisfy_eq_some_iff, takeWhile_eq_some_iff, pure_eq_some_iff]
  constructor
  · rintro ⟨first, left, ⟨rfl, initial⟩, following, left', ⟨rfl, all, stops⟩, rfl, rfl⟩
    refine ⟨isName_iff.mp ?_, by simp, stops⟩
    rw [Name.IsName, String.toList_ofList, Name.isNameList, initial, Bool.true_and]
    exact List.all_eq_true.mpr all
  · rintro ⟨isSymbol, rfl, stops⟩
    have isName : Name.isNameList name.toList = true := isName_iff.mpr isSymbol
    obtain ⟨c, following, parted⟩ := List.exists_cons_of_ne_nil isSymbol.nonempty
    rw [parted, Name.isNameList, Bool.and_eq_true] at isName
    refine ⟨c, following ++ rest, ⟨by rw [parted]; rfl, isName.1⟩, following, rest,
      ⟨rfl, List.all_eq_true.mp isName.2, stops⟩, ?_, rfl⟩
    rw [← parted, String.ofList_toList]

/-- A word that is read off a list of words with what they stand for. -/
theorem oneOf_word_eq_some_iff {α : Type} {word : α → String} {all : List α}
    (mem : ∀ a, a ∈ all)
    (apart : ((all.map fun a => (word a, a)).map Prod.fst).Pairwise Apart) {a : α} :
    oneOf (all.map fun a => (word a, a)) cs = some (a, rest) ↔ cs = (word a).toList ++ rest := by
  rw [oneOf_eq_some_iff apart]
  constructor
  · rintro ⟨text, member, rfl⟩
    obtain ⟨b, -, same⟩ := List.mem_map.mp member
    obtain ⟨rfl, rfl⟩ := Prod.mk.inj same
    rfl
  · rintro rfl
    exact ⟨word a, List.mem_map_of_mem (mem a), rfl⟩

theorem scanOperation_eq_some_iff {command : Command} :
    scanOperation cs = some (command, rest) ↔
      ∃ op, command = .operate op ∧ cs = op.word.toList ++ rest := by
  have word : ∀ {op : Operation}, oneOf (Operation.all.map fun op => (op.word, op)) cs =
      some (op, rest) ↔ cs = op.word.toList ++ rest :=
    oneOf_word_eq_some_iff Operation.mem_all (by decide)
  rw [scanOperation, map_eq_some_iff]
  simp only [word]
  exact exists_congr fun op => by rw [and_comm, eq_comm]

theorem scanSegment_eq_some_iff {segment : Segment} :
    oneOf (Segment.all.map fun segment => (segment.word, segment)) cs = some (segment, rest) ↔
      cs = segment.word.toList ++ rest :=
  oneOf_word_eq_some_iff Segment.mem_all (by decide)

/-- A form of a word, a name and a number. -/
theorem scanCounted_eq_some_iff {word : String} {counted : String → UInt32 → Command}
    {command : Command} :
    scanCounted word counted cs = some (command, []) ↔
      ∃ name digits n gap gap', IsSymbol name ∧ Spells digits n ∧ IsGap gap ∧ IsGap gap' ∧
        command = counted name n ∧
        cs = word.toList ++ (gap ++ (name.toList ++ (gap' ++ digits.toList))) := by
  simp only [scanCounted, bind_eq_some_iff, tag_eq_some_iff, scanGap_eq_some_iff,
    scanName_eq_some_iff, scanNumber_eq_some_iff, pure_eq_some_iff]
  constructor
  · rintro ⟨-, _, rfl, gap, _, ⟨hgap, rfl, -⟩, name, _, ⟨hname, rfl, -⟩, gap', _, ⟨hgap', rfl, -⟩,
      n, _, ⟨digits, spells, rfl, -⟩, rfl, rfl⟩
    exact ⟨name, digits, n, gap, gap', hname, spells, hgap, hgap', rfl, by simp⟩
  · rintro ⟨name, digits, n, gap, gap', hname, spells, hgap, hgap', rfl, rfl⟩
    refine ⟨(), _, rfl, gap, _, ⟨hgap, rfl, ?_⟩, name, _, ⟨hname, rfl, ?_⟩, gap', _,
      ⟨hgap', rfl, ?_⟩, n, [], ⟨digits, spells, by simp, by simp⟩, rfl, rfl⟩
    · rw [List.head?_append_of_ne_nil _ hname.nonempty]
      exact fun c first => hname.isField.2 c (List.mem_of_mem_head? first)
    · rw [List.head?_append_of_ne_nil _ hgap'.1]
      exact fun c first => isFollowing_of_blank (hgap'.2 c (List.mem_of_mem_head? first))
    · exact fun c first => spells.isField.2 c (List.mem_of_mem_head? first)

theorem scanMemory_eq_some_iff {command : Command} :
    scanMemory cs = some (command, []) ↔
      ∃ word access, (word, access) ∈ [("push", push), ("pop", pop)] ∧
        ∃ segment digits n gap gap', Spells digits n ∧ IsGap gap ∧ IsGap gap' ∧
          command = access segment n ∧
          cs = word.toList ++ (gap ++ (segment.word.toList ++ (gap' ++ digits.toList))) := by
  have started : ∀ {left : List Char} {access : Segment → UInt32 → Command},
      oneOf [("push", push), ("pop", pop)] cs = some (access, left) ↔
        ∃ word, (word, access) ∈ [("push", push), ("pop", pop)] ∧ cs = word.toList ++ left :=
    oneOf_eq_some_iff (by decide)
  simp only [scanMemory, bind_eq_some_iff, started, scanGap_eq_some_iff, scanSegment_eq_some_iff,
    scanNumber_eq_some_iff, pure_eq_some_iff]
  constructor
  · rintro ⟨access, _, ⟨word, member, rfl⟩, gap, _, ⟨hgap, rfl, -⟩, segment, _, rfl, gap', _,
      ⟨hgap', rfl, -⟩, n, _, ⟨digits, spells, rfl, -⟩, rfl, rfl⟩
    exact ⟨word, access, member, segment, digits, n, gap, gap', spells, hgap, hgap', rfl, by simp⟩
  · rintro ⟨word, access, member, segment, digits, n, gap, gap', spells, hgap, hgap', rfl, rfl⟩
    refine ⟨access, _, ⟨word, member, rfl⟩, gap, _, ⟨hgap, rfl, ?_⟩, segment, _, rfl, gap', _,
      ⟨hgap', rfl, ?_⟩, n, [], ⟨digits, spells, by simp, by simp⟩, rfl, rfl⟩
    · rw [List.head?_append_of_ne_nil _ (isField_segment segment).1]
      exact fun c first => (isField_segment segment).2 c (List.mem_of_mem_head? first)
    · exact fun c first => spells.isField.2 c (List.mem_of_mem_head? first)

theorem scanBranch_eq_some_iff {command : Command} :
    scanBranch cs = some (command, []) ↔
      ∃ word branch, (word, branch) ∈ [("label", label), ("goto", goto), ("if-goto", ifGoto)] ∧
        ∃ name gap, IsSymbol name ∧ IsGap gap ∧ command = branch name ∧
          cs = word.toList ++ (gap ++ name.toList) := by
  have started : ∀ {left : List Char} {branch : String → Command},
      oneOf [("label", label), ("goto", goto), ("if-goto", ifGoto)] cs = some (branch, left) ↔
        ∃ word, (word, branch) ∈ [("label", label), ("goto", goto), ("if-goto", ifGoto)] ∧
          cs = word.toList ++ left :=
    oneOf_eq_some_iff (by decide)
  simp only [scanBranch, bind_eq_some_iff, started, scanGap_eq_some_iff, scanName_eq_some_iff,
    pure_eq_some_iff]
  constructor
  · rintro ⟨branch, _, ⟨word, member, rfl⟩, gap, _, ⟨hgap, rfl, -⟩, name, _, ⟨hname, rfl, -⟩, rfl,
      rfl⟩
    exact ⟨word, branch, member, name, gap, hname, hgap, rfl, by simp⟩
  · rintro ⟨word, branch, member, name, gap, hname, hgap, rfl, rfl⟩
    refine ⟨branch, _, ⟨word, member, rfl⟩, gap, _, ⟨hgap, rfl, ?_⟩, name, [],
      ⟨hname, by simp, by simp⟩, rfl, rfl⟩
    exact fun c first => hname.isField.2 c (List.mem_of_mem_head? first)

theorem scanCounted_eq_none {word : String} (h : ¬word.toList <+: cs)
    (counted : String → UInt32 → Command) : scanCounted word counted cs = none := by
  have unread : tag word cs = none := tag_eq_none h
  rw [scanCounted]
  exact congrArg (Option.bind · _) unread

theorem scanSubroutine_eq_some_iff {command : Command} :
    scanSubroutine cs = some (command, []) ↔
      command = .ret ∧ cs = "return".toList ∨
      scanCounted "function" function cs = some (command, []) ∨
      scanCounted "call" call cs = some (command, []) := by
  rw [scanSubroutine, orElse_eq_some_iff, orElse_eq_some_iff, tagged_eq_some_iff, List.append_nil,
    eq_comm (a := ret)]
  refine ⟨?_, ?_⟩
  · rintro (ret | ⟨-, function | ⟨-, call⟩⟩)
    · exact .inl ret
    · exact .inr (.inl function)
    · exact .inr (.inr call)
  · rintro (ret | function | call)
    · exact .inl ret
    · obtain ⟨_, _, _, _, _, -, -, -, -, -, starts⟩ := scanCounted_eq_some_iff.mp function
      have apart : Apart "return" "function" := by decide
      exact .inr ⟨tagged_eq_none (starts ▸ apart.not_start _) _, .inl function⟩
    · obtain ⟨_, _, _, _, _, -, -, -, -, -, starts⟩ := scanCounted_eq_some_iff.mp call
      have apart : Apart "return" "call" ∧ Apart "function" "call" := by decide
      exact .inr ⟨tagged_eq_none (starts ▸ apart.1.not_start _) _,
        .inr ⟨scanCounted_eq_none (starts ▸ apart.2.not_start _) _, call⟩⟩

end Command

/-! ## What is accepted -/

section Accepted

open Command

variable {cs rest : List Char} {command : Command}

theorem reads_of_scanOperation (h : scanOperation cs = some (command, [])) : Reads cs command := by
  obtain ⟨op, rfl, rfl⟩ := scanOperation_eq_some_iff.mp h
  refine ⟨[op.word.toList], separated_one_iff.mpr ⟨isField_word op, by simp⟩, ?_⟩
  simpa using Denotes.operation op

theorem reads_of_scanMemory (h : scanMemory cs = some (command, [])) : Reads cs command := by
  obtain ⟨word, access, member, segment, digits, n, gap, gap', spells, hgap, hgap', rfl, rfl⟩ :=
    scanMemory_eq_some_iff.mp h
  have fields : ∀ {word : String}, IsField word.toList → Separated
      (word.toList ++ (gap ++ (segment.word.toList ++ (gap' ++ digits.toList))))
      [word.toList, segment.word.toList, digits.toList] := fun hword =>
    separated_three_iff.mpr
      ⟨hword, isField_segment segment, spells.isField, gap, gap', hgap, hgap', rfl⟩
  simp only [List.mem_cons, Prod.mk.injEq, List.not_mem_nil, or_false] at member
  rcases member with ⟨rfl, rfl⟩ | ⟨rfl, rfl⟩
  · exact ⟨_, fields (by decide), by simpa using Denotes.push segment spells⟩
  · exact ⟨_, fields (by decide), by simpa using Denotes.pop segment spells⟩

theorem reads_of_scanBranch (h : scanBranch cs = some (command, [])) : Reads cs command := by
  obtain ⟨word, branch, member, name, gap, hname, hgap, rfl, rfl⟩ := scanBranch_eq_some_iff.mp h
  have fields : ∀ {word : String}, IsField word.toList → Separated
      (word.toList ++ (gap ++ name.toList)) [word.toList, name.toList] := fun hword =>
    separated_two_iff.mpr ⟨hword, hname.isField, gap, hgap, rfl⟩
  simp only [List.mem_cons, Prod.mk.injEq, List.not_mem_nil, or_false] at member
  rcases member with ⟨rfl, rfl⟩ | ⟨rfl, rfl⟩ | ⟨rfl, rfl⟩
  · exact ⟨_, fields (by decide), by simpa using Denotes.label hname⟩
  · exact ⟨_, fields (by decide), by simpa using Denotes.goto hname⟩
  · exact ⟨_, fields (by decide), by simpa using Denotes.ifGoto hname⟩

theorem reads_of_scanSubroutine (h : scanSubroutine cs = some (command, [])) :
    Reads cs command := by
  rcases scanSubroutine_eq_some_iff.mp h with ⟨rfl, rfl⟩ | function | call
  · have field : IsField "return".toList := by decide
    exact ⟨_, separated_one_iff.mpr ⟨field, rfl⟩, by simpa using Denotes.ret⟩
  · obtain ⟨name, digits, n, gap, gap', hname, spells, hgap, hgap', rfl, rfl⟩ :=
      scanCounted_eq_some_iff.mp function
    have field : IsField "function".toList := by decide
    exact ⟨_, separated_three_iff.mpr ⟨field, hname.isField, spells.isField, gap, gap', hgap,
      hgap', rfl⟩, by simpa using Denotes.function hname spells⟩
  · obtain ⟨name, digits, n, gap, gap', hname, spells, hgap, hgap', rfl, rfl⟩ :=
      scanCounted_eq_some_iff.mp call
    have field : IsField "call".toList := by decide
    exact ⟨_, separated_three_iff.mpr ⟨field, hname.isField, spells.isField, gap, gap', hgap,
      hgap', rfl⟩, by simpa using Denotes.call hname spells⟩

theorem scanCommand_eq_some_iff : scanCommand cs = some (command, rest) ↔
    whole scanOperation cs = some (command, rest) ∨
      whole scanOperation cs = none ∧ (whole scanMemory cs = some (command, rest) ∨
        whole scanMemory cs = none ∧ (whole scanBranch cs = some (command, rest) ∨
          whole scanBranch cs = none ∧ whole scanSubroutine cs = some (command, rest))) := by
  simp only [scanCommand, orElse_eq_some_iff]

/-- Whichever kind of command accepts a text, the text denotes the command. -/
theorem reads_of_scanCommand (h : scanCommand cs = some (command, rest)) : Reads cs command := by
  rw [scanCommand_eq_some_iff] at h
  simp only [whole_eq_some_iff] at h
  rcases h with ⟨read, -⟩ | ⟨-, ⟨read, -⟩ | ⟨-, ⟨read, -⟩ | ⟨-, read, -⟩⟩⟩
  · exact reads_of_scanOperation read
  · exact reads_of_scanMemory read
  · exact reads_of_scanBranch read
  · exact reads_of_scanSubroutine read

/-- A text that denotes a command is accepted by the kind of the command. -/
theorem accepted_of_reads (h : Reads cs command) :
    scanOperation cs = some (command, []) ∨ scanMemory cs = some (command, []) ∨
      scanBranch cs = some (command, []) ∨ scanSubroutine cs = some (command, []) := by
  obtain ⟨fields, separated, denotes⟩ := h
  generalize hwords : fields.map String.ofList = words at denotes
  obtain rfl : fields = words.map String.toList := by
    simp [← hwords, Function.comp_def]
  cases denotes with
  | operation op =>
      obtain ⟨-, rfl⟩ := separated_one_iff.mp separated
      exact .inl (scanOperation_eq_some_iff.mpr ⟨op, rfl, by simp⟩)
  | push segment spells =>
      obtain ⟨-, -, -, gap, gap', hgap, hgap', rfl⟩ := separated_three_iff.mp separated
      exact .inr (.inl (scanMemory_eq_some_iff.mpr ⟨"push", push, by simp, segment, _, _, gap, gap',
        spells, hgap, hgap', rfl, rfl⟩))
  | pop segment spells =>
      obtain ⟨-, -, -, gap, gap', hgap, hgap', rfl⟩ := separated_three_iff.mp separated
      exact .inr (.inl (scanMemory_eq_some_iff.mpr ⟨"pop", pop, by simp, segment, _, _, gap, gap',
        spells, hgap, hgap', rfl, rfl⟩))
  | label hname =>
      obtain ⟨-, -, gap, hgap, rfl⟩ := separated_two_iff.mp separated
      exact .inr (.inr (.inl (scanBranch_eq_some_iff.mpr
        ⟨"label", label, by simp, _, gap, hname, hgap, rfl, rfl⟩)))
  | goto hname =>
      obtain ⟨-, -, gap, hgap, rfl⟩ := separated_two_iff.mp separated
      exact .inr (.inr (.inl (scanBranch_eq_some_iff.mpr
        ⟨"goto", goto, by simp, _, gap, hname, hgap, rfl, rfl⟩)))
  | ifGoto hname =>
      obtain ⟨-, -, gap, hgap, rfl⟩ := separated_two_iff.mp separated
      exact .inr (.inr (.inl (scanBranch_eq_some_iff.mpr
        ⟨"if-goto", ifGoto, by simp, _, gap, hname, hgap, rfl, rfl⟩)))
  | function hname spells =>
      obtain ⟨-, -, -, gap, gap', hgap, hgap', rfl⟩ := separated_three_iff.mp separated
      exact .inr (.inr (.inr (scanSubroutine_eq_some_iff.mpr (.inr (.inl
        (scanCounted_eq_some_iff.mpr
          ⟨_, _, _, gap, gap', hname, spells, hgap, hgap', rfl, rfl⟩))))))
  | call hname spells =>
      obtain ⟨-, -, -, gap, gap', hgap, hgap', rfl⟩ := separated_three_iff.mp separated
      exact .inr (.inr (.inr (scanSubroutine_eq_some_iff.mpr (.inr (.inr
        (scanCounted_eq_some_iff.mpr
          ⟨_, _, _, gap, gap', hname, spells, hgap, hgap', rfl, rfl⟩))))))
  | ret =>
      obtain ⟨-, rfl⟩ := separated_one_iff.mp separated
      exact .inr (.inr (.inr (scanSubroutine_eq_some_iff.mpr (.inl ⟨rfl, rfl⟩))))

theorem scanCommand_ne_none (h : Reads cs command) : scanCommand cs ≠ none := by
  intro refused
  simp only [scanCommand, orElse_eq_none_iff] at refused
  obtain ⟨operation, memory, branch, subroutine⟩ := refused
  have accepted : ∀ {scan : Scanner Command}, scan cs = some (command, []) → whole scan cs ≠ none :=
    fun read => Option.ne_none_iff_exists'.mpr ⟨_, whole_eq_some_iff.mpr ⟨read, rfl⟩⟩
  rcases accepted_of_reads h with read | read | read | read
  · exact accepted read operation
  · exact accepted read memory
  · exact accepted read branch
  · exact accepted read subroutine

end Accepted

/-- **Reading is the grammar.** A text is read as a command exactly if it consists of fields that
denote the command. -/
theorem parse?_eq_some_iff_denotes {text : String} {command : Command} :
    Command.parse? text = some command ↔
      ∃ fields, Separated text.toList fields ∧ Denotes (fields.map String.ofList) command := by
  rw [Command.parse?, Option.map_eq_some_iff]
  constructor
  · rintro ⟨⟨read, rest⟩, accepted, rfl⟩
    exact reads_of_scanCommand accepted
  · intro reads
    obtain ⟨⟨read, rest⟩, accepted⟩ := Option.ne_none_iff_exists'.mp (scanCommand_ne_none reads)
    exact ⟨(read, rest), accepted, (reads_of_scanCommand accepted).unique reads⟩

/-- A trimmed text is read off its fields as wholes. -/
theorem parse?_eq_ofFields? {text : String} (trimmed : Text.trim text.toList = text.toList) :
    Command.parse? text = ofFields? ((Text.fields text.toList).map String.ofList) := by
  refine Option.ext fun command => ?_
  rw [parse?_eq_some_iff_denotes, ofFields?_eq_some_iff]
  by_cases empty : text.toList = []
  · -- no fields denote nothing, and there is no empty field
    rw [empty]
    constructor
    · rintro ⟨fields, separated, -⟩
      exact absurd rfl separated.ne_nil
    · intro denotes
      cases denotes
  · constructor
    · rintro ⟨fields, separated, denotes⟩
      rwa [separated.fields_eq]
    · exact fun denotes => ⟨_, (fields_eq_iff_separated empty trimmed).mp rfl, denotes⟩

/-- Runs of spaces and tabs separate and leading zeros are allowed; an ideographic space does not
separate. -/
theorem parse?_eq_some_iff_denotes_push :
    let text := "push \t local  007"
    let other := "goto\u3000L"
    (∃ fields, Separated text.toList fields ∧
        Denotes (fields.map String.ofList) (.push (.region .locals) 7)) ∧
      ∀ command, ¬∃ fields, Separated other.toList fields ∧
        Denotes (fields.map String.ofList) command := by
  intro text other
  have unread : Command.parse? other = none := by decide
  refine ⟨parse?_eq_some_iff_denotes.mp (by decide), ?_⟩
  intro command denotes
  rw [← parse?_eq_some_iff_denotes, unread] at denotes
  cases denotes

end StackToHack
