import StackToHack.Proofs.AssemblyText
import StackToHack.Proofs.Comments

/-!
# The numbers that a program loads

A line of `@` and digits loads the number that the digits spell, and an instruction has room for 15
bits of it. Which numbers a text loads is said by its characters (`Assembly.LoadsNumber`). They are
the numbers in the code that the text was made of (`loadsNumber_render_iff`), since no symbol starts
with a digit.

Every number in the code of a unit has passed a check (`Spelled`). The address that the bootstrap
starts the stack at has not: it has 16 bits and is loaded as it is.
-/

namespace StackToHack

open Hack

namespace Assembly

/-- A line loads a number: `@` and one or more digits that spell it. -/
def Loads (line : List Char) (value : Nat) : Prop :=
  ∃ digits, line = '@' :: digits ∧ digits ≠ [] ∧ (∀ c ∈ digits, Grammar.IsDigit c) ∧
    Grammar.decimal digits = value

/-- A line of the text loads the number. -/
def LoadsNumber (text : String) (value : Nat) : Prop :=
  ∃ line ∈ Text.lines text.toList, Loads line value

/-- No number that the text loads is too large for an instruction. -/
def Fits (text : String) : Prop := ∀ value, LoadsNumber text value → value ≤ 32767

end Assembly

/-! ## Lines -/

section Line

variable {value n : Nat}

theorem loads_number : Assembly.Loads (Line.number n).text.toList value ↔ value = n := by
  have spelled : Grammar.decimal (Nat.toDigits 10 n) = n := by
    rw [← Grammar.value_eq_decimal, Numeral.value,
      Nat.ofDigitChars_toDigits (by decide) (by decide)]
  rw [text_number]
  constructor
  · rintro ⟨digits, same, -, -, rfl⟩
    obtain rfl := (List.cons.inj same).2
    exact spelled
  · rintro rfl
    refine ⟨_, rfl, Nat.toDigits_ne_nil, fun c member => ?_, spelled⟩
    exact Grammar.isDigit_iff.mp (Nat.isDigit_of_mem_toDigits (by decide) (by decide) member)

/-- A proper symbol does not look like a number. -/
theorem not_loads_symbol {symbol : Symbol} (named : symbol.Named) :
    ¬Assembly.Loads (Line.symbol symbol).text.toList value := by
  rintro ⟨digits, same, nonempty, isDigits, -⟩
  rw [Line.text, String.toList_append] at same
  obtain rfl : symbol.text.toList = digits := (List.cons.inj same).2
  obtain ⟨c, cs, text⟩ := List.exists_cons_of_ne_nil nonempty
  refine named.isSymbol.first c (by rw [text]; rfl) (isDigits c ?_)
  rw [text]
  exact List.mem_cons_self ..

theorem not_loads_compute (dest : Dest) (comp : Comp) (jump : Jump) :
    ¬Assembly.Loads (Line.compute dest comp jump).text.toList value := by
  rintro ⟨digits, same, -⟩
  have mnemonic := all_isMnemonic_text dest comp jump
  rw [same, List.all_cons, show isMnemonic '@' = false from by decide] at mnemonic
  exact Bool.noConfusion mnemonic

/-- A line with a proper symbol, if it has one, loads the number it has. -/
theorem loads_text_iff {line : Line} (named : ∀ symbol, line = .symbol symbol → symbol.Named) :
    Assembly.Loads line.text.toList value ↔ line = .number value := by
  cases line with
  | number n => rw [loads_number, Line.number.injEq, eq_comm]
  | symbol symbol =>
      simpa only [reduceCtorEq, iff_false] using not_loads_symbol (named symbol rfl)
  | compute dest comp jump =>
      simpa only [reduceCtorEq, iff_false] using not_loads_compute dest comp jump
  | comment text =>
      simp only [reduceCtorEq, iff_false]
      rintro ⟨digits, same, -⟩
      rw [Line.text, String.toList_append] at same
      exact absurd (List.cons.inj same).1 (by decide)
  | mark symbol =>
      simp only [reduceCtorEq, iff_false]
      rintro ⟨digits, same, -⟩
      rw [Line.text, String.toList_append, String.toList_append] at same
      exact absurd (List.cons.inj same).1 (by decide)

end Line

/-! ## Code -/

/-- Every line is one line of text, and its symbol is a proper one. -/
def Plain (code : Code) : Prop :=
  ∀ line ∈ code, '\n' ∉ line.text.toList ∧ ∀ symbol, line = .symbol symbol → symbol.Named

theorem Spelled.plain {code : Code} (h : Spelled code) : Plain code := by
  intro line member
  refine ⟨(h line member).isLine.shape.1, ?_⟩
  rintro symbol rfl
  exact h _ member

theorem plain_bootstrap {bootstrap : Bootstrap} (entry : Name.IsName bootstrap.entry) :
    Plain bootstrap.code := by
  intro line member
  refine ⟨(isLine_bootstrap entry line member).shape.1, ?_⟩
  rintro symbol rfl
  simp only [Bootstrap.code, Line.register, Line.set, Line.goto, List.mem_cons, reduceCtorEq,
    Line.symbol.injEq, List.not_mem_nil, or_false, false_or] at member
  rcases member with rfl | rfl
  · exact Symbol.named_register _
  · exact entry

theorem number_mem_bootstrap {bootstrap : Bootstrap} {value : Nat} :
    .number value ∈ bootstrap.code ↔ value = bootstrap.stackBase.toNat := by
  simp [Bootstrap.code, Line.register, Line.set, Line.goto]

/-- **Code loads its numbers** and no others. -/
theorem loadsNumber_render_iff {code : Code} (plain : Plain code) {value : Nat} :
    Assembly.LoadsNumber (render code) value ↔ .number value ∈ code := by
  have empty : ¬Assembly.Loads [] value := fun ⟨_, same, _⟩ => nomatch same
  have lines : ∀ line ∈ code, Text.lines line.text.toList = [line.text.toList] :=
    fun line member => Text.lines_of_not_mem (plain line member).1
  rw [Assembly.LoadsNumber, lines_render]
  constructor
  · rintro ⟨text, member, loads⟩
    rcases List.mem_append.mp member with inLines | atEnd
    · obtain ⟨line, inCode, ofLine⟩ := List.mem_flatMap.mp inLines
      rw [lines line inCode, List.mem_singleton] at ofLine
      subst ofLine
      rw [loads_text_iff (plain line inCode).2] at loads
      exact loads ▸ inCode
    · rw [List.mem_singleton.mp atEnd] at loads
      exact absurd loads empty
  · intro member
    refine ⟨_, List.mem_append_left _ (List.mem_flatMap.mpr ⟨_, member, ?_⟩), loads_number.mpr rfl⟩
    rw [lines _ member]
    exact List.mem_singleton_self _

theorem fits_render_iff {code : Code} (plain : Plain code) :
    Assembly.Fits (render code) ↔ ∀ value, .number value ∈ code → value ≤ 32767 :=
  forall_congr' fun _ => imp_congr_left (loadsNumber_render_iff plain)

theorem Spelled.fits {code : Code} (h : Spelled code) : Assembly.Fits (render code) :=
  (fits_render_iff h.plain).mpr fun _ member => h _ member

/-! ## Runs -/

/-- **Numbers fit** into the instructions that load them, in all that is behind the bootstrap. In
the whole program they do exactly if the stack starts at an address that fits. -/
theorem loaded_numbers_fit {bootstrap : Option Bootstrap} {units : List (String × String)}
    {text : String} (entry : ∀ b ∈ bootstrap, Name.IsName b.entry)
    (named : ∀ unit ∈ units, Name.IsName unit.1) (success : compile bootstrap units = .ok text) :
    (∃ rest, text = prologue bootstrap ++ rest ∧ Assembly.Fits rest) ∧
      (Assembly.Fits text ↔ ∀ b ∈ bootstrap, b.stackBase.toNat ≤ 32767) := by
  obtain ⟨outcomes, last, composed⟩ := exists_composed bootstrap units
  have settled := (composed.settled outcomes last).mpr ⟨rfl, rfl⟩
  have outside : ∀ f ∈ Context.fresh.function, Name.IsName f :=
    fun _ member => absurd member (Option.not_mem_none _)
  have spelled : Spelled (outcomes.flatMap added) := settled.spelled named outside
  rw [composed.compiled] at success
  split at success
  · cases success
  obtain rfl := Except.ok.inj success
  rw [programText, ← render_flatMap_added]
  refine ⟨⟨_, rfl, spelled.fits⟩, ?_⟩
  cases bootstrap with
  | none =>
      rw [prologue, String.empty_append]
      exact iff_of_true spelled.fits fun _ member => absurd member (Option.not_mem_none _)
  | some b =>
      have plain : Plain (b.code ++ outcomes.flatMap added) :=
        List.forall_mem_append.mpr ⟨plain_bootstrap (entry b rfl), spelled.plain⟩
      rw [prologue, ← render_append, fits_render_iff plain]
      constructor
      · intro fits b' member
        obtain rfl := Option.some.inj member
        exact fits _ (List.mem_append_left _ (number_mem_bootstrap.mpr rfl))
      · intro small value member
        rcases List.mem_append.mp member with atStart | behind
        · rw [number_mem_bootstrap.mp atStart]
          exact small b rfl
        · exact spelled _ behind

/-- The largest constant and the address that the stack starts at by default. -/
theorem loaded_numbers_fit_largest_constant :
    let units := [("Main", "push constant 32767\nfunction Main.main 7 // locals\n")]
    (∀ b ∈ some ({} : Bootstrap), Name.IsName b.entry) ∧ (∀ unit ∈ units, Name.IsName unit.1) ∧
      ∃ text, compile (some {}) units = .ok text ∧ Assembly.Fits text := by
  intro units
  have entry : ∀ b ∈ some ({} : Bootstrap), Name.IsName b.entry := by
    intro b member
    obtain rfl := Option.some.inj member
    decide
  have named : ∀ unit ∈ units, Name.IsName unit.1 := by decide
  have small : ∀ b ∈ some ({} : Bootstrap), b.stackBase.toNat ≤ 32767 := by
    intro b member
    obtain rfl := Option.some.inj member
    decide
  obtain ⟨text, made⟩ : ∃ text, compile (some {}) units = .ok text :=
    exists_of_isOk (by decide +kernel)
  exact ⟨entry, named, text, made, (loaded_numbers_fit entry named made).2.mpr small⟩

/-- **The bootstrap loads what does not fit**: a program of no units whose stack is to start at
40000. -/
theorem large_stack_base_does_not_fit :
    let bootstrap : Bootstrap := { stackBase := 40000 }
    Name.IsName bootstrap.entry ∧
      ∃ text, compile (some bootstrap) [] = .ok text ∧ Assembly.LoadsNumber text 40000 ∧
        ¬Assembly.Fits text := by
  intro bootstrap
  have entry : Name.IsName bootstrap.entry := by decide
  have loads : Assembly.LoadsNumber (render bootstrap.code) 40000 :=
    (loadsNumber_render_iff (plain_bootstrap entry)).mpr (number_mem_bootstrap.mpr rfl)
  exact ⟨entry, _, rfl, loads, fun fits => absurd (fits _ loads) (by decide)⟩

end StackToHack
