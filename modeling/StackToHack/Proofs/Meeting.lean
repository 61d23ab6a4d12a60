import StackToHack.Proofs.Compound
import StackToHack.Proofs.Machine.Assembler
import StackToHack.Proofs.Occurrence

/-!
# Where symbols meet

All symbols of a program share one space of texts. Functions, and labels outside of any function,
are called in it what stack code calls them; everything else is composed or numbered. When no
function and no label is defined twice, two definitions still can have one text, but only because of
the names that were chosen (`Meets`): a bare name that spells another symbol, a unit or a function
that goes on behind another one, or a label called like a place that code is generated for.
-/

namespace StackToHack

open Hack

/-! ## Names that a program defines -/

namespace Occurrence

/-- The function that is defined here. -/
def function? (occurrence : Occurrence) : Option String :=
  match occurrence.command with
  | .function name _ => some name
  | _ => none

/-- The label that is defined here, behind the unit and the function that it is private to. -/
def label? (occurrence : Occurrence) : Option (Option (String × String) × String) :=
  match occurrence.command with
  | .label name => some (occurrence.context.function.map (occurrence.unit, ·), name)
  | _ => none

end Occurrence

/-- The functions of a program, in order. -/
def functionsOf (program : List Occurrence) : List String :=
  program.filterMap Occurrence.function?

/-- The labels of a program, in order, each with where it belongs. -/
def labelsOf (program : List Occurrence) : List (Option (String × String) × String) :=
  program.filterMap Occurrence.label?

/-- A function, or a label outside of any function, has the name. -/
def IsBare (program : List Occurrence) (name : String) : Prop :=
  name ∈ functionsOf program ∨ (none, name) ∈ labelsOf program

/-- Why two symbols that a program defines in different places can have the same text. -/
inductive Meets (program : List Occurrence) : Symbol → Symbol → Prop
  /-- A function and a label outside of any function have one name. -/
  | shared {name : String} (hfunction : name ∈ functionsOf program)
      (hlabel : (none, name) ∈ labelsOf program) : Meets program (.plain name) (.plain name)
  /-- The name of a function, or of a label outside of any function, spells another symbol. -/
  | spelled {name : String} {symbol : Symbol} (bare : IsBare program name)
      (h : ∀ other, symbol ≠ .plain other) : Meets program (.plain name) symbol
  /-- The name of a unit goes on behind that of another one. -/
  | units {symbol other : Symbol} {long short : Compound}
      (hlong : symbol.compound? = some long) (hshort : other.compound? = some short)
      (h : Extends '.' long.unit short.unit) : Meets program symbol other
  /-- In one unit, the name of a function goes on behind that of another one. -/
  | owners {symbol other : Symbol} {long short : Compound}
      (hlong : symbol.compound? = some long) (hshort : other.compound? = some short)
      (same : long.unit = short.unit) (h : Extends '$' long.owner short.owner) :
      Meets program symbol other
  /-- A label is called like the start of the loop in front of its function. -/
  | loop (unit owner : String) :
      Meets program (.label unit owner "__LOCALS_LOOP__") (.localsLoop unit owner)
  /-- A label is called like the end of that loop. -/
  | done (unit owner : String) :
      Meets program (.label unit owner "__LOCALS_END__") (.localsEnd unit owner)
  /-- A label is called like the return site of a call of the function that it is in. -/
  | site (unit owner : String) (site : Nat) :
      Meets program (.label unit owner ("ret." ++ toString site)) (.returnSite unit owner site)

/-! ## Definitions of different places -/

namespace Occurrence

/-- What is known of a place that defines a symbol. -/
def Defines (occurrence : Occurrence) : Symbol → Prop
  | .plain name => occurrence.function? = some name ∨ occurrence.label? = some (none, name)
  | .function _ name | .localsLoop _ name | .localsEnd _ name =>
    occurrence.function? = some name
  | .label unit owner name => occurrence.label? = some (some (unit, owner), name)
  | .returnSite _ _ site => occurrence.serial? = some (.call site)
  | .comparison _ number => occurrence.serial? = some (.comparison number)
  | .register _ | .static _ _ => False

theorem defines_of_mem_marks {occurrence : Occurrence} {symbol : Symbol}
    (h : symbol ∈ occurrence.marks) : occurrence.Defines symbol := by
  obtain ⟨unit, context, command⟩ := occurrence
  cases command with
  | operate op =>
      cases op with
      | comparison op =>
          simp only [marks, Command.marks, List.mem_cons, List.not_mem_nil, or_false] at h
          rcases h with rfl | rfl | rfl <;> rfl
      | _ => exact absurd h List.not_mem_nil
  | label name =>
      obtain rfl := List.mem_singleton.mp h
      cases hfunction : context.function with
      | none => exact .inr (by simp [label?, hfunction])
      | some f => simp [Code.target, Defines, label?, hfunction]
  | function name locals =>
      simp only [marks, Command.marks, List.mem_cons, List.not_mem_nil, or_false] at h
      rcases h with rfl | rfl | rfl | rfl
      · rfl
      · exact .inl rfl
      · rfl
      · rfl
  | call name args =>
      obtain rfl := List.mem_singleton.mp h
      rfl
  | _ => exact absurd h List.not_mem_nil

/-- What a place defines is a bare name, an arm of a comparison, or a compound. -/
theorem kind_of_defines {occurrence : Occurrence} {symbol : Symbol}
    (h : occurrence.Defines symbol) :
    (∃ name, symbol = .plain name) ∨ (∃ arm number, symbol = .comparison arm number) ∨
      ∃ compound, symbol.compound? = some compound := by
  cases symbol with
  | register _ => exact h.elim
  | «static» _ _ => exact h.elim
  | plain name => exact .inl ⟨name, rfl⟩
  | comparison arm number => exact .inr (.inl ⟨arm, number, rfl⟩)
  | _ => exact .inr (.inr ⟨_, rfl⟩)

/-- Two places define no function, no label and no number in common. -/
structure Apart (occurrence other : Occurrence) : Prop where
  function : ∀ name, occurrence.function? = some name → other.function? ≠ some name
  label : ∀ label, occurrence.label? = some label → other.label? ≠ some label
  serial : ∀ serial, occurrence.serial? = some serial → other.serial? ≠ some serial

/-- The places of a program without double definitions are apart. -/
theorem pairwise_apart {units : List (String × String)}
    (functions : (functionsOf (program units)).Nodup) (labels : (labelsOf (program units)).Nodup) :
    (program units).Pairwise Apart := by
  rw [functionsOf, List.Nodup, List.pairwise_filterMap] at functions
  rw [labelsOf, List.Nodup, List.pairwise_filterMap] at labels
  have serials := pairwise_serial .fresh (commandsOf units)
  refine (functions.and (labels.and serials)).imp ?_
  rintro earlier later ⟨hfunction, hlabel, hserial⟩
  exact ⟨fun name h h' => hfunction name h name h' rfl,
    fun label h h' => hlabel label h label h' rfl, hserial⟩

section Meeting

variable {units : List (String × String)} {occurrence other : Occurrence} {symbol symbol' : Symbol}

/-- Places that are apart define one compound only where a label is called like a place that code
is generated for. -/
theorem meets_of_compound?_eq (apart : Apart occurrence other)
    (defines : occurrence.Defines symbol) (defines' : other.Defines symbol')
    {compound : Compound} (h : symbol.compound? = some compound)
    (h' : symbol'.compound? = some compound) :
    Meets (program units) symbol symbol' ∨ Meets (program units) symbol' symbol := by
  have same := h.trans h'.symm
  cases symbol <;> cases symbol' <;>
    simp only [Symbol.compound?, Option.some.injEq, Compound.mk.injEq, reduceCtorEq,
      and_false] at same h h'
  -- one kind of symbol would be defined twice
  case function.function | localsLoop.localsLoop | localsEnd.localsEnd =>
    obtain ⟨rfl, rfl, -⟩ := same
    exact absurd defines' (apart.function _ defines)
  case label.label =>
    obtain ⟨rfl, rfl, rfl⟩ := same
    exact absurd defines' (apart.label _ defines)
  case returnSite.returnSite =>
    obtain ⟨rfl, rfl, names⟩ := same
    have digits := congrArg String.toList names
    obtain rfl : _ = _ := toDigits_injective (by simpa using digits)
    exact absurd defines' (apart.serial _ defines)
  -- a label and a place that code is generated for
  case label.localsLoop =>
    obtain ⟨rfl, rfl, rfl⟩ := same
    exact .inl (.loop _ _)
  case label.localsEnd =>
    obtain ⟨rfl, rfl, rfl⟩ := same
    exact .inl (.done _ _)
  case label.returnSite =>
    obtain ⟨rfl, rfl, rfl⟩ := same
    exact .inl (.site _ _ _)
  case localsLoop.label =>
    obtain ⟨rfl, rfl, rfl⟩ := same
    exact .inr (.loop _ _)
  case localsEnd.label =>
    obtain ⟨rfl, rfl, rfl⟩ := same
    exact .inr (.done _ _)
  case returnSite.label =>
    obtain ⟨rfl, rfl, rfl⟩ := same
    exact .inr (.site _ _ _)
  -- places that code is generated for are called differently
  all_goals exact absurd (congrArg String.toList same.2.2) (by simp)

theorem isBare_of_defines (here : occurrence ∈ program units) {name : String}
    (defines : occurrence.Defines (.plain name)) : IsBare (program units) name :=
  defines.imp (fun function => List.mem_filterMap.mpr ⟨_, here, function⟩)
    fun label => List.mem_filterMap.mpr ⟨_, here, label⟩

/-- Places that define one bare name are a function and a label outside of any function. -/
theorem shared_of_defines_plain (here : occurrence ∈ program units) (there : other ∈ program units)
    (apart : Apart occurrence other) {name : String} (defines : occurrence.Defines (.plain name))
    (defines' : other.Defines (.plain name)) :
    name ∈ functionsOf (program units) ∧ (none, name) ∈ labelsOf (program units) := by
  rcases defines with function | label
  · rcases defines' with function' | label'
    · exact absurd function' (apart.function name function)
    · exact ⟨List.mem_filterMap.mpr ⟨_, here, function⟩, List.mem_filterMap.mpr ⟨_, there, label'⟩⟩
  · rcases defines' with function' | label'
    · exact ⟨List.mem_filterMap.mpr ⟨_, there, function'⟩, List.mem_filterMap.mpr ⟨_, here, label⟩⟩
    · exact absurd label' (apart.label _ label)

/-- **Where symbols meet.** Symbols of one text that are defined in places that are apart meet. -/
theorem meets_of_text_eq (here : occurrence ∈ program units) (there : other ∈ program units)
    (apart : Apart occurrence other) (defines : occurrence.Defines symbol)
    (defines' : other.Defines symbol') (h : symbol.text = symbol'.text) :
    Meets (program units) symbol symbol' ∨ Meets (program units) symbol' symbol := by
  rcases kind_of_defines defines with ⟨name, rfl⟩ | ⟨arm, number, rfl⟩ | ⟨compound, composed⟩
  · by_cases bare : ∃ name', symbol' = .plain name'
    · obtain ⟨name', rfl⟩ := bare
      obtain rfl : name = name' := h
      obtain ⟨function, label⟩ := shared_of_defines_plain here there apart defines defines'
      exact .inl (.shared function label)
    · exact .inl (.spelled (isBare_of_defines here defines) fun other eq => bare ⟨other, eq⟩)
  · rcases kind_of_defines defines' with ⟨name', rfl⟩ | ⟨arm', number', rfl⟩ | ⟨other, composed'⟩
    · exact .inr (.spelled (isBare_of_defines there defines') nofun)
    · obtain ⟨-, rfl⟩ := Symbol.comparison_eq_of_text_eq h
      exact absurd defines' (apart.serial _ defines)
    · have dot := Symbol.dot_mem_text_of_compound? composed'
      rw [← h] at dot
      exact absurd dot (dot_not_mem_text_comparison arm number)
  · rcases kind_of_defines defines' with ⟨name', rfl⟩ | ⟨arm', number', rfl⟩ | ⟨other, composed'⟩
    · refine .inr (.spelled (isBare_of_defines there defines') fun other eq => ?_)
      rw [eq] at composed
      cases composed
    · have dot := Symbol.dot_mem_text_of_compound? composed
      rw [h] at dot
      exact absurd dot (dot_not_mem_text_comparison arm' number')
    · have chars : compound.chars = other.chars := by
        rw [← Symbol.toList_text_of_compound? composed,
          ← Symbol.toList_text_of_compound? composed', h]
      rcases Compound.eq_or_extends_of_chars_eq chars with
        rfl | (goesOn | goesOn) | ⟨unit, goesOn | goesOn⟩
      · exact meets_of_compound?_eq apart defines defines' composed composed'
      · exact .inl (.units composed composed' goesOn)
      · exact .inr (.units composed' composed goesOn)
      · exact .inl (.owners composed composed' unit goesOn)
      · exact .inr (.owners composed' composed unit.symm goesOn)

end Meeting

/-- What is defined in one place has different texts. -/
theorem pairwise_marks (occurrence : Occurrence) :
    occurrence.marks.Pairwise fun earlier later => earlier.text ≠ later.text := by
  obtain ⟨unit, context, command⟩ := occurrence
  cases command with
  | operate op =>
      cases op with
      | comparison op => exact List.pairwise_map.mp (Command.nodup_marks rfl)
      | _ => exact List.Pairwise.nil
  | function name locals =>
      -- no two of the four texts have the same length
      have length_ne : ∀ {s t : Symbol}, s.text.length ≠ t.text.length → s.text ≠ t.text :=
        fun ne same => ne (congrArg String.length same)
      have dot : ".".length = 1 := rfl
      have loop : "$__LOCALS_LOOP__".length = 16 := rfl
      have done : "$__LOCALS_END__".length = 15 := rfl
      simp only [marks, Command.marks, List.pairwise_cons, List.mem_cons, List.not_mem_nil,
        or_false, forall_eq_or_imp, forall_eq, List.Pairwise.nil, and_true, false_implies,
        implies_true]
      refine ⟨⟨?_, ?_, ?_⟩, ⟨?_, ?_⟩, ?_⟩ <;> refine length_ne ?_ <;>
        simp only [Symbol.text, String.length_append, dot, loop, done] <;> omega
  | label _ => exact List.pairwise_singleton _ _
  | call _ _ => exact List.pairwise_singleton _ _
  | _ => exact List.Pairwise.nil

end Occurrence

/-! ## Programs -/

theorem named_of_mem_commandsOf {units : List (String × String)}
    (named : ∀ unit ∈ units, Name.IsName unit.1) :
    ∀ entry ∈ commandsOf units, Name.IsName entry.1 ∧ entry.2.WellNamed := by
  induction units with
  | nil => exact fun _ member => absurd member List.not_mem_nil
  | cons head units ih =>
      obtain ⟨unit, source⟩ := head
      have rest := ih fun u hu => named u (List.mem_cons_of_mem _ hu)
      rw [commandsOf]
      split
      · next commands read =>
          refine List.forall_mem_append.mpr ⟨?_, rest⟩
          intro entry member
          obtain ⟨command, inRead, rfl⟩ := List.mem_map.mp member
          exact ⟨named _ (List.mem_cons_self ..), Source.wellNamed_of_commands read command inRead⟩
      · exact rest

/-- Units have proper names, and no function and no label is defined twice in them. -/
structure Tidy (units : List (String × String)) : Prop where
  named : ∀ unit ∈ units, Name.IsName unit.1
  functions : (functionsOf (program units)).Nodup
  labels : (labelsOf (program units)).Nodup

/-- The symbols that a text defines are told apart up to the names that were chosen. -/
structure ApartByName (units : List (String × String)) (text : String) : Prop where
  /-- The text defines what the commands of the units do, in their order. -/
  defined : definedIn text = (symbolsOf (program units)).map Symbol.text
  /-- No other symbols than those that meet are defined under one text. -/
  distinct : (symbolsOf (program units)).Pairwise fun symbol other => symbol.text = other.text →
    Meets (program units) symbol other ∨ Meets (program units) other symbol
  /-- Only a bare name can be a predefined symbol. -/
  predefined : ∀ symbol ∈ symbolsOf (program units), predefined? symbol.text ≠ none →
    ∃ name, symbol = .plain name ∧ IsBare (program units) name
  /-- Only a bare name can be a static, but for statics of a unit that goes on behind the name of
  the symbol's own unit. -/
  notStatic : ∀ symbol ∈ symbolsOf (program units), ∀ unit index,
    symbol.text = (Symbol.static unit index).text →
      (∃ name, symbol = .plain name ∧ IsBare (program units) name) ∨
        ∃ compound, symbol.compound? = some compound ∧ Extends '.' unit compound.unit

section Program

variable {bootstrap : Option Bootstrap} {units : List (String × String)} {symbol : Symbol}
  {text : String}

/-- Without double definitions, what a program defines has different texts up to what meets. -/
theorem pairwise_meets (tidy : Tidy units) :
    (symbolsOf (program units)).Pairwise fun symbol other => symbol.text = other.text →
      Meets (program units) symbol other ∨ Meets (program units) other symbol := by
  refine List.pairwise_flatMap.mpr ⟨?_, ?_⟩
  · intro occurrence _
    exact occurrence.pairwise_marks.imp fun ne same => absurd same ne
  · refine List.Pairwise.imp_of_mem ?_ (Occurrence.pairwise_apart tidy.functions tidy.labels)
    intro occurrence other here there apart symbol defined symbol' defined'
    exact Occurrence.meets_of_text_eq here there apart (Occurrence.defines_of_mem_marks defined)
      (Occurrence.defines_of_mem_marks defined')

/-- What a program defines is a bare name, an arm of a comparison, or a compound of names. -/
theorem kind_of_mem_symbolsOf (named : ∀ unit ∈ units, Name.IsName unit.1)
    (h : symbol ∈ symbolsOf (program units)) :
    (∃ name, symbol = .plain name ∧ IsBare (program units) name) ∨
      (∃ arm number, symbol = .comparison arm number) ∨
        ∃ compound, symbol.compound? = some compound ∧
          Name.IsName compound.owner := by
  obtain ⟨occurrence, here, marked⟩ := List.mem_flatMap.mp h
  have proper : occurrence.Named :=
    Occurrence.named_of_mem (show ∀ f ∈ Context.fresh.function, Name.IsName f from nofun)
      (named_of_mem_commandsOf named) here
  have defines := Occurrence.defines_of_mem_marks marked
  rcases Occurrence.kind_of_defines defines with ⟨name, rfl⟩ | arm | ⟨compound, composed⟩
  · exact .inl ⟨name, rfl, Occurrence.isBare_of_defines here defines⟩
  · exact .inr (.inl arm)
  · exact .inr (.inr ⟨compound, composed, (proper.symbol marked).isName_owner composed⟩)

theorem isBare_of_predefined (named : ∀ unit ∈ units, Name.IsName unit.1)
    (h : symbol ∈ symbolsOf (program units)) (known : predefined? symbol.text ≠ none) :
    ∃ name, symbol = .plain name ∧ IsBare (program units) name := by
  rcases kind_of_mem_symbolsOf named h with bare | ⟨arm, number, rfl⟩ | ⟨compound, composed, -⟩
  · exact bare
  · have underscore := underscore_mem_text_comparison arm number
    exact absurd (predefined?_eq_none_of_mem underscore (by decide)) known
  · have dot := Symbol.dot_mem_text_of_compound? composed
    exact absurd (predefined?_eq_none_of_mem dot (by decide)) known

theorem isBare_or_extends_of_static (named : ∀ unit ∈ units, Name.IsName unit.1)
    (h : symbol ∈ symbolsOf (program units)) {unit : String} {index : UInt32}
    (same : symbol.text = (Symbol.static unit index).text) :
    (∃ name, symbol = .plain name ∧ IsBare (program units) name) ∨
      ∃ compound, symbol.compound? = some compound ∧
        Extends '.' unit compound.unit := by
  rcases kind_of_mem_symbolsOf named h with
    bare | ⟨arm, number, rfl⟩ | ⟨compound, composed, owner⟩
  · exact .inl bare
  · have dot := dot_mem_text_static unit index
    rw [← same] at dot
    exact absurd dot (dot_not_mem_text_comparison arm number)
  · have chars : compound.chars = (Symbol.static unit index).text.toList := by
      rw [← Symbol.toList_text_of_compound? composed, same]
    exact .inr ⟨compound, composed, Compound.extends_of_chars_eq_static owner chars⟩

/-- **Symbols are told apart by name.** The symbols of a program in which no function and no label
is defined twice are defined once each, and are none of the predefined ones and no statics, except
where the names that were chosen make them meet. -/
theorem symbols_apart_by_name (entry : ∀ b ∈ bootstrap, '\n' ∉ b.entry.toList)
    (tidy : Tidy units) (success : compile bootstrap units = .ok text) :
    ApartByName units text where
  defined := definedIn_compile entry tidy.named success
  distinct := pairwise_meets tidy
  predefined _ := isBare_of_predefined tidy.named
  notStatic _ h _ _ := isBare_or_extends_of_static tidy.named h

end Program

/-- Functions, labels, statics and calls of two units, all of them apart. -/
theorem symbols_apart_by_name_calls :
    let units :=
      [("Main", "function Main.main 0\nlabel LOOP\ncall Util.same 0\nif-goto LOOP\nreturn\n"),
       ("Util", "function Util.same 1\npush static 0\npush local 0\neq\nreturn\n")]
    ∃ text, Tidy units ∧ compile (some {}) units = .ok text ∧ ApartByName units text ∧
      definedIn text =
        ["Main.Main.main", "Main.main", "Main.Main.main$__LOCALS_LOOP__",
         "Main.Main.main$__LOCALS_END__", "Main.Main.main$LOOP", "Main.Util.same$ret.0",
         "Util.Util.same", "Util.same", "Util.Util.same$__LOCALS_LOOP__",
         "Util.Util.same$__LOCALS_END__", "FALSE_0", "TRUE_0", "ENDIF_0"] := by
  intro units
  have tidy : Tidy units := ⟨by decide, by decide +kernel, by decide +kernel⟩
  obtain ⟨text, success⟩ : ∃ text, compile (some {}) units = .ok text :=
    exists_of_isOk (by decide +kernel)
  have apart := symbols_apart_by_name (by decide) tidy success
  refine ⟨text, tidy, success, apart, ?_⟩
  rw [apart.defined]
  decide +kernel

/-- Units make a program, and what it defines has the property. -/
def CanDefine (bootstrap : Option Bootstrap) (units : List (String × String))
    (property : List String → Prop) : Prop :=
  ∃ text, compile bootstrap units = .ok text ∧ property (definedIn text)

theorem canDefine_of_symbolsOf {units : List (String × String)} {property : List String → Prop}
    (named : ∀ unit ∈ units, Name.IsName unit.1) (made : (compile none units).isOk = true)
    (h : property ((symbolsOf (program units)).map Symbol.text)) :
    CanDefine none units property := by
  have entry : ∀ b ∈ (none : Option Bootstrap), '\n' ∉ b.entry.toList := nofun
  obtain ⟨text, success⟩ := exists_of_isOk made
  refine ⟨text, success, ?_⟩
  rwa [definedIn_compile entry named success]

/-- Tidy units with different names make a program, and what it defines has the property. -/
def TidyWith (units : List (String × String)) (property : List String → Prop) : Prop :=
  (units.map Prod.fst).Nodup ∧ Tidy units ∧ CanDefine none units property

theorem tidyWith_of_symbolsOf {units : List (String × String)} {property : List String → Prop}
    (distinct : (units.map Prod.fst).Nodup) (named : ∀ unit ∈ units, Name.IsName unit.1)
    (functions : (functionsOf (program units)).Nodup) (labels : (labelsOf (program units)).Nodup)
    (made : (compile none units).isOk = true)
    (h : property ((symbolsOf (program units)).map Symbol.text)) : TidyWith units property :=
  ⟨distinct, ⟨named, functions, labels⟩, canDefine_of_symbolsOf named made h⟩

/-- Names make symbols meet in each of these ways: a label spells another symbol or has the name of
a function, a unit or a function goes on behind another one, or a label is called like a place that
code is generated for. They also can make a symbol that is predefined, or a static. Not names are to
blame in the last two: behind a `return` a label is private to no function, and an entry that runs
over the end of a line defines what stands there. -/
theorem names_meet :
    TidyWith [("U", "label TRUE_0\neq\n")] (¬·.Nodup) ∧
      TidyWith [("U", "label f\nfunction f 0\n")] (¬·.Nodup) ∧
      TidyWith [("A", "function b.c 0\n"), ("A.b", "function c 0\n")] (¬·.Nodup) ∧
      TidyWith [("U", "function f 0\nlabel L\nfunction f$L 0\n")] (¬·.Nodup) ∧
      TidyWith [("U", "function f 0\nlabel __LOCALS_LOOP__\n")] (¬·.Nodup) ∧
      TidyWith [("U", "function f 0\nlabel __LOCALS_END__\n")] (¬·.Nodup) ∧
      TidyWith [("U", "function f 0\ncall f 0\nlabel ret.0\n")] (¬·.Nodup) ∧
      TidyWith [("U", "label SP\n")] (∃ symbol ∈ ·, predefined? symbol ≠ none) ∧
      TidyWith [("U", "label U.0\npush static 0\n")] ((Symbol.static "U" 0).text ∈ ·) ∧
      TidyWith [("A", "function f 0\nlabel x.0\n"), ("A.f$x", "push static 0\n")]
        ((Symbol.static "A.f$x" 0).text ∈ ·) ∧
      CanDefine none [("U", "function f 0\nreturn\nlabel L\nfunction g 0\nreturn\nlabel L\n")]
        (¬·.Nodup) ∧
      CanDefine (some { entry := "f\n(f)" }) [("U", "label f\n")] (¬·.Nodup) := by
  refine ⟨?_, ?_, ?_, ?_, ?_, ?_, ?_, ?_, ?_, ?_, ?_, ?_⟩
  case refine_11 =>
    exact canDefine_of_symbolsOf (by decide) (by decide +kernel) (by decide +kernel)
  case refine_12 =>
    exact ⟨"// bootstrap\n@256\nD=A\n@SP\nM=D\n@f\n(f)\n0;JMP\n// label f\n(f)\n",
      by decide +kernel, by decide +kernel⟩
  all_goals
    exact tidyWith_of_symbolsOf (by decide) (by decide) (by decide +kernel) (by decide +kernel)
      (by decide +kernel) (by decide +kernel)

end StackToHack
