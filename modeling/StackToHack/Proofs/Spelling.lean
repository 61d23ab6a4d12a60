import StackToHack.Proofs.Generation
import StackToHack.Proofs.Machine.Listing
import StackToHack.Proofs.Scope

/-!
# Spelling of code

The symbols in the code of a command are those of the machine and those that are composed of its
names and its unit (`within_of_code_eq_ok`); only labels bring in the function that they stand in.

So code that is made of commands with proper names, for a unit with a proper name, can be read: its
symbols are spelled with the characters of names, its numbers fit into one instruction, and its
comments do not run over the ends of their lines.
-/

namespace StackToHack

open Hack

/-! ## Characters -/

theorem toNat_of_isAlpha {c : Char} (h : c.isAlpha = true) : 65 ≤ c.toNat ∧ c.toNat ≤ 122 := by
  have letter : (decide ('A'.val ≤ c.val ∧ c.val ≤ 'Z'.val) ||
      (decide ('a'.val ≤ c.val) && decide (c.val ≤ 'z'.val))) = true := h
  simp only [Bool.or_eq_true, Bool.and_eq_true, decide_eq_true_eq, UInt32.le_iff_toNat_le]
    at letter
  have upper : 'A'.val.toNat = 65 ∧ 'Z'.val.toNat = 90 := ⟨rfl, rfl⟩
  have lower : 'a'.val.toNat = 97 ∧ 'z'.val.toNat = 122 := ⟨rfl, rfl⟩
  rw [Char.toNat]
  omega

theorem isDigit_of_isInitial {c : Char} (h : Name.isInitial c = true) : c.isDigit = false := by
  simp only [Name.isInitial, Bool.or_eq_true, beq_iff_eq] at h
  rcases h with ((alpha | rfl) | rfl) | rfl
  · have low := (toNat_of_isAlpha alpha).1
    rw [Bool.eq_false_iff]
    intro digit
    have high := (Char.isDigit_iff_toNat.mp digit).2
    rw [show '9'.toNat = 57 from rfl] at high
    omega
  · decide
  · decide
  · decide

theorem isPlain_of_isFollowing {c : Char} (h : Name.isFollowing c = true) : isPlain c = true := by
  simp only [Name.isFollowing, Name.isInitial, Bool.or_eq_true, beq_iff_eq] at h
  rcases h with (((((alpha | rfl) | rfl) | rfl) | digit) | rfl)
  · obtain ⟨low, high⟩ := toNat_of_isAlpha alpha
    exact isPlain_of_toNat low high (by decide) (by decide)
  · decide
  · decide
  · decide
  · exact isPlain_of_isDigit digit
  · decide

theorem all_isPlain_of_all_isFollowing {cs : List Char} (h : cs.all Name.isFollowing = true) :
    cs.all isPlain = true := by
  rw [List.all_eq_true]
  intro c member
  exact isPlain_of_isFollowing (List.all_eq_true.mp h c member)

theorem all_isFollowing_of_isName {name : String} (h : Name.IsName name) :
    name.toList.all Name.isFollowing = true := by
  rw [Name.IsName] at h
  cases hcs : name.toList with
  | nil => rfl
  | cons c cs =>
      rw [hcs, Name.isNameList, Bool.and_eq_true] at h
      rw [List.all_cons, h.2, Name.isFollowing, h.1]
      rfl

theorem all_isFollowing_toDigits (n : Nat) : (Nat.toDigits 10 n).all Name.isFollowing = true := by
  rw [List.all_eq_true]
  intro c member
  have digit := Nat.isDigit_of_mem_toDigits (by decide) (by decide) member
  simp [Name.isFollowing, digit]

/-! ## Symbols -/

/-- All names that a symbol is composed of are names. -/
def Hack.Symbol.Named : Symbol → Prop
  | .register _ | .comparison _ _ => True
  | .plain name => Name.IsName name
  | .static unit _ => Name.IsName unit
  | .function unit name | .localsLoop unit name | .localsEnd unit name
  | .returnSite unit name _ => Name.IsName unit ∧ Name.IsName name
  | .label unit owner name => Name.IsName unit ∧ Name.IsName owner ∧ Name.IsName name

theorem all_isFollowing_text_register (register : Register) :
    register.text.toList.all Name.isFollowing = true := by
  cases register with
  | r index => revert index; decide
  | _ => decide

theorem Hack.Symbol.Named.all_isFollowing {symbol : Symbol} (h : symbol.Named) :
    symbol.text.toList.all Name.isFollowing = true := by
  have dot : Name.isFollowing '.' = true := by decide
  have dollar : Name.isFollowing '$' = true := by decide
  have underscore : Name.isFollowing '_' = true := by decide
  have digits := all_isFollowing_toDigits
  cases symbol with
  | register register => exact all_isFollowing_text_register register
  | plain name => exact all_isFollowing_of_isName h
  | static unit index =>
      have hunit := all_isFollowing_of_isName h
      simp [Symbol.text, hunit, dot, digits, -List.all_eq_true]
  | function unit name =>
      have hunit := all_isFollowing_of_isName h.1
      have hname := all_isFollowing_of_isName h.2
      simp [Symbol.text, hunit, hname, dot, -List.all_eq_true]
  | label unit owner name =>
      have hunit := all_isFollowing_of_isName h.1
      have howner := all_isFollowing_of_isName h.2.1
      have hname := all_isFollowing_of_isName h.2.2
      simp [Symbol.text, hunit, howner, hname, dot, dollar, -List.all_eq_true]
  | localsLoop unit owner =>
      have hunit := all_isFollowing_of_isName h.1
      have howner := all_isFollowing_of_isName h.2
      have tail : "$__LOCALS_LOOP__".toList.all Name.isFollowing = true := by decide
      simp only [Symbol.text, String.toList_append, List.all_append, hunit, howner, tail]
      decide
  | localsEnd unit owner =>
      have hunit := all_isFollowing_of_isName h.1
      have howner := all_isFollowing_of_isName h.2
      have tail : "$__LOCALS_END__".toList.all Name.isFollowing = true := by decide
      simp only [Symbol.text, String.toList_append, List.all_append, hunit, howner, tail]
      decide
  | returnSite unit callee site =>
      have hunit := all_isFollowing_of_isName h.1
      have hcallee := all_isFollowing_of_isName h.2
      have tail : "$ret.".toList.all Name.isFollowing = true := by decide
      have hsite : (toString site).toList.all Name.isFollowing = true := by
        rw [show (toString site).toList = Nat.toDigits 10 site from Nat.toList_repr]
        exact digits site
      simp only [Symbol.text, String.toList_append, List.all_append, hunit, hcallee, tail, hsite]
      decide
  | comparison arm number =>
      have harm : arm.text.toList.all Name.isFollowing = true := by cases arm <;> decide
      simp [Symbol.text, harm, underscore, digits, -List.all_eq_true]

theorem Hack.Symbol.Named.readable {symbol : Symbol} (h : symbol.Named) :
    symbol.text.toList.all isPlain = true :=
  all_isPlain_of_all_isFollowing h.all_isFollowing

/-! ## Symbols in code -/

/-- A line that is no comment, has a number that fits if it has one, and otherwise only symbols of
one kind. -/
def Hack.Line.Within (allowed : Symbol → Prop) : Line → Prop
  | .comment _ => False
  | .number value => value ≤ 32767
  | .symbol s | .mark s => allowed s
  | .compute _ _ _ => True

/-- All lines of code are of this kind. -/
def Within (allowed : Symbol → Prop) (code : Code) : Prop := ∀ line ∈ code, line.Within allowed

/-- A comment that ends where its line does, or a line that has proper names in its symbol. -/
def Hack.Line.Spelled : Line → Prop
  | .comment text => '\n' ∉ text.toList
  | line => line.Within Symbol.Named

/-- All lines of code are spelled so. -/
def Spelled (code : Code) : Prop := ∀ line ∈ code, line.Spelled

section Within

variable {allowed wider : Symbol → Prop} {code : Code}

theorem Within.mono (h : Within allowed code) (wide : ∀ symbol, allowed symbol → wider symbol) :
    Within wider code := by
  intro line member
  have within := h line member
  cases line with
  | symbol symbol => exact wide symbol within
  | mark symbol => exact wide symbol within
  | _ => exact within

theorem Within.spelled (h : Within Symbol.Named code) : Spelled code := by
  intro line member
  have within := h line member
  cases line with
  | comment text => exact within.elim
  | _ => exact within

/-- Code that is spelled with proper names can be read. -/
theorem Spelled.readable (h : Spelled code) : Readable code := by
  intro line member
  have spelled := h line member
  cases line with
  | symbol symbol => exact Symbol.Named.readable spelled
  | mark symbol => exact Symbol.Named.readable spelled
  | _ => exact spelled

theorem Within.readable (h : Within Symbol.Named code) : Readable code := h.spelled.readable

@[simp] theorem spelled_nil : Spelled [] := List.forall_mem_nil _

@[simp] theorem spelled_cons {line : Line} :
    Spelled (line :: code) ↔ line.Spelled ∧ Spelled code :=
  List.forall_mem_cons

@[simp] theorem spelled_append {front back : Code} :
    Spelled (front ++ back) ↔ Spelled front ∧ Spelled back :=
  List.forall_mem_append

@[simp] theorem within_nil : Within allowed [] := List.forall_mem_nil _

@[simp] theorem within_cons {line : Line} :
    Within allowed (line :: code) ↔ line.Within allowed ∧ Within allowed code :=
  List.forall_mem_cons

@[simp] theorem within_append {front back : Code} :
    Within allowed (front ++ back) ↔ Within allowed front ∧ Within allowed back :=
  List.forall_mem_append

@[simp] theorem within_symbol {symbol : Symbol} :
    (Line.symbol symbol).Within allowed ↔ allowed symbol :=
  Iff.rfl

@[simp] theorem within_mark {symbol : Symbol} :
    (Line.mark symbol).Within allowed ↔ allowed symbol :=
  Iff.rfl

@[simp] theorem within_register {register : Register} :
    (Line.register register).Within allowed ↔ allowed (.register register) :=
  Iff.rfl

@[simp] theorem within_number {value : Nat} :
    (Line.number value).Within allowed ↔ value ≤ 32767 :=
  Iff.rfl

@[simp] theorem within_set (dest : Dest) (comp : Comp) : (Line.set dest comp).Within allowed :=
  trivial

@[simp] theorem within_goto (comp : Comp) (jump : Jump) : (Line.goto comp jump).Within allowed :=
  trivial

variable (registers : ∀ register, allowed (.register register))

include registers

theorem within_pushD : Within allowed Code.pushD := by simp [Code.pushD, registers]

theorem within_popD : Within allowed Code.popD := by simp [Code.popD, registers]

theorem within_operation {number : Nat} (arms : ∀ arm, allowed (.comparison arm number))
    (op : Operation) : Within allowed (Code.operation number op) := by
  have pops := within_popD registers
  cases op with
  | unary op => simp [Code.operation, Code.unary, registers]
  | binary op => simp [Code.operation, Code.binary, Code.popOperands, pops, registers]
  | comparison op =>
      simp [Code.operation, Code.comparison, Code.popOperands, pops, registers, arms]

/-- Where a cell is found decides which symbols move words there and back. -/
theorem within_place {unit : String} {index : UInt32} {region : Region} {place : Code.Place}
    (static : allowed (.static unit index)) (h : Code.place unit index region = .ok place) :
    Within allowed (Code.fetch place) ∧ Within allowed (Code.store place) := by
  have pushes := within_pushD registers
  have pops := within_popD registers
  have cell : ∀ symbol, allowed symbol →
      Within allowed (Code.fetch (.cell symbol)) ∧ Within allowed (Code.store (.cell symbol)) := by
    intro symbol isAllowed
    simp [Code.fetch, Code.store, pushes, pops, isAllowed]
  have offset : ∀ base index, index ≤ 32767 → Within allowed (Code.fetch (.offset base index)) ∧
      Within allowed (Code.store (.offset base index)) := by
    intro base index small
    simp [Code.fetch, Code.store, pushes, pops, registers, small]
  have found := Code.place_cases h
  cases region with
  | static =>
      obtain rfl : place = .cell (.static unit index) := found
      exact cell _ static
  | pointer =>
      rcases found with ⟨-, rfl⟩ | ⟨-, rfl⟩
      · exact cell _ (registers _)
      · exact cell _ (registers _)
  | temp =>
      obtain ⟨number, -, -, rfl⟩ := found
      exact cell _ (registers _)
  | _ =>
      obtain ⟨rfl, small⟩ := found
      exact offset _ _ small

theorem within_enter {unit name : String} {locals : Nat} (inUnit : allowed (.function unit name))
    (everywhere : allowed (.plain name)) (loop : allowed (.localsLoop unit name))
    (done : allowed (.localsEnd unit name)) (small : locals ≤ 32767) :
    Within allowed (Code.enter unit name locals) := by
  have pushes := within_pushD registers
  simp [Code.enter, pushes, registers, inUnit, everywhere, loop, done, small]

theorem within_invoke {callee : String} {site : Symbol} {args : Nat}
    (everywhere : allowed (.plain callee)) (isAllowed : allowed site) (small : args ≤ 32767) :
    Within allowed (Code.invoke callee site args) := by
  have pushes := within_pushD registers
  have saves : ∀ register, Within allowed (Code.save register) := by
    intro register
    simp [Code.save, Code.fetch, pushes, registers]
  simp [Code.invoke, pushes, saves, registers, everywhere, isAllowed, small]

theorem within_ret : Within allowed Code.ret := by
  have pops := within_popD registers
  simp [Code.ret, Code.restore, pops, registers]

theorem within_branchCode {target : Symbol} (isAllowed : allowed target) (command : Command) :
    Within allowed (command.branchCode target) := by
  have pops := within_popD registers
  cases command with
  | label name => simp [Command.branchCode, Code.label, isAllowed]
  | goto name => simp [Command.branchCode, Code.goto, isAllowed]
  | ifGoto name => simp [Command.branchCode, Code.ifGoto, pops, isAllowed]
  | _ => exact within_nil

end Within

/-! ## Blocks -/

@[simp] theorem readable_nil : Readable [] := List.forall_mem_nil _

@[simp] theorem readable_cons {line : Line} {code : Code} :
    Readable (line :: code) ↔ line.Readable ∧ Readable code :=
  List.forall_mem_cons

@[simp] theorem readable_append {front back : Code} :
    Readable (front ++ back) ↔ Readable front ∧ Readable back :=
  List.forall_mem_append

theorem Hack.Symbol.named_register (register : Register) : (Symbol.register register).Named :=
  trivial

theorem spelled_operation (number : Nat) (op : Operation) : Spelled (Code.operation number op) :=
  (within_operation Symbol.named_register (fun _ => trivial) op).spelled

theorem readable_invoke {callee : String} {site : Symbol} {args : Nat}
    (hcallee : Name.IsName callee) (hsite : site.Named) (hargs : args ≤ 32767) :
    Readable (Code.invoke callee site args) := by
  have everywhere : (Symbol.plain callee).Named := hcallee
  exact (within_invoke Symbol.named_register everywhere hsite hargs).readable

theorem readable_ret : Readable Code.ret := by
  have within : Within Symbol.Named Code.ret := within_ret Symbol.named_register
  exact within.readable

/-! ## Commands -/

/-- The symbols of the machine, of comparisons, and those that are composed of a unit and names. -/
def Hack.Symbol.ComposedOf (unit : String) (names : List String) : Symbol → Prop
  | .register _ | .comparison _ _ => True
  | .plain name => name ∈ names
  | .static owner _ => owner = unit
  | .function owner name | .localsLoop owner name | .localsEnd owner name
  | .returnSite owner name _ => owner = unit ∧ name ∈ names
  | .label _ _ _ => False

theorem Hack.Symbol.ComposedOf.named {unit : String} {names : List String} {symbol : Symbol}
    (hunit : Name.IsName unit) (hnames : ∀ name ∈ names, Name.IsName name)
    (h : symbol.ComposedOf unit names) : symbol.Named := by
  cases symbol with
  | register register => trivial
  | comparison arm number => trivial
  | plain name => exact hnames name h
  | label owner function name => exact h.elim
  | static owner index =>
      obtain rfl : owner = unit := h
      exact hunit
  | function owner name | localsLoop owner name | localsEnd owner name
  | returnSite owner name site =>
      obtain ⟨rfl, member⟩ := h
      exact ⟨hunit, hnames name member⟩

theorem Hack.Symbol.named_target {unit name : String} {function : Option String}
    (hunit : Name.IsName unit) (hfunction : ∀ f ∈ function, Name.IsName f)
    (hname : Name.IsName name) : (Code.target unit function name).Named := by
  cases function with
  | none => exact hname
  | some f => exact ⟨hunit, hfunction f rfl, hname⟩

theorem Command.mem_names_of_branchLabel? {command : Command} {name : String}
    (h : command.branchLabel? = some name) : name ∈ command.names := by
  cases command with
  | label _ | goto _ | ifGoto _ =>
      cases h
      exact List.mem_singleton_self _
  | _ => cases h

section Commands

variable {unit : String} {context : Context}

/-- The symbols of a command that names no label are composed of the unit and its names, whatever
function the code is in. -/
theorem within_of_code_eq_ok {command : Command} {block : Code}
    (noLabel : command.branchLabel? = none) (h : command.code unit context = .ok block) :
    Within (Symbol.ComposedOf unit command.names) block := by
  have registers : ∀ register, (Symbol.register register).ComposedOf unit command.names :=
    fun _ => trivial
  have made := Command.code_eq_ok h
  cases command with
  | operate op =>
      obtain rfl : block = Code.operation context.comparisons op := made
      exact within_operation registers (fun _ => trivial) op
  | push segment index =>
      cases segment with
      | constant =>
          obtain ⟨value, rfl, hvalue⟩ := made
          simp [Code.pushNumber, within_pushD registers, Code.le_of_loadable hvalue]
      | region region =>
          obtain ⟨place, rfl, hplace⟩ := made
          exact (within_place registers rfl hplace).1
  | pop segment index =>
      cases segment with
      | constant => exact made.elim
      | region region =>
          obtain ⟨place, rfl, hplace⟩ := made
          exact (within_place registers rfl hplace).2
  | function name locals =>
      obtain ⟨count, rfl, hcount⟩ := made
      have member := List.mem_singleton_self name
      exact within_enter registers ⟨rfl, member⟩ member ⟨rfl, member⟩ ⟨rfl, member⟩
        (Code.le_of_loadable hcount)
  | call name args =>
      obtain ⟨count, rfl, hcount⟩ := made
      have member := List.mem_singleton_self name
      exact within_invoke registers member ⟨rfl, member⟩ (Code.le_of_loadable hcount)
  | ret =>
      obtain rfl : block = Code.ret := made
      exact within_ret registers
  | label name | goto name | ifGoto name => cases noLabel

/-- The symbols of a command with proper names are composed of proper names. -/
theorem within_named_of_code_eq_ok {command : Command} {block : Code} (hunit : Name.IsName unit)
    (hfunction : ∀ f ∈ context.function, Name.IsName f) (named : command.WellNamed)
    (h : command.code unit context = .ok block) : Within Symbol.Named block := by
  cases hlabel : command.branchLabel? with
  | none =>
      have within := within_of_code_eq_ok hlabel h
      exact within.mono fun _ composed => composed.named hunit named
  | some name =>
      rw [Command.code_of_branchLabel? hlabel] at h
      obtain rfl := Except.ok.inj h
      have target := Symbol.named_target hunit hfunction
        (named name (Command.mem_names_of_branchLabel? hlabel))
      exact within_branchCode Symbol.named_register target command

/-- Commands with proper names leave a function with a proper name. -/
theorem Context.isName_function_after {command : Command} (named : command.WellNamed)
    (h : ∀ f ∈ context.function, Name.IsName f) :
    ∀ f ∈ (context.after command).function, Name.IsName f := by
  cases command with
  | function name locals =>
      intro f member
      obtain rfl : name = f := Option.some.inj member
      exact named name (by simp [Command.names])
  | ret =>
      intro f member
      cases member
  | operate op => cases op <;> exact h
  | _ => exact h

/-- The code of a unit with proper names is spelled with them. -/
theorem spelled_of_generate {commands : List Captioned} {code : Code} (hunit : Name.IsName unit)
    (hfunction : ∀ f ∈ context.function, Name.IsName f)
    (captions : ∀ captioned ∈ commands, '\n' ∉ captioned.text.toList)
    (named : ∀ captioned ∈ commands, captioned.command.WellNamed)
    (h : (generate unit context commands).result = .ok code) : Spelled code := by
  induction commands generalizing context code with
  | nil =>
      obtain rfl : [] = code := Except.ok.inj h
      exact spelled_nil
  | cons captioned rest ih =>
      obtain ⟨block, following, hblock, hfollowing, rfl⟩ := generate_cons_eq_ok.mp h
      have here := List.mem_cons_self (a := captioned) (l := rest)
      rw [List.cons_append, spelled_cons, spelled_append]
      refine ⟨captions captioned here, ?_, ?_⟩
      · exact (within_named_of_code_eq_ok hunit hfunction (named captioned here) hblock).spelled
      · exact ih (Context.isName_function_after (named captioned here) hfunction)
          (fun c hc => captions c (List.mem_cons_of_mem _ hc))
          (fun c hc => named c (List.mem_cons_of_mem _ hc)) hfollowing

/-- So it can be read. -/
theorem readable_of_generate {commands : List Captioned} {code : Code} (hunit : Name.IsName unit)
    (hfunction : ∀ f ∈ context.function, Name.IsName f)
    (captions : ∀ captioned ∈ commands, '\n' ∉ captioned.text.toList)
    (named : ∀ captioned ∈ commands, captioned.command.WellNamed)
    (h : (generate unit context commands).result = .ok code) : Readable code :=
  (spelled_of_generate hunit hfunction captions named h).readable

end Commands

/-! ## Captions -/

/-- The words that the language gives a meaning to. -/
def keywords : List String :=
  Operation.all.map Operation.word ++ Segment.all.map Segment.word ++
    ["push", "pop", "label", "goto", "if-goto", "function", "call", "return"]

theorem Operation.word_mem_keywords (op : Operation) : op.word ∈ keywords :=
  List.mem_append_left _ (List.mem_append_left _ (List.mem_map_of_mem op.mem_all))

theorem Segment.word_mem_keywords (segment : Segment) : segment.word ∈ keywords :=
  List.mem_append_left _ (List.mem_append_right _ (List.mem_map_of_mem segment.mem_all))

/-- The fields of a command are words of the language, numerals and its names. -/
theorem Command.mem_toFields_cases {command : Command} {field : String}
    (h : field ∈ command.toFields) :
    field ∈ keywords ∨ (∃ n, field = Numeral.write n) ∨ field ∈ command.names := by
  cases command with
  | operate op =>
      obtain rfl := List.mem_singleton.mp h
      exact .inl op.word_mem_keywords
  | push segment index | pop segment index =>
      simp only [toFields, List.mem_cons, List.not_mem_nil, or_false] at h
      rcases h with rfl | rfl | rfl
      · exact .inl (by decide)
      · exact .inl segment.word_mem_keywords
      · exact .inr (.inl ⟨index, rfl⟩)
  | label name | goto name | ifGoto name =>
      simp only [toFields, List.mem_cons, List.not_mem_nil, or_false] at h
      rcases h with rfl | rfl
      · exact .inl (by decide)
      · exact .inr (.inr (List.mem_singleton_self _))
  | function name count | call name count =>
      simp only [toFields, List.mem_cons, List.not_mem_nil, or_false] at h
      rcases h with rfl | rfl | rfl
      · exact .inl (by decide)
      · exact .inr (.inr (List.mem_singleton_self _))
      · exact .inr (.inl ⟨count, rfl⟩)
  | ret =>
      obtain rfl := List.mem_singleton.mp h
      exact .inl (by decide)

/-- The fields of a command with proper names are spelled with plain characters. -/
theorem all_isPlain_of_mem_toFields {command : Command} (named : command.WellNamed)
    {field : String} (h : field ∈ command.toFields) : field.toList.all isPlain = true := by
  have known : ∀ word ∈ keywords, word.toList.all isPlain = true := by decide
  rcases Command.mem_toFields_cases h with keyword | ⟨n, rfl⟩ | name
  · exact known field keyword
  · rw [Numeral.toList_write]
    exact all_isPlain_of_all_isFollowing (all_isFollowing_toDigits n.toNat)
  · exact all_isPlain_of_all_isFollowing (all_isFollowing_of_isName (named field name))

theorem not_mem_of_all_isPlain {c : Char} (hc : isPlain c = false) {cs : List Char}
    (h : cs.all isPlain = true) : c ∉ cs := by
  intro member
  rw [List.all_eq_true.mp h c member] at hc
  exact Bool.noConfusion hc

theorem not_mem_toList_intercalate {c : Char} {between : String} {fields : List String}
    (hbetween : c ∉ between.toList) (h : ∀ field ∈ fields, c ∉ field.toList) :
    c ∉ (between.intercalate fields).toList := by
  rw [String.toList_intercalate]
  induction fields with
  | nil => simp
  | cons field fields ih =>
      have here := h field (List.mem_cons_self ..)
      have rest := ih fun f hf => h f (List.mem_cons_of_mem _ hf)
      cases fields with
      | nil => simpa using here
      | cons next fields =>
          rw [List.map_cons, List.map_cons, List.intercalate_cons_cons, ← List.map_cons]
          simp only [List.mem_append, not_or]
          exact ⟨⟨here, hbetween⟩, rest⟩

/-- The canonical spelling of a command with proper names is one line. -/
theorem newline_not_mem_render {command : Command} (named : command.WellNamed) :
    '\n' ∉ command.render.toList :=
  not_mem_toList_intercalate (by decide) fun _ member =>
    not_mem_of_all_isPlain (by decide) (all_isPlain_of_mem_toFields named member)

end StackToHack
