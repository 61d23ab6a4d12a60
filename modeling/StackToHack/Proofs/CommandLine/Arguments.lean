import StackToHack.Proofs.CommandLine.Answer

/-!
# Accepted arguments

Tokens are counted in one by one, but what comes of accepted tokens can be read off all of them at
once: there is one operand, at most one value of each setting, and the rest is whether a switch is
among them (`reflects_of_ofArguments`). What is known of answers for options is so known of answers
for accepted arguments, and no others do anything (`answer_ofArguments`).
-/

namespace StackToHack

/-! ## Tokens by kind -/

namespace Token

def operand? : Token → Option String
  | .operand text => some text
  | _ => none

/-- The value that a token gives to a setting. -/
def value? (setting : Setting) : Token → Option String
  | .setting given text => if given = setting then some text else none
  | _ => none

end Token

/-- What was given by tokens is what can be read off them. -/
structure Given.Reflects (given : Given) (tokens : List Token) : Prop where
  path : tokens.filterMap Token.operand? = given.path?.toList
  nonempty : ∀ path ∈ given.path?, path ≠ ""
  output : tokens.filterMap (Token.value? .output) = given.output?.toList
  entry : tokens.filterMap (Token.value? .entry) = given.entry?.toList
  noBootstrap : given.noBootstrap = true ↔ .switch .noBootstrap ∈ tokens
  verbose : given.verbose = true ↔ .switch .verbose ∈ tokens

/-- Options say what can be read off tokens. -/
structure Options.Reflects (options : Options) (tokens : List Token) : Prop where
  path : tokens.filterMap Token.operand? = [options.path]
  nonempty : options.path ≠ ""
  output : tokens.filterMap (Token.value? .output) = options.output?.toList
  bootstrap : options.bootstrap? =
    if .switch .noBootstrap ∈ tokens then none
    else some { entry := (tokens.filterMap (Token.value? .entry)).headD "Sys.init" }
  verbose : options.verbose = true ↔ .switch .verbose ∈ tokens

/-! ## One token -/

section Step

variable {given next : Given} {seen : List Token} {text : String}

theorem Given.Reflects.withPath (h : given.Reflects seen)
    (step : given.withPath? text = some next) : next.Reflects (seen ++ [.operand text]) := by
  rw [Given.withPath?] at step
  split at step
  · cases step
  · next first =>
    obtain rfl := Option.some.inj step
    simp only [Bool.or_eq_true, decide_eq_true_eq, not_or, Option.not_isSome_iff_eq_none] at first
    obtain ⟨none, nonempty⟩ := first
    constructor
    case path => simp [h.path, none, Token.operand?]
    case nonempty => simpa using nonempty
    all_goals simp [List.filterMap_cons, Token.value?, h.output, h.entry, h.noBootstrap, h.verbose]

theorem Given.Reflects.withSwitch {switch : Switch} (h : given.Reflects seen)
    (step : given.withSwitch? switch = some next) : next.Reflects (seen ++ [.switch switch]) := by
  cases switch <;> rw [Given.withSwitch?] at step <;> split at step
  case noBootstrap.isFalse | verbose.isFalse =>
    obtain rfl := Option.some.inj step
    constructor
    case nonempty => exact h.nonempty
    all_goals
      simp [List.filterMap_cons, Token.operand?, Token.value?, h.path, h.output, h.entry,
        h.noBootstrap, h.verbose]
  all_goals cases step

theorem Given.Reflects.withSetting {setting : Setting} (h : given.Reflects seen)
    (step : given.withSetting? text setting = some next) :
    next.Reflects (seen ++ [.setting setting text]) := by
  cases setting <;> rw [Given.withSetting?] at step <;> split at step
  case output.isFalse first | entry.isFalse first =>
    obtain rfl := Option.some.inj step
    simp only [Bool.or_eq_true, decide_eq_true_eq, not_or, Option.not_isSome_iff_eq_none] at first
    constructor
    case nonempty => exact h.nonempty
    all_goals
      simp [List.filterMap_cons, Token.operand?, Token.value?, h.path, h.output, h.entry,
        h.noBootstrap, h.verbose, first]
  all_goals cases step

end Step

/-! ## All tokens -/

section Run

variable {given : Given} {seen rest : List Token} {options : Options} {arguments : List String}

theorem Given.Reflects.request (h : given.Reflects seen)
    (accepted : given.request = .compile options) : options.Reflects seen := by
  rw [Given.request] at accepted
  split at accepted
  · next path given? =>
    obtain rfl := Request.compile.inj accepted
    have bootstrap : given.bootstrap? =
        if .switch .noBootstrap ∈ seen then none
        else some { entry := (seen.filterMap (Token.value? .entry)).headD "Sys.init" } := by
      simp only [Given.bootstrap?, h.noBootstrap, h.entry]
      cases given.entry? <;> rfl
    refine ⟨?_, h.nonempty path given?, h.output, bootstrap, h.verbose⟩
    rw [h.path, given?]
    rfl
  · cases accepted

/-- Every token that is counted in keeps what was given a reflection of the tokens so far. -/
theorem Given.Reflects.ofTokens (h : given.Reflects seen)
    (accepted : Request.ofTokens given rest = .compile options) :
    options.Reflects (seen ++ rest) := by
  induction rest generalizing given seen with
  | nil =>
      rw [List.append_nil]
      exact h.request accepted
  | cons token rest ih =>
      rw [List.append_cons]
      cases token with
      | operand text =>
          rw [Request.ofTokens] at accepted
          split at accepted
          · next next step => exact ih (h.withPath step) accepted
          · cases accepted
      | switch switch =>
          rw [Request.ofTokens] at accepted
          split at accepted
          · next next step => exact ih (h.withSwitch step) accepted
          · cases accepted
      | setting setting text =>
          rw [Request.ofTokens] at accepted
          split at accepted
          · next next step => exact ih (h.withSetting step) accepted
          · cases accepted
      | help => cases accepted
      | unknown => cases accepted

/-- **Accepted arguments.** Options say what can be read off the tokens they stand for. -/
theorem reflects_of_ofArguments (accepted : Request.ofArguments arguments = .compile options) :
    options.Reflects (tokens arguments) := by
  have empty : Given.Reflects {} [] := ⟨rfl, nofun, rfl, rfl, by simp, by simp⟩
  exact empty.ofTokens accepted

/-- **Answered arguments.** Accepted arguments are answered for the options that they stand for; all
others leave everything as it is. -/
theorem answer_ofArguments {σ : Type} (host : Host (StateM σ)) (arguments : List String) (s : σ) :
    (∃ options, Request.ofArguments arguments = .compile options ∧
        options.Reflects (tokens arguments) ∧
        ((Request.ofArguments arguments).answer host).run s = host.answer options s) ∨
      (((Request.ofArguments arguments).answer host).run s).2 = s := by
  cases accepted : Request.ofArguments arguments with
  | refused => exact .inr rfl
  | help => exact .inr rfl
  | compile options => exact .inl ⟨options, rfl, reflects_of_ofArguments accepted, rfl⟩

end Run

end StackToHack
