import StackToHack.Bootstrap

/-!
# Options

Arguments are understood in two steps. `tokens` says what the words are, each by itself or
together with the one behind it; a word that cannot be understood becomes the token `unknown`.
`Request.ofTokens` then takes the tokens one by one, and the first that settles the matter does so:
an unknown word, a repetition, an empty path or a second path refuses the arguments, while `help`
asks for help whatever comes after it.

The rules are those that `clap` documents for options with one value, for switches, and for one
argument that is no option, with its default settings:

- `tokens` — Options are called by their whole long name or by their letter. A long word may hold its
  value behind `=`, a short one behind its letter, with or without `=`. A value in a word of its own
  must not look like an option; `-` alone never does. A switch takes no value. Letters without a
  value can share one word, with one that takes a value at the end. Behind the word `--` nothing is
  an option.
- `Request.ofTokens` — An option or a switch is given at most once, and so is the path, which must be
  given. Values that are paths are not empty. Help is given as soon as it is asked for.
-/

namespace StackToHack

/-! ## Words -/

inductive Switch
  | noBootstrap | verbose
  deriving DecidableEq

inductive Setting
  | output | entry
  deriving DecidableEq

inductive Token
  | operand (text : String)
  | switch (switch : Switch)
  | setting (setting : Setting) (text : String)
  | help
  | unknown
  deriving DecidableEq

namespace Token

/-- The tokens of one word, and the setting at its end that still needs its value. -/
structure Word where
  tokens : List Token
  open? : Option Setting

/-- A word behind two dashes: one option by its name. -/
def longWord (cs : List Char) : Word :=
  match String.ofList (cs.takeWhile (· != '=')), cs.dropWhile (· != '=') with
  | "output", [] => ⟨[], some .output⟩
  | "output", _ :: value => ⟨[.setting .output (String.ofList value)], none⟩
  | "entry", [] => ⟨[], some .entry⟩
  | "entry", _ :: value => ⟨[.setting .entry (String.ofList value)], none⟩
  | "no-bootstrap", [] => ⟨[.switch .noBootstrap], none⟩
  | "verbose", [] => ⟨[.switch .verbose], none⟩
  | "help", [] => ⟨[.help], none⟩
  | _, _ => ⟨[.unknown], none⟩

/-- A word behind one dash: options by their letters. -/
def shortWord : List Char → Word
  | [] => ⟨[], none⟩
  | ['o'] => ⟨[], some .output⟩
  | 'o' :: '=' :: value => ⟨[.setting .output (String.ofList value)], none⟩
  | 'o' :: value => ⟨[.setting .output (String.ofList value)], none⟩
  | 'v' :: rest =>
    let word := shortWord rest
    { word with tokens := .switch .verbose :: word.tokens }
  | 'h' :: _ => ⟨[.help], none⟩
  | _ :: _ => ⟨[.unknown], none⟩

def word (text : String) : Word :=
  match text.toList with
  | '-' :: '-' :: long => longWord long
  | '-' :: c :: short => shortWord (c :: short)
  | _ => ⟨[.operand text], none⟩

/-- A word that cannot be the value of the option in front of it. -/
def looksLikeOption (text : String) : Bool :=
  match text.toList with
  | '-' :: _ :: _ => true
  | _ => false

end Token

/-- What the words of the arguments are. Nothing is said about words behind one whose value is
missing, since that one settles the matter. -/
def tokens : List String → List Token
  | [] => []
  | text :: rest =>
    if text = "--" then rest.map .operand
    else
      let word := Token.word text
      match word.open?, rest with
      | none, rest => word.tokens ++ tokens rest
      | some _, [] => word.tokens ++ [.unknown]
      | some setting, value :: rest =>
        if Token.looksLikeOption value then word.tokens ++ [.unknown]
        else word.tokens ++ .setting setting value :: tokens rest

/-! ## Requests -/

/-- What a program is to be made from and where it goes. -/
structure Options where
  path : String
  output? : Option String
  bootstrap? : Option Bootstrap
  verbose : Bool
  deriving DecidableEq

inductive Request
  | refused
  | help
  | compile (options : Options)
  deriving DecidableEq

/-- What the tokens so far have given. -/
structure Given where
  path? : Option String := none
  output? : Option String := none
  entry? : Option String := none
  noBootstrap : Bool := false
  verbose : Bool := false

namespace Given

/-- The bootstrap jumps to the standard entry unless another one was named. -/
def bootstrap? (given : Given) : Option Bootstrap :=
  if given.noBootstrap then none
  else
    match given.entry? with
    | some entry => some { entry }
    | none => some {}

def request (given : Given) : Request :=
  match given.path? with
  | some path =>
    .compile
      { path, output? := given.output?, bootstrap? := given.bootstrap?, verbose := given.verbose }
  | none => .refused

/-- A path, provided it is the first one and not empty. -/
def withPath? (given : Given) (path : String) : Option Given :=
  if given.path?.isSome || path = "" then none else some { given with path? := some path }

/-- A switch, provided it was not turned before. -/
def withSwitch? (given : Given) : Switch → Option Given
  | .noBootstrap =>
    if given.noBootstrap then none else some { given with noBootstrap := true }
  | .verbose => if given.verbose then none else some { given with verbose := true }

/-- A setting, provided it was not made before. An output is a path and so not empty. -/
def withSetting? (given : Given) (text : String) : Setting → Option Given
  | .output =>
    if given.output?.isSome || text = "" then none else some { given with output? := some text }
  | .entry => if given.entry?.isSome then none else some { given with entry? := some text }

end Given

namespace Request

/-- What is requested, once the given tokens are counted in. -/
def ofTokens (given : Given) : List Token → Request
  | [] => given.request
  | .help :: _ => .help
  | .unknown :: _ => .refused
  | .operand path :: rest =>
    match given.withPath? path with
    | some given => ofTokens given rest
    | none => .refused
  | .switch switch :: rest =>
    match given.withSwitch? switch with
    | some given => ofTokens given rest
    | none => .refused
  | .setting setting text :: rest =>
    match given.withSetting? text setting with
    | some given => ofTokens given rest
    | none => .refused

def ofArguments (arguments : List String) : Request := ofTokens {} (tokens arguments)

end Request

end StackToHack
