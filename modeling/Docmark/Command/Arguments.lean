import Docmark.Flavor
import Docmark.Path

/-!
# Command line arguments

What a command line asks for.  Options may stand in front of the command or behind it; those about
the whole program are known in both places, and behind the command they count more.  An option with
a value takes it from the same argument or from the next one, which must not look like an option.
-/

namespace Docmark.Command

/-! ## Options -/

/-- The options of all commands. -/
inductive Opt where
  | path
  | verbose
  | noColor
  | out
  | flavor
  | format
  | strict
  | help
deriving DecidableEq

namespace Opt

/-- The name behind two hyphens. -/
def name : Opt → String
  | path => "path"
  | verbose => "verbose"
  | noColor => "no-color"
  | out => "out"
  | flavor => "flavor"
  | format => "format"
  | strict => "strict"
  | help => "help"

/-- The letter behind one hyphen, if there is one. -/
def letter? : Opt → Option Char
  | path => some 'p'
  | verbose => some 'v'
  | out => some 'o'
  | help => some 'h'
  | _ => none

/-- Whether a value belongs to the option. -/
def hasValue : Opt → Bool
  | path => true
  | out => true
  | flavor => true
  | format => true
  | _ => false

/-- The options that every command knows. -/
def shared : List Opt := [path, verbose, noColor, help]

end Opt

/-- What is wrong with a command line. -/
inductive Misuse where
  | unknownOption (written : Text)
  | missingValue (o : Opt)
  | unexpectedValue (o : Opt)
  | repeated (o : Opt)
  | invalidValue (o : Opt) (value : Text)
  | unknownCommand (word : Text)
  | unexpectedWord (word : Text)
  | missingFile
deriving DecidableEq

/-- The wording of a misuse. -/
def Misuse.message : Misuse → String
  | unknownOption written => s!"unexpected argument \x27{String.ofList written}\x27 found"
  | missingValue o => s!"a value is required for \x27--{o.name}\x27 but none was supplied"
  | unexpectedValue o => s!"unexpected value for \x27--{o.name}\x27 found"
  | repeated o => s!"the argument \x27--{o.name}\x27 cannot be used multiple times"
  | invalidValue o value => s!"invalid value \x27{String.ofList value}\x27 for \x27--{o.name}\x27"
  | unknownCommand word => s!"unrecognized subcommand \x27{String.ofList word}\x27"
  | unexpectedWord word => s!"unexpected argument \x27{String.ofList word}\x27 found"
  | missingFile => "the following required arguments were not provided: <FILE>"

/-! ## Reading arguments -/

/-- The arguments of one command, sorted. -/
structure Parsed where
  /-- The options with their values; an option without one has an empty value. -/
  options : List (Opt × Text) := []
  words : List Text := []
  /-- The arguments from the first word on, if reading stopped there. -/
  rest : List Text := []

namespace Parsed

/-- Adds an option, which must be new. -/
def option (p : Parsed) (o : Opt) (value : Text) : Except Misuse Parsed :=
  if p.options.any (·.1 = o) then throw (.repeated o)
  else return { p with options := p.options ++ [(o, value)] }

/-- The value of an option. -/
def value? (p : Parsed) (o : Opt) : Option Text := p.options.lookup o

/-- Whether an option is given. -/
def has (p : Parsed) (o : Opt) : Bool := (p.value? o).isSome

end Parsed

/-- Whether an argument can be a value or a word: it does not start with a hyphen, or is one. -/
def isPlainWord (arg : Text) : Bool := arg.head? != some '-' || arg == ['-']

/-- What a group of letters behind one hyphen says.  The value of an option is what follows its
letter; when nothing does, the option waits for the next argument. -/
def letters (known : List Opt) (p : Parsed) : Text → Except Misuse (Parsed × Option Opt)
  | [] => return (p, none)
  | c :: cs =>
    match known.find? (·.letter? = some c) with
    | none => throw (.unknownOption ['-', c])
    | some o =>
      if o.hasValue then
        match cs with
        | [] => return (p, some o)
        | '=' :: value => return (← p.option o value, none)
        | value => return (← p.option o value, none)
      else do letters known (← p.option o []) cs

/-- What an argument with two hyphens says, without them. -/
def longOption (known : List Opt) (p : Parsed) (arg : Text) :
    Except Misuse (Parsed × Option Opt) :=
  let name := arg.takeWhile (· ≠ '=')
  match known.find? (·.name.toList = name), arg.drop name.length with
  | none, _ => throw (.unknownOption ('-' :: '-' :: arg))
  | some o, '=' :: value =>
    if o.hasValue then return (← p.option o value, none) else throw (.unexpectedValue o)
  | some o, _ => if o.hasValue then return (p, some o) else return (← p.option o [], none)

/-- Sorts arguments.  `waiting` is the option that the next argument is the value of; with
`stopAtWord`, reading ends in front of the first word. -/
def sortArgs (known : List Opt) (stopAtWord : Bool) (waiting : Option Opt) (p : Parsed) :
    List Text → Except Misuse Parsed
  | [] =>
    match waiting with
    | some o => throw (.missingValue o)
    | none => return p
  | arg :: args =>
    match waiting with
    | some o => do
      if isPlainWord arg then sortArgs known stopAtWord none (← p.option o arg) args
      else throw (.missingValue o)
    | none =>
      if isPlainWord arg then
        if stopAtWord then return { p with rest := arg :: args }
        else sortArgs known stopAtWord none { p with words := p.words ++ [arg] } args
      else if arg = ['-', '-'] then return { p with words := p.words ++ args }
      else do
        let (p, waiting) ← match arg with
          | '-' :: '-' :: name => longOption known p name
          | _ => letters known p arg.tail
        sortArgs known stopAtWord waiting p args

/-! ## Commands -/

/-- How the results of a check are shown. -/
inductive CheckFormat where
  | text
  | json
  | github
deriving DecidableEq

/-- The name of a format. -/
def CheckFormat.name : CheckFormat → String
  | text => "text"
  | json => "json"
  | github => "github"

/-- What a command line asks for. -/
inductive Action where
  /-- Write a first configuration. -/
  | init
  /-- Render a file, to another file or to the standard output. -/
  | render (file : Path) (out : Option Path) (flavor : Option Flavor)
  /-- Show the token tree of a file. -/
  | tokens (file : Path) (flavor : Option Flavor)
  /-- Build a project without writing, and report its problems. -/
  | check (format : CheckFormat) (strict : Bool)
  /-- Build a project and write its outputs. -/
  | build
  /-- Explain the command line. -/
  | help
deriving DecidableEq

/-- A command line that has been understood. -/
structure Invocation where
  /-- What is to be done, if a command is given. -/
  action : Option Action
  /-- The root of the project. -/
  root : Option Path
  noColor : Bool

/-- The value of an option as a path, which must not be empty. -/
def pathOption (p : Parsed) (o : Opt) : Except Misuse (Option Path) :=
  match p.value? o with
  | none => return none
  | some [] => throw (.missingValue o)
  | some value => return some value

/-- The value of an option as one of several choices, given with their names. -/
def choiceOption {α : Type} (p : Parsed) (o : Opt) (choices : List (String × α)) :
    Except Misuse (Option α) :=
  match p.value? o with
  | none => return none
  | some value =>
    match choices.find? (·.1.toList = value) with
    | some (_, x) => return some x
    | none => throw (.invalidValue o value)

/-- The dialect that an option chooses. -/
def flavorOption (p : Parsed) : Except Misuse (Option Flavor) :=
  choiceOption p .flavor ([Flavor.markdown, .gfm, .dfm].map fun f => (f.name, f))

/-- The only word of a command, a path. -/
def fileWord (p : Parsed) : Except Misuse Path :=
  match p.words with
  | [] => throw .missingFile
  | [] :: _ => throw .missingFile
  | [file] => return file
  | _ :: word :: _ => throw (.unexpectedWord word)

/-- Refuses the words of a command that takes none. -/
def noWords (p : Parsed) : Except Misuse Unit :=
  match p.words with
  | [] => return ()
  | word :: _ => throw (.unexpectedWord word)

/-- The options of a command besides the shared ones, and what they and the words of the command ask
for. -/
def command? (name : Text) : Option (List Opt × (Parsed → Except Misuse Action)) :=
  if name = "init".toList then
    some ([], fun p => do noWords p; return .init)
  else if name = "render".toList then
    some ([.out, .flavor], fun p => do
      return .render (← fileWord p) (← pathOption p .out) (← flavorOption p))
  else if name = "tokens".toList then
    some ([.flavor], fun p => do return .tokens (← fileWord p) (← flavorOption p))
  else if name = "check".toList then
    some ([.format, .strict], fun p => do
      noWords p
      let formats := [CheckFormat.text, .json, .github].map fun f => (f.name, f)
      return .check ((← choiceOption p .format formats).getD .text) (p.has .strict))
  else if name = "build".toList then
    some ([], fun p => do noWords p; return .build)
  else if name = "help".toList then
    some ([], fun _ => return .help)
  else none

/-- Understands a command line. -/
def Invocation.parse (args : List Text) : Except Misuse Invocation := do
  let top ← sortArgs Opt.shared true none {} args
  noWords top
  let topRoot ← pathOption top .path
  if top.has .help then return ⟨some .help, topRoot, top.has .noColor⟩
  match top.rest with
  | [] => return ⟨none, topRoot, top.has .noColor⟩
  | word :: rest =>
    match command? word with
    | none => throw (.unknownCommand word)
    | some (own, action) =>
      let inner ← sortArgs (Opt.shared ++ own) false none {} rest
      let action ← if inner.has .help then pure .help else action inner
      let root ← pathOption inner .path
      return ⟨some action, root <|> topRoot, top.has .noColor || inner.has .noColor⟩

end Docmark.Command
