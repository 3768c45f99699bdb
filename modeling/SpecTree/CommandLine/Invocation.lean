import SpecTree.Options

/-!
# Invocations

What the arguments of the program ask for. Arguments before the command and behind it are read
in the same way. Some options are allowed in both places; given in both, the place behind the
command counts.
-/

namespace SpecTree

/-- The form in which the program answers. -/
inductive OutputFormat where
  | text
  | json
deriving DecidableEq

namespace OutputFormat

def name : OutputFormat → String
  | text => "text"
  | json => "json"

def ofName? (name : String) : Option OutputFormat :=
  [text, json].find? (·.name == name)

end OutputFormat

/-- What the program is to do. -/
inductive Command where
  /-- Name every registered spec. -/
  | list (sources : List String)
  /-- Report every problem of a load. -/
  | check (sources : List String)
  /-- Show the tree of a spec. -/
  | explain (source spec : String)
  /-- Fill the tree of a spec from a JSON document and write it as XML, to standard output or
  to a file. A strict build writes no incomplete tree. -/
  | build (source spec values name : String) (out : Option String) (strict : Bool)
deriving DecidableEq

/-- The roots that a command names. -/
def Command.sources : Command → List String
  | list sources | check sources => sources
  | explain source _ | build source _ _ _ _ _ => [source]

/-- The arguments of the program. -/
structure Invocation where
  output : OutputFormat
  quiet : Bool
  config : Option String
  onError : Option Policy
  command : Command
deriving DecidableEq

/-- Why arguments do not lead to a command. -/
inductive Halt where
  /-- The program tells how to use it. -/
  | help
  /-- The program tells its version. -/
  | version
  /-- The arguments make no sense. -/
  | rejected
deriving DecidableEq

/-! ## Options -/

/-- An option of the program. -/
inductive Flag where
  | output
  | quiet
  | verbose
  | config
  | onError
  | help
  | version
  | values
  | name
  | out
  | strict
deriving DecidableEq

namespace Flag

/-- The name behind two hyphens. -/
def long : Flag → String
  | output => "output"
  | quiet => "quiet"
  | verbose => "verbose"
  | config => "config"
  | onError => "on-error"
  | help => "help"
  | version => "version"
  | values => "values"
  | name => "name"
  | out => "out"
  | strict => "strict"

/-- The character behind one hyphen. -/
def short? : Flag → Option Char
  | verbose => some 'v'
  | help => some 'h'
  | version => some 'V'
  | out => some 'o'
  | _ => none

def takesValue : Flag → Bool
  | output | config | onError | values | name | out => true
  | _ => false

/-- May the option be given a value? Paths must not be empty. -/
def accepts : Flag → String → Bool
  | output, value => (OutputFormat.ofName? value).isSome
  | onError, value => (Policy.ofName? value).isSome
  | config, value | values, value | out, value => value != ""
  | _, _ => true

/-- The options that are allowed in every place. -/
def common : List Flag := [output, quiet, verbose, config, onError, help]

end Flag

/-- The commands by name. -/
inductive CommandName where
  | list
  | check
  | explain
  | build
deriving DecidableEq

namespace CommandName

def text : CommandName → String
  | list => "list"
  | check => "check"
  | explain => "explain"
  | build => "build"

def ofText? (s : String) : Option CommandName :=
  [list, check, explain, build].find? (·.text == s)

/-- The options that are allowed behind the command. -/
def flags : CommandName → List Flag
  | build => Flag.common ++ [.values, .name, .out, .strict]
  | _ => Flag.common

/-- May an operand stand at a position behind the command? Sources must not be empty. -/
def acceptsOperand : CommandName → Nat → String → Bool
  | list, _, s | check, _, s => s != ""
  | explain, position, s | build, position, s => position == 1 || (position == 0 && s != "")

end CommandName

/-! ## Reading -/

/-- What is read from the arguments in one place: options with their values, and operands. -/
structure Reading where
  given : List (Flag × String)
  operands : List String

namespace Reading

def empty : Reading := ⟨[], []⟩

/-- The value of an option. -/
def value? (r : Reading) (f : Flag) : Option String :=
  (r.given.find? (·.1 == f)).map (·.2)

def has (r : Reading) (f : Flag) : Bool := (r.value? f).isSome

/-- Add an option. Only the wish for more log output may be repeated. -/
def give (r : Reading) (f : Flag) (value : String) : Except Halt Reading :=
  match f with
  | .help => .error .help
  | .version => .error .version
  | f =>
    if (r.has f ∧ f ≠ .verbose) ∨ !f.accepts value then .error .rejected
    else .ok { r with given := r.given ++ [(f, value)] }

/-- An option that lacks its value takes the next argument, unless that looks like an
option. -/
def giveNext (r : Reading) (f : Flag) : List String → Except Halt (Reading × List String)
  | [] => .error .rejected
  | value :: rest =>
    if value.toList.head? = some '-' ∧ value ≠ "-" then .error .rejected
    else do return (← r.give f value, rest)

/-- Read the characters behind a single hyphen. The first option that takes a value takes
what is left of them, behind an equals sign if there is one, or else the next argument. -/
def giveShort (allowed : List Flag) (rest : List String) :
    List Char → Reading → Except Halt (Reading × List String)
  | [], r => .ok (r, rest)
  | c :: cs, r =>
    match allowed.find? (·.short? = some c) with
    | none => .error .rejected
    | some f =>
      if f.takesValue then
        match cs with
        | [] => r.giveNext f rest
        | '=' :: cs => do return (← r.give f (String.ofList cs), rest)
        | cs => do return (← r.give f (String.ofList cs), rest)
      else do giveShort allowed rest cs (← r.give f "")

/-- Read what stands behind two hyphens: a name, and a value behind an equals sign. -/
def giveLong (allowed : List Flag) (rest : List String) (s : List Char) (r : Reading) :
    Except Halt (Reading × List String) :=
  let name := String.ofList (s.takeWhile (· ≠ '='))
  match allowed.find? (·.long == name), s.dropWhile (· ≠ '=') with
  | none, _ => .error .rejected
  | some f, [] =>
    if f.takesValue then r.giveNext f rest else do return (← r.give f "", rest)
  | some f, _ :: value =>
    if f.takesValue then do return (← r.give f (String.ofList value), rest) else .error .rejected

/-- Read an argument as an option, unless it is none. -/
def giveOption? (allowed : List Flag) (rest : List String) (r : Reading) (arg : String) :
    Option (Except Halt (Reading × List String)) :=
  match arg.toList with
  | '-' :: '-' :: s => some (giveLong allowed rest s r)
  | '-' :: c :: s => some (giveShort allowed rest (c :: s) r)
  | _ => none

/-- Add an operand. -/
def addOperand (c : CommandName) (r : Reading) (s : String) : Except Halt Reading :=
  if c.acceptsOperand r.operands.length s then .ok { r with operands := r.operands ++ [s] }
  else .error .rejected

/-- Read the arguments behind a command. Two hyphens end the options. -/
def behind (c : CommandName) : Nat → Reading → List String → Except Halt Reading
  | 0, _, _ => .error .rejected
  | _, r, [] => .ok r
  | fuel + 1, r, arg :: rest =>
    if arg = "--" then rest.foldlM (addOperand c) r
    else match r.giveOption? c.flags rest arg with
      | some result => do
        let (r, rest) ← result
        behind c fuel r rest
      | none => do behind c fuel (← r.addOperand c arg) rest

/-- What the word for help leads to. A topic behind it must be a command or that word itself,
and topics have no topics of their own. -/
def helpOn : List String → Halt
  | [] => .help
  | [topic] => if topic = "help" ∨ (CommandName.ofText? topic).isSome then .help else .rejected
  | _ => .rejected

/-- Read the arguments up to a command, and those behind it. -/
def upTo : Nat → Reading → List String → Except Halt (Reading × CommandName × Reading)
  | 0, _, _ => .error .rejected
  | _, _, [] => .error .rejected
  | fuel + 1, r, arg :: rest =>
    match CommandName.ofText? arg with
    | some c => do return (r, c, ← behind c (rest.length + 1) empty rest)
    | none =>
      if arg = "help" then .error (helpOn rest)
      else if arg = "--" then .error .rejected
      else match r.giveOption? (Flag.common ++ [.version]) rest arg with
        | some result => do
          let (r, rest) ← result
          upTo fuel r rest
        | none => .error .rejected

/-- The command that a name and what is read behind it make. -/
def command? (c : CommandName) (r : Reading) : Option Command :=
  match c, r.operands with
  | .list, sources => some (.list sources)
  | .check, sources => some (.check sources)
  | .explain, [source, spec] => some (.explain source spec)
  | .build, [source, spec] => do
    let values ← r.value? .values
    return .build source spec values ((r.value? .name).getD "main") (r.value? .out) (r.has .strict)
  | _, _ => none

end Reading

namespace Invocation

/-- What the arguments of the program ask for. -/
def ofArgs (args : List String) : Except Halt Invocation := do
  let (before, c, behind) ← Reading.upTo (args.length + 1) .empty args
  let value := fun f => (behind.value? f).or (before.value? f)
  match behind.command? c with
  | none => throw .rejected
  | some command =>
    return {
      output := ((value .output).bind OutputFormat.ofName?).getD .text
      quiet := (value .quiet).isSome
      config := value .config
      onError := (value .onError).bind Policy.ofName?
      command }

end Invocation

end SpecTree
