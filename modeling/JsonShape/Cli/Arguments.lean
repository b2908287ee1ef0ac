/-!
# Command lines

`Command.ofArguments` reads the arguments of the program: options that go before the command,
the command's name, and its own options.

An option is a flag, or takes one value, or takes all values that follow it.  A value is an
argument that does not start with a hyphen, or is a single hyphen.  A value may also be attached:
behind an equals sign, or right behind a short option; then it is the option's only one.  Short
options may be run together, and only the last of them may take values.

Reading goes from left to right.  It stops at the first request for help or for the version and
at the first mistake, whichever comes first: a name that no option has, an option without the
values that it takes, one too often, or an output without a name.  What is missing altogether is
seen at the end only.
-/

namespace JsonShape

/-- An option of the program. -/
inductive CliOption where
  | definitions
  | inputs
  | typeName
  | output
  | pointer
  | query
  | lines
  | asJson
  | verbose
  | version
  | help
  deriving DecidableEq, Repr

/-- What stands behind an option. -/
inductive Arity where
  | none
  | one
  | several
  deriving DecidableEq, Repr

namespace CliOption

/-- The long spelling, without its hyphens. -/
def long : CliOption → String
  | definitions => "defs"
  | inputs => "input"
  | typeName => "type"
  | output => "out"
  | pointer => "json-pointer"
  | query => "jq-expr"
  | lines => "ndjson"
  | asJson => "json"
  | verbose => "verbose"
  | version => "version"
  | help => "help"

/-- The letter of the short spelling, where there is one. -/
def short? : CliOption → Option Char
  | definitions => some 'd'
  | inputs => some 'i'
  | typeName => some 't'
  | output => some 'o'
  | verbose => some 'v'
  | version => some 'V'
  | help => some 'h'
  | _ => none

/-- What stands behind the option. -/
def arity : CliOption → Arity
  | definitions | inputs => .several
  | typeName | output | pointer | query => .one
  | _ => .none

/-- Whether the option may be given more than once. -/
def isRepeatable : CliOption → Bool
  | definitions | inputs | verbose => true
  | _ => false

end CliOption

/-- An option with the values that are given to it. -/
structure Setting where
  option : CliOption
  values : List String
  deriving DecidableEq, Repr

/-- Why no command is run. -/
inductive Stop where
  | misuse
  | help
  | version
  deriving DecidableEq, Repr

/-! ## Options -/

/-- Settings with one more, unless it ends the reading. -/
def accept (given : List Setting) (setting : Setting) : Except Stop (List Setting) :=
  match setting.option with
  | .help => .error .help
  | .version => .error .version
  | option =>
    if !option.isRepeatable && given.any fun other => other.option == option then .error .misuse
    else if option = .output ∧ setting.values.contains "" then .error .misuse
    else .ok (given ++ [setting])

/-- What has been read up to an argument: settings, and the option whose values follow. -/
structure ArgumentReading where
  settings : List Setting
  pending : Option CliOption

/-- An option with an attached value. -/
def attached (given : List Setting) (option : CliOption) (value : List Char) :
    Except Stop ArgumentReading :=
  if option.arity = .none then .error .misuse
  else (accept given ⟨option, [String.ofList value]⟩).map fun settings => ⟨settings, none⟩

/-- Short options that are run together, behind their hyphen. -/
def readShort (allowed : List CliOption) (given : List Setting) :
    List Char → Except Stop ArgumentReading
  | [] => .ok ⟨given, none⟩
  | c :: rest =>
    match allowed.find? fun option => option.short? == some c with
    | none => .error .misuse
    | some option =>
      if option.arity = .none then
        (accept given ⟨option, []⟩).bind fun settings => readShort allowed settings rest
      else
        match rest with
        | [] => .ok ⟨given, some option⟩
        | '=' :: value => attached given option value
        | value => attached given option value

/-- A long option behind its hyphens. -/
def readLong (allowed : List CliOption) (given : List Setting) (text : List Char) :
    Except Stop ArgumentReading :=
  let name := String.ofList (text.takeWhile (· != '='))
  match allowed.find? fun option => option.long == name with
  | none => .error .misuse
  | some option =>
    match text.dropWhile (· != '=') with
    | _ :: value => attached given option value
    | [] =>
      if option.arity = .none then
        (accept given ⟨option, []⟩).map fun settings => ⟨settings, none⟩
      else .ok ⟨given, some option⟩

/-- An argument that starts with a hyphen and goes on. -/
def readOption (allowed : List CliOption) (given : List Setting) :
    List Char → Except Stop ArgumentReading
  | '-' :: '-' :: text => readLong allowed given text
  | _ :: text => readShort allowed given text
  | [] => .error .misuse

/-- Whether an argument is a value and no option. -/
def isValue (argument : String) : Bool :=
  argument == "-" || argument.toList.head? != some '-'

/-- The settings of a command's arguments, behind those that are given already. -/
def readSettings (allowed : List CliOption) (given : List Setting) :
    List String → Except Stop (List Setting)
  | [] => .ok given
  | argument :: rest =>
    if argument = "--" then
      if rest = [] then .ok given else .error .misuse
    else if isValue argument then .error .misuse
    else
      match readOption allowed given argument.toList with
      | .error stop => .error stop
      | .ok ⟨settings, none⟩ => readSettings allowed settings rest
      | .ok ⟨settings, some option⟩ =>
        let count := if option.arity = .one then 1 else rest.length
        let values := (rest.take count).takeWhile isValue
        if values = [] then .error .misuse
        else
          match accept settings ⟨option, values⟩ with
          | .error stop => .error stop
          | .ok settings => readSettings allowed settings (rest.drop values.length)
termination_by arguments => arguments.length

/-- All values given to an option, in order. -/
def valuesOf (settings : List Setting) (option : CliOption) : List String :=
  (settings.filter fun setting => setting.option == option).flatMap Setting.values

/-- How often an option is given. -/
def timesGiven (settings : List Setting) (option : CliOption) : Nat :=
  (settings.filter fun setting => setting.option == option).length

/-! ## Commands -/

/-- How the documents of the inputs are selected. -/
structure Selection where
  lines : Bool
  pointer : Option String
  query : Option String
  deriving DecidableEq, Repr

/-- What the program is asked to do. -/
inductive Command where
  | check (definitions inputs : List String) (selection : Selection) (typeName : String)
      (output : Option String)
  | schema (definitions : List String) (typeName : String) (output : Option String)
  | types (definitions : List String) (asJson : Bool) (output : Option String)
  deriving DecidableEq, Repr

namespace Command

/-- The options of the check command. -/
def checkOptions : List CliOption :=
  [.definitions, .inputs, .typeName, .output, .pointer, .query, .lines, .verbose, .help]

/-- The options of the schema command. -/
def schemaOptions : List CliOption := [.definitions, .typeName, .output, .verbose, .help]

/-- The options of the types command. -/
def typesOptions : List CliOption := [.definitions, .asJson, .output, .verbose, .help]

/-- The check command of some settings. -/
def checkOf (settings : List Setting) : Except Stop Command :=
  match valuesOf settings .definitions, valuesOf settings .inputs, valuesOf settings .typeName with
  | [], _, _ => .error .misuse
  | _, [], _ => .error .misuse
  | _, _, [] => .error .misuse
  | definitions, inputs, typeName :: _ =>
    let selection : Selection :=
      ⟨timesGiven settings .lines != 0, (valuesOf settings .pointer).head?,
        (valuesOf settings .query).head?⟩
    .ok (check definitions inputs selection typeName (valuesOf settings .output).head?)

/-- The schema command of some settings. -/
def schemaOf (settings : List Setting) : Except Stop Command :=
  match valuesOf settings .definitions, valuesOf settings .typeName with
  | [], _ => .error .misuse
  | _, [] => .error .misuse
  | definitions, typeName :: _ =>
    .ok (schema definitions typeName (valuesOf settings .output).head?)

/-- The types command of some settings. -/
def typesOf (settings : List Setting) : Except Stop Command :=
  match valuesOf settings .definitions with
  | [] => .error .misuse
  | definitions =>
    .ok (types definitions (timesGiven settings .asJson != 0) (valuesOf settings .output).head?)

/-- The names of the commands. -/
def names : List String := ["check", "schema", "types", "help"]

/-- The outcome of asking for help on a command, or on all of them. -/
def helpOn : List String → Stop
  | [] => .help
  | [name] => if names.contains name then .help else .misuse
  | _ => .misuse

/-- The command of a name and its arguments. -/
def ofName (name : String) (arguments : List String) : Except Stop Command :=
  if name = "check" then (readSettings checkOptions [] arguments).bind checkOf
  else if name = "schema" then (readSettings schemaOptions [] arguments).bind schemaOf
  else if name = "types" then (readSettings typesOptions [] arguments).bind typesOf
  else if name = "help" then .error (helpOn arguments)
  else .error .misuse

/-- The command of the program's arguments. -/
def ofArguments : List String → Except Stop Command
  | [] => .error .misuse
  | argument :: rest =>
    if argument = "--" then .error .misuse
    else if isValue argument then ofName argument rest
    else
      (readOption [.verbose, .version, .help] [] argument.toList).bind fun _ => ofArguments rest

end Command

end JsonShape
