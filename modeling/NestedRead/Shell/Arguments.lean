import NestedRead.Config.Load

/-!
# Command line arguments

Options that set the compiler up may stand before the command and behind it; what stands behind it
counts. The files of a command are options of the command. Each option takes a value, in the same
argument behind an equals sign or in the next one, and may be given once at each of the two places.
-/

set_option autoImplicit false

namespace NestedRead.Shell

/-! ## What is asked for -/

/-- What to do, with the paths of the files to do it with. -/
inductive Command where
  | check (catalog : String)
  | compile (catalog request : String)
  | denormalize (catalog request rows : String)
deriving DecidableEq, Repr

/-- A command and how the compiler is set up for it. -/
structure Invocation where
  /-- The path of a file with settings. -/
  config : Option String
  overrides : ConfigOverrides
  command : Command
deriving DecidableEq, Repr

/-- What arguments ask for. -/
inductive Action where
  | run (invocation : Invocation)
  | version
  | help
deriving DecidableEq, Repr

/-- Why arguments are refused. -/
inductive UsageError where
  | missingCommand
  | unknownCommand (name : String)
  | unexpected (argument : String)
  | missingValue (option : String)
  | repeated (option : String)
  | badValue (option value : String)
  | missingOption (option : String)
deriving DecidableEq, Repr

def UsageError.message : UsageError → String
  | .missingCommand => "a command is required"
  | .unknownCommand name => s!"unknown command `{name}`"
  | .unexpected argument => s!"unexpected argument `{argument}`"
  | .missingValue option => s!"`{option}` needs a value"
  | .repeated option => s!"`{option}` is given more than once"
  | .badValue option value => s!"`{value}` is no value for `{option}`"
  | .missingOption option => s!"`{option}` is required"

/-! ## Options -/

/-- What the value of an option is. -/
inductive ValueKind where
  | path
  | text
  | limit
deriving DecidableEq, Repr

/-- Whether a text is a value of this kind. -/
def ValueKind.accepts (kind : ValueKind) (value : String) : Bool :=
  match kind with
  | .path => !value.isEmpty
  | .text => true
  | .limit => (Number.readNatural value).toOption.isSome

/-- Options with what their values are. -/
abbrev OptionTable := List (String × ValueKind)

/-- The options that may stand on both sides of the command. -/
def setupOptions : OptionTable :=
  [("--config", .path), ("--alias-separator", .text), ("--base-alias", .text),
    ("--default-limit", .limit), ("--max-limit", .limit)]

/-- The options of a command, all of them required. -/
def commandOptions? : String → Option OptionTable
  | "check" => some [("--catalog", .path)]
  | "compile" => some [("--catalog", .path), ("--request", .path)]
  | "denormalize" => some [("--catalog", .path), ("--request", .path), ("--rows", .path)]
  | _ => none

abbrev OptionValues := List (String × String)

def addOption (table : OptionTable) (values : OptionValues) (option value : String) :
    Except UsageError OptionValues :=
  match table.lookup option with
  | none => .error (.unexpected option)
  | some kind =>
    if !kind.accepts value then .error (.badValue option value)
    else if (values.lookup option).isSome then .error (.repeated option)
    else .ok (values ++ [(option, value)])

/-- Whether an argument can be the value of the option before it. -/
def isValue (argument : String) : Bool :=
  argument = "-" || !argument.startsWith "-"

/-- What ends a run of options. -/
inductive OptionsEnd where
  /-- The arguments are used up. -/
  | finished
  /-- An argument that belongs to no option, and those behind it. -/
  | word (word : String) (rest : List String)
  | version
  | help
deriving DecidableEq, Repr

/-- Reads options up to an argument that belongs to none. `named` says that the program itself is
asked here, which knows its version. -/
def readOptions (table : OptionTable) (named : Bool) (values : OptionValues) :
    List String → Except UsageError (OptionValues × OptionsEnd)
  | [] => .ok (values, .finished)
  | argument :: rest =>
    if argument = "--" then
      match rest with
      | [] => .ok (values, .finished)
      | word :: _ => .error (.unexpected word)
    else if isValue argument then .ok (values, .word argument rest)
    else if argument = "--help" || argument.startsWith "-h" then .ok (values, .help)
    else if named && (argument = "--version" || argument.startsWith "-V") then
      .ok (values, .version)
    else match Text.cutAt? "=" argument with
      | some (option, value) => do
        let values ← addOption table values option value
        readOptions table named values rest
      | none =>
        if (table.lookup argument).isNone then .error (.unexpected argument)
        else match rest with
          | value :: rest =>
            if isValue value then do
              let values ← addOption table values argument value
              readOptions table named values rest
            else .error (.missingValue argument)
          | [] => .error (.missingValue argument)

/-! ## Invocations -/

def requireOption (values : OptionValues) (option : String) : Except UsageError String :=
  match values.lookup option with
  | some value => .ok value
  | none => .error (.missingOption option)

def commandOf (name : String) (values : OptionValues) : Except UsageError Command := do
  let catalog ← requireOption values "--catalog"
  if name = "check" then return .check catalog
  else
    let request ← requireOption values "--request"
    if name = "compile" then return .compile catalog request
    else return .denormalize catalog request (← requireOption values "--rows")

/-- The settings among the options. -/
def overridesOf (values : OptionValues) : ConfigOverrides :=
  let limit (option : String) : Option Nat :=
    values.lookup option >>= fun value => (Number.readNatural value).toOption
  { aliasSeparator := values.lookup "--alias-separator"
    baseAlias := values.lookup "--base-alias"
    defaultLimit := limit "--default-limit"
    maxLimit := limit "--max-limit" }

/-- What arguments ask for. -/
def Action.ofArguments (arguments : List String) : Except UsageError Action := do
  let (before, stop) ← readOptions setupOptions true [] arguments
  match stop with
  | .finished => .error .missingCommand
  | .version => return .version
  | .help => return .help
  | .word "help" topics =>
    match topics with
    | [] | ["help"] => return .help
    | topic :: others =>
      if (commandOptions? topic).isSome && others.isEmpty then return .help
      else .error (.unknownCommand topic)
  | .word name rest =>
    match commandOptions? name with
    | none => .error (.unknownCommand name)
    | some table => do
      let (behind, stop) ← readOptions (table ++ setupOptions) false [] rest
      match stop with
      | .word word _ => .error (.unexpected word)
      | .version | .help => return .help
      | .finished =>
        -- What stands behind the command comes first, and the first value counts.
        let values := behind ++ before
        let command ← commandOf name behind
        return .run { config := values.lookup "--config", overrides := overridesOf values, command }

/-- The paths of the files that an invocation may read. -/
def Invocation.paths (invocation : Invocation) : List String :=
  invocation.config.toList ++ match invocation.command with
    | .check catalog => [catalog]
    | .compile catalog request => [catalog, request]
    | .denormalize catalog request rows => [catalog, request, rows]

end NestedRead.Shell
