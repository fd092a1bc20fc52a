import NestedRead.Config.Error
import NestedRead.Environment
import NestedRead.Yaml.Value

/-!
# Where settings come from

Settings are taken from environment variables or from a file, and single ones are overridden
afterwards. Each way ends with the check that the settings are valid.
-/

set_option autoImplicit false

namespace NestedRead

/-- Settings that replace others; what is none stays as it is. -/
structure ConfigOverrides where
  aliasSeparator : Option String := none
  baseAlias : Option String := none
  defaultLimit : Option Nat := none
  maxLimit : Option Nat := none
deriving DecidableEq, Repr

namespace Config

/-! ## Checking -/

/-- The settings, if they are valid. -/
def checked (config : Config) : Except ConfigError Config :=
  match config.faults with
  | [] => .ok config
  | faults => .error (.invalid faults)

/-- The settings with some of them replaced. -/
def override (config : Config) (overrides : ConfigOverrides) : Config where
  aliasSeparator := overrides.aliasSeparator.getD config.aliasSeparator
  baseAlias := overrides.baseAlias.getD config.baseAlias
  defaultLimit := overrides.defaultLimit.or config.defaultLimit
  maxLimit := overrides.maxLimit.or config.maxLimit

/-- The settings with some of them replaced, if they are valid then. -/
def merge (config : Config) (overrides : ConfigOverrides) : Except ConfigError Config :=
  (config.override overrides).checked

/-! ## Environment -/

/-- The names of the variables that hold settings. -/
def separatorVariable : String := "RELNEST_ALIAS_SEPARATOR"
def baseAliasVariable : String := "RELNEST_BASE_ALIAS"
def defaultLimitVariable : String := "RELNEST_DEFAULT_LIMIT"
def maxLimitVariable : String := "RELNEST_MAX_LIMIT"

/-- The limit that a variable holds; none where it is not set. -/
def limitVariable (environment : Environment) (name : String) :
    Except ConfigError (Option Nat) :=
  match environment.bytes? name with
  | none => .ok none
  | some bytes =>
    match Text.Utf8.text? bytes with
    | none => .error (.notText bytes)
    | some text =>
      match Number.readNatural text with
      | .ok n => .ok (some n)
      | .error fault => .error (.notANumber name text fault)

/-- The settings that variables hold. A text that is not set, or whose bytes are no text, has its
default. -/
def ofEnvironment (environment : Environment) : Except ConfigError Config := do
  let fallback : Config := {}
  let defaultLimit ← limitVariable environment defaultLimitVariable
  let maxLimit ← limitVariable environment maxLimitVariable
  checked
    { aliasSeparator := (environment.text? separatorVariable).getD fallback.aliasSeparator
      baseAlias := (environment.text? baseAliasVariable).getD fallback.baseAlias
      defaultLimit, maxLimit }

/-! ## Documents -/

/-- The settings that a document holds. Every one may be missing. -/
def ofNode? (root : Yaml.Node) : Option Config := do
  let fallback : Config := {}
  let [aliasSeparator, baseAlias, defaultLimit, maxLimit] ←
    root.record? ["alias_separator", "base_alias", "default_limit", "max_limit"] | none
  let member {α : Type} (default : α) (read : Yaml.Node → Option α) : Option Yaml.Node → Option α
    | none => some default
    | some node => read node
  return { aliasSeparator := ← member fallback.aliasSeparator Yaml.Node.text? aliasSeparator
           baseAlias := ← member fallback.baseAlias Yaml.Node.text? baseAlias
           defaultLimit := ← member fallback.defaultLimit Yaml.Node.optionalNat? defaultLimit
           maxLimit := ← member fallback.maxLimit Yaml.Node.optionalNat? maxLimit }

/-- The settings of a document. -/
def ofDocument (text : String) : Except ConfigError Config :=
  match Yaml.Node.ofText? text >>= ofNode? with
  | some config => config.checked
  | none => .error (.malformed text "not a document with settings")

/-- The settings of a file, from its contents. -/
def ofFile : Except FileError String → Except ConfigError Config
  | .ok text => ofDocument text
  | .error error => .error (.unreadable error)

end Config
end NestedRead
