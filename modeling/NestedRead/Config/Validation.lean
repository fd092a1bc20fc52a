import NestedRead.Config.Basic
import NestedRead.Identifier
import NestedRead.Text.CharClass

/-!
# Which settings are valid

Each setting has its own rule, and every broken one is reported. The two limits are compared only
when no setting is wrong by itself.

Aliases and fields are alphanumeric, so the separator must not be: that is what makes the key of a
column split into its two parts again.
-/

set_option autoImplicit false

namespace NestedRead

/-- What is wrong with settings. -/
inductive ConfigFault where
  | separator (value : String)
  | baseAlias (value : String)
  | defaultLimit (value : Nat)
  | maxLimit (value : Nat)
  /-- The default is above the largest limit. -/
  | limitsCrossed
deriving DecidableEq, Repr

namespace ConfigFault

/-- The setting that is wrong. -/
def setting : ConfigFault → String
  | .separator _ => "alias_separator"
  | .baseAlias _ => "base_alias"
  | .defaultLimit _ => "default_limit"
  | .maxLimit _ => "max_limit"
  | .limitsCrossed => "__all__"

/-- What is wrong with it. -/
def text : ConfigFault → String
  | .separator _ => "alias separator needs at least two non-alphanumeric characters"
  | .baseAlias _ => "base alias must be a plain identifier"
  | .defaultLimit _ => "default_limit must be at least 1"
  | .maxLimit _ => "max_limit must be at least 1"
  | .limitsCrossed => "default_limit cannot exceed max_limit"

def line (fault : ConfigFault) : String := s!"{fault.setting}: {fault.text}"

end ConfigFault

namespace Config

/-- At least two characters, none of them alphanumeric. -/
def isSeparator (text : String) : Bool :=
  2 ≤ text.length && text.toList.all (!CharClass.isAlphanumeric ·)

/-- The smallest limit. -/
def leastLimit : Nat := 1

/-- A fault where a condition fails. -/
def faultUnless (valid : Bool) (fault : ConfigFault) : List ConfigFault :=
  if valid then [] else [fault]

/-- The settings that are wrong by themselves. -/
def settingFaults (config : Config) : List ConfigFault :=
  faultUnless (isSeparator config.aliasSeparator) (.separator config.aliasSeparator)
    ++ faultUnless (Identifier.isPlain config.baseAlias) (.baseAlias config.baseAlias)
    ++ (config.defaultLimit.toList.flatMap fun n => faultUnless (leastLimit ≤ n) (.defaultLimit n))
    ++ (config.maxLimit.toList.flatMap fun n => faultUnless (leastLimit ≤ n) (.maxLimit n))

/-- The default does not exceed the largest limit, where both are set. -/
def limitsOrdered (config : Config) : Bool :=
  match config.defaultLimit, config.maxLimit with
  | some least, some most => least ≤ most
  | _, _ => true

/-- Everything that is wrong with settings, in the order of the settings' names. -/
def faults (config : Config) : List ConfigFault :=
  match config.settingFaults with
  | [] => faultUnless config.limitsOrdered .limitsCrossed
  | found => found

/-- Whether settings are valid. -/
def isValid (config : Config) : Bool := config.faults.isEmpty

theorem isValid_default : isValid {} = true := by decide +kernel

end Config
end NestedRead
