import DocFind.Config.Toml.Reader
import DocFind.Failure
import DocFind.Index.Catalog
import DocFind.Text.Trim

/-!
# Configuration

The settings of a database come from defaults, a configuration text and the environment, each
going over the one before. A limit above the greatest one is refused wherever it comes from.
-/
namespace DocFind

/-- The settings of find requests. -/
structure FindConfig where
  /-- The limit of a request that names none. -/
  defaultLimit : Nat
  /-- The greatest limit of a request. -/
  maxLimit : Nat
  /-- Finds that take this long are reported as slow. -/
  slowQueryMs : Nat
  /-- The choice among indexes that cover equally many fields. -/
  tieBreak : TieBreak
deriving DecidableEq, Repr

namespace FindConfig

def default : FindConfig := ⟨25, 10000, 500, .firstDeclared⟩

/-- Refuses limits that leave no room. -/
def validate (config : FindConfig) : Except Failure FindConfig :=
  if config.maxLimit = 0 then .error (.config .zeroMaxLimit)
  else if config.maxLimit < config.defaultLimit then
    .error (.config (.defaultAboveMax config.defaultLimit config.maxLimit))
  else .ok config

/-- Counts are words of 64 bits. -/
def maxCount : Nat := 0xFFFFFFFFFFFFFFFF

/-- A setting that counts. -/
def count (key : String) : Toml.Setting → Except Failure Nat
  | .integer n =>
    if 0 ≤ n ∧ n ≤ maxCount then .ok n.toNat else .error (.config (.settingType key))
  | _ => .error (.config (.settingType key))

/-- The name of a policy: a text, or the one key of a table that holds nothing under it. -/
def policyName? : Toml.Setting → Option String
  | .text name => some name
  | .table _ [(name, content)] => if content.isEmpty then some name else none
  | _ => none

/-- A setting that names a policy. -/
def policy (key : String) (setting : Toml.Setting) : Except Failure TieBreak :=
  match (policyName? setting).bind TieBreak.ofText? with
  | some p => .ok p
  | none => .error (.config (.settingType key))

/-- Writes one setting. -/
def set (config : FindConfig) (key : String) (value : Toml.Setting) : Except Failure FindConfig :=
  match key with
  | "default_limit" => (count key value).map fun n => { config with defaultLimit := n }
  | "max_limit" => (count key value).map fun n => { config with maxLimit := n }
  | "slow_query_ms" => (count key value).map fun n => { config with slowQueryMs := n }
  | "tie_break" => (policy key value).map fun p => { config with tieBreak := p }
  | _ => .error (.config (.unknownSetting key))

/-- The settings of a configuration text over the defaults. -/
def ofToml (text : String) : Except Failure FindConfig :=
  match Toml.parse? text with
  | none => .error (.config .malformed)
  | some settings => do
    let config ← settings.foldlM (fun config (key, value) => config.set key value) default
    config.validate

/-- The count that a text of the environment writes: digits behind an optional plus sign. -/
def readCount? (text : String) : Option Nat :=
  let digits := match trimChars text.toList with
    | '+' :: rest => rest
    | cs => cs
  if digits ≠ [] ∧ digits.all Char.isDigit ∧ Numeral.ofDigits digits ≤ maxCount then
    some (Numeral.ofDigits digits)
  else none

/-- The count of a variable, or the current one if the variable is not set. -/
def overrideCount (lookup : String → Option String) (name : String) (current : Nat) :
    Except Failure Nat :=
  match lookup name with
  | none => .ok current
  | some text =>
    match readCount? text with
    | some n => .ok n
    | none => .error (.config (.unreadable name text))

/-- The policy that a text names, blanks around it aside. -/
def readPolicy (text : String) : Except Failure TieBreak :=
  match TieBreak.ofText? (trim text) with
  | some p => .ok p
  | none => .error (.config (.unknownTieBreak (trim text)))

/-- The settings with those of the environment over them. -/
def withOverrides (config : FindConfig) (lookup : String → Option String) :
    Except Failure FindConfig := do
  let defaultLimit ← overrideCount lookup "MANGOLITE_DEFAULT_LIMIT" config.defaultLimit
  let maxLimit ← overrideCount lookup "MANGOLITE_MAX_LIMIT" config.maxLimit
  let slowQueryMs ← overrideCount lookup "MANGOLITE_SLOW_QUERY_MS" config.slowQueryMs
  let tieBreak ←
    match lookup "MANGOLITE_TIE_BREAK" with
    | none => .ok config.tieBreak
    | some text => readPolicy text
  validate ⟨defaultLimit, maxLimit, slowQueryMs, tieBreak⟩

end FindConfig

end DocFind
