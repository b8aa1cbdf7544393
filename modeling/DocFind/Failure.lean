import DocFind.FieldPath
import DocFind.Json.Reader
import DocFind.Value

/-!
# Failures

Every way in which a request, a document, a configuration or an operation on a database can be
refused, with the text that reports it. Faults of the request are the caller's and share one
status; nothing is evaluated for such a request.
-/
namespace DocFind

/-- Why a value is no selector. -/
inductive SelectorFault where
  | notObject (got : TypeName)
  | tooDeep
  | operandNotObject (op : String) (got : TypeName)
deriving DecidableEq, Repr

/-- Why an operator cannot stand where it stands. -/
inductive OperatorFault where
  | selectorsExpected (op : String)
  | selectorExpected
  | misplaced (op : String)
  | unknown (op : String)
  | arrayExpected (op : String) (got : TypeName)
  | objectExpected (op : String)
  | booleanExpected
  | typeNameExpected
  | unknownTypeName (name : String)
  | sizeExpected
  | divisionExpected
  | zeroDivisor
  | patternsUnavailable
deriving DecidableEq, Repr

/-- The options of a request. -/
inductive OptionName where
  | limit
  | skip
  | sort
  | fields
  | r
  | conflicts
  | useIndex
  | executionStats
deriving DecidableEq, Repr

/-- Why the value of an option is refused. -/
inductive OptionFault where
  | integerExpected (got : TypeName)
  | negative (n : Int)
  | positiveExpected (n : Nat)
  | booleanExpected (got : TypeName)
  | arrayExpected (got : TypeName)
  | unknownDirection (got : String)
  | sortEntrySize (size : Nat)
  | sortEntryType (got : TypeName)
  | mixedDirections
  | fieldType (got : TypeName)
  | badPath (fault : PathFault)
  | indexNameExpected
deriving DecidableEq, Repr

/-- Why a request or an operation is refused as a whole. -/
inductive RequestFault where
  | bodyNotObject (got : TypeName)
  | missingSelector
  | unknownOption (key : String)
  | noIndexFields
  | primaryIndexDeleted (name : String)
  | emptyCollectionName
deriving DecidableEq, Repr

/-- Why a value is no document. -/
inductive DocumentFault where
  | malformed (fault : Json.Fault)
  | notObject
  | badId (got : String)
deriving DecidableEq, Repr

/-- Why a configuration is refused. -/
inductive ConfigFault where
  | malformed
  | unknownSetting (key : String)
  | settingType (key : String)
  | zeroMaxLimit
  | defaultAboveMax (defaultLimit maxLimit : Nat)
  | unreadable (variableName text : String)
  | unknownTieBreak (text : String)
deriving DecidableEq, Repr

/-- A refusal. -/
inductive Failure where
  | invalidSelector (fault : SelectorFault)
  | invalidOperator (fault : OperatorFault)
  | invalidOption (name : OptionName) (fault : OptionFault)
  | invalidFieldPath (fault : PathFault)
  | invalidRequest (fault : RequestFault)
  | json (fault : Json.Fault)
  | noSuchCollection (name : String)
  | collectionAlreadyExists (name : String)
  | noSuchIndex (name : String)
  | indexAlreadyExists (name : String)
  | invalidDocument (fault : DocumentFault)
  | io (reason : String)
  | config (fault : ConfigFault)
deriving DecidableEq, Repr

/-- The greatest depth of a selector. -/
def maxSelectorDepth : Nat := 64

def SelectorFault.detail : SelectorFault → String
  | notObject got => "selector must be a JSON object, got " ++ got.text
  | tooDeep => "selector nesting exceeds " ++ toString maxSelectorDepth ++ " levels"
  | operandNotObject op got => "`" ++ op ++ "` arguments must be objects, got " ++ got.text

def OperatorFault.detail : OperatorFault → String
  | selectorsExpected op => "`" ++ op ++ "` requires an array of selectors"
  | selectorExpected => "`$not` requires a selector object"
  | misplaced op => "`" ++ op ++ "` must be applied to a field"
  | unknown op => "unknown operator `" ++ op ++ "`"
  | arrayExpected op got => "`" ++ op ++ "` requires an array, got " ++ got.text
  | objectExpected op => "`" ++ op ++ "` requires an object"
  | booleanExpected => "`$exists` requires a boolean"
  | typeNameExpected => "`$type` requires a type name string"
  | unknownTypeName name => "unknown `$type` name `" ++ name ++ "`"
  | sizeExpected => "`$size` requires a non-negative integer"
  | divisionExpected => "`$mod` requires [divisor, remainder] integers"
  | zeroDivisor => "`$mod` divisor must not be zero"
  | patternsUnavailable => "`$regex` requires the `regex` feature"

namespace OptionName

def text : OptionName → String
  | limit => "limit"
  | skip => "skip"
  | sort => "sort"
  | fields => "fields"
  | r => "r"
  | conflicts => "conflicts"
  | useIndex => "use_index"
  | executionStats => "execution_stats"

/-- All options, in the order in which messages list them. -/
def all : List OptionName :=
  [limit, skip, sort, fields, r, conflicts, useIndex, executionStats]

/-- The option that a key names. -/
def ofText? (key : String) : Option OptionName := all.find? fun name => name.text = key

end OptionName

def OptionFault.detail : OptionFault → String
  | integerExpected got => "expected a non-negative integer, got " ++ got.text
  | negative n => "expected a non-negative integer, got " ++ toString n
  | positiveExpected n => "expected a positive integer, got " ++ toString n
  | booleanExpected got => "expected a boolean, got " ++ got.text
  | arrayExpected got => "expected an array, got " ++ got.text
  | unknownDirection got => "unknown direction " ++ got
  | sortEntrySize size => "each sort entry needs exactly one field, got " ++ toString size
  | sortEntryType got => "entries must be strings or objects, got " ++ got.text
  | mixedDirections => "all fields must share one direction"
  | fieldType got => "entries must be field names, got " ++ got.text
  | badPath fault => "Invalid field path: " ++ fault.detail
  | indexNameExpected => "expected an index name or [ddoc, name]"

def RequestFault.detail : RequestFault → String
  | bodyNotObject got => "request body must be a JSON object, got " ++ got.text
  | missingSelector => "missing `selector`"
  | unknownOption key =>
    "unknown option `" ++ key ++ "`, expected one of [" ++
      String.intercalate ", " (OptionName.all.map fun name => "\"" ++ name.text ++ "\"") ++ "]"
  | noIndexFields => "an index needs at least one field"
  | primaryIndexDeleted name => "`" ++ name ++ "` cannot be deleted"
  | emptyCollectionName => "collection name must not be empty"

def DocumentFault.detail : DocumentFault → String
  | malformed fault => fault.text
  | notObject => "expected JSON object"
  | badId got => "`_id` must be a non-empty string, got " ++ got

def ConfigFault.detail : ConfigFault → String
  | malformed => "TOML parse error"
  | unknownSetting key => "TOML parse error: unknown field `" ++ key ++ "`"
  | settingType key => "TOML parse error: invalid value for `" ++ key ++ "`"
  | zeroMaxLimit => "max_limit must be positive"
  | defaultAboveMax defaultLimit maxLimit =>
    "default_limit " ++ toString defaultLimit ++ " exceeds max_limit " ++ toString maxLimit
  | unreadable variableName text => variableName ++ ": cannot parse `" ++ text ++ "`"
  | unknownTieBreak text => "unknown tie_break policy `" ++ text ++ "`"

namespace Failure

/-- The text that reports a failure. -/
def message : Failure → String
  | invalidSelector fault => "Invalid selector: " ++ fault.detail
  | invalidOperator fault => "Invalid operator: " ++ fault.detail
  | invalidOption name fault => "Invalid value for `" ++ name.text ++ "`: " ++ fault.detail
  | invalidFieldPath fault => "Invalid field path: " ++ fault.detail
  | invalidRequest fault => "Invalid request: " ++ fault.detail
  | json fault => "Serde JSON: " ++ fault.text
  | noSuchCollection name => "Collection not found: " ++ name
  | collectionAlreadyExists name => "Collection already exists: " ++ name
  | noSuchIndex name => "Index not found: " ++ name
  | indexAlreadyExists name => "Index already exists: " ++ name
  | invalidDocument fault => "Invalid document: " ++ fault.detail
  | io reason => "I/O error: " ++ reason
  | config fault => "Config error: " ++ fault.detail

/-- Whether the request itself is at fault. Such requests are never run in part. -/
def isClientError : Failure → Bool
  | invalidSelector _ | invalidOperator _ | invalidOption _ _ | invalidFieldPath _
  | invalidRequest _ | json _ => true
  | _ => false

/-- The status that a service answers with. -/
def status (failure : Failure) : Nat :=
  if failure.isClientError then 400
  else match failure with
    | noSuchCollection _ | noSuchIndex _ => 404
    | collectionAlreadyExists _ | indexAlreadyExists _ => 409
    | _ => 500

end Failure

end DocFind
