import DocFind.FieldPath.Resolve
import DocFind.Value.Json
import DocFind.Value.Order

/-!
# Index keys

The key of a document lists what the indexed fields hold. A missing field has a part of its own
below every value, so that documents without it are indexed too; a part above every value serves
as the end of ranges. Keys are ordered part by part, and a key comes before those it begins.
-/
namespace DocFind

/-- One part of a key. `greatest` appears in the bounds of ranges only. -/
inductive KeyPart where
  | missing
  | value (v : Value)
  | greatest
deriving Repr

namespace KeyPart

def rank : KeyPart → Nat
  | missing => 0
  | value _ => 1
  | greatest => 2

def cmp : KeyPart → KeyPart → Ordering
  | value a, value b => a.cmp b
  | a, b => compare a.rank b.rank

/-- Parts are equal where the order does not tell them apart. -/
instance : BEq KeyPart := ⟨fun a b => a.cmp b == .eq⟩

/-- The part for what a field holds. -/
def ofOption : Option Value → KeyPart
  | none => missing
  | some v => value v

def toJson : KeyPart → Json
  | missing => Json.singleton "$missing" (.bool true)
  | value v => v.toJson
  | greatest => Json.singleton "$max" (.bool true)

end KeyPart

/-- A key over several fields. -/
structure IndexKey where
  parts : List KeyPart
deriving BEq, Repr, Inhabited

namespace IndexKey

/-- Keys part by part, a proper beginning first. -/
def cmp (a b : IndexKey) : Ordering := a.parts.compareLex KeyPart.cmp b.parts

/-- The key of a document under the fields of an index. -/
def ofBody (fields : List FieldPath) (body : Body) : IndexKey :=
  ⟨fields.map fun path => KeyPart.ofOption (Body.resolve? body path)⟩

/-- The key one part longer. -/
def snoc (key : IndexKey) (part : KeyPart) : IndexKey := ⟨key.parts ++ [part]⟩

def toJson (key : IndexKey) : Json := .array (key.parts.map KeyPart.toJson)

end IndexKey

/-- What an index stores for a document. -/
structure IndexEntry where
  key : IndexKey
  id : String
deriving BEq, Repr

/-- Entries by key, then by document. -/
def IndexEntry.cmp (a b : IndexEntry) : Ordering := (a.key.cmp b.key).then (compare a.id b.id)

end DocFind
