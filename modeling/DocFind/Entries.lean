/-!
# Ordered mappings

A mapping is the list of its entries in the order in which their keys were first written. Writing
a present key changes its value and moves nothing; writing a new key appends it. Texts sort by
code point, which is also the order of their encoded bytes.
-/
namespace DocFind

/-- Entries of a mapping with text keys. The first entry of a key is the one that counts. -/
abbrev Entries (α : Type) := List (String × α)

namespace Entries

variable {α β : Type}

/-- The value under `key`. -/
def get? (key : String) : Entries α → Option α
  | [] => none
  | (k, a) :: rest => if k = key then some a else get? key rest

/-- Whether `key` has a value. -/
def has (key : String) (entries : Entries α) : Bool := (get? key entries).isSome

/-- Writes `key`: in its place when it is there, at the end otherwise. -/
def put (key : String) (value : α) : Entries α → Entries α
  | [] => [(key, value)]
  | (k, a) :: rest => if k = key then (key, value) :: rest else (k, a) :: put key value rest

/-- Drops `key`; the other entries keep their order. -/
def remove (key : String) (entries : Entries α) : Entries α :=
  entries.filter fun e => e.1 ≠ key

/-- Applies `f` to every value. -/
def mapValues (f : α → β) (entries : Entries α) : Entries β :=
  entries.map fun e => (e.1, f e.2)

def keys (entries : Entries α) : List String := entries.map Prod.fst

def values (entries : Entries α) : List α := entries.map Prod.snd

/-- Places an entry before the first key that is not below its own. -/
def insertByKey (key : String) (value : α) : Entries α → Entries α
  | [] => [(key, value)]
  | (k, a) :: rest =>
    if k < key then (k, a) :: insertByKey key value rest else (key, value) :: (k, a) :: rest

/-- The entries with ascending keys. Entries that share a key keep their order. -/
def sortByKey (entries : Entries α) : Entries α :=
  entries.foldr (fun e sorted => insertByKey e.1 e.2 sorted) []

/-- Writes `key` into a mapping with ascending keys, which stay so. -/
def putByKey (key : String) (value : α) : Entries α → Entries α
  | [] => [(key, value)]
  | (k, a) :: rest =>
    if k < key then (k, a) :: putByKey key value rest
    else if k = key then (key, value) :: rest
    else (key, value) :: (k, a) :: rest

/-- The mapping with ascending keys that results from writing the entries one after the other:
of a repeated key the last value stays. -/
def toSorted (entries : Entries α) : Entries α :=
  entries.foldl (fun sorted e => putByKey e.1 e.2 sorted) []

end Entries

end DocFind
