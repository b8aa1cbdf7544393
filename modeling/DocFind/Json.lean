import DocFind.Entries
import DocFind.Double

/-!
# JSON values

Integers and binary numbers are told apart. The entries of an object are kept in the order given;
objects that are read from a text, or that show a stored document, have ascending keys.
-/
namespace DocFind

inductive Json where
  | null
  | bool (b : Bool)
  | integer (n : Int)
  | float (x : Double)
  | string (s : String)
  | array (items : List Json)
  | object (entries : List (String × Json))
deriving Repr, Inhabited

namespace Json

/-- An object with one entry. -/
def singleton (key : String) (value : Json) : Json := object [(key, value)]

def ofNat (n : Nat) : Json := integer n

/-- A text, or null. -/
def ofText? (text : Option String) : Json := (text.map string).getD null

/-- The texts of a list, in order. -/
def ofTexts (texts : List String) : Json := array (texts.map string)

end Json

end DocFind
