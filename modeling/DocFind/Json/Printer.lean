import DocFind.Double.Text
import DocFind.Json

/-!
# Writing JSON

The compact form has no blanks. The laid out form puts every part on a line of its own, indented
by two blanks a level, and writes empty arrays and objects as in the compact form. Texts escape
the quote, the backslash and the characters below the blank; all others stand for themselves.
-/
namespace DocFind.Json

/-- The text of a character inside quotes. -/
def escapeChar (c : Char) : List Char :=
  if c = '"' then ['\\', '"']
  else if c = '\\' then ['\\', '\\']
  else if c = '\n' then ['\\', 'n']
  else if c = '\r' then ['\\', 'r']
  else if c = '\t' then ['\\', 't']
  else if c = '\x08' then ['\\', 'b']
  else if c = '\x0c' then ['\\', 'f']
  else if c.toNat < 32 then
    ['\\', 'u', '0', '0', Nat.digitChar (c.toNat / 16), Nat.digitChar (c.toNat % 16)]
  else [c]

/-- A text in quotes. -/
def quote (s : String) : String :=
  String.ofList ('"' :: s.toList.flatMap escapeChar ++ ['"'])

mutual

/-- The compact form. -/
def compact : Json → String
  | null => "null"
  | bool b => if b then "true" else "false"
  | integer n => toString n
  | float x => x.toRecordText
  | string s => quote s
  | array items => "[" ++ String.intercalate "," (compactItems items) ++ "]"
  | object entries => "\x7b" ++ String.intercalate "," (compactEntries entries) ++ "\x7d"

def compactItems : List Json → List String
  | [] => []
  | j :: rest => j.compact :: compactItems rest

def compactEntries : List (String × Json) → List String
  | [] => []
  | (k, j) :: rest => (quote k ++ ":" ++ j.compact) :: compactEntries rest

end

/-- The start of a line at a level. -/
def newline (level : Nat) : String := "\n" ++ String.ofList (List.replicate (2 * level) ' ')

/-- Parts at a level inside their brackets. -/
def enclose (opening closing : String) (level : Nat) (parts : List String) : String :=
  if parts.isEmpty then opening ++ closing
  else
    opening ++ newline (level + 1) ++ String.intercalate ("," ++ newline (level + 1)) parts ++
      newline level ++ closing

mutual

/-- The laid out form of a value that stands at a level. -/
def layout (level : Nat) : Json → String
  | array items => enclose "[" "]" level (layoutItems (level + 1) items)
  | object entries => enclose "\x7b" "\x7d" level (layoutEntries (level + 1) entries)
  | null => compact null
  | bool b => compact (bool b)
  | integer n => compact (integer n)
  | float x => compact (float x)
  | string s => compact (string s)

def layoutItems (level : Nat) : List Json → List String
  | [] => []
  | j :: rest => j.layout level :: layoutItems level rest

def layoutEntries (level : Nat) : List (String × Json) → List String
  | [] => []
  | (k, j) :: rest => (quote k ++ ": " ++ j.layout level) :: layoutEntries level rest

end

/-- The laid out form. -/
def pretty (j : Json) : String := j.layout 0

end DocFind.Json
