import DocFind.Config.Toml
import DocFind.Numeral

/-!
# Reading TOML

The reader takes comments, headers, bare, quoted and dotted keys, integers in the four bases, texts
in the four quotings, tables between braces, on one line or several, and empty lists. The other
kinds of value and the headers of lists belong to no setting, and are refused with the malformed
texts.
-/
namespace DocFind.Toml

def isBlank (c : Char) : Bool := c = ' ' || c = '\t'

/-- Controls other than the tab. They stand in no text and no comment. -/
def isControl (c : Char) : Bool := (c.toNat < 32 && c != '\t') || c.toNat == 127

def skipBlanks (cs : List Char) : List Char := cs.dropWhile isBlank

/-- Line ends of two characters become line feeds. -/
def plainLineEnds : List Char → List Char
  | [] => []
  | '\r' :: '\n' :: rest => '\n' :: plainLineEnds rest
  | c :: rest => c :: plainLineEnds rest

/-! ## Integers -/

/-- The value of a digit in a base of at most sixteen. -/
def digit? (base : Nat) (c : Char) : Option Nat :=
  let value :=
    if '0' ≤ c ∧ c ≤ '9' then some (c.toNat - '0'.toNat)
    else if 'a' ≤ c ∧ c ≤ 'f' then some (c.toNat - 'a'.toNat + 10)
    else if 'A' ≤ c ∧ c ≤ 'F' then some (c.toNat - 'A'.toNat + 10)
    else none
  value.filter fun d => d < base

/-- The whole number of digits in a base. An underscore may stand between two digits. -/
def readDigits? (base : Nat) : Option Nat → List Char → Option Nat
  | value, [] => value
  | some n, '_' :: c :: rest =>
    (digit? base c).bind fun d => readDigits? base (some (n * base + d)) rest
  | value, c :: rest =>
    (digit? base c).bind fun d => readDigits? base (some (value.getD 0 * base + d)) rest

/-- A decimal integer has no zero in front of its digits. -/
def readDecimal? : List Char → Option Nat
  | ['0'] => some 0
  | '0' :: _ => none
  | cs => readDigits? 10 none cs

/-- The integer of a token. Only decimals take a sign. -/
def readInteger? : List Char → Option Int
  | '0' :: 'x' :: cs => (readDigits? 16 none cs).map Int.ofNat
  | '0' :: 'o' :: cs => (readDigits? 8 none cs).map Int.ofNat
  | '0' :: 'b' :: cs => (readDigits? 2 none cs).map Int.ofNat
  | '-' :: cs => (readDecimal? cs).map fun n => -(n : Int)
  | '+' :: cs => (readDecimal? cs).map Int.ofNat
  | cs => (readDecimal? cs).map Int.ofNat

/-! ## Texts -/

/-- The character of a number, surrogates excluded. -/
def charOf? (n : Nat) : Option Char := if n.isValidChar then some (Char.ofNat n) else none

/-- The character of an escape behind its backslash, and the text after it. -/
def readEscape? : List Char → Option (Char × List Char)
  | 'b' :: rest => some ('\x08', rest)
  | 't' :: rest => some ('\t', rest)
  | 'n' :: rest => some ('\n', rest)
  | 'f' :: rest => some ('\x0c', rest)
  | 'r' :: rest => some ('\r', rest)
  | 'e' :: rest => some ('\x1b', rest)
  | '"' :: rest => some ('"', rest)
  | '\\' :: rest => some ('\\', rest)
  | 'x' :: rest => hex 2 rest
  | 'u' :: rest => hex 4 rest
  | 'U' :: rest => hex 8 rest
  | _ => none
where
  hex (count : Nat) (cs : List Char) : Option (Char × List Char) :=
    let digits := (cs.take count).filterMap (digit? 16)
    if digits.length = count then
      (charOf? (digits.foldl (fun n d => n * 16 + d) 0)).map fun c => (c, cs.drop count)
    else none

/-- The text behind the blanks and line ends that a backslash at the end of a line swallows. -/
def skipFold (cs : List Char) : Option (List Char) :=
  match skipBlanks cs with
  | '\n' :: rest => some (rest.dropWhile fun c => isBlank c || c = '\n')
  | _ => none

/-- Reads a text behind its opening quotes, up to the closing ones. `escapes` tells texts with
escapes from literal ones, `long` those of several lines from those of one. -/
def readText? (quote : Char) (escapes long : Bool) :
    Nat → List Char → Option (List Char × List Char)
  | 0, _ => none
  | _ + 1, [] => none
  | fuel + 1, c :: cs =>
    if c = quote then
      if !long then some ([], cs)
      else match cs.takeWhile (· = quote) with
        | [] => (readText? quote escapes long fuel cs).map fun (s, rest) => (c :: s, rest)
        | [_] => (readText? quote escapes long fuel cs.tail).map fun (s, rest) =>
          (c :: c :: s, rest)
        | [_, _] => some ([], cs.drop 2)
        | [_, _, _] => some ([c], cs.drop 3)
        | _ => if (cs.drop 4).head? = some quote then none else some ([c, c], cs.drop 4)
    else if c = '\\' ∧ escapes then
      match readEscape? cs, (if long then skipFold cs else none) with
      | some (e, rest), _ => (readText? quote escapes long fuel rest).map fun (s, after) =>
        (e :: s, after)
      | none, some rest => readText? quote escapes long fuel rest
      | none, none => none
    else if isControl c ∧ ¬(long ∧ c = '\n') then none
    else (readText? quote escapes long fuel cs).map fun (s, rest) => (c :: s, rest)

/-- The text behind a line end, if one stands in front. -/
def skipLineEnd : List Char → List Char
  | '\n' :: rest => rest
  | cs => cs

/-- Reads a text that starts with a quote. A line end behind three quotes is not part of it. -/
def readQuoted? (quote : Char) (escapes : Bool) (cs : List Char) :
    Option (List Char × List Char) :=
  match cs with
  | a :: b :: rest =>
    if a = quote ∧ b = quote then
      readText? quote escapes true (rest.length + 1) (skipLineEnd rest)
    else readText? quote escapes false (cs.length + 1) cs
  | _ => readText? quote escapes false (cs.length + 1) cs

/-! ## Keys -/

def isBareKey (c : Char) : Bool := c.isAlphanum || c = '_' || c = '-'

/-- Reads a key, quoted on one line or bare. -/
def readKey? (cs : List Char) : Option (List Char × List Char) :=
  match cs with
  | '"' :: rest => readText? '"' true false (rest.length + 1) rest
  | '\'' :: rest => readText? '\'' false false (rest.length + 1) rest
  | _ =>
    let key := cs.takeWhile isBareKey
    if key = [] then none else some (key, cs.drop key.length)

/-- Reads the keys between dots, with the blanks around each. Every step takes a character, so a
fuel of the length of the text suffices. -/
def readPath? : Nat → List Char → Option (List String × List Char)
  | 0, _ => none
  | fuel + 1, cs => do
    let (key, rest) ← readKey? (skipBlanks cs)
    match skipBlanks rest with
    | '.' :: rest =>
      let (path, rest) ← readPath? fuel rest
      some (String.ofList key :: path, rest)
    | rest => some ([String.ofList key], rest)

/-! ## Values -/

/-- The text behind blanks, line ends and comments. `inComment` tells where the reading starts. -/
def skipGaps (inComment : Bool) : List Char → List Char
  | [] => []
  | c :: cs =>
    if c = '\n' then skipGaps false cs
    else if inComment then if isControl c then c :: cs else skipGaps true cs
    else if c = '#' then skipGaps true cs
    else if isBlank c then skipGaps false cs
    else c :: cs

mutual

/-- Reads a value. Two steps take at least one character, so a fuel of twice the length of the text
suffices. -/
def readValue? (fuel : Nat) (cs : List Char) : Option (Setting × List Char) :=
  match fuel with
  | 0 => none
  | fuel + 1 =>
    match cs with
    | '"' :: rest => (readQuoted? '"' true rest).map fun (s, after) =>
      (.text (String.ofList s), after)
    | '\'' :: rest => (readQuoted? '\'' false rest).map fun (s, after) =>
      (.text (String.ofList s), after)
    | '[' :: rest =>
      match skipGaps false rest with
      | ']' :: rest => some (.emptyList, rest)
      | _ => none
    | '\x7b' :: rest => (readBraced? fuel [] rest).map fun (table, after) =>
      (.table .braced table, after)
    | _ =>
      let token := cs.takeWhile fun c => c.isAlphanum || c = '_' || c = '+' || c = '-' || c = '.'
      (readInteger? token).map fun n => (.integer n, cs.drop token.length)

/-- Reads a key, an equals sign and a value. `skip` passes what may stand around the sign. -/
def readAssignment? (fuel : Nat) (skip : List Char → List Char) (cs : List Char) :
    Option (List String × Setting × List Char) :=
  match fuel with
  | 0 => none
  | fuel + 1 => do
    let (path, rest) ← readPath? (cs.length + 1) cs
    let '=' :: rest := skip rest | none
    let (value, rest) ← readValue? fuel (skip rest)
    some (path, value, rest)

/-- Reads the rest of a table up to its closing brace, before which a comma may stand. Its parts may
stand on lines of their own. -/
def readBraced? (fuel : Nat) (table : Table) (cs : List Char) : Option (Table × List Char) :=
  match fuel with
  | 0 => none
  | fuel + 1 =>
    match skipGaps false cs with
    | '\x7d' :: rest => some (table, rest)
    | cs => do
      let (path, value, rest) ← readAssignment? fuel (skipGaps false) cs
      let table ← table.assign? path value
      match skipGaps false rest with
      | ',' :: rest => readBraced? fuel table rest
      | '\x7d' :: rest => some (table, rest)
      | _ => none

end

/-! ## Lines -/

/-- The text behind the rest of a line, which holds blanks and a comment at most. -/
def endLine? (cs : List Char) : Option (List Char) :=
  let rest := match skipBlanks cs with
    | '#' :: rest => rest.dropWhile fun c => !isControl c
    | rest => rest
  match rest with
  | [] => some []
  | '\n' :: rest => some rest
  | _ => none

/-- Reads the lines into a table, under a header. -/
def readLines? : Nat → List String → Table → List Char → Option Table
  | 0, _, _, _ => none
  | fuel + 1, header, table, cs =>
    match skipBlanks cs, endLine? cs with
    | [], _ => some table
    | _, some rest => readLines? fuel header table rest
    | '[' :: rest, none => do
      let (path, ']' :: rest) ← readPath? (rest.length + 1) rest | none
      readLines? fuel path (← table.declare? path) (← endLine? rest)
    | line, none => do
      let (path, value, rest) ← readAssignment? (2 * line.length + 2) skipBlanks line
      readLines? fuel header (← table.assignUnder? header path value) (← endLine? rest)

/-- The settings of a text, in order. A byte order mark in front is skipped. -/
def parse? (text : String) : Option Table :=
  let cs := match text.toList with
    | '\ufeff' :: rest => rest
    | cs => cs
  readLines? (cs.length + 1) [] [] (plainLineEnds cs)

end DocFind.Toml
