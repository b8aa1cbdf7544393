import DocFind.Double.Scaled
import DocFind.Json

/-!
# Reading JSON

The reader is strict: one value, with blanks around its parts only, no comma before a closing
bracket, no leading zeros, no control characters in texts, no half of a surrogate pair, at most
127 arrays and objects around one another. An integer that a signed word of 64 bits or an unsigned
one holds stays an integer; `-0` and every other number is a binary number, which must be finite:
the leading digits that a word of 64 bits holds, scaled by a power of ten. Objects get ascending
keys, and of a repeated key the last value stays.

A fault carries the place where reading stopped: its line, and the bytes of that line up to it.
-/
namespace DocFind.Json

/-- Why a text is no JSON value. -/
inductive Cause where
  | endInList
  | endInObject
  | endInString
  | endInValue
  | expectedColon
  | expectedListEnd
  | expectedObjectEnd
  | expectedWord
  | expectedValue
  | invalidEscape
  | invalidNumber
  | numberOutOfRange
  | controlCharacter
  | keyNotString
  | loneSurrogate
  | trailingComma
  | trailingText
  | unfinishedPair
  | nestingTooDeep
deriving DecidableEq, Repr

def Cause.text : Cause → String
  | endInList => "EOF while parsing a list"
  | endInObject => "EOF while parsing an object"
  | endInString => "EOF while parsing a string"
  | endInValue => "EOF while parsing a value"
  | expectedColon => "expected `:`"
  | expectedListEnd => "expected `,` or `]`"
  | expectedObjectEnd => "expected `,` or `\x7d`"
  | expectedWord => "expected ident"
  | expectedValue => "expected value"
  | invalidEscape => "invalid escape"
  | invalidNumber => "invalid number"
  | numberOutOfRange => "number out of range"
  | controlCharacter => "control character (\\u0000-\\u001F) found while parsing a string"
  | keyNotString => "key must be a string"
  | loneSurrogate => "lone leading surrogate in hex escape"
  | trailingComma => "trailing comma"
  | trailingText => "trailing characters"
  | unfinishedPair => "unexpected end of hex escape"
  | nestingTooDeep => "recursion limit exceeded"

/-- A fault and its place in the text. -/
structure Fault where
  cause : Cause
  line : Nat
  column : Nat
deriving DecidableEq, Repr

def Fault.text (f : Fault) : String :=
  f.cause.text ++ " at line " ++ toString f.line ++ " column " ++ toString f.column

/-- A stop: the cause, the text not yet read, and how many of its bytes belong to the place. -/
structure Stop where
  cause : Cause
  rest : List Char
  ahead : Nat
deriving Repr

/-- Stops behind what was read. -/
def stop {α : Type} (cause : Cause) (rest : List Char) : Except Stop α :=
  .error ⟨cause, rest, 0⟩

/-- Stops at the next character. -/
def stopAt {α : Type} (cause : Cause) (rest : List Char) : Except Stop α :=
  .error ⟨cause, rest, 1⟩

def isBlank (c : Char) : Bool := c = ' ' || c = '\n' || c = '\t' || c = '\r'

def skipBlanks (cs : List Char) : List Char := cs.dropWhile isBlank

/-- Reads the remaining letters of a word. -/
def readWord (value : Json) : List Char → List Char → Except Stop (Json × List Char)
  | [], cs => .ok (value, cs)
  | _ :: _, [] => stop .endInValue []
  | w :: word, c :: cs => if w = c then readWord value word cs else stopAt .expectedWord (c :: cs)

/-! ## Numbers -/

/-- Adds digits to a coefficient as long as a word of 64 bits holds it. Returns how many digits
are left from the first one on that does not fit. -/
def addDigits (coefficient : Nat) : List Char → Nat × Nat
  | [] => (coefficient, 0)
  | c :: rest =>
    let next := 10 * coefficient + Numeral.digitValue c
    if next < 0x10000000000000000 then addDigits next rest else (coefficient, rest.length + 1)

/-- The binary number of the digits `whole.fraction`, shifted by `shift` places, if it is finite.
Digits that do not fit count as zeros. -/
def finish (negative : Bool) (whole fraction : List Char) (shift : Int) (rest : List Char) :
    Except Stop (Json × List Char) :=
  let (coefficient, wholeLeft) := addDigits 0 whole
  let (coefficient, fractionLeft) := addDigits coefficient fraction
  let x := Double.ofScaled coefficient (shift + wholeLeft + fractionLeft - fraction.length)
  if x.isFinite then .ok (.float (Double.ofMagnitude negative x.magnitude), rest)
  else stop .numberOutOfRange rest

/-- Exponents are signed words of 32 bits. -/
def maxExponent : Nat := 0x7FFFFFFF

/-- What follows the first digit that takes a run of digits above the greatest exponent, if one
does. -/
def overflow? (shift : Nat) : List Char → Option (List Char)
  | [] => none
  | c :: rest =>
    let shift := 10 * shift + Numeral.digitValue c
    if maxExponent < shift then some rest else overflow? shift rest

/-- Reads an exponent behind its mark. One that no word holds leaves a zero, unless a coefficient
other than zero grows by it. -/
def readExponent (negative : Bool) (whole fraction cs : List Char) :
    Except Stop (Json × List Char) :=
  let (below, cs) := Numeral.spanSign cs
  match cs with
  | [] => stop .endInValue []
  | c :: _ =>
    if c.isDigit then
      let (digits, rest) := Numeral.spanDigits cs
      let shift : Int := Numeral.ofDigits digits
      match overflow? 0 digits with
      | none => finish negative whole fraction (if below then -shift else shift) rest
      | some behind =>
        if below ∨ (whole ++ fraction).all (· = '0') then finish negative [] [] 0 rest
        else stop .numberOutOfRange (behind ++ rest)
    else stopAt .invalidNumber cs

/-- Reads what may follow the digits before and after the point. -/
def readShift (negative : Bool) (whole fraction : List Char) :
    List Char → Except Stop (Json × List Char)
  | [] => finish negative whole fraction 0 []
  | c :: rest =>
    if c = 'e' || c = 'E' then readExponent negative whole fraction rest
    else finish negative whole fraction 0 (c :: rest)

/-- An integer that a word holds, or a binary number. -/
def readInteger (negative : Bool) (digits rest : List Char) : Except Stop (Json × List Char) :=
  let n := Numeral.ofDigits digits
  if negative then
    if n = 0 ∨ 0x8000000000000000 < n then finish true digits [] 0 rest
    else .ok (.integer (-n), rest)
  else if n < 0x10000000000000000 then .ok (.integer n, rest)
  else finish false digits [] 0 rest

/-- Reads what may follow the digits before the point. -/
def readFraction (negative : Bool) (whole : List Char) : List Char → Except Stop (Json × List Char)
  | '.' :: rest =>
    match Numeral.spanDigits rest with
    | ([], []) => stopAt .endInValue []
    | ([], after) => stopAt .invalidNumber after
    | (fraction, after) => readShift negative whole fraction after
  | c :: rest =>
    if c = 'e' || c = 'E' then readExponent negative whole [] rest
    else readInteger negative whole (c :: rest)
  | [] => readInteger negative whole []

/-- Reads a number behind its sign. A zero in front stands alone. -/
def readNumber (negative : Bool) : List Char → Except Stop (Json × List Char)
  | [] => stop .endInValue []
  | '0' :: d :: rest =>
    if d.isDigit then stopAt .invalidNumber (d :: rest) else readFraction negative ['0'] (d :: rest)
  | c :: rest =>
    if c.isDigit then
      let (digits, after) := Numeral.spanDigits (c :: rest)
      readFraction negative digits after
    else stopAt .invalidNumber (c :: rest)

/-! ## Texts -/

/-- The value of a hexadecimal digit. -/
def hexValue? (c : Char) : Option Nat :=
  if '0' ≤ c ∧ c ≤ '9' then some (c.toNat - '0'.toNat)
  else if 'a' ≤ c ∧ c ≤ 'f' then some (c.toNat - 'a'.toNat + 10)
  else if 'A' ≤ c ∧ c ≤ 'F' then some (c.toNat - 'A'.toNat + 10)
  else none

def utf8Length (cs : List Char) : Nat := cs.foldl (fun n c => n + c.utf8Size) 0

/-- Reads four hexadecimal digits. Four bytes are taken before they are looked at. -/
def readHex (cs : List Char) : Except Stop (Nat × List Char) :=
  match cs with
  | a :: b :: c :: d :: rest =>
    match hexValue? a, hexValue? b, hexValue? c, hexValue? d with
    | some a, some b, some c, some d => .ok (((a * 16 + b) * 16 + c) * 16 + d, rest)
    | _, _, _, _ => .error ⟨.invalidEscape, cs, 4⟩
  | _ =>
    if utf8Length cs < 4 then stop .endInString [] else .error ⟨.invalidEscape, cs, 4⟩

def isHighSurrogate (n : Nat) : Bool := 0xD800 ≤ n && n ≤ 0xDBFF

def isLowSurrogate (n : Nat) : Bool := 0xDC00 ≤ n && n ≤ 0xDFFF

/-- Reads the second half of a surrogate pair. -/
def readLowSurrogate (high : Nat) : List Char → Except Stop (Char × List Char)
  | [] => stop .endInString []
  | ['\\'] => stop .endInString []
  | '\\' :: 'u' :: cs => do
    let (low, rest) ← readHex cs
    if isLowSurrogate low then
      .ok (Char.ofNat (0x10000 + (high - 0xD800) * 0x400 + (low - 0xDC00)), rest)
    else stop .loneSurrogate rest
  | '\\' :: c :: cs => stopAt .unfinishedPair (c :: cs)
  | c :: cs => stopAt .unfinishedPair (c :: cs)

/-- Reads an escaped character behind its backslash. -/
def readEscape : List Char → Except Stop (Char × List Char)
  | [] => stop .endInString []
  | '"' :: cs => .ok ('"', cs)
  | '\\' :: cs => .ok ('\\', cs)
  | '/' :: cs => .ok ('/', cs)
  | 'b' :: cs => .ok ('\x08', cs)
  | 'f' :: cs => .ok ('\x0c', cs)
  | 'n' :: cs => .ok ('\n', cs)
  | 'r' :: cs => .ok ('\r', cs)
  | 't' :: cs => .ok ('\t', cs)
  | 'u' :: cs => do
    let (n, rest) ← readHex cs
    if isLowSurrogate n then stop .loneSurrogate rest
    else if isHighSurrogate n then readLowSurrogate n rest
    else .ok (Char.ofNat n, rest)
  | c :: cs => stopAt .invalidEscape (c :: cs)

/-- Reads a text behind its opening quote. Every step takes a character, so a fuel of the length
of the text suffices. -/
def readChars : Nat → List Char → Except Stop (List Char × List Char)
  | 0, _ => stop .endInString []
  | _ + 1, [] => stop .endInString []
  | _ + 1, '"' :: rest => .ok ([], rest)
  | fuel + 1, '\\' :: cs => do
    let (c, rest) ← readEscape cs
    let (tail, rest) ← readChars fuel rest
    .ok (c :: tail, rest)
  | fuel + 1, c :: cs =>
    if c.toNat < 32 then stopAt .controlCharacter (c :: cs)
    else do
      let (tail, rest) ← readChars fuel cs
      .ok (c :: tail, rest)

def readString (cs : List Char) : Except Stop (String × List Char) := do
  let (chars, rest) ← readChars (cs.length + 1) cs
  .ok (String.ofList chars, rest)

/-! ## Values -/

/-- What precedes the next part of a list or an object. -/
inductive Place where
  | first
  | later

mutual

/-- Reads a value. `room` more arrays and objects may be opened around one another. Two steps take
at least one character, so a fuel of twice the length of the text suffices. -/
def readValue (fuel room : Nat) (cs : List Char) : Except Stop (Json × List Char) :=
  match fuel with
  | 0 => stop .endInValue []
  | fuel + 1 =>
    match skipBlanks cs with
    | [] => stopAt .endInValue []
    | 'n' :: rest => readWord .null ['u', 'l', 'l'] rest
    | 't' :: rest => readWord (.bool true) ['r', 'u', 'e'] rest
    | 'f' :: rest => readWord (.bool false) ['a', 'l', 's', 'e'] rest
    | '-' :: rest => readNumber true rest
    | '"' :: rest => do
      let (s, rest) ← readString rest
      .ok (.string s, rest)
    | '[' :: rest =>
      if room = 0 then stopAt .nestingTooDeep ('[' :: rest)
      else do
        let (items, rest) ← readItems fuel (room - 1) .first rest
        .ok (.array items, rest)
    | '\x7b' :: rest =>
      if room = 0 then stopAt .nestingTooDeep ('\x7b' :: rest)
      else do
        let (entries, rest) ← readEntries fuel (room - 1) .first rest
        .ok (.object (Entries.toSorted entries), rest)
    | c :: rest =>
      if c.isDigit then readNumber false (c :: rest) else stopAt .expectedValue (c :: rest)

/-- Reads the items up to the closing bracket. -/
def readItems (fuel room : Nat) (place : Place) (cs : List Char) :
    Except Stop (List Json × List Char) :=
  match fuel with
  | 0 => stop .endInList []
  | fuel + 1 =>
    let item (cs : List Char) : Except Stop (List Json × List Char) := do
      let (j, rest) ← readValue fuel room cs
      let (items, rest) ← readItems fuel room .later rest
      .ok (j :: items, rest)
    match place, skipBlanks cs with
    | _, [] => stopAt .endInList []
    | _, ']' :: rest => .ok ([], rest)
    | .first, cs => item cs
    | .later, ',' :: rest =>
      match skipBlanks rest with
      | [] => stopAt .endInValue []
      | ']' :: rest => stopAt .trailingComma (']' :: rest)
      | cs => item cs
    | .later, cs => stopAt .expectedListEnd cs

/-- Reads the entries up to the closing brace. -/
def readEntries (fuel room : Nat) (place : Place) (cs : List Char) :
    Except Stop (List (String × Json) × List Char) :=
  match fuel with
  | 0 => stop .endInObject []
  | fuel + 1 =>
    let entry (cs : List Char) : Except Stop (List (String × Json) × List Char) := do
      let (key, rest) ← readString cs
      match skipBlanks rest with
      | [] => stopAt .endInObject []
      | ':' :: rest =>
        let (j, rest) ← readValue fuel room rest
        let (entries, rest) ← readEntries fuel room .later rest
        .ok ((key, j) :: entries, rest)
      | rest => stopAt .expectedColon rest
    match place, skipBlanks cs with
    | _, [] => stopAt .endInObject []
    | _, '\x7d' :: rest => .ok ([], rest)
    | .first, '"' :: rest => entry rest
    | .first, cs => stopAt .keyNotString cs
    | .later, ',' :: rest =>
      match skipBlanks rest with
      | [] => stopAt .endInValue []
      | '"' :: rest => entry rest
      | '\x7d' :: rest => stopAt .trailingComma ('\x7d' :: rest)
      | cs => stopAt .keyNotString cs
    | .later, cs => stopAt .expectedObjectEnd cs

end

/-- Reads one value and the blanks around it. -/
def readText (cs : List Char) : Except Stop Json := do
  let (j, rest) ← readValue (2 * cs.length + 2) 127 cs
  match skipBlanks rest with
  | [] => .ok j
  | rest => stopAt .trailingText rest

/-- Line and column after a number of bytes. -/
def advance (line column : Nat) : Nat → List Char → Nat × Nat
  | _, [] => (line, column)
  | bytes, c :: cs =>
    if bytes = 0 then (line, column)
    else if c = '\n' then advance (line + 1) 0 (bytes - 1) cs
    else advance line (column + min bytes c.utf8Size) (bytes - c.utf8Size) cs

/-- The place of a stop in the whole text. -/
def Stop.fault (s : Stop) (text : List Char) : Fault :=
  let (line, column) := advance 1 0 (utf8Length text - utf8Length s.rest + s.ahead) text
  ⟨s.cause, line, column⟩

/-- The JSON value that a text writes. -/
def parse (text : String) : Except Fault Json :=
  (readText text.toList).mapError fun s => s.fault text.toList

end DocFind.Json
