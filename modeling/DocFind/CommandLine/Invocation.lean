/-!
# Command lines

Options take their value behind an equals sign or as the next word, which may then not look like
an option. An option is given once, except the index option. Words are taken in order: the first
one at fault, or a request for help, ends the reading.

A value that is a word of its own is looked at late: when the next option comes, or when all words
have been read, those of the command behind it included. So help on a command is given in spite of
a bad option in front of the command.
-/
namespace DocFind

/-- The documents, the indexes and the request of a command. -/
structure QuerySource where
  docs : String
  indexes : List String
  collection : String
  query : String
deriving DecidableEq, Repr

inductive Command where
  | find (source : QuerySource) (metrics : Bool)
  | explain (source : QuerySource)
deriving DecidableEq, Repr

/-- A command with the options in front of it. -/
structure Invocation where
  config : Option String
  logDir : Option String
  logLevel : Option String
  command : Command
deriving DecidableEq, Repr

/-- Which help is asked for. -/
inductive HelpTopic where
  | program
  | find
  | explain
  | help
deriving DecidableEq, Repr

/-- Why words are no command line. -/
inductive UsageFault where
  | unexpected (word : String)
  | valueExpected (option : String)
  | valueUnexpected (option : String)
  | emptyValue (option : String)
  | repeated (option : String)
  | missing (option : String)
  | unknownCommand (word : String)
  | noCommand
deriving DecidableEq, Repr

/-- What ends the reading of words before a command is complete. -/
inductive Interruption where
  | fault (fault : UsageFault)
  | help (topic : HelpTopic)
  | version
deriving DecidableEq, Repr

/-- What an option takes. -/
inductive OptionKind where
  | flag
  /-- A text, which may be empty. -/
  | text
  /-- A path, which may not be empty. -/
  | path
  /-- A text, as often as wanted. -/
  | texts
deriving DecidableEq, Repr

/-- Where options are read: the names with their kinds, the help they offer, and whether the
version can be asked for. -/
structure OptionScope where
  options : List (String × OptionKind)
  topic : HelpTopic
  hasVersion : Bool
deriving Repr

namespace OptionScope

/-- The options in front of the command. -/
def program : OptionScope :=
  ⟨[("config", .path), ("log-dir", .path), ("log-level", .text)], .program, true⟩

/-- The options of both commands. -/
def sourceOptions : List (String × OptionKind) :=
  [("docs", .path), ("index", .texts), ("collection", .text), ("query", .text)]

def find : OptionScope := ⟨sourceOptions ++ [("metrics", .flag)], .find, false⟩

def explain : OptionScope := ⟨sourceOptions, .explain, false⟩

end OptionScope

/-- The values of options, in order. A flag has an empty value. -/
abbrev OptionValues := List (String × String)

namespace OptionValues

def value? (values : OptionValues) (name : String) : Option String :=
  (values.find? fun (n, _) => n = name).map Prod.snd

def all (values : OptionValues) (name : String) : List String :=
  (values.filter fun (n, _) => n = name).map Prod.snd

end OptionValues

/-- A word as the reading sees it. -/
inductive Word where
  | separator
  /-- A long option, with the value behind the equals sign if there is one. -/
  | long (name : String) (value : Option String)
  | short (letters : List Char)
  | plain
deriving DecidableEq, Repr

def Word.ofText (text : String) : Word :=
  match text.toList with
  | ['-', '-'] => .separator
  | '-' :: '-' :: cs =>
    let name := cs.takeWhile (· ≠ '=')
    .long (String.ofList name)
      (match cs.drop name.length with
        | [] => none
        | _ :: value => some (String.ofList value))
  | '-' :: c :: cs => .short (c :: cs)
  | _ => .plain

/-- Takes in the value of an option. -/
def OptionValues.add (values : OptionValues) (name : String) (kind : OptionKind) (value : String) :
    Except Interruption OptionValues :=
  if kind ≠ .texts ∧ (values.value? name).isSome then .error (.fault (.repeated name))
  else if kind = .path ∧ value = "" then .error (.fault (.emptyValue name))
  else .ok (values ++ [(name, value)])

/-- The options read so far. The last one waits to be taken in if its value was a word of its
own. -/
structure OptionReading where
  values : OptionValues
  waiting : Option (String × OptionKind × String)
deriving Repr

namespace OptionReading

def empty : OptionReading := ⟨[], none⟩

/-- Takes in the option that waits. -/
def settle (r : OptionReading) : Except Interruption OptionValues :=
  match r.waiting with
  | none => .ok r.values
  | some (name, kind, value) => r.values.add name kind value

/-- Takes in the option that waits, and another one. -/
def add (r : OptionReading) (name : String) (kind : OptionKind) (value : String) :
    Except Interruption OptionReading := do
  let values ← r.settle
  return ⟨← values.add name kind value, none⟩

/-- Takes in the option that waits, and lets another one wait. -/
def await (r : OptionReading) (name : String) (kind : OptionKind) (value : String) :
    Except Interruption OptionReading := do
  return ⟨← r.settle, some (name, kind, value)⟩

/-- What ends the reading. The option that waits comes before a request, and behind a fault. -/
def stop (r : OptionReading) (interruption : Interruption) : Interruption :=
  match interruption, r.settle with
  | .fault fault, _ => .fault fault
  | _, .error fault => fault
  | request, .ok _ => request

end OptionReading

/-- Reads a cluster of letters, of which only the requests for help and version are known. -/
def readLetters (scope : OptionScope) (word : String) : List Char → Interruption
  | 'h' :: _ => .help scope.topic
  | 'V' :: _ => if scope.hasVersion then .version else .fault (.unexpected word)
  | _ => .fault (.unexpected word)

/-- Reads a long option that takes no part in the command: a request, or a word at fault. -/
def readRequest (scope : OptionScope) (word name : String) (value : Option String) :
    Interruption :=
  if name = "help" ∨ (name = "version" ∧ scope.hasVersion) then
    if value.isSome then .fault (.valueUnexpected name)
    else if name = "help" then .help scope.topic
    else .version
  else .fault (.unexpected word)

/-- Reads options up to the first plain word, which is returned with the words behind it. Behind a
separator nothing is an option. -/
def readOptions (scope : OptionScope) (reading : OptionReading) :
    List String → Except Interruption (OptionReading × List String)
  | [] => .ok (reading, [])
  | word :: rest =>
    match Word.ofText word with
    | .plain => .ok (reading, word :: rest)
    | .short letters => .error (reading.stop (readLetters scope word letters))
    | .separator =>
      match rest with
      | [] => .ok (reading, [])
      | next :: _ => .error (.fault (.unexpected next))
    | .long name value =>
      match (scope.options.find? fun (n, _) => n = name).map Prod.snd, value with
      | some .flag, none => do
        let reading ← reading.add name .flag ""
        readOptions scope reading rest
      | some .flag, some _ => .error (.fault (.valueUnexpected name))
      | some kind, some text => do
        let reading ← reading.add name kind text
        readOptions scope reading rest
      | some kind, none =>
        match rest with
        | [] => .error (.fault (.valueExpected name))
        | text :: rest =>
          if Word.ofText text = .plain then do
            let reading ← reading.await name kind text
            readOptions scope reading rest
          else .error (.fault (.valueExpected name))
      | none, value => .error (reading.stop (readRequest scope word name value))

def required (values : OptionValues) (name : String) : Except Interruption String :=
  match values.value? name with
  | some text => .ok text
  | none => .error (.fault (.missing name))

/-- Reads the options of a command, behind which nothing may follow. -/
def readSource (scope : OptionScope) (words : List String) :
    Except Interruption (QuerySource × OptionValues) := do
  let (reading, rest) ← readOptions scope .empty words
  match rest with
  | word :: _ => .error (.fault (.unexpected word))
  | [] =>
    let values ← reading.settle
    let docs ← required values "docs"
    let query ← required values "query"
    .ok (⟨docs, values.all "index", (values.value? "collection").getD "docs", query⟩, values)

/-- The help on a command. -/
def HelpTopic.ofCommand? : String → Option HelpTopic
  | "find" => some .find
  | "explain" => some .explain
  | "help" => some .help
  | _ => none

/-- The help that the words behind `help` ask for: that on one command, or on the program. Nothing
is an option here. -/
def readHelp : List String → Interruption
  | [] => .help .program
  | word :: rest =>
    match HelpTopic.ofCommand? word, rest with
    | none, _ => .fault (.unknownCommand word)
    | some topic, [] => .help topic
    | some _, next :: _ => .fault (.unknownCommand next)

/-- Reads a command with its options. -/
def readCommand (name : String) (words : List String) : Except Interruption Command :=
  match name with
  | "find" => do
    let (source, values) ← readSource .find words
    return .find source (values.value? "metrics").isSome
  | "explain" => do
    let (source, _) ← readSource .explain words
    return .explain source
  | "help" => .error (readHelp words)
  | _ => .error (.fault (.unknownCommand name))

/-- Reads a command line. -/
def Invocation.ofWords (words : List String) : Except Interruption Invocation := do
  let (reading, rest) ← readOptions .program .empty words
  let command? ← match rest with
    | [] => pure none
    | name :: words => some <$> readCommand name words
  let values ← reading.settle
  match command? with
  | none => .error (.fault .noCommand)
  | some command =>
    .ok ⟨values.value? "config", values.value? "log-dir", values.value? "log-level", command⟩

end DocFind
