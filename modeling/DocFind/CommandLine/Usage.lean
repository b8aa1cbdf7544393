import DocFind.CommandLine.Invocation

/-!
# Usage texts

The texts that answer a request for help or for the version, and those that explain why words are
no command line.
-/
namespace DocFind

/-- The name and version of the program. -/
def versionText : String := "mangolite 0.1.0\n"

/-- Lines of a text. -/
def textOfLines (lines : List String) : String := String.join (lines.map fun line => line ++ "\n")

/-- The options that both commands take. -/
def sourceOptionLines : List String :=
  ["      --docs <DOCS>              NDJSON file with one document per line",
    "      --index <INDEXES>          Comma-separated index fields; repeat to declare several, " ++
      "in order",
    "      --collection <COLLECTION>  Collection name used in logs and metrics [default: docs]",
    "      --query <QUERY>            The find body, e.g. '\x7b\"selector\": \x7b\"age\": " ++
      "\x7b\"$gt\": 30\x7d\x7d\x7d'"]

def HelpTopic.text : HelpTopic → String
  | program => textOfLines
    ["Run Mango find queries over NDJSON documents", "",
      "Usage: mangolite [OPTIONS] <COMMAND>", "",
      "Commands:",
      "  find     Run the query and print the result body",
      "  explain  Print the plan the query would run, without reading documents",
      "  help     Print this message or the help of the given subcommand(s)", "",
      "Options:",
      "      --config <CONFIG>        Path to a find config file (TOML). MANGOLITE_* env vars " ++
        "override it.",
      "      --log-dir <LOG_DIR>      Write rolling logs into this directory. Logging is off " ++
        "when omitted.",
      "      --log-level <LOG_LEVEL>  Log level: off, error, warn, info, debug, trace",
      "  -h, --help                   Print help",
      "  -V, --version                Print version"]
  | find => textOfLines <|
    ["Run the query and print the result body", "",
      "Usage: mangolite find [OPTIONS] --docs <DOCS> --query <QUERY>", "", "Options:"] ++
    sourceOptionLines ++
    ["      --metrics                  Also print the metrics counters after the result",
      "  -h, --help                     Print help"]
  | explain => textOfLines <|
    ["Print the plan the query would run, without reading documents", "",
      "Usage: mangolite explain [OPTIONS] --docs <DOCS> --query <QUERY>", "", "Options:"] ++
    sourceOptionLines ++ ["  -h, --help                     Print help"]
  | help => textOfLines
    ["Print this message or the help of the given subcommand(s)", "",
      "Usage: mangolite help [COMMAND]...", "",
      "Arguments:",
      "  [COMMAND]...  Print help for the subcommand(s)"]

def UsageFault.text : UsageFault → String
  | unexpected word => "unexpected argument '" ++ word ++ "' found"
  | valueExpected option => "a value is required for '--" ++ option ++ "' but none was supplied"
  | valueUnexpected option => "unexpected value for '--" ++ option ++ "' found"
  | emptyValue option => "a value is required for '--" ++ option ++ "' but none was supplied"
  | repeated option => "the argument '--" ++ option ++ "' cannot be used multiple times"
  | missing option => "the argument '--" ++ option ++ "' is required"
  | unknownCommand word => "unrecognized subcommand '" ++ word ++ "'"
  | noCommand => "a subcommand is required"

end DocFind
