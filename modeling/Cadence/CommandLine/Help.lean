import Cadence.CommandLine.Request

/-! The texts that explain the command line. -/

namespace Cadence.CommandLine

def lines (texts : List String) : String := String.join (texts.map (· ++ "\n"))

def configHelp : String :=
  "      --config <CONFIG>        Configuration file (defaults to gallium/config.toml in the config directory)"

def logLevelHelp : String := "      --log-level <LOG_LEVEL>  Log level, overriding the configuration"

def helpHelp : String := "  -h, --help                   Print help"

def verbHelp (about usage : String) (options : List String) : String :=
  lines ([about, "", "Usage: gallium " ++ usage, "", "Arguments:", "  <FILE>  ", "", "Options:"] ++
    options ++ [helpHelp])

def helpText : Topic → String
  | .everything =>
    lines ["Parse, format and play Gallium pattern programs", "", "Usage: gallium [OPTIONS] <COMMAND>",
      "", "Commands:", "  check  Parse, resolve and type-check a program",
      "  fmt    Print a program in normal form",
      "  query  Print the events of a program over a time span as JSON",
      "  play   Play a program, printing the MIDI bytes it sends",
      "  help   Print this message or the help of the given subcommand(s)", "", "Options:",
      configHelp, logLevelHelp, helpHelp]
  | .help =>
    lines ["Print this message or the help of the given subcommand(s)", "",
      "Usage: gallium help [COMMAND]...", "", "Arguments:",
      "  [COMMAND]...  Print help for the subcommand(s)"]
  | .verb .check =>
    verbHelp "Parse, resolve and type-check a program" "check [OPTIONS] <FILE>"
      [configHelp, logLevelHelp]
  | .verb .fmt =>
    verbHelp "Print a program in normal form" "fmt [OPTIONS] <FILE>"
      [configHelp, "      --write                  Rewrite the file in place", logLevelHelp]
  | .verb .query =>
    verbHelp "Print the events of a program over a time span as JSON" "query [OPTIONS] <FILE>"
      [configHelp, "      --from <FROM>            [default: 0]", logLevelHelp,
        "      --to <TO>                [default: 1]"]
  | .verb .play =>
    verbHelp "Play a program, printing the MIDI bytes it sends" "play [OPTIONS] <FILE>"
      ["      --beats <BEATS>          Beats to play before stopping", configHelp,
        "      --bpm <BPM>              ", logLevelHelp]

end Cadence.CommandLine
