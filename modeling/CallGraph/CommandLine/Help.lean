/-!
# Help texts

What the program prints when it is asked for help or for its version.
-/
namespace CallGraph.CommandLine

/-- Lines with a line end each. -/
def unlines (lines : List String) : String := String.join (lines.map (· ++ "\n"))

def versionText : String := "callscope 0.1.0\n"

def helpText : String := unlines [
  "Callscope - incremental C/C++ call-graph explorer: cross-TU definition lookup, " ++
    "interactive call-tree sessions, and sequence-diagram export.",
  "",
  "Usage: callscope [OPTIONS] <COMMAND>",
  "",
  "Commands:",
  "  dump    Print the call tree below an entry point as indented text",
  "  export  Write a PlantUML sequence diagram for a root and a set of included callables",
  "  serve   Serve sessions over line-delimited JSON",
  "  help    Print this message or the help of the given subcommand(s)",
  "",
  "Options:",
  "      --config <CONFIG>  Configuration file (defaults to ./callscope.toml when present)",
  "  -v, --verbose...       More log output (-v info, -vv debug, -vvv trace)",
  "  -h, --help             Print help",
  "  -V, --version          Print version"]

def dumpHelpText : String := unlines [
  "Print the call tree below an entry point as indented text",
  "",
  "Usage: callscope dump [OPTIONS] <ENTRY> <PATH> [-- <EXTRA>...]",
  "",
  "Arguments:",
  "  <ENTRY>     Identity key of the entry point, e.g. `main()` or `ns::Foo::run(int)`",
  "  <PATH>      Source file or compile_commands.json",
  "  [EXTRA]...  Extra compiler arguments, after `--`",
  "",
  "Options:",
  "      --config <CONFIG>         Configuration file (defaults to ./callscope.toml when present)",
  "      --include-system-headers  ",
  "  -v, --verbose...              More log output (-v info, -vv debug, -vvv trace)",
  "  -h, --help                    Print help"]

def exportHelpText : String := unlines [
  "Write a PlantUML sequence diagram for a root and a set of included callables",
  "",
  "Usage: callscope export [OPTIONS] --root <ROOT> <PATH> [-- <EXTRA>...]",
  "",
  "Arguments:",
  "  <PATH>      Source file or compile_commands.json",
  "  [EXTRA]...  ",
  "",
  "Options:",
  "      --config <CONFIG>         Configuration file (defaults to ./callscope.toml when present)",
  "      --root <ROOT>             Identity key of the diagram root",
  "      --include <INCLUDED>      Callables to draw (repeatable)",
  "  -v, --verbose...              More log output (-v info, -vv debug, -vvv trace)",
  "      --tu <TU>                 Translation unit declaring the root (defaults to the first " ++
    "catalog file)",
  "      --load-definitions        Load definitions of declaration-only callables before " ++
    "exporting",
  "      --include-system-headers  ",
  "  -o, --output <OUTPUT>         Output file (stdout when omitted)",
  "  -h, --help                    Print help"]

def serveHelpText : String := unlines [
  "Serve sessions over line-delimited JSON",
  "",
  "Usage: callscope serve [OPTIONS]",
  "",
  "Options:",
  "      --config <CONFIG>  Configuration file (defaults to ./callscope.toml when present)",
  "      --host <HOST>      ",
  "  -p, --port <PORT>      ",
  "  -v, --verbose...       More log output (-v info, -vv debug, -vvv trace)",
  "  -h, --help             Print help"]

def helpHelpText : String := unlines [
  "Print this message or the help of the given subcommand(s)",
  "",
  "Usage: callscope help [COMMAND]",
  "",
  "Commands:",
  "  dump    Print the call tree below an entry point as indented text",
  "  export  Write a PlantUML sequence diagram for a root and a set of included callables",
  "  serve   Serve sessions over line-delimited JSON",
  "  help    Print this message or the help of the given subcommand(s)"]

def helpOf? : List String → Option String
  | [] => some helpText
  | ["dump"] => some dumpHelpText
  | ["export"] => some exportHelpText
  | ["serve"] => some serveHelpText
  | ["help"] => some helpHelpText
  | _ => none

end CallGraph.CommandLine
