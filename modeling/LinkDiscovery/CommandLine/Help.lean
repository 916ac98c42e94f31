import LinkDiscovery.CommandLine.Arguments
/-!
The help of the program and of its subcommands.
-/

namespace LinkDiscovery.CommandLine

/-- The name and the version of the program. -/
def versionText : String :=
  "interlink 0.3.0\n"

def mainHelp : String :=
"Interlink: declarative link discovery between knowledge bases

Usage: interlink [OPTIONS] <COMMAND>

Commands:
  parse  Parse a specification and print its tree
  plan   Compile a specification into its canonical nested plan
  run    Execute a run configuration over two serialized entity collections
  help   Print this message or the help of the given subcommand(s)

Options:
  -v, --verbose...  Increase log verbosity (-v info, -vv debug, -vvv trace)
  -h, --help        Print help
  -V, --version     Print version
"

def parseHelp : String :=
"Parse a specification and print its tree

Usage: interlink parse [OPTIONS] <EXPRESSION>

Arguments:
  <EXPRESSION>  Specification expression, e.g. `AND(trigrams(x.name,y.label)|0.8, ...)`

Options:
  -t, --threshold <THRESHOLD>  Target threshold of the whole expression [default: 1]
  -v, --verbose...             Increase log verbosity (-v info, -vv debug, -vvv trace)
      --json                   Print JSON instead of text
  -h, --help                   Print help
"

def planHelp : String :=
"Compile a specification into its canonical nested plan

Usage: interlink plan [OPTIONS] <EXPRESSION>

Arguments:
  <EXPRESSION>  \n
Options:
  -t, --threshold <THRESHOLD>  [default: 1]
  -v, --verbose...             Increase log verbosity (-v info, -vv debug, -vvv trace)
      --json                   Print the plan tree as JSON
  -h, --help                   Print help
"

def runHelp : String :=
"Execute a run configuration over two serialized entity collections

Usage: interlink run [OPTIONS] --source <SOURCE> --target <TARGET> <CONFIG>

Arguments:
  <CONFIG>  Run configuration (JSON)

Options:
      --source <SOURCE>  Source instances (JSON array)
  -v, --verbose...       Increase log verbosity (-v info, -vv debug, -vvv trace)
      --target <TARGET>  Target instances (JSON array)
  -h, --help             Print help
"

def helpHelp : String :=
"Print this message or the help of the given subcommand(s)

Usage: interlink help [COMMAND]...

Arguments:
  [COMMAND]...  Print help for the subcommand(s)
"

/-- The help about a topic. -/
def Topic.text : Topic → String
  | .program => mainHelp
  | .subcommand .parse => parseHelp
  | .subcommand .plan => planHelp
  | .subcommand .run => runHelp
  | .help => helpHelp

end LinkDiscovery.CommandLine
