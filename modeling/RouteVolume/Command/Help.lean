import RouteVolume.Command.Arguments

namespace RouteVolume.Level

def usage : Level → List String
  | .program =>
    ["usage: rulegraph [-h] [--version] [-v] [--no-color] \x7bcount,regions,graph\x7d ..."]
  | .command .count =>
    ["usage: rulegraph count [-h] [--attributes A,B,...] [--domain-min N]",
      "                       [--domain-max N] [--start NAME] [-t]",
      "                       file"]
  | .command .regions =>
    ["usage: rulegraph regions [-h] [--attributes A,B,...] [--domain-min N]",
      "                         [--domain-max N] [--start NAME] [-f \x7btext,json\x7d]",
      "                         file"]
  | .command .graph =>
    ["usage: rulegraph graph [-h] [--attributes A,B,...] [--domain-min N]",
      "                       [--domain-max N] [--start NAME]",
      "                       file"]

def sharedHelp : List String :=
  ["",
    "positional arguments:",
    "  file                  Rule file (workflow lines; rating lines are ignored).",
    "",
    "options:",
    "  -h, --help            show this help message and exit",
    "  --attributes A,B,...  Comma-separated attribute names (default: x,m,a,s).",
    "  --domain-min N        Smallest attribute value (default: 1).",
    "  --domain-max N        Largest attribute value (default: 4000).",
    "  --start NAME          Entry workflow (default: in)."]

def details : Level → List String
  | .program =>
    ["",
      "Count the attribute combinations a set of routing rules accepts.",
      "",
      "options:",
      "  -h, --help            show this help message and exit",
      "  --version             show program's version number and exit",
      "  -v, --verbose         Increase log verbosity (-v INFO, -vv DEBUG).",
      "  --no-color            Disable coloured output.",
      "",
      "commands:",
      "  \x7bcount,regions,graph\x7d",
      "    count               Print the number of accepted combinations.",
      "    regions             List every accepting region.",
      "    graph               Print the rule graph as Graphviz DOT."]
  | .command .count =>
    sharedHelp ++
      ["  -t, --time            Also print the elapsed computation time."]
  | .command .regions =>
    sharedHelp ++
      ["  -f \x7btext,json\x7d, --format \x7btext,json\x7d",
        "                        Output format (default: text)."]
  | .command .graph => sharedHelp

def ended (lines : List String) : String := String.join (lines.map (· ++ "\n"))

def usageText (l : Level) : String := ended l.usage

def helpText (l : Level) : String := ended (l.usage ++ l.details)

end RouteVolume.Level
