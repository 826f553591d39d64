/-!
# Help pages

What the program says about its use: one page about the whole, and one about each command.
-/

namespace AbiIndex.Command

/-- What a help page is about. -/
inductive Topic where
  | program
  | scan
  | info
  | selector
  | serve
deriving DecidableEq

namespace Topic

/-- The lines of a help page. The usage ends at the first empty line. -/
def lines : Topic → List String
  | program =>
    ["usage: sigscan [-h] [-v] \x7bscan,info,selector,serve\x7d ...",
     "",
     "Extract Solidity function, event and error signatures with their selectors.",
     "",
     "positional arguments:",
     "  \x7bscan,info,selector,serve\x7d",
     "    scan                Scan a project tree and export its signatures.",
     "    info                Show how a directory is classified and which sub-",
     "                        projects it holds.",
     "    selector            Compute the selector of a canonical signature.",
     "    serve               Run the HTTP service.",
     "",
     "options:",
     "  -h, --help            show this help message and exit",
     "  -v, --verbose         Increase log verbosity for troubleshooting."]
  | scan =>
    ["usage: sigscan scan [-h] [-v] [-o OUTPUT] [-f FORMATS] [--include-internal]",
     "                    [--include-private] [--no-events] [--no-errors]",
     "                    [--no-recursive]",
     "                    [path]",
     "",
     "positional arguments:",
     "  path                  Path to the project root (defaults to current",
     "                        directory).",
     "",
     "options:",
     "  -h, --help            show this help message and exit",
     "  -v, --verbose         Increase log verbosity for troubleshooting.",
     "  -o OUTPUT, --output OUTPUT",
     "                        Directory for exported files (defaults to",
     "                        <path>/signatures).",
     "  -f FORMATS, --formats FORMATS",
     "                        Comma-separated output formats: txt, json, csv, md.",
     "  --include-internal    Export internal functions too.",
     "  --include-private     Export private functions too.",
     "  --no-events           Leave events out of the export.",
     "  --no-errors           Leave custom errors out of the export.",
     "  --no-recursive        Scan only the given project instead of every sub-",
     "                        project below it."]
  | info =>
    ["usage: sigscan info [-h] [-v] [path]",
     "",
     "positional arguments:",
     "  path           Path to the project root (defaults to current directory).",
     "",
     "options:",
     "  -h, --help     show this help message and exit",
     "  -v, --verbose  Increase log verbosity for troubleshooting."]
  | selector =>
    ["usage: sigscan selector [-h] [-v] [--kind \x7bfunction,event,error\x7d] signature",
     "",
     "positional arguments:",
     "  signature             Canonical signature, e.g. transfer(address,uint256).",
     "",
     "options:",
     "  -h, --help            show this help message and exit",
     "  -v, --verbose         Increase log verbosity for troubleshooting.",
     "  --kind \x7bfunction,event,error\x7d",
     "                        Declaration kind; events produce the full 32-byte",
     "                        topic."]
  | serve =>
    ["usage: sigscan serve [-h] [-v] [--host HOST] [--port PORT]",
     "",
     "options:",
     "  -h, --help     show this help message and exit",
     "  -v, --verbose  Increase log verbosity for troubleshooting.",
     "  --host HOST    Interface to bind.",
     "  --port PORT    Port to listen on."]

/-- The text of a help page. -/
def page (t : Topic) : String := String.join (t.lines.map (· ++ "\n"))

/-- How to write a command line. -/
def usage (t : Topic) : String := String.join ((t.lines.takeWhile (· ≠ "")).map (· ++ "\n"))

end Topic

end AbiIndex.Command
