/-
  The three usage texts.  Each ends with an empty line, and each calls the program by the name
  it was started under.
-/
import Brainfuck.Cli.Arguments

namespace Brainfuck.Cli.Usage

def unlines (lines : List String) : String :=
  lines.foldl (fun text line => text ++ line ++ "\n") ""

/-- How to use the program as a whole. -/
def program (name : String) : String := unlines
  [ "Usage:",
    "  " ++ name ++ " run   [--debug|-d] \"<code>\"       # Run Brainfuck code (args are concatenated)",
    "  " ++ name ++ " run   [--debug|-d] --file <PATH>  # Run Brainfuck code loaded from file",
    "  " ++ name ++ " check \"<code>\"                    # Show the filtered program and its loop pairs",
    "  " ++ name ++ " check --file <PATH>               # Same, for code loaded from file",
    "",
    "Run \"" ++ name ++ " <subcommand> --help\" for more info.",
    "" ]

def run (name : String) : String := unlines
  [ "Usage:",
    "  " ++ name ++ " run [--debug|-d] [--lenient] [--timeout MS] [--max-steps N] \"<code>\"",
    "  " ++ name ++ " run [--debug|-d] [--lenient] [--timeout MS] [--max-steps N] --file <PATH>",
    "",
    "Options:",
    "  --file,  -f <PATH>  Read Brainfuck code from PATH instead of positional \"<code>\"",
    "  --debug, -d         Print a step-by-step table of operations instead of executing",
    "  --lenient           Report unmatched brackets only when a jump through them is taken",
    "  --timeout <MS>      Abort after MS milliseconds of wall-clock time",
    "  --max-steps <N>     Abort after N executed instructions",
    "  --help,  -h         Show this help",
    "",
    "Notes:",
    "- Characters outside of Brainfuck's ><+-.,[] are comments and ignored.",
    "- Input (`,`) reads one line from stdin and stores the code of its first",
    "  character; an empty line or EOF stores 0.",
    "- Output (`.`) writes the current cell modulo 256 as a byte.",
    "",
    "Examples:",
    "- Load Brainfuck code from a file:",
    "    " ++ name ++ " run --file ./program.bf",
    "- Feed input lines from a file:",
    "    " ++ name ++ " run \",[.,]\" < input.txt",
    "" ]

def check (name : String) : String := unlines
  [ "Usage:",
    "  " ++ name ++ " check \"<code>\"",
    "  " ++ name ++ " check --file <PATH>",
    "",
    "Prints the program with comments removed, then the index of every loop",
    "bracket pair as \"open -> close\". Exits 1 on the first unmatched bracket.",
    "",
    "Options:",
    "  --file,  -f <PATH>  Read Brainfuck code from PATH instead of positional \"<code>\"",
    "  --help,  -h         Show this help",
    "" ]

def ofSubcommand (name : String) : Subcommand → String
  | .run => run name
  | .check => check name

end Brainfuck.Cli.Usage
