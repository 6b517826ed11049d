import FrontLint.CommandLine.Arguments

/-!
# Usage

The texts that the program prints about itself, in eighty columns.
-/

namespace FrontLint

namespace Usage

def program : String := "vale-frontmatter"

def version : String := "1.0.0"

def versionText : String := s!"{program} {version}\n"

/-- The synopsis. -/
def synopsis : String :=
  "usage: vale-frontmatter [-h] [--version] [-f FILTER] [-v] [--timeout TIMEOUT]\n" ++
  "                        [--linter LINTER]\n" ++
  "                        [patterns ...]\n"

def help : String :=
  synopsis ++
  "\n" ++
  "Lint markdown front matter with Vale, preserving line numbers\n" ++
  "\n" ++
  "positional arguments:\n" ++
  "  patterns              Glob patterns for files to lint (default: **/*.md)\n" ++
  "\n" ++
  "options:\n" ++
  "  -h, --help            show this help message and exit\n" ++
  "  --version             show program's version number and exit\n" ++
  "  -f FILTER, --filter FILTER\n" ++
  "                        Vale filter to apply\n" ++
  "  -v, --verbose         Run with verbose logging\n" ++
  "  --timeout TIMEOUT     Seconds to wait for Vale, 0 to wait forever (default:\n" ++
  "                        600)\n" ++
  "  --linter LINTER       Linter executable (default: vale)\n" ++
  "\n" ++
  "examples:\n" ++
  "  vale-frontmatter \"docs/**/*.md\"\n" ++
  "  vale-frontmatter --filter=\".Name != 'AwesomeCo.Passive'\" \"content/*.md\"\n"

def refusal (r : Refusal) : String := synopsis ++ s!"{program}: error: {r.message}\n"

end Usage

end FrontLint
