import SiteFolders.CommandLine.Arguments

/-!
# Usage

What the program says about itself: its version, a short and a long help text, and what is wrong
with arguments that it does not understand.
-/

namespace SiteFolders.CommandLine

/-- Name and version. -/
def versionText : String := "webtidy 0.1.0"

/-- The first lines of both help texts. -/
def helpHead : List String :=
  ["Sort a flat web project into typed folders and fix every reference", "",
    "Usage: webtidy [OPTIONS] <ROOT>", ""]

/-- The help text with one line for each option. -/
def shortHelp : String :=
  "\n".intercalate <| helpHead ++
    ["Arguments:",
      "  <ROOT>  Project root to reorganize", "",
      "Options:",
      "  -y, --yes                      Skip the confirmation prompt",
      "      --dry-run                  Show where files would go without moving anything",
      "      --no-loose                 Disable the loose quoted-mention rewrite pass",
      "      --enumerator <ENUMERATOR>  Text-file enumerator for the rewrite phase [possible values: walk, glob]",
      "  -c, --config <CONFIG>          Configuration file (defaults to <root>/.webtidyrc.toml, then ~/.config/webtidy/config.toml)",
      "      --json                     Print the run report as JSON instead of styled text",
      "  -v, --verbose...               More log output (-v, -vv, -vvv)",
      "  -h, --help                     Print help (see more with \x27--help\x27)",
      "  -V, --version                  Print version"]

/-- The help text with a paragraph for each option. -/
def longHelp : String :=
  "\n".intercalate <| helpHead ++
    ["Arguments:",
      "  <ROOT>",
      "          Project root to reorganize", "",
      "Options:",
      "  -y, --yes",
      "          Skip the confirmation prompt", "",
      "      --dry-run",
      "          Show where files would go without moving anything", "",
      "      --no-loose",
      "          Disable the loose quoted-mention rewrite pass", "",
      "      --enumerator <ENUMERATOR>",
      "          Text-file enumerator for the rewrite phase", "",
      "          Possible values:",
      "          - walk: Direct directory traversal",
      "          - glob: \x60**/*\x60 glob with exclusion patterns", "",
      "  -c, --config <CONFIG>",
      "          Configuration file (defaults to <root>/.webtidyrc.toml, then ~/.config/webtidy/config.toml)", "",
      "      --json",
      "          Print the run report as JSON instead of styled text", "",
      "  -v, --verbose...",
      "          More log output (-v, -vv, -vvv)", "",
      "  -h, --help",
      "          Print help (see a summary with \x27-h\x27)", "",
      "  -V, --version",
      "          Print version"]

/-- What is said about arguments that are not understood, or that ask for a text. -/
def Fault.message : Fault → String
  | .missingRequired => "the following required arguments were not provided: <ROOT>"
  | .unknownArgument => "unexpected argument found"
  | .invalidValue => "invalid value for an argument"
  | .conflict => "an argument cannot be used multiple times"
  | .tooManyValues => "unexpected value for an argument"
  | .help long => if long then longHelp else shortHelp
  | .version => versionText

end SiteFolders.CommandLine
