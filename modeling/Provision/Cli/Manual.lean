import Provision.Cli.Help
import Provision.Cli.Output

/-!
# Manual pages

One page for the program and one for each command, made from the grammar.

* `Cli.pages`: the pages by their file names.
* `Cli.manPages`: write them into a directory.
-/

namespace Provision.Cli

/-- A text as it stands in a page: a hyphen or a backslash has no other meaning,
and a line does not begin with a full stop. -/
def roffText (s : String) : String :=
  let escaped := s.toList.flatMap fun c =>
    if c = '-' then ['\\', '-'] else if c = '\\' then ['\\', '\\'] else [c]
  .ofList (if escaped.head? = some '.' then '\\' :: '&' :: escaped else escaped)

/-- A paragraph with a label. -/
def roffItem (label text : String) : List String :=
  [".TP", "\\fB" ++ roffText label ++ "\\fR", roffText text]

/-- A section, unless it is empty. -/
def roffSection (title : String) (lines : List String) : List String :=
  if lines = [] then [] else (".SH " ++ title) :: lines

/-- The section on options. -/
def roffOptions (options : List OptionSpec) : List String :=
  roffSection "OPTIONS" (options.flatMap fun o => roffItem (Text.trim o.usage) o.about)

/-- A page. -/
def page (name about usage : String) (sections : List String) : String :=
  Text.unlines <| [".TH " ++ name ++ " 1 \"" ++ name ++ " " ++ version ++ "\""] ++
    roffSection "NAME" [roffText (name ++ " - " ++ about)] ++
    roffSection "SYNOPSIS" [roffText usage] ++ sections

/-- The page of the program. -/
def programPage : String :=
  page programName about (programName ++ " [OPTIONS] <COMMAND>") <|
    roffOptions (globals ++ [helpOption, versionOption]) ++
    roffSection "SUBCOMMANDS"
      (commands.flatMap fun c => roffItem (programName ++ "-" ++ c.name ++ "(1)") c.about) ++
    roffSection "VERSION" [roffText ("v" ++ version)]

/-- The page of a command. -/
def CommandSpec.page (c : CommandSpec) : String :=
  Cli.page c.name c.about (" ".intercalate ([c.name, "[OPTIONS]"] ++ c.operands.map (·.usage))) <|
    roffOptions (c.options ++ [helpOption]) ++
    roffSection "ARGUMENTS" (c.operands.flatMap fun o => roffItem o.usage o.explain)

/-- The pages by their file names. -/
def pages : List (String × String) :=
  (programName ++ ".1", programPage) ::
    commands.map fun c => (programName ++ "-" ++ c.name ++ ".1", c.page)

/-- Write pages into a directory, one after the other. -/
def writePages (dir : Path) : List (String × String) → Commanding Unit
  | [] => return ()
  | (name, text) :: rest => do
    let file := dir.join name
    settled (.manualPage file) (SystemCall.request (.writeText file text))
    writePages dir rest

/-- Write the manual pages into a directory. -/
def manPages (dir : Path) : Commanding Output := do
  settled .manualDir (SystemCall.request (.makeDirectories dir))
  writePages dir pages
  return .ofLines .success ["man pages written to " ++ dir.text]

end Provision.Cli
