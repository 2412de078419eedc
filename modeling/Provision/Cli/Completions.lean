import Provision.Cli.Help

/-!
# Shell completions

For each shell a script that offers the commands and, after a command, its
options. The words are made from the grammar; each shell has its own way to
say them.

* `Cli.completions`: the script for a shell, in lines.
-/

namespace Provision.Cli

/-- The long forms of some options. -/
def longForms (options : List OptionSpec) : List String := options.map ("--" ++ ·.long)

/-- The words that may follow a command. -/
def CommandSpec.words (c : CommandSpec) : List String :=
  longForms (c.options ++ globals ++ [helpOption]) ++ c.operands.flatMap (·.choices)

/-- The words that may come first. -/
def firstWords : List String :=
  (commands ++ [helpCommand]).map (·.name) ++ longForms (globals ++ [helpOption, versionOption])

/-- A block in braces. -/
def braced (head : String) (body : List String) : List String :=
  (head ++ " \x7b") :: body.map ("    " ++ ·) ++ ["\x7d"]

/-- Words in a row, between single quotes. -/
def quotedRow (words : List String) : String := "'" ++ " ".intercalate words ++ "'"

/-- The script for `bash`. -/
def bashScript : List String :=
  braced ("_" ++ programName ++ "()")
    (["local cur=\"$2\" words=" ++ quotedRow firstWords, "case \"$\x7bCOMP_WORDS[1]\x7d\" in"] ++
      commands.map (fun c => "    " ++ c.name ++ ") words=" ++ quotedRow c.words ++ " ;;") ++
      ["esac", "COMPREPLY=($(compgen -W \"$words\" -- \"$cur\"))"]) ++
  ["complete -o default -F _" ++ programName ++ " " ++ programName]

/-- The script for `zsh`. -/
def zshScript : List String :=
  ["#compdef " ++ programName] ++
  braced ("_" ++ programName ++ "()")
    (["local -a offered", "offered=(" ++ " ".intercalate firstWords ++ ")", "case $words[2] in"] ++
      commands.map (fun c =>
        "    " ++ c.name ++ ") offered=(" ++ " ".intercalate c.words ++ ") ;;") ++
      ["esac", "compadd -a offered", "_files"]) ++
  ["compdef _" ++ programName ++ " " ++ programName]

/-- A line of the script for `fish`. -/
def fishLine (condition : String) (words : List String) : String :=
  "complete -c " ++ programName ++ " -n \"" ++ condition ++ "\" -a " ++ quotedRow words

/-- The script for `fish`. -/
def fishScript : List String :=
  fishLine "__fish_use_subcommand" firstWords ::
    commands.map fun c => fishLine ("__fish_seen_subcommand_from " ++ c.name) c.words

/-- The script for `elvish`. -/
def elvishScript : List String :=
  ["set edit:completion:arg-completer[" ++ programName ++ "] = \x7b|@words|",
    "    var offered = [" ++ " ".intercalate firstWords ++ "]"] ++
  commands.flatMap (fun c =>
    (braced ("if (has-value $words " ++ c.name ++ ")")
      ["set offered = [" ++ " ".intercalate c.words ++ "]"]).map ("    " ++ ·)) ++
  ["    put $@offered", "\x7d"]

/-- Words between quotes, for `powershell`. -/
def powershellList (words : List String) : String :=
  ", ".intercalate (words.map fun w => "'" ++ w ++ "'")

/-- The script for `powershell`. -/
def powershellScript : List String :=
  braced ("Register-ArgumentCompleter -Native -CommandName " ++ programName ++ " -ScriptBlock") <|
    ["param($word, $ast)", "$offered = " ++ powershellList firstWords] ++
    commands.map (fun c =>
      "if ($ast.CommandElements -match '^" ++ c.name ++ "$') \x7b $offered = " ++
        powershellList c.words ++ " \x7d") ++
    ["$offered -like \"$word*\""]

/-- The script for a shell, in lines. -/
def completions (shell : String) : List String :=
  ([("bash", bashScript), ("elvish", elvishScript), ("fish", fishScript),
    ("powershell", powershellScript), ("zsh", zshScript)].lookup shell).getD []

end Provision.Cli
