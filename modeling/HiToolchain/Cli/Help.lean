import HiToolchain.Cli.Flags

/-!
Help texts: commands and flags in aligned columns.
-/

namespace HiToolchain.Cli

structure Command where
  names : List String
  /-- How the command is called in its own help. -/
  helpName : String
  usage : String
  argsUsage : String
  flags : List Flag
  deriving DecidableEq, Repr

/-- Every command and the program itself have this flag when they are run. -/
def helpFlag : Flag := ⟨["help", "h"], .switch false, "show help", none⟩

def Command.withHelpFlag (c : Command) : Command :=
  { c with flags := c.flags ++ [helpFlag] }

/-- Rows of two columns; the second starts two blanks after the widest first. -/
def aligned (rows : List (String × String)) : List String :=
  let width := (rows.map (·.1.length)).foldl max 0
  rows.map fun (left, right) =>
    left ++ String.ofList (List.replicate (width + 2 - left.length) ' ') ++ right

namespace Flag

/-- A name with its dashes, and a place for the value where there is one. -/
def nameForm (flag : Flag) (name : String) : String :=
  let dashed := (if name.length = 1 then "-" else "--") ++ name
  match flag.kind with
  | .switch _ => dashed
  | .text _ => dashed ++ " value"

/-- The parts of a flag's description: usage, initial value and variable. -/
def description (flag : Flag) : List String :=
  let usage := if flag.usage.isEmpty then [] else [flag.usage]
  let initial := match flag.kind with
    | .switch b => ["(default: " ++ (if b then "true" else "false") ++ ")"]
    | .text s => if s.isEmpty then [] else ["(default: " ++ quoted s ++ ")"]
  usage ++ initial ++ (flag.environment.map fun v => "[$" ++ v ++ "]").toList

def row (flag : Flag) : String × String :=
  (", ".intercalate (flag.names.map flag.nameForm), " ".intercalate flag.description)

end Flag

/-- Lines of a section, each indented. -/
def indented (lines : List String) : String :=
  String.join (lines.map fun l => "   " ++ l ++ "\n")

/-- A section of options, which ends in a line of blanks. -/
def optionsSection (flags : List Flag) : String :=
  if flags.isEmpty then ""
  else "\nOPTIONS:\n" ++ indented (aligned (flags.map Flag.row)) ++ "   \n"

namespace Command

/-- The help of a command with the flags that it has. -/
def help (c : Command) : String :=
  let options := if c.flags.isEmpty then "" else " [command options]"
  "NAME:\n   " ++ c.helpName ++ " - " ++ c.usage ++ "\n\nUSAGE:\n   " ++ c.helpName ++ options
    ++ " " ++ c.argsUsage ++ "\n" ++ optionsSection c.flags

def row (c : Command) : String × String :=
  (", ".intercalate c.names, c.usage)

end Command

/-- The whole program: its name, what it is, its commands and its own flags. -/
structure App where
  name : String
  usage : String
  commands : List Command
  flags : List Flag

namespace App

def commandsSection (p : App) : String :=
  "COMMANDS:\n" ++ indented (aligned (p.commands.map Command.row))

def nameSection (p : App) : String :=
  "NAME:\n   " ++ p.name ++ " - " ++ p.usage ++ "\n\n"

def help (p : App) : String :=
  p.nameSection ++ "USAGE:\n   " ++ p.name
    ++ " [global options] command [command options] [arguments...]\n\n" ++ p.commandsSection
    ++ "\nGLOBAL OPTIONS:\n" ++ indented (aligned (p.flags.map Flag.row))

/-- The help for a topic that is named by nothing. -/
def emptyTopicHelp (p : App) : String :=
  p.nameSection ++ "USAGE:\n   " ++ p.name ++ " command [command options] [arguments...]\n\n"
    ++ p.commandsSection ++ optionsSection p.flags

end App

end HiToolchain.Cli
