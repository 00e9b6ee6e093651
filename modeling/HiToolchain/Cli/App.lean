import HiToolchain.Cli.Actions
import HiToolchain.Cli.Help

/-!
The command line of the toolchain: which command is run, with which flags, and what becomes of
its output and of a failure.
-/

namespace HiToolchain.Cli

/-- The end of a run. -/
structure Outcome where
  exit : Nat
  stdout : String
  stderr : String
  deriving DecidableEq, Repr

namespace Outcome

/-- A run that only prints a text. -/
def printed (text : String) : Outcome := ⟨0, text, ""⟩

/-- A text printed for flags that were wrong. -/
def misused (text : String) : Outcome := ⟨1, text, ""⟩

end Outcome

def debugVariable : String := "HI_DEBUG"

/-- Debugging is off unless the environment turns it on. -/
def debugFlag (initial : Bool) : Flag :=
  ⟨["debug"], .switch initial, "log every token and statement, print errors with stack traces",
    some debugVariable⟩

def outputFlag : Flag := ⟨["output", "o"], .text "", "", none⟩

def compilerFlag : Flag := ⟨["cc"], .text "clang", "", none⟩

def dumpFlag : Flag :=
  ⟨["dump"], .switch false, "print the LLVM IR instead of compiling it", none⟩

/-- The commands, told apart by what they do. -/
inductive Task where
  | init
  | run
  | yaml
  | tree
  | tokens
  | build
  | help
  deriving DecidableEq, Repr

namespace Task

def all : List Task := [init, run, yaml, tree, tokens, build, help]

def command : Task → Command
  | init => ⟨["init"], "hi init", "write a module file into the current directory", "NAME", []⟩
  | run => ⟨["run"], "hi run", "interpret a file", "[FILE]", []⟩
  | yaml => ⟨["yaml"], "hi yaml", "print the syntax tree as YAML", "[FILE]", []⟩
  | tree => ⟨["ast"], "hi ast", "dump the syntax tree", "[FILE]", []⟩
  | tokens => ⟨["tokens"], "hi tokens", "dump the token stream", "[FILE]", []⟩
  | build => ⟨["build"], "hi build", "compile a file to a native executable through LLVM", "[FILE]",
      [outputFlag, compilerFlag, dumpFlag]⟩
  | help => ⟨["help", "h"], "", "Shows a list of commands or help for one command", "[command]", []⟩

def ofName? (name : String) : Option Task :=
  all.find? fun t => t.command.names.contains name

end Task

/-- The toolchain as it is shown when debugging is initially on or off. -/
def app (debug : Bool) : App where
  name := "hi"
  usage := "hi language toolchain"
  commands := Task.all.map Task.command
  flags := [debugFlag debug, helpFlag]

/-- The help for a topic. The help command has its own flag by the time it shows itself. -/
def topicHelp (debug : Bool) (topic : String) : Outcome :=
  if topic.isEmpty then .printed (app debug).emptyTopicHelp
  else match Task.ofName? topic with
    | some .help => .printed Task.help.command.withHelpFlag.help
    | some task => .printed task.command.help
    | none => ⟨3, "", "No help topic for '" ++ topic ++ "'\n"⟩

/-- Help as a command, or where no command is named. -/
def showHelp (debug : Bool) : List String → Outcome
  | [] => .printed (app debug).help
  | topic :: _ => topicHelp debug topic

variable {m : Type → Type} [Monad m] [Host m]

/-- Runs an action and reports its failure. With debugging on there is a log instead, but for a
missing name. -/
def perform (debug : Bool) (action : Action m Unit) : m Outcome := do
  let (result, output) ← StateT.run (ExceptT.run action) ⟨"", []⟩
  let log := if debug then String.join (output.log.map (· ++ "\n")) else ""
  match result with
  | .ok _ => return ⟨0, output.stdout, log⟩
  | .error .noName => return ⟨1, output.stdout, log ++ Failure.noName.message ++ "\n"⟩
  | .error failure =>
    let report := if debug then "" else "error: " ++ failure.message ++ "\n"
    return ⟨1, output.stdout, log ++ report⟩

/-- Runs a command with its flags and arguments. `initial` is what debugging is set to by the
environment, `debug` what it is set to in the end. -/
def runTask [Elementary] (initial debug : Bool) (task : Task) (args : List String) : m Outcome :=
  let command := task.command.withHelpFlag
  let misuse (fault : UsageFault) : m Outcome :=
    return .misused ("Incorrect Usage: " ++ fault.message ++ "\n\n" ++ command.help)
  match parseFlags command.flags [] args with
  | (_, .error fault) => misuse fault
  | (settings, .ok rest) =>
    match twoForms? command.flags settings with
    | some fault => misuse fault
    | none =>
      if helpFlag.switchValue settings then return .printed command.help
      else
        let name := rest.headD ""
        match task with
        | .init => perform debug (.initModule name)
        | .run => perform debug (.runFile name)
        | .yaml => perform debug (.printYaml name)
        | .tree => perform debug (.printTree name)
        | .tokens => perform debug (.printTokens name)
        | .build =>
          let options := ⟨outputFlag.textValue settings, compilerFlag.textValue settings,
            dumpFlag.switchValue settings⟩
          perform debug (.build options name)
        | .help => return showHelp initial rest

/-- Runs the toolchain with the initial value of debugging. -/
def runWith [Elementary] (initial : Bool) (args : List String) : m Outcome :=
  let app := app initial
  let (settings, result) := parseFlags app.flags [] args
  match twoForms? app.flags settings, result with
  | some fault, _ => return .misused (fault.message ++ "\n" ++ app.help)
  | none, .error fault =>
    return .misused ("Incorrect Usage. " ++ fault.message ++ "\n\n" ++ app.help)
  | none, .ok rest =>
    if helpFlag.switchValue settings then return .printed app.help
    else match rest with
      | [] => return .printed app.help
      | name :: args =>
        match Task.ofName? name with
        | some task => runTask initial ((debugFlag initial).switchValue settings) task args
        | none => return showHelp initial rest

/-- Runs the toolchain. A debugging variable that is no truth value ends it at once. -/
def run [Elementary] (args : List String) (debugSetting : Option String) : m Outcome :=
  match debugSetting with
  | none => runWith false args
  | some s =>
    if s.isEmpty then runWith false args
    else match parseBool? s with
      | some initial => runWith initial args
      | none => return ⟨1, "", ""⟩

end HiToolchain.Cli
