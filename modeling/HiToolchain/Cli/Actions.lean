import HiToolchain.Cli.Host
import HiToolchain.Dump
import HiToolchain.Ir.Lower
import HiToolchain.Ir.Print
import HiToolchain.Manifest
import HiToolchain.Outline
import HiToolchain.Parse
import HiToolchain.Run
import HiToolchain.Text.Utf8

/-!
What the commands do. An action writes to standard output, keeps a log and may fail; what it
wrote before a failure stays written.
-/

namespace HiToolchain.Cli

/-- Why a command failed. -/
inductive Failure where
  | file (fault : FileFault)
  | manifestFile (fault : FileFault)
  | manifestText (fault : Manifest.Fault)
  | manifestCreation (fault : FileFault)
  | reading (fault : ReadFault)
  | running (fault : RunFault)
  | walking (fault : WalkFault)
  | compiler (fault : CompilerFault)
  | noName

namespace Failure

def message : Failure → String
  | file f => f.message
  | manifestFile f => "error reading " ++ Manifest.fileName ++ ": " ++ f.message
  | manifestText f => "error reading " ++ Manifest.fileName ++ ": " ++ f.message
  | manifestCreation f => "error creating " ++ Manifest.fileName ++ ": " ++ f.message
  | reading f => f.message
  | running f => f.message
  | walking f => f.message
  | compiler f => f.message
  | noName => "no module name provided"

end Failure

/-- What an action has written and logged. -/
structure Output where
  stdout : String
  log : List String

abbrev Action (m : Type → Type) := ExceptT Failure (StateT Output m)

variable {m : Type → Type} [Monad m] [Host m]

namespace Action

def print (text : String) : Action m Unit :=
  modify fun o => { o with stdout := o.stdout ++ text }

def log (lines : List String) : Action m Unit :=
  modify fun o => { o with log := o.log ++ lines }

/-- Asks the surroundings; `failure` says what a fault means. -/
def ask {ε α : Type} (failure : ε → Failure) (query : m (Except ε α)) : Action m α := do
  match ← (liftM query : StateT Output m (Except ε α)) with
  | .ok a => return a
  | .error e => throw (failure e)

def ofExcept {ε α : Type} (failure : ε → Failure) : Except ε α → Action m α
  | .ok a => return a
  | .error e => throw (failure e)

def loadManifest : Action m Manifest := do
  let bytes ← ask .manifestFile (Host.readFile Manifest.fileName)
  ofExcept .manifestText (Manifest.parse (Utf8.decode bytes))

def writeManifest (manifest : Manifest) : Action m Unit :=
  ask .manifestCreation (Host.writeFile Manifest.fileName manifest.text)

/-- The text of a source file and its name. A dash is standard input, and no name stands for the
main file of the module. -/
def readSource (name : String) : Action m (String × String) := do
  let name ← if name.isEmpty then (·.main) <$> loadManifest else pure name
  let (bytes, name) ←
    if name = "-" then do pure (← (Host.readInput : m ByteArray), "stdin")
    else do pure (← ask .file (Host.readFile name), name)
  log ["D | hi: read " ++ toString bytes.size ++ " bytes from " ++ name]
  return (Utf8.decode bytes, name)

/-- The program in a source file. -/
def readProgram (name : String) : Action m Program := do
  let (text, file) ← readSource name
  let cursor := Cursor.ofText text file
  let (result, state) := cursor.parse
  log (state.log.toList.map (LogEntry.line cursor.file))
  ofExcept .reading result

def runFile [Elementary] (name : String) : Action m Unit := do
  let (lines, fault) := (← readProgram name).run
  print (linesText lines)
  match fault with
  | some f => throw (.running f)
  | none => return ()

def printYaml (name : String) : Action m Unit := do
  let doc ← ofExcept .walking (← readProgram name).outline
  print doc.text

def printTree (name : String) : Action m Unit := do
  print ((Dump.program (← readProgram name)).text 0 ++ "\n")

def printTokens (name : String) : Action m Unit := do
  let (text, file) ← readSource name
  let cursor := Cursor.ofText text file
  let (list, fault) := cursor.tokens.1
  log (cursor.ahead.map fun t => (LogEntry.token t).line cursor.file)
  match fault with
  | some f => throw (.reading (.lexical f))
  | none => print ((Dump.tokens list).text 0 ++ "\n")

/-- How a program is built: the name of the executable if one is given, the compiler, and whether
the intermediate code is printed instead. -/
structure BuildOptions where
  output : String
  compiler : String
  dump : Bool

def build (options : BuildOptions) (name : String) : Action m Unit := do
  let code ← ofExcept .walking (← readProgram name).lower
  if options.dump then print code.text
  else
    let output ← if options.output.isEmpty then (·.package) <$> loadManifest
      else pure options.output
    log ["I | hi: compiling " ++ output ++ " with " ++ options.compiler]
    ask .compiler (Host.compile options.compiler output code.text)

/-- Writes a module file for a package of the given name. -/
def initModule (name : String) : Action m Unit :=
  if name.isEmpty then throw .noName else writeManifest ⟨name, Manifest.defaultMain⟩

end Action

end HiToolchain.Cli
