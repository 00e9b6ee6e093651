import HiToolchain.Binary64.Portable
import HiToolchain.Cli.Host

/-!
Surroundings held in memory: files and directories under one working directory, standard input,
and compilers that are known by their exit status. Exponential and logarithm are the portable ones.
-/

namespace HiToolchain.Cli

structure World where
  /-- Files by their path below the working directory. -/
  files : List (List String × ByteArray)
  directories : List (List String)
  input : ByteArray
  /-- Programs that can be started, with the status they exit with. -/
  programs : List (String × Nat)

namespace World

/-- The steps of a path from the working directory. -/
def steps (name : String) : List String :=
  ((name.toList.splitOn '/').map String.ofList).foldl (fun path step =>
    if step = "" ∨ step = "." then path
    else if step = ".." then path.dropLast
    else path ++ [step]) []

/-- Whether a name ends like that of a directory. -/
def endsInSlash (name : String) : Bool :=
  name.toList.getLast? == some '/'

def file? (w : World) (path : List String) : Option ByteArray :=
  (w.files.find? (·.1 == path)).map (·.2)

/-- The working directory, the directories that were made, and those that hold something. -/
def isDirectory (w : World) (path : List String) : Bool :=
  path.isEmpty || w.directories.contains path
    || (w.files.map (·.1) ++ w.directories).any fun p => path.isPrefixOf p && path != p

/-- Whether a path leads through a file as if it were a directory. -/
def isThroughFile (w : World) (name : String) (path : List String) : Bool :=
  w.files.any fun f => f.1.isPrefixOf path && (f.1 != path || endsInSlash name)

def read (w : World) (name : String) : Except FileFault ByteArray :=
  let path := steps name
  if w.isDirectory path then .error (.readDirectory name)
  else if w.isThroughFile name path then .error (.notADirectory name)
  else match w.file? path with
    | some bytes => .ok bytes
    | none => .error (.missing name)

/-- Writes a file in a directory that is there. -/
def write (w : World) (name text : String) : Except FileFault World :=
  let path := steps name
  if w.isDirectory path then .error (.openDirectory name)
  else if w.isThroughFile name path then .error (.notADirectory name)
  else if !w.isDirectory path.dropLast then .error (.missing name)
  else if endsInSlash name then .error (.openDirectory name)
  else .ok { w with files := (path, text.toUTF8) :: w.files.filter (·.1 != path) }

def compile (w : World) (compiler : String) : Except CompilerFault Unit :=
  match w.programs.find? (·.1 == compiler) with
  | none => .error (.missing compiler)
  | some (_, status) => if status = 0 then .ok () else .error (.failed status)

end World

instance : Host (StateM World) where
  readFile name := return (← get).read name
  readInput := return (← get).input
  writeFile name text := do
    match (← get).write name text with
    | .ok w =>
      set w
      return .ok ()
    | .error fault => return .error fault
  compile compiler _ _ := return (← get).compile compiler

end HiToolchain.Cli
