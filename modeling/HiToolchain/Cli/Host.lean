/-!
What the toolchain needs from its surroundings: files, standard input and a compiler.
-/

namespace HiToolchain.Cli

/-- Why a file could not be read or written. -/
inductive FileFault where
  | missing (name : String)
  | notADirectory (name : String)
  | readDirectory (name : String)
  | openDirectory (name : String)
  | other (text : String)
  deriving DecidableEq, Repr

namespace FileFault

def message : FileFault → String
  | missing name => "open " ++ name ++ ": no such file or directory"
  | notADirectory name => "open " ++ name ++ ": not a directory"
  | readDirectory name => "read " ++ name ++ ": is a directory"
  | openDirectory name => "open " ++ name ++ ": is a directory"
  | other text => text

end FileFault

/-- Why a compiler did not do its work. -/
inductive CompilerFault where
  | missing (name : String)
  | failed (status : Nat)
  deriving DecidableEq, Repr

namespace CompilerFault

def message : CompilerFault → String
  | missing name => "exec: \"" ++ name ++ "\": executable file not found in $PATH"
  | failed status => "exit status " ++ toString status

end CompilerFault

class Host (m : Type → Type) where
  readFile : String → m (Except FileFault ByteArray)
  readInput : m ByteArray
  writeFile : (name text : String) → m (Except FileFault Unit)
  compile : (compiler output code : String) → m (Except CompilerFault Unit)

end HiToolchain.Cli
