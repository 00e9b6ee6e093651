import HiToolchain.Binary64.Portable
import HiToolchain.Cli.App

/-!
The program: the toolchain run with the files, the standard input and the environment of the
process. It starts no other program, so every compiler counts as missing.
-/

namespace HiToolchain.Cli

namespace FileFault

/-- Tells a path through a file (error 20) and a directory (error 21) apart. -/
def ofError (name : String) (directory : FileFault) : IO.Error → FileFault
  | .noFileOrDirectory .. => .missing name
  | .inappropriateType _ code text =>
    if code == 20 then .notADirectory name
    else if code == 21 then directory
    else .other text
  | e => .other (toString e)

end FileFault

/-- Reads a stream to its end. -/
partial def readToEnd (stream : IO.FS.Stream) (bytes : ByteArray) : IO ByteArray := do
  let more ← stream.read 65536
  if more.isEmpty then return bytes
  readToEnd stream (bytes ++ more)

instance : Host IO where
  readFile name := do
    match ← (IO.FS.readBinFile name).toBaseIO with
    | .ok bytes => return .ok bytes
    | .error e => return .error (.ofError name (.readDirectory name) e)
  readInput := do readToEnd (← IO.getStdin) .empty
  writeFile name text := do
    match ← (IO.FS.writeFile name text).toBaseIO with
    | .ok _ => return .ok ()
    | .error e => return .error (.ofError name (.openDirectory name) e)
  compile compiler _ _ := return .error (.missing compiler)

end HiToolchain.Cli

def main (args : List String) : IO UInt32 := do
  let outcome ← HiToolchain.Cli.run args (← IO.getEnv HiToolchain.Cli.debugVariable)
  IO.print outcome.stdout
  IO.eprint outcome.stderr
  return outcome.exit.toUInt32
