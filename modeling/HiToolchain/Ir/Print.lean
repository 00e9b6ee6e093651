import HiToolchain.Ir.Module
import HiToolchain.Number

/-!
Modules as LLVM text.
-/

namespace HiToolchain.Ir

/-- The 32-bit FNV-1a hash of a text's bytes. -/
def hash (text : String) : UInt32 :=
  text.toUTF8.toList.foldl (fun h b => (h ^^^ b.toUInt32) * 16777619) 2166136261

/-- A global is named by the hash of its text and by its index, which makes the name unique. -/
def globalName (index : Nat) (text : String) : String :=
  "_str_" ++ toString (hash text).toNat ++ "_" ++ toString index

/-- Two upper-case hexadecimal digits. -/
def hexByte (b : UInt8) : String :=
  (hexPadded 2 b.toNat).toUpper

/-- A byte in a character array: printable ASCII stands for itself, quotes and backslashes not. -/
def byteText (b : UInt8) : String :=
  if 0x20 ≤ b && b ≤ 0x7e && b != 0x22 && b != 0x5c then (Char.ofNat b.toNat).toString
  else "\\" ++ hexByte b

/-- The type of the array that holds a text and its final zero. -/
def arrayType (text : String) : String :=
  "[" ++ toString (text.utf8ByteSize + 1) ++ " x i8]"

def globalLine (index : Nat) (text : String) : String :=
  let bytes := (text.toUTF8.toList ++ [0]).map byteText
  "@" ++ globalName index text ++ " = constant " ++ arrayType text ++ " c\"" ++ String.join bytes
    ++ "\"\n"

/-- A double constant has a decimal point, before the exponent if there is one. -/
def withPoint (number : String) : String :=
  if number.toList.contains '.' then number
  else
    let head := number.toList.takeWhile (· != 'e')
    String.ofList head ++ ".0" ++ String.ofList (number.toList.drop head.length)

/-- A constant is written in decimal where its shortest decimal is exact, else by its bits. -/
def constantText (v : Binary64) : String :=
  let bits := "0x" ++ (hexPadded 16 v.toBits).toUpper
  match v with
  | .finite s m q =>
    let d := Decimal.shortest m q
    if d.isExactly m q then (if s then "-" else "") ++ withPoint (d.written generalStyle)
    else bits
  | _ => bits

def Operand.text : Operand → String
  | .constant v => constantText v
  | .result i => "%" ++ toString i

def Arith.mnemonic : Arith → String
  | .add => "fadd"
  | .sub => "fsub"
  | .mul => "fmul"
  | .div => "fdiv"

def Predicate.mnemonic : Predicate → String
  | .equal => "oeq"
  | .less => "olt"

/-- The text of an instruction in a module with the given globals. -/
def Instr.text (globals : Array String) : Instr → String
  | .arith op x y => op.mnemonic ++ " double " ++ x.text ++ ", " ++ y.text
  | .power x y => "call double @llvm.pow.f64(double " ++ x.text ++ ", double " ++ y.text ++ ")"
  | .trunc x => "call double @llvm.trunc.f64(double " ++ x.text ++ ")"
  | .abs x => "call double @llvm.fabs.f64(double " ++ x.text ++ ")"
  | .compare p x y => "fcmp " ++ p.mnemonic ++ " double " ++ x.text ++ ", " ++ y.text
  | .both a b => "and i1 " ++ a.text ++ ", " ++ b.text
  | .address i =>
    let text := globals.getD i ""
    "bitcast " ++ arrayType text ++ "* @" ++ globalName i text ++ " to i8*"
  | .select c a b => "select i1 " ++ c.text ++ ", i8* " ++ a.text ++ ", i8* " ++ b.text
  | .printNumber f x =>
    "call i32 (i8*, ...) @printf(i8* " ++ f.text ++ ", double " ++ x.text ++ ")"
  | .printText f s => "call i32 (i8*, ...) @printf(i8* " ++ f.text ++ ", i8* " ++ s.text ++ ")"

/-- The functions that `main` calls. -/
def declarations : List String :=
  ["i32 @printf(i8* %format, ...)", "double @llvm.pow.f64(double %x, double %y)",
    "double @llvm.trunc.f64(double %x)", "double @llvm.fabs.f64(double %x)"]

/-- Globals, declarations and `main`. -/
def Module.text (m : Module) : String :=
  let globals := String.join (m.globals.toList.mapIdx globalLine)
  let gap := if m.globals.isEmpty then "" else "\n"
  let body := String.join (m.body.toList.mapIdx fun i x =>
    "\t%" ++ toString i ++ " = " ++ x.text m.globals ++ "\n")
  let declared := String.join (declarations.map fun d => "declare " ++ d ++ "\n\n")
  globals ++ gap ++ declared ++ "define i32 @main() \x7b\nentry:\n" ++ body
    ++ "\tret i32 0\n\x7d\n"

end HiToolchain.Ir
