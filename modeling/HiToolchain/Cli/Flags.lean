import HiToolchain.Text.Quoted

/-!
Flags on the command line. A flag has one or two dashes; a switch takes a value only after an
equals sign, any other flag also from the next argument. Flags end at the first argument that is
none, or after two dashes alone.
-/

namespace HiToolchain.Cli

inductive FlagKind where
  | switch (initial : Bool)
  | text (initial : String)
  deriving DecidableEq, Repr

structure Flag where
  /-- The names of the flag, the main one first. -/
  names : List String
  kind : FlagKind
  usage : String
  /-- The environment variable that sets the initial value. -/
  environment : Option String
  deriving DecidableEq, Repr

/-- What is wrong with the flags of a command line. -/
inductive UsageFault where
  | badSyntax (argument : String)
  | undefined (name : String)
  | badSwitch (name value : String)
  | missingValue (name : String)
  | twoForms (second first : String)
  deriving DecidableEq, Repr

namespace UsageFault

def message : UsageFault → String
  | badSyntax argument => "bad flag syntax: " ++ argument
  | undefined name => "flag provided but not defined: -" ++ name
  | badSwitch name value =>
    "invalid boolean value " ++ quoted value ++ " for -" ++ name ++ ": parse error"
  | missingValue name => "flag needs an argument: -" ++ name
  | twoForms second first => "Cannot use two forms of the same flag: " ++ second ++ " " ++ first

end UsageFault

/-- Truth values as they are written in flags and variables. -/
def parseBool? (s : String) : Option Bool :=
  if s ∈ ["1", "t", "T", "TRUE", "true", "True"] then some true
  else if s ∈ ["0", "f", "F", "FALSE", "false", "False"] then some false
  else none

/-- Names that were set, with their values, the latest first. -/
abbrev Settings := List (String × String)

/-- An argument that has the form of a flag: its name and the value after an equals sign. -/
structure FlagArgument where
  name : String
  value : Option String

/-- How an argument is taken where a flag may stand. -/
inductive Argument where
  | flag (f : FlagArgument)
  | endOfFlags
  | other
  | malformed

def splitValue (cs : List Char) : FlagArgument :=
  let name := cs.takeWhile (· != '=')
  match cs.drop name.length with
  | [] => ⟨String.ofList name, none⟩
  | _ :: value => ⟨String.ofList name, some (String.ofList value)⟩

def Argument.ofText (s : String) : Argument :=
  match s.toList with
  | '-' :: '-' :: [] => .endOfFlags
  | '-' :: '-' :: cs => named cs
  | '-' :: c :: cs => named (c :: cs)
  | _ => .other
where
  named : List Char → Argument
    | [] => .malformed
    | c :: cs => if c == '-' || c == '=' then .malformed else .flag (splitValue (c :: cs))

/-- What was set, and the arguments after the flags or the fault that ended them. -/
abbrev Parsed := Settings × Except UsageFault (List String)

/-- Reads flags in front of the arguments. -/
def parseFlags (flags : List Flag) (settings : Settings) : List String → Parsed
  | [] => (settings, .ok [])
  | arg :: rest =>
    match Argument.ofText arg with
    | .other => (settings, .ok (arg :: rest))
    | .endOfFlags => (settings, .ok rest)
    | .malformed => (settings, .error (.badSyntax arg))
    | .flag ⟨name, value⟩ =>
      match flags.find? (·.names.contains name) with
      | none => (settings, .error (.undefined name))
      | some flag =>
        match flag.kind, value with
        | .switch _, none => parseFlags flags ((name, "true") :: settings) rest
        | .switch _, some v =>
          if (parseBool? v).isSome then parseFlags flags ((name, v) :: settings) rest
          else (settings, .error (.badSwitch name v))
        | .text _, some v => parseFlags flags ((name, v) :: settings) rest
        | .text _, none =>
          match rest with
          | [] => (settings, .error (.missingValue name))
          | v :: rest => parseFlags flags ((name, v) :: settings) rest

/-- A flag may be set by one of its names only. -/
def twoForms? (flags : List Flag) (settings : Settings) : Option UsageFault :=
  flags.findSome? fun flag =>
    match flag.names.filter fun n => settings.any (·.1 == n) with
    | first :: second :: _ => some (.twoForms second first)
    | _ => none

namespace Flag

/-- The value that was set last. -/
def setting? (flag : Flag) (settings : Settings) : Option String :=
  (settings.find? fun s => flag.names.contains s.1).map (·.2)

def switchValue (flag : Flag) (settings : Settings) : Bool :=
  match flag.setting? settings, flag.kind with
  | some v, _ => (parseBool? v).getD false
  | none, .switch initial => initial
  | none, .text _ => false

def textValue (flag : Flag) (settings : Settings) : String :=
  match flag.setting? settings, flag.kind with
  | some v, _ => v
  | none, .text initial => initial
  | none, .switch _ => ""

end Flag

end HiToolchain.Cli
