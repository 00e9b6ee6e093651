import HiToolchain.Yaml.Decode
import HiToolchain.Yaml.Doc

/-!
The module file: the name of a package and its main file. Reading is strict: a field that is not
known or that stands twice is a fault.
-/

namespace HiToolchain

open Yaml

structure Manifest where
  package : String
  main : String
  deriving DecidableEq, Repr, Inhabited

namespace Manifest

def fileName : String := "hi.yaml"

def defaultMain : String := "main.hi"

def defaultPackage : String := "a.out"

/-- The document of a manifest; an empty main file is left out. -/
def doc (m : Manifest) : Doc :=
  .mapping (("Package", .scalar m.package)
    :: if m.main.isEmpty then [] else [("Main", .scalar m.main)])

def text (m : Manifest) : String := m.doc.text

/-- Why a text is no manifest: it is not YAML, or it does not fit. -/
inductive Fault where
  | yaml (fault : Yaml.Fault)
  | unfit (mismatches : List Mismatch)
  deriving DecidableEq, Repr

namespace Fault

def message : Fault → String
  | yaml f => f.message
  | unfit list => "yaml: unmarshal errors:\n  " ++ "\n  ".intercalate (list.map Mismatch.text)

end Fault

inductive Field where
  | package
  | main
  deriving DecidableEq, Repr

namespace Field

def ofName? : String → Option Field
  | "Package" => some package
  | "Main" => some main
  | _ => none

end Field

/-- A manifest under way: what was set so far and what did not fit. -/
structure Draft where
  manifest : Manifest
  mismatches : List Mismatch
  deriving Repr

namespace Draft

/-- The name of a manifest in diagnostics. -/
def target : String := "main.hiModule"

def empty : Draft := ⟨⟨"", ""⟩, []⟩

def reject (d : Draft) (m : Mismatch) : Draft :=
  { d with mismatches := d.mismatches ++ [m] }

def set (d : Draft) (field : Field) (value : String) : Draft :=
  match field with
  | .package => { d with manifest := { d.manifest with package := value } }
  | .main => { d with manifest := { d.manifest with main := value } }

/-- Sets a field from a node. -/
def setFrom (d : Draft) (field : Field) (value : Node) : Except Yaml.Fault Draft := do
  match ← value.string with
  | .ok s => return d.set field s
  | .error m => return d.reject m

mutual

/-- Reads a node into a draft. -/
def readNode : Node → Draft → Except Yaml.Fault Draft
  | .scalar info implicit text, d => do
    let v ← scalarValue info.tag implicit text
    match v.text with
    | none => return { d with manifest := ⟨"", ""⟩ }
    | some _ => return d.reject (.ofNode info v.tag text target)
  | .sequence info _, d => return d.reject (.ofNode info "!!seq" "" target)
  | .mapping _ entries, d => readEntries [] entries d
  | .aliasOf _ name node, d =>
    match node with
    | .enclosing _ true => throw (.general (.selfContaining name))
    | _ => readNode node d
  | .enclosing info isMapping, d =>
    return d.reject (.ofNode info (if isMapping then "!!map" else "!!seq") "" target)

/-- Reads entries in order; `done` are the fields that this mapping has set. -/
def readEntries (done : List Field) : List (Node × Node) → Draft → Except Yaml.Fault Draft
  | [], d => return d
  | (key, value) :: rest, d => do
    if key.isMerge then
      let d ← readMerge value d
      readEntries done rest d
    else match ← key.string with
      | .error m => readEntries done rest (d.reject m)
      | .ok name =>
        match Field.ofName? name with
        | none => readEntries done rest (d.reject (.unknownField key.line name target))
        | some field =>
          if done.contains field then
            readEntries done rest (d.reject (.repeatedField key.line name target))
          else
            let d ← d.setFrom field value
            readEntries (field :: done) rest d

/-- Reads the mapping, or the mappings from the last one on, that a merge names. -/
def readMerge : Node → Draft → Except Yaml.Fault Draft
  | .mapping _ entries, d => readEntries [] entries d
  | .aliasOf _ name (.enclosing _ true), _ => throw (.general (.selfContaining name))
  | .aliasOf _ _ (.mapping _ entries), d => readEntries [] entries d
  | .sequence _ items, d => readMerges items d
  | _, _ => throw (.general .mergeValue)

def readMerges : List Node → Draft → Except Yaml.Fault Draft
  | [], d => return d
  | item :: rest, d => do
    let d ← readMerges rest d
    match item with
    | .mapping _ entries => readEntries [] entries d
    | .aliasOf _ name (.enclosing _ true) => throw (.general (.selfContaining name))
    | .aliasOf _ _ (.mapping _ entries) => readEntries [] entries d
    | _ => throw (.general .mergeValue)

end

end Draft

/-- Fields that are absent or empty take their defaults. -/
def withDefaults (m : Manifest) : Manifest where
  package := if m.package.isEmpty then defaultPackage else m.package
  main := if m.main.isEmpty then defaultMain else m.main

/-- Reads a module file. -/
def parse (text : String) : Except Fault Manifest := do
  let root ← (Node.parse text).mapError .yaml
  let draft ← match root with
    | some node => (Draft.readNode node .empty).mapError .yaml
    | none => pure .empty
  if draft.mismatches.isEmpty then return draft.manifest.withDefaults
  else throw (.unfit draft.mismatches)

end Manifest

end HiToolchain
