import HiToolchain.Yaml.Tokens

/-!
YAML nodes: the tree of the first document of a text. An alias holds the node it stands for; of a
collection around it only so much is known as stands before its items.
-/

namespace HiToolchain.Yaml

/-- The line where a node starts and its tag, empty if it has none. -/
structure NodeInfo where
  line : Nat
  tag : String
  deriving DecidableEq, Repr, Inhabited

inductive Node where
  /-- An implicit scalar is plain without a tag, or has the tag of no meaning. -/
  | scalar (info : NodeInfo) (implicit : Bool) (text : String)
  | sequence (info : NodeInfo) (items : List Node)
  | mapping (info : NodeInfo) (entries : List (Node × Node))
  | aliasOf (line : Nat) (name : String) (target : Node)
  | enclosing (info : NodeInfo) (isMapping : Bool)
  deriving Repr, Inhabited

namespace Node

/-- The node of an absent scalar. -/
def absent (line : Nat) : Node := .scalar ⟨line, ""⟩ true ""

end Node

/-- What is left to read: tokens, the fault after them, and the anchors defined so far, latest
first. -/
structure NodeState where
  tokens : List Token
  fault : Option Fault
  anchors : List (String × Node)
  handles : List (String × String)

abbrev NodeReader := StateT NodeState (Except Fault)

namespace NodeReader

/-- The next token. Where the text is at fault there is none. -/
def peek : NodeReader Token := fun s =>
  match s.tokens, s.fault with
  | t :: _, _ => .ok (t, s)
  | [], some fault => .error fault
  | [], none => .ok (⟨.streamEnd, 0⟩, s)

def skip : NodeReader Unit :=
  modify fun s => { s with tokens := s.tokens.drop 1 }

def fail {α : Type} (problem : Problem) (line : Nat) : NodeReader α :=
  throw (.inStructure problem line)

def define (anchor : Option String) (node : Node) : NodeReader Unit :=
  match anchor with
  | some name => modify fun s => { s with anchors := (name, node) :: s.anchors }
  | none => return ()

/-- Gives a name to a collection whose items are still to be read. -/
def enclose (anchor : Option String) (info : NodeInfo) (isMapping : Bool) : NodeReader Unit :=
  define anchor (.enclosing info isMapping)

/-- Puts a collection that was read in the place of its name. -/
def fillIn (name : String) (node : Node) : List (String × Node) → List (String × Node)
  | [] => []
  | (other, .enclosing info isMapping) :: rest =>
    if other = name then (name, node) :: rest
    else (other, .enclosing info isMapping) :: fillIn name node rest
  | entry :: rest => entry :: fillIn name node rest

def complete (anchor : Option String) (node : Node) : NodeReader Node := do
  match anchor with
  | some name => modify fun s => { s with anchors := fillIn name node s.anchors }
  | none => pure ()
  return node

/-- A tag as it was written. -/
structure TagText where
  handle : String
  suffix : String
  line : Nat

/-- Reads an anchor and a tag, in either order, if they are there. -/
def properties : NodeReader (Option String × Option TagText) := do
  let first ← peek
  match first.kind with
  | .anchor name =>
    skip
    let second ← peek
    match second.kind with
    | .tag handle suffix =>
      skip
      return (some name, some ⟨handle, suffix, second.line⟩)
    | _ => return (some name, none)
  | .tag handle suffix =>
    skip
    let tag : TagText := ⟨handle, suffix, first.line⟩
    match (← peek).kind with
    | .anchor name =>
      skip
      return (some name, some tag)
    | _ => return (none, some tag)
  | _ => return (none, none)

/-- The full tag that a handle and a suffix stand for. -/
def resolveTag : Option TagText → NodeReader String
  | none => return ""
  | some tag => do
    if tag.handle.isEmpty then return tag.suffix
    match (← get).handles.find? (·.1 == tag.handle) with
    | some (_, prefixText) => return prefixText ++ tag.suffix
    | none => fail .undefinedHandle tag.line

/-- Whether a token cannot start a value in a block mapping. -/
def endsBlockValue : TokenKind → Bool
  | .key | .value | .blockEnd => true
  | _ => false

mutual

/-- Reads a node. A block collection may start where `block` holds, and a sequence without an
indentation of its own where `indentless` holds. -/
def node : Nat → (block indentless : Bool) → NodeReader Node
  | 0, _, _ => do fail .nodeContent (← peek).line
  | fuel + 1, block, indentless => do
    let first ← peek
    match first.kind with
    | .aliasOf name =>
      skip
      match (← get).anchors.find? (·.1 == name) with
      | some (_, target) => return .aliasOf first.line name target
      | none => throw (.general (.unknownAnchor name))
    | _ =>
      let (anchor, written) ← properties
      let tag ← resolveTag written
      let info : NodeInfo := ⟨first.line, tag⟩
      let t ← peek
      match t.kind with
      | .scalar text plain =>
        skip
        let result := Node.scalar info ((plain && tag.isEmpty) || tag == "!") text
        define anchor result
        return result
      | .flowSequenceStart =>
        skip
        enclose anchor info false
        let items ← flowSequence fuel true
        complete anchor (.sequence info items)
      | .flowMappingStart =>
        skip
        enclose anchor info true
        let entries ← flowMapping fuel true
        complete anchor (.mapping info entries)
      | kind =>
        if indentless && kind = .blockEntry then
          enclose anchor info false
          let items ← indentlessSequence fuel
          complete anchor (.sequence info items)
        else if block && kind = .blockSequenceStart then
          skip
          enclose anchor info false
          let items ← blockSequence fuel
          complete anchor (.sequence info items)
        else if block && kind = .blockMappingStart then
          skip
          enclose anchor info true
          let entries ← blockMapping fuel
          complete anchor (.mapping info entries)
        else if anchor.isSome || !tag.isEmpty then
          let result := Node.scalar info tag.isEmpty ""
          define anchor result
          return result
        else fail .nodeContent t.line

/-- Entries of a block sequence, each after a dash. -/
def blockSequence : Nat → NodeReader (List Node)
  | 0 => return []
  | fuel + 1 => do
    let t ← peek
    match t.kind with
    | .blockEntry =>
      skip
      let item ← match (← peek).kind with
        | .blockEntry | .blockEnd => pure (Node.absent t.line)
        | _ => node fuel true false
      return item :: (← blockSequence fuel)
    | .blockEnd =>
      skip
      return []
    | _ => fail .sequenceDash t.line

/-- Entries of a sequence at the indentation of the mapping around it. -/
def indentlessSequence : Nat → NodeReader (List Node)
  | 0 => return []
  | fuel + 1 => do
    let t ← peek
    match t.kind with
    | .blockEntry =>
      skip
      let item ← match (← peek).kind with
        | .blockEntry | .key | .value | .blockEnd => pure (Node.absent t.line)
        | _ => node fuel true false
      return item :: (← indentlessSequence fuel)
    | _ => return []

/-- Entries of a block mapping. -/
def blockMapping : Nat → NodeReader (List (Node × Node))
  | 0 => return []
  | fuel + 1 => do
    let t ← peek
    match t.kind with
    | .key =>
      skip
      let key ← if endsBlockValue (← peek).kind then pure (Node.absent t.line)
        else node fuel true true
      let v ← peek
      let value ← if v.kind = .value then do
          skip
          if endsBlockValue (← peek).kind then pure (Node.absent v.line) else node fuel true true
        else pure (Node.absent v.line)
      return (key, value) :: (← blockMapping fuel)
    | .blockEnd =>
      skip
      return []
    | _ => fail .mappingKey t.line

/-- Items of a sequence in brackets; an item may be a mapping of one entry. -/
def flowSequence : Nat → (first : Bool) → NodeReader (List Node)
  | 0, _ => return []
  | fuel + 1, first => do
    let t ← peek
    if t.kind = .flowSequenceEnd then
      skip
      return []
    if !first then
      if t.kind = .flowEntry then skip else fail .flowSequenceEnd t.line
    let t ← peek
    match t.kind with
    | .key =>
      skip
      let entry ← singleEntry fuel
      return .mapping ⟨t.line, ""⟩ [entry] :: (← flowSequence fuel false)
    | .flowSequenceEnd =>
      skip
      return []
    | _ =>
      let item ← node fuel false false
      return item :: (← flowSequence fuel false)

/-- The entry of a mapping that is an item of a sequence in brackets. -/
def singleEntry : Nat → NodeReader (Node × Node)
  | 0 => return (.absent 0, .absent 0)
  | fuel + 1 => do
    let t ← peek
    let key ← match t.kind with
      | .value | .flowEntry | .flowSequenceEnd => do
        skip
        pure (Node.absent t.line)
      | _ => node fuel false false
    let v ← peek
    if v.kind = .value then skip
    let w ← peek
    match v.kind, w.kind with
    | .value, .flowEntry | .value, .flowSequenceEnd => return (key, .absent w.line)
    | .value, _ => return (key, ← node fuel false false)
    | _, _ => return (key, .absent w.line)

/-- Entries of a mapping in braces; a value may be absent. -/
def flowMapping : Nat → (first : Bool) → NodeReader (List (Node × Node))
  | 0, _ => return []
  | fuel + 1, first => do
    let t ← peek
    if t.kind = .flowMappingEnd then
      skip
      return []
    if !first then
      if t.kind = .flowEntry then skip else fail .flowMappingEnd t.line
    let t ← peek
    match t.kind with
    | .key =>
      skip
      let k ← peek
      let key ← match k.kind with
        | .value | .flowEntry | .flowMappingEnd => pure (Node.absent k.line)
        | _ => node fuel false false
      let v ← peek
      if v.kind = .value then skip
      let w ← peek
      let value ← match v.kind, w.kind with
        | .value, .flowEntry | .value, .flowMappingEnd => pure (Node.absent w.line)
        | .value, _ => node fuel false false
        | _, _ => pure (Node.absent w.line)
      return (key, value) :: (← flowMapping fuel false)
    | .flowMappingEnd =>
      skip
      return []
    | _ =>
      let key ← node fuel false false
      let next ← peek
      return (key, .absent next.line) :: (← flowMapping fuel false)

end

/-- The handles that are always defined. -/
def standardHandles : List (String × String) :=
  [("!", "!"), ("!!", "tag:yaml.org,2002:")]

/-- Reads the directives of a document. -/
def directives : Nat → (hasVersion : Bool) → NodeReader Unit
  | 0, _ => return ()
  | fuel + 1, hasVersion => do
    let t ← peek
    match t.kind with
    | .version major minor =>
      if hasVersion then fail .duplicateVersion t.line
      if major ≠ 1 ∨ minor ≠ 1 then fail .incompatibleVersion t.line
      skip
      directives fuel true
    | .tagHandle handle prefixText =>
      if (← get).handles.any (·.1 == handle) then fail .duplicateTagDirective t.line
      modify fun s => { s with handles := s.handles ++ [(handle, prefixText)] }
      skip
      directives fuel hasVersion
    | _ => return ()

/-- Whether a token ends a document that has no content. -/
def endsDocument : TokenKind → Bool
  | .version .. | .tagHandle .. | .documentStart | .documentEnd | .streamEnd => true
  | _ => false

/-- Reads the first document; there is none in an empty text. -/
def document (fuel : Nat) : NodeReader (Option Node) := do
  let t ← peek
  match t.kind with
  | .streamEnd => return none
  | .version .. | .tagHandle .. | .documentStart =>
    directives fuel false
    modify fun s => { s with handles := s.handles ++ standardHandles }
    let start ← peek
    if start.kind ≠ .documentStart then fail .documentStart start.line
    skip
    let first ← peek
    let root ← if endsDocument first.kind then pure (Node.absent first.line)
      else node fuel true false
    let _ ← peek
    return some root
  | _ =>
    modify fun s => { s with handles := s.handles ++ standardHandles }
    let root ← node fuel true false
    let _ ← peek
    return some root

end NodeReader

/-- The first document of a text, if there is one. -/
def Node.parse (text : String) : Except Fault (Option Node) := do
  let input ← Input.ofText text
  let (list, fault) := tokens input
  let (root, _) ← NodeReader.document (4 * (list.length + 4)) ⟨list, fault, [], []⟩
  return root

end HiToolchain.Yaml
