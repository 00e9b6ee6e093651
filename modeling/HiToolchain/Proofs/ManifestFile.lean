import HiToolchain.Cli.App
import HiToolchain.Cli.World
import HiToolchain.Proofs.MappingText

/-!
# The module file keeps every name

The text of a manifest is read back as the same manifest, but for the defaults of names that are
empty. So a package is built under the very name that it was given, whatever that name is: a
`Workshop` is a world that keeps the calls of compilers, and an action `Gives` a result in it.
-/

namespace HiToolchain

open Yaml

/-! ### Encoded text -/

namespace Utf8

/-- Whatever bytes stand before them, the characters that are encoded are read one by one. -/
lemma piecesFrom_append (front : ByteArray) (cs : List Char) :
    piecesFrom (front ++ cs.utf8Encode) front.size = cs.map .char := by
  induction cs generalizing front with
  | nil =>
    rw [piecesFrom, if_neg (by simp)]
    rfl
  | cons c cs ih =>
    have hsplit : front ++ (c :: cs).utf8Encode = (front ++ [c].utf8Encode) ++ cs.utf8Encode := by
      rw [ByteArray.append_assoc, ← List.utf8Encode_append]
      rfl
    have hchar : (front ++ (c :: cs).utf8Encode).utf8DecodeChar? front.size = some c := by
      rw [ByteArray.utf8DecodeChar?_eq_utf8DecodeChar?_extract,
        ByteArray.extract_append_eq_right rfl ByteArray.size_append]
      exact List.utf8DecodeChar?_utf8Encode_cons
    have hsize : front.size + c.utf8Size = (front ++ [c].utf8Encode).size := by
      simp [List.utf8Encode]
    have hlt := ByteArray.lt_size_of_isSome_utf8DecodeChar? (by rw [hchar]; rfl)
    rw [piecesFrom, if_pos hlt, hchar]
    simp only
    rw [hsplit, hsize, ih]
    rfl

lemma decode_toUTF8 (text : String) : decode text.toUTF8 = text := by
  have hpieces := piecesFrom_append .empty text.toList
  rw [ByteArray.empty_append, String.utf8Encode_toList, ByteArray.size_empty] at hpieces
  rw [decode, pieces, String.toUTF8_eq_toByteArray, hpieces, List.map_map]
  exact (congrArg String.ofList (List.map_id text.toList)).trans String.ofList_toList

end Utf8

/-! ### Manifests -/

/-- A string that is written plain would be taken for nothing else than a string. -/
lemma Yaml.Node.string_value (line : Nat) (v : String) :
    (Node.scalar ⟨line, ""⟩ (chooseStyle v = .plain) v).string = .ok (.ok v) := by
  have hspec := chooseStyle_spec v
  by_cases hplain : chooseStyle v = .plain
  · rw [hplain] at hspec
    have hstring : resolve v = .string := by
      have hquotes := hspec.2.1
      simp only [needsQuotes, Bool.or_eq_false_iff, bne_eq_false_iff_eq] at hquotes
      exact hquotes.1
    simp only [hplain, decide_true, Node.string, scalarValue, hstring]
    rfl
  · simp only [hplain, decide_false, Node.string, scalarValue]
    rfl

namespace Manifest

/-- The fields of a manifest as they are written. -/
def fields (m : Manifest) : List (String × String) :=
  ("Package", m.package) :: if m.main.isEmpty then [] else [("Main", m.main)]

lemma doc_eq (m : Manifest) : m.doc = .mapping (m.fields.map fun f => (f.1, .scalar f.2)) := by
  unfold doc fields
  split <;> rfl

lemma key_fields (m : Manifest) : ∀ f ∈ m.fields, Key f.1.toList := by
  have hpackage : Key "Package".toList := ⟨by decide, List.all_eq_true.mp (by decide), by decide⟩
  have hmain : Key "Main".toList := ⟨by decide, List.all_eq_true.mp (by decide), by decide⟩
  unfold fields
  split
  · simpa using hpackage
  · simpa using ⟨hpackage, hmain⟩

namespace Draft

/-- A field that was not set yet is set. -/
lemma readEntries_field {f : String × String} {entry : Node × Node} (h : Node.IsField f entry)
    {field : Field} (hfield : Field.ofName? f.1 = some field)
    {done : List Field} (hnew : field ∉ done) (entries : List (Node × Node)) (d : Draft) :
    readEntries done (entry :: entries) d =
      readEntries (field :: done) entries (d.set field f.2) := by
  obtain ⟨line, line', rfl⟩ := h
  have hname : f.1 = "Package" ∨ f.1 = "Main" := by
    unfold Field.ofName? at hfield
    split at hfield <;> simp_all
  have hkey : (Node.scalar ⟨line, ""⟩ true f.1).isMerge = false ∧
      (Node.scalar ⟨line, ""⟩ true f.1).string = .ok (.ok f.1) := by
    obtain h | h := hname <;> rw [h] <;> exact ⟨rfl, rfl⟩
  rw [readEntries]
  simp only [hkey, Bool.false_eq_true, if_false, ok_bind, hfield, List.contains_iff_mem, hnew]
  rw [setFrom, Node.string_value]
  rfl

end Draft

/-- The entries of a manifest fill a draft with it. -/
lemma readEntries_fields {m : Manifest} {entries : List (Node × Node)}
    (h : List.Forall₂ Node.IsField m.fields entries) :
    Draft.readEntries [] entries .empty = .ok ⟨m, []⟩ := by
  obtain ⟨package, main⟩ := m
  cases h with
  | cons hpackage hrest =>
    rw [Draft.readEntries_field hpackage rfl (by decide)]
    split at hrest
    · next hempty =>
      cases hrest
      obtain rfl : main = "" := String.isEmpty_iff.mp hempty
      rfl
    · cases hrest with
      | cons hmain hnone =>
        cases hnone
        rw [Draft.readEntries_field hmain rfl (by decide)]
        rfl

/-- A manifest is read back from its text. -/
lemma parse_text (m : Manifest) : parse m.text = .ok m.withDefaults := by
  obtain ⟨line, entries, hparse, hentries⟩ := Node.parse_mapping (key_fields m)
  have hread : Draft.readNode (.mapping ⟨line, ""⟩ entries) .empty = .ok ⟨m, []⟩ := by
    rw [Draft.readNode]
    exact readEntries_fields hentries
  have hroot : Node.parse m.text = .ok (some (.mapping ⟨line, ""⟩ entries)) := by
    rw [text, doc_eq]
    exact hparse
  rw [parse, hroot]
  simp only [Except.mapError, ok_bind, hread]
  rfl

lemma withDefaults_eq (m : Manifest) :
    m.withDefaults = ⟨if m.package = "" then "a.out" else m.package,
      if m.main = "" then "main.hi" else m.main⟩ := by
  simp only [withDefaults, String.isEmpty_iff]
  rfl

end Manifest

namespace Cli

/-! ### Files -/

/-- The world after a file was written. -/
def World.withFile (w : World) (path : List String) (bytes : ByteArray) : World :=
  { w with files := (path, bytes) :: w.files.filter (·.1 != path) }

lemma World.isDirectory_withFile {w : World} {path : List String} (h : w.isDirectory path = false)
    (bytes : ByteArray) : (w.withFile path bytes).isDirectory path = false := by
  simp only [isDirectory, withFile, Bool.or_eq_false_iff, List.any_eq_false,
    List.mem_append, List.mem_map] at h ⊢
  refine ⟨h.1, ?_⟩
  rintro p (⟨f, hf, rfl⟩ | hp)
  · obtain rfl | hf := List.mem_cons.mp hf
    · simp
    · exact h.2 _ (.inl ⟨f, (List.mem_filter.mp hf).1, rfl⟩)
  · exact h.2 p (.inr hp)

lemma World.isThroughFile_withFile {w : World} {name : String} {path : List String}
    (h : w.isThroughFile name path = false) (hslash : endsInSlash name = false)
    (bytes : ByteArray) : (w.withFile path bytes).isThroughFile name path = false := by
  simp only [isThroughFile, withFile, List.any_eq_false] at h ⊢
  intro f hf
  obtain rfl | hf := List.mem_cons.mp hf
  · simp [hslash]
  · exact h f (List.mem_filter.mp hf).1

lemma World.write_eq_ok {w w' : World} {name text : String} : w.write name text = .ok w' ↔
    (w.isDirectory (steps name) = false ∧ w.isThroughFile name (steps name) = false ∧
      w.isDirectory (steps name).dropLast ∧ endsInSlash name = false) ∧
      w.withFile (steps name) text.toUTF8 = w' := by
  unfold World.write
  dsimp only
  split_ifs with hdirectory hthrough hparent hslash
  · simp [hdirectory]
  · simp [hthrough]
  · have hmissing : w.isDirectory (steps name).dropLast = false := by simpa using hparent
    simp [hmissing]
  · simp [hslash]
  · have hpresent : w.isDirectory (steps name).dropLast = true := by simpa using hparent
    simp only [Bool.not_eq_true] at hdirectory hthrough hslash
    simp [hdirectory, hthrough, hpresent, hslash, withFile]

/-- What was written to a file is read from it. -/
lemma World.read_write {w w' : World} {name text : String} (h : w.write name text = .ok w') :
    w'.read name = .ok text.toUTF8 := by
  obtain ⟨⟨hdirectory, hthrough, -, hslash⟩, rfl⟩ := write_eq_ok.mp h
  simp only [World.read, isDirectory_withFile hdirectory, isThroughFile_withFile hthrough hslash]
  simp [file?, withFile]

/-- Whether a file can be written to a path. -/
def World.isWritable (w : World) (path : String) : Bool := (w.write path "").isOk

/-- Whether a file can be written does not depend on its text. -/
lemma World.write_of_isWritable {w : World} {path : String} (h : w.isWritable path)
    (text : String) : ∃ w', w.write path text = .ok w' := by
  rw [isWritable] at h
  cases hempty : w.write path "" with
  | ok w' => exact ⟨_, write_eq_ok.mpr ⟨(write_eq_ok.mp hempty).1, rfl⟩⟩
  | error fault =>
    rw [hempty] at h
    cases h

/-! ### Compilations -/

/-- A call of a compiler. -/
structure Compilation where
  compiler : String
  output : String
  code : String
  deriving DecidableEq, Repr

/-- A world and the calls of compilers in it, the latest last. -/
structure Workshop where
  world : World
  compilations : List Compilation

namespace Workshop

def inWorld {α : Type} (x : StateM World α) : StateM Workshop α := fun s =>
  let (a, w) := x s.world
  (a, { s with world := w })

def note (c : Compilation) : StateM Workshop Unit :=
  modify fun s => { s with compilations := s.compilations ++ [c] }

/-- A workshop after the code, if there is any, was compiled. -/
def compiled (s : Workshop) (compiler output : String) (code : Option String) : Workshop :=
  { s with compilations := s.compilations ++
      (code.map fun code => ⟨compiler, output, code⟩).toList }

@[simp] lemma compiled_none (s : Workshop) (compiler output : String) :
    s.compiled compiler output none = s := by
  simp [compiled]

instance : Host (StateM Workshop) where
  readFile name := inWorld (Host.readFile name)
  readInput := inWorld Host.readInput
  writeFile name text := inWorld (Host.writeFile name text)
  compile compiler output code := do
    note ⟨compiler, output, code⟩
    inWorld (Host.compile compiler output code)

end Workshop

/-- From a workshop an action comes to a result and leaves a workshop, whatever it has written and
logged. -/
def Gives {α : Type} (x : Action (StateM Workshop) α) (s : Workshop) (r : Except Failure α)
    (s' : Workshop) : Prop :=
  ∀ o, ∃ o', StateT.run (ExceptT.run x) o s = ((r, o'), s')

namespace Gives

variable {α β : Type} {s s₁ s₂ : Workshop} {x : Action (StateM Workshop) α}
  {f : α → Action (StateM Workshop) β}

lemma pure (a : α) (s : Workshop) : Gives (pure a) s (.ok a) s := fun o => ⟨o, rfl⟩

lemma log (lines : List String) (s : Workshop) : Gives (Action.log lines) s (.ok ()) s :=
  fun _ => ⟨_, rfl⟩

lemma ofExcept {ε : Type} (failure : ε → Failure) (r : Except ε α) (s : Workshop) :
    Gives (Action.ofExcept failure r) s (r.mapError failure) s := by
  intro o
  cases r with
  | ok a => exact ⟨o, rfl⟩
  | error e => exact ⟨o, rfl⟩

/-- One action after the other. -/
lemma run_bind (x : Action (StateM Workshop) α) (f : α → Action (StateM Workshop) β) (o : Output)
    (s : Workshop) : StateT.run (ExceptT.run (x >>= f)) o s =
      match StateT.run (ExceptT.run x) o s with
      | ((.ok a, o₁), s₁) => StateT.run (ExceptT.run (f a)) o₁ s₁
      | ((.error e, o₁), s₁) => ((.error e, o₁), s₁) := by
  rw [ExceptT.run_bind, StateT.run_bind]
  rcases hx : StateT.run (ExceptT.run x) o s with ⟨⟨r, o₁⟩, s₁⟩
  cases r with
  | ok a => simp [Bind.bind, StateT.bind, hx]
  | error e =>
    simp only [Bind.bind, StateT.bind, hx]
    rfl

lemma bind {a : α} {r : Except Failure β} (hx : Gives x s (.ok a) s₁) (hf : Gives (f a) s₁ r s₂) :
    Gives (x >>= f) s r s₂ := by
  intro o
  obtain ⟨o₁, ho₁⟩ := hx o
  rw [run_bind, ho₁]
  exact hf o₁

lemma ask {ε : Type} (failure : ε → Failure) {query : StateM Workshop (Except ε α)}
    {r : Except ε α} (h : query s = (r, s₁)) :
    Gives (Action.ask failure query) s (r.mapError failure) s₁ := by
  have hlift : Gives (liftM (liftM query : StateT Output (StateM Workshop) (Except ε α))) s
      (.ok r) s₁ := by
    intro o
    change ∃ o', ((Except.ok (query s).1, o), (query s).2) = _
    rw [h]
    exact ⟨o, rfl⟩
  unfold Action.ask
  cases r with
  | ok a => exact hlift.bind (.pure a s₁)
  | error e => exact hlift.bind fun o => ⟨o, rfl⟩

lemma bind_error {e : Failure} (hx : Gives x s (.error e) s₁) :
    Gives (x >>= f) s (.error e) s₁ := by
  intro o
  obtain ⟨o₁, ho₁⟩ := hx o
  rw [run_bind, ho₁]
  exact ⟨o₁, rfl⟩

lemma map {a : α} (g : α → β) (hx : Gives x s (.ok a) s₁) : Gives (g <$> x) s (.ok (g a)) s₁ := by
  rw [map_eq_pure_bind]
  exact hx.bind (.pure (g a) s₁)

/-- What an action gives, its run reports. -/
lemma perform {y : Action (StateM Workshop) Unit} {r : Except Failure Unit} (hy : Gives y s r s₁)
    (debug : Bool) : (Cli.perform debug y s).2 = s₁ ∧
      ((Cli.perform debug y s).1.exit = 0 ↔ r = .ok ()) := by
  obtain ⟨o, ho⟩ := hy ⟨"", []⟩
  simp only [Cli.perform, Bind.bind, StateT.bind, ho]
  cases r with
  | ok _ => exact ⟨rfl, fun _ => rfl, fun _ => rfl⟩
  | error failure =>
    have hfails : ¬1 = 0 ∧ Except.error failure ≠ .ok () := by simp
    cases failure <;> exact ⟨rfl, iff_of_false hfails.1 hfails.2⟩

end Gives

/-- The text that a name stands for and the name of its file. -/
def World.source? (w : World) (name : String) : Option (String × String) :=
  if name = "-" then some (Utf8.decode w.input, "stdin")
  else (w.read name).toOption.map fun bytes => (Utf8.decode bytes, name)

/-- The code of the program that a name stands for, if there is one. -/
def World.code? (w : World) (name : String) : Option String :=
  (w.source? name).bind fun source =>
    (Cursor.ofText source.1 source.2).parse.1.toOption.bind fun p => p.lower.toOption.map (·.text)

section

variable {s : Workshop} {m : Manifest}

lemma gives_loadManifest (h : s.world.read Manifest.fileName = .ok m.text.toUTF8) :
    Gives Action.loadManifest s (.ok m.withDefaults) s := by
  have hfile : (Host.readFile Manifest.fileName : StateM Workshop _) s =
      (.ok m.text.toUTF8, s) := congrArg (·, s) h
  refine (Gives.ask .manifestFile hfile).bind ?_
  rw [Utf8.decode_toUTF8, Manifest.parse_text]
  exact .ofExcept .manifestText (.ok m.withDefaults) s

/-- Reading a source file that has a name. -/
lemma gives_namedSource (s : Workshop) (source : String) : ∃ r,
    Gives (do
      let (bytes, name) ←
        if source = "-" then do pure (← (Host.readInput : StateM Workshop ByteArray), "stdin")
        else do pure (← Action.ask .file (Host.readFile source), source)
      Action.log ["D | hi: read " ++ toString bytes.size ++ " bytes from " ++ name]
      return (Utf8.decode bytes, name)) s r s ∧ r.toOption = s.world.source? source := by
  have hread : (Host.readFile source : StateM Workshop _) s = (s.world.read source, s) := rfl
  have hask := Gives.ask .file hread
  by_cases hdash : source = "-"
  · simp only [hdash, World.source?, if_true]
    exact ⟨.ok (Utf8.decode s.world.input, "stdin"), fun o => ⟨_, rfl⟩, rfl⟩
  · simp only [hdash, World.source?, if_false]
    cases hfile : s.world.read source with
    | ok bytes =>
      rw [hfile] at hask
      exact ⟨.ok (Utf8.decode bytes, source), hask.bind fun o => ⟨_, rfl⟩, rfl⟩
    | error fault =>
      rw [hfile] at hask
      exact ⟨.error (.file fault), hask.bind_error, rfl⟩

lemma gives_readSource (h : s.world.read Manifest.fileName = .ok m.text.toUTF8) (name : String) :
    ∃ r, Gives (Action.readSource name) s r s ∧
      r.toOption = s.world.source? (if name.isEmpty then m.withDefaults.main else name) := by
  unfold Action.readSource
  dsimp only
  split
  · obtain ⟨r, hr, hsource⟩ := gives_namedSource s m.withDefaults.main
    exact ⟨r, ((gives_loadManifest h).map _).bind hr, hsource⟩
  · obtain ⟨r, hr, hsource⟩ := gives_namedSource s name
    exact ⟨r, (Gives.pure name s).bind hr, hsource⟩

lemma gives_readProgram {file : String} {r : Except Failure (String × String)}
    (h : Gives (Action.readSource file) s r s) : ∃ q, Gives (Action.readProgram file) s q s ∧
      q.toOption = r.toOption.bind fun t => (Cursor.ofText t.1 t.2).parse.1.toOption := by
  cases r with
  | error failure => exact ⟨.error failure, h.bind_error, rfl⟩
  | ok source =>
    refine ⟨(Cursor.ofText source.1 source.2).parse.1.mapError .reading,
      h.bind ((Gives.log _ s).bind (.ofExcept _ _ s)), ?_⟩
    change _ = (Cursor.ofText source.1 source.2).parse.1.toOption
    cases (Cursor.ofText source.1 source.2).parse.1 <;> rfl

/-- Without the name of an executable, a program is compiled to the package of the manifest. -/
lemma gives_build (h : s.world.read Manifest.fileName = .ok m.text.toUTF8)
    (compiler file : String) :
    let code := s.world.code? (if file.isEmpty then m.withDefaults.main else file)
    ∃ r, Gives (Action.build ⟨"", compiler, false⟩ file) s r
        (s.compiled compiler m.withDefaults.package code) ∧
      (r = .ok () ↔ code.isSome ∧ s.world.compile compiler = .ok ()) := by
  obtain ⟨source, hsource, htext⟩ := gives_readSource h file
  obtain ⟨read, hread, hprogram⟩ := gives_readProgram hsource
  have hcode : s.world.code? (if file.isEmpty then m.withDefaults.main else file) =
      read.toOption.bind fun p => p.lower.toOption.map (·.text) := by
    rw [World.code?, ← htext, hprogram, Option.bind_assoc]
  rw [hcode]
  cases read with
  | error failure =>
    refine ⟨.error failure, ?_, by simp [Except.toOption]⟩
    rw [Except.toOption, Option.bind_none, Workshop.compiled_none]
    exact hread.bind_error
  | ok p =>
    rw [Except.toOption, Option.bind_some]
    cases hmodule : p.lower with
    | error fault =>
      have hlower : Gives (Action.ofExcept .walking p.lower) s (.error (.walking fault)) s := by
        rw [hmodule]
        exact .ofExcept .walking (.error fault) s
      refine ⟨.error (.walking fault), ?_, by simp [Except.toOption]⟩
      rw [Except.toOption, Option.map_none, Workshop.compiled_none]
      exact hread.bind hlower.bind_error
    | ok code =>
      have hlower : Gives (Action.ofExcept .walking p.lower) s (.ok code) s := by
        rw [hmodule]
        exact .ofExcept .walking (.ok code) s
      have hpackage := (gives_loadManifest h).map (·.package)
      have hcompile : (Host.compile compiler m.withDefaults.package code.text :
          StateM Workshop _) s = (s.world.compile compiler,
            s.compiled compiler m.withDefaults.package (some code.text)) := rfl
      refine ⟨_, hread.bind (hlower.bind (hpackage.bind ((Gives.log _ s).bind
        (.ask .compiler hcompile)))), ?_⟩
      cases s.world.compile compiler <;> simp [Except.mapError, Except.toOption]

end

lemma gives_initModule {s : Workshop} {name : String} (hname : name ≠ "") {w : World}
    (h : s.world.write Manifest.fileName (Manifest.mk name Manifest.defaultMain).text = .ok w) :
    Gives (Action.initModule name) s (.ok ()) { s with world := w } := by
  have hwrite : (Host.writeFile Manifest.fileName (Manifest.mk name Manifest.defaultMain).text :
      StateM Workshop _) s = (.ok (), { s with world := w }) := by
    simp only [Host.writeFile, Workshop.inWorld, Bind.bind, StateT.bind, get, getThe,
      MonadStateOf.get, StateT.get, Pure.pure, h]
    rfl
  rw [Action.initModule, if_neg (by simpa using hname)]
  exact .ask .manifestCreation hwrite

/-! ### Command lines -/

/-- The initial value of debugging, if the environment has a truth value for it. -/
def initialDebug? : Option String → Option Bool
  | none => some false
  | some s => if s.isEmpty then some false else parseBool? s

/-- A command line that comes down to a task with its settings and its first argument: flags of
the toolchain, the name of the task, flags of the task, and arguments. -/
inductive Invokes (line : List String) (debugSetting : Option String) (task : Task)
    (settings : Settings) : (name : String) → Prop
  | intro {initial : Bool} {globals : Settings} {word : String} {args rest : List String}
      (debug : initialDebug? debugSetting = some initial)
      (front : parseFlags (app initial).flags [] line = (globals, .ok (word :: args)))
      (frontForms : twoForms? (app initial).flags globals = none)
      (frontHelp : helpFlag.switchValue globals = false)
      (named : Task.ofName? word = some task)
      (flags : parseFlags task.command.withHelpFlag.flags [] args = (settings, .ok rest))
      (forms : twoForms? task.command.withHelpFlag.flags settings = none)
      (help : helpFlag.switchValue settings = false) :
      Invokes line debugSetting task settings (rest.headD "")

section

variable {m : Type → Type} [Monad m] [Host m] {line : List String} {debugSetting : Option String}
  {settings : Settings} {name : String}

lemma run_of_initialDebug [Elementary] {initial : Bool}
    (h : initialDebug? debugSetting = some initial) :
    (Cli.run line debugSetting : m Outcome) = runWith initial line := by
  unfold initialDebug? at h
  unfold Cli.run
  split at h
  · cases h
    rfl
  · split at h
    · next hempty =>
      cases h
      simp [hempty]
    · next hempty => simp [hempty, h]

lemma runWith_of_named [Elementary] {initial : Bool} {globals : Settings} {word : String}
    {args : List String} {task : Task}
    (hfront : parseFlags (app initial).flags [] line = (globals, .ok (word :: args)))
    (hforms : twoForms? (app initial).flags globals = none)
    (hhelp : helpFlag.switchValue globals = false) (hnamed : Task.ofName? word = some task) :
    (runWith initial line : m Outcome) =
      runTask initial ((debugFlag initial).switchValue globals) task args := by
  rw [runWith]
  simp only [hfront, hforms, hhelp, hnamed]
  rfl

lemma Invokes.run_init [Elementary] (h : Invokes line debugSetting .init settings name) : ∃ debug,
    (Cli.run line debugSetting : m Outcome) = perform debug (.initModule name) := by
  obtain ⟨hdebug, hfront, hfrontForms, hfrontHelp, hnamed, hflags, hforms, hhelp⟩ := h
  rw [run_of_initialDebug hdebug, runWith_of_named hfront hfrontForms hfrontHelp hnamed, runTask]
  simp only [hflags, hforms, hhelp]
  exact ⟨_, rfl⟩

lemma Invokes.run_build [Elementary] (h : Invokes line debugSetting .build settings name) : ∃ debug,
    (Cli.run line debugSetting : m Outcome) =
      perform debug (.build ⟨outputFlag.textValue settings, compilerFlag.textValue settings,
        dumpFlag.switchValue settings⟩ name) := by
  obtain ⟨hdebug, hfront, hfrontForms, hfrontHelp, hnamed, hflags, hforms, hhelp⟩ := h
  rw [run_of_initialDebug hdebug, runWith_of_named hfront hfrontForms hfrontHelp hnamed, runTask]
  simp only [hflags, hforms, hhelp]
  exact ⟨_, rfl⟩

end

end Cli

open Cli

/-- What is written to a file that can be written is read back character by character; an empty
package and an empty main file take their defaults. So once a module was made under a name, a
build that is given no other output compiles to that name, as long as the module file is left as
it is, and compiles nothing else. -/
theorem manifest_file_keeps_names [Elementary] :
    (∀ (w : World) (path : String) (m : Manifest), w.isWritable path →
      ∃ w' bytes, w.write path m.text = .ok w' ∧ w'.read path = .ok bytes ∧
        Manifest.parse (Utf8.decode bytes) = .ok ⟨if m.package = "" then "a.out" else m.package,
          if m.main = "" then "main.hi" else m.main⟩) ∧
    ∀ (s : Workshop) (line : List String) (debugSetting : Option String) (settings : Settings)
      (name : String), name ≠ "" → s.world.isWritable Manifest.fileName →
      Invokes line debugSetting .init settings name →
      let made := (Cli.run line debugSetting : StateM Workshop Outcome) s
      made.1.exit = 0 ∧
      ∀ (t : Workshop) (line' : List String) (debugSetting' : Option String)
        (settings' : Settings) (file : String),
        t.world.read Manifest.fileName = made.2.world.read Manifest.fileName →
        Invokes line' debugSetting' .build settings' file → outputFlag.textValue settings' = "" →
        dumpFlag.switchValue settings' = false →
        let built := (Cli.run line' debugSetting' : StateM Workshop Outcome) t
        let compiler := compilerFlag.textValue settings'
        let code := t.world.code? (if file = "" then "main.hi" else file)
        built.2 = t.compiled compiler name code ∧
          (built.1.exit = 0 ↔ code.isSome ∧ t.world.compile compiler = .ok ()) := by
  constructor
  · intro w path m hpath
    obtain ⟨w', hwrite⟩ := World.write_of_isWritable hpath m.text
    refine ⟨w', _, hwrite, World.read_write hwrite, ?_⟩
    rw [Utf8.decode_toUTF8, Manifest.parse_text, Manifest.withDefaults_eq]
  · intro s line debugSetting settings name hname hpath hinit
    obtain ⟨w, hwrite⟩ :=
      World.write_of_isWritable hpath (Manifest.mk name Manifest.defaultMain).text
    obtain ⟨debug, hrun⟩ := hinit.run_init (m := StateM Workshop)
    obtain ⟨hstate, hexit⟩ := (gives_initModule hname hwrite).perform debug
    rw [hrun]
    refine ⟨hexit.mpr rfl, ?_⟩
    intro t line' debugSetting' settings' file hfile hbuild houtput hdump
    rw [hstate, World.read_write hwrite] at hfile
    obtain ⟨debug', hrun'⟩ := hbuild.run_build (m := StateM Workshop)
    obtain ⟨r, hr, hok⟩ := gives_build hfile (compilerFlag.textValue settings') file
    obtain ⟨hstate', hexit'⟩ := hr.perform debug'
    rw [houtput, hdump] at hrun'
    have hdefaults : (Manifest.mk name Manifest.defaultMain).withDefaults = ⟨name, "main.hi"⟩ := by
      simp [Manifest.withDefaults_eq, hname, Manifest.defaultMain]
    simp only [hdefaults, String.isEmpty_iff] at hstate' hok
    rw [hrun']
    exact ⟨hstate', hexit'.trans hok⟩

/-- Left without quotes, `yes` would be a truth value. -/
theorem manifest_file_keeps_yes :
    let w : World := ⟨[(["main.hi"], "print 1".toUTF8)], [], .empty, [("true", 0)]⟩
    let made := (Cli.run ["init", "yes"] none : StateM Workshop Outcome) ⟨w, []⟩
    let built := (Cli.run ["build", "--cc", "true"] none : StateM Workshop Outcome) made.2
    (∃ w' bytes, w.write "a/../x.yaml" (Manifest.mk "" "no: #\n").text = .ok w' ∧
      w'.read "a/../x.yaml" = .ok bytes ∧
      Manifest.parse (Utf8.decode bytes) = .ok ⟨"a.out", "no: #\n"⟩) ∧
    made.1.exit = 0 ∧ built.1.exit = 0 ∧ built.2.compilations.map (·.output) = ["yes"] := by
  intro w made built
  obtain ⟨hfile, hline⟩ := manifest_file_keeps_names
  have hinit : Invokes ["init", "yes"] none .init [] "yes" :=
    @Invokes.intro _ _ _ _ false [] "init" ["yes"] ["yes"] rfl rfl rfl rfl rfl rfl rfl rfl
  have hbuild : Invokes ["build", "--cc", "true"] none .build [("cc", "true")] "" :=
    @Invokes.intro _ _ _ _ false [] "build" ["--cc", "true"] [] rfl rfl rfl rfl rfl rfl rfl rfl
  obtain ⟨hmade, hthen⟩ := hline ⟨w, []⟩ _ none [] "yes" (by decide) (by decide +kernel) hinit
  obtain ⟨hbuilt, hexit⟩ := hthen made.2 _ none _ "" rfl hbuild rfl rfl
  have hcode : (made.2.world.code? "main.hi").isSome := by decide +kernel
  have hcompiler : made.2.world.compile "true" = .ok () := by decide +kernel
  have hnone : made.2.compilations = [] := by decide +kernel
  refine ⟨hfile w "a/../x.yaml" ⟨"", "no: #\n"⟩ (by decide +kernel), hmade,
    hexit.mpr ⟨hcode, hcompiler⟩, ?_⟩
  obtain ⟨code, hcode⟩ := Option.isSome_iff_exists.mp hcode
  have hcompilations : built.2.compilations = [⟨"true", "yes", code⟩] := by
    rw [hbuilt, Workshop.compiled, hnone]
    simp only [if_true, hcode]
    rfl
  rw [hcompilations]
  rfl

end HiToolchain
