import HiToolchain.Proofs.ByteSequences
import HiToolchain.Proofs.Shape
import HiToolchain.Session

/-!
# Source bytes

Source text is decoded once, when it is read, and what follows sees only its characters. Two runs
of the toolchain are compared in worlds whose files decode to the same texts: they end alike, and
only the number of bytes that is noted when a file is read tells them apart. Bytes and their
decoded text encoded again are an instance.
-/

namespace HiToolchain

namespace Cli

/-! ### Worlds that read alike -/

/-- Bytes that are read as the same text. -/
abbrev SameText (bytes bytes' : ByteArray) : Prop := Utf8.decode bytes = Utf8.decode bytes'

/-- Worlds that differ in the bytes of their texts only. -/
structure World.Alike (w w' : World) : Prop where
  files : List.Forall₂ (fun f f' => f.1 = f'.1 ∧ SameText f.2 f'.2) w.files w'.files
  directories : w.directories = w'.directories
  input : SameText w.input w'.input
  programs : w.programs = w'.programs

namespace World.Alike

variable {w w' : World}

lemma paths (h : w.Alike w') : w.files.map (·.1) = w'.files.map (·.1) := by
  rw [← List.forall₂_eq_eq_eq, List.forall₂_map_left_iff, List.forall₂_map_right_iff]
  exact h.files.imp fun _ _ hf => hf.1

lemma isDirectory (h : w.Alike w') (path : List String) :
    w.isDirectory path = w'.isDirectory path := by
  rw [World.isDirectory, World.isDirectory, h.paths, h.directories]

lemma isThroughFile (h : w.Alike w') (name : String) (path : List String) :
    w.isThroughFile name path = w'.isThroughFile name path := by
  have hpaths (v : World) : v.isThroughFile name path = (v.files.map (·.1)).any fun p =>
      p.isPrefixOf path && (p != path || endsInSlash name) := by
    rw [World.isThroughFile, List.any_map]
    rfl
  rw [hpaths, hpaths, h.paths]

lemma file? (h : w.Alike w') (path : List String) :
    Option.Rel SameText (w.file? path) (w'.file? path) := by
  obtain ⟨hfiles, -, -, -⟩ := h
  rw [World.file?, World.file?]
  generalize w.files = fs, w'.files = fs' at hfiles ⊢
  induction hfiles with
  | nil => exact .none
  | @cons f f' fs fs' hf _ ih =>
    obtain ⟨hpath, htext⟩ := hf
    rw [List.find?_cons, List.find?_cons, ← hpath]
    cases hfound : f.1 == path with
    | true => exact .some htext
    | false => exact ih

lemma read (h : w.Alike w') (name : String) :
    Matches Eq SameText (w.read name) (w'.read name) := by
  rw [World.read, World.read, h.isDirectory, h.isThroughFile]
  refine .ite .rfl (.error rfl) (.ite .rfl (.error rfl) ?_)
  have hfile := h.file? (steps name)
  generalize w.file? (steps name) = found, w'.file? (steps name) = found' at hfile ⊢
  cases hfile with
  | none => exact .error rfl
  | some htext => exact .ok htext

lemma write (h : w.Alike w') (name text : String) :
    Matches Eq World.Alike (w.write name text) (w'.write name text) := by
  rw [World.write, World.write, h.isDirectory, h.isThroughFile, h.isDirectory]
  refine .ite .rfl (.error rfl) (.ite .rfl (.error rfl) (.ite .rfl (.error rfl)
    (.ite .rfl (.error rfl) (.ok ⟨.cons ⟨rfl, rfl⟩ ?_, h.directories, h.input, h.programs⟩))))
  obtain ⟨hfiles, -, -, -⟩ := h
  generalize w.files = fs, w'.files = fs' at hfiles ⊢
  induction hfiles with
  | nil => exact .nil
  | @cons f f' fs fs' hf _ ih =>
    rw [List.filter_cons, List.filter_cons, ← hf.1]
    split_ifs
    · exact .cons hf ih
    · exact ih

end World.Alike

structure Workshop.Alike (s s' : Workshop) : Prop where
  world : s.world.Alike s'.world
  compilations : s.compilations = s'.compilations

/-! ### Outputs that are alike -/

/-- What is logged when a file is read. -/
def byteCount (size : Nat) (name : String) : String :=
  "D | hi: read " ++ toString size ++ " bytes from " ++ name

/-- Lines of a log that differ at most in a number of bytes. -/
inductive SameLine : String → String → Prop
  | refl (line : String) : SameLine line line
  | count (size size' : Nat) (name : String) : SameLine (byteCount size name) (byteCount size' name)

structure Output.Alike (o o' : Output) : Prop where
  stdout : o.stdout = o'.stdout
  log : List.Forall₂ SameLine o.log o'.log

/-- Runs that end alike: what they wrote differs at most in numbers of bytes, in lines of a log
that comes before what is reported. -/
structure Outcome.Alike (o o' : Outcome) : Prop where
  exit : o.exit = o'.exit
  stdout : o.stdout = o'.stdout
  stderr : ∃ lines lines' report, List.Forall₂ SameLine lines lines' ∧
    o.stderr = String.join (lines.map (· ++ "\n")) ++ report ∧
    o'.stderr = String.join (lines'.map (· ++ "\n")) ++ report

lemma Outcome.Alike.refl (o : Outcome) : o.Alike o :=
  ⟨rfl, rfl, [], [], o.stderr, .nil, by simp, by simp⟩

/-! ### Actions that agree -/

/-- From states that are alike two actions come to results related by `R` and leave states that are
alike. -/
def Agree {α : Type} (R : α → α → Prop) (x y : Action (StateM Workshop) α) : Prop :=
  ∀ ⦃s s' : Workshop⦄ ⦃o o' : Output⦄, s.Alike s' → o.Alike o' →
    Matches Eq R (StateT.run (ExceptT.run x) o s).1.1 (StateT.run (ExceptT.run y) o' s').1.1 ∧
      (StateT.run (ExceptT.run x) o s).1.2.Alike (StateT.run (ExceptT.run y) o' s').1.2 ∧
      (StateT.run (ExceptT.run x) o s).2.Alike (StateT.run (ExceptT.run y) o' s').2

/-- An action that comes to the same result in worlds that are alike. -/
abbrev Stable {α : Type} (x : Action (StateM Workshop) α) : Prop := Agree Eq x x

namespace Agree

variable {α β : Type} {R : α → α → Prop} {S : β → β → Prop} {x y : Action (StateM Workshop) α}

lemma pure {a b : α} (h : R a b) : Agree R (Pure.pure a) (Pure.pure b) :=
  fun _ _ _ _ hs ho => ⟨.ok h, ho, hs⟩

lemma throw (e : Failure) : Agree R (MonadExcept.throw e) (MonadExcept.throw e) :=
  fun _ _ _ _ hs ho => ⟨.error rfl, ho, hs⟩

lemma bind {f g : α → Action (StateM Workshop) β} (hx : Agree R x y)
    (hf : ∀ a b, R a b → Agree S (f a) (g b)) : Agree S (x >>= f) (y >>= g) := by
  intro s s' o o' hs ho
  obtain ⟨hresult, hoa, hsa⟩ := hx hs ho
  rw [Gives.run_bind, Gives.run_bind]
  generalize StateT.run (ExceptT.run x) o s = p, StateT.run (ExceptT.run y) o' s' = p'
    at hresult hoa hsa ⊢
  obtain ⟨⟨r, o₁⟩, s₁⟩ := p
  obtain ⟨⟨r', o₁'⟩, s₁'⟩ := p'
  cases hresult with
  | ok hab => exact hf _ _ hab hsa hoa
  | error he => exact ⟨.error he, hoa, hsa⟩

lemma map {f : α → β} (hx : Agree R x y) (hf : ∀ a b, R a b → S (f a) (f b)) :
    Agree S (f <$> x) (f <$> y) := by
  rw [map_eq_pure_bind, map_eq_pure_bind]
  exact hx.bind fun a b hab => .pure (hf a b hab)

lemma print (text : String) : Stable (Action.print text) :=
  fun _ _ _ _ hs ho => ⟨.ok rfl, ⟨congrArg (· ++ text) ho.stdout, ho.log⟩, hs⟩

lemma log {lines lines' : List String} (h : List.Forall₂ SameLine lines lines') :
    Agree Eq (Action.log lines) (Action.log lines') :=
  fun _ _ _ _ hs ho => ⟨.ok rfl, ⟨ho.stdout, List.rel_append ho.log h⟩, hs⟩

lemma logSame (lines : List String) : Stable (Action.log lines) :=
  .log (List.forall₂_same.mpr fun line _ => .refl line)

lemma ofExcept {ε : Type} (failure : ε → Failure) (r : Except ε α) :
    Stable (Action.ofExcept failure r) := by
  cases r with
  | ok a => exact .pure rfl
  | error e => exact .throw _

/-- A question agrees with itself if the answers in worlds that are alike match. -/
lemma ask {ε : Type} (failure : ε → Failure) {query : StateM Workshop (Except ε α)}
    (h : ∀ s s', s.Alike s' →
      Matches Eq R (query s).1 (query s').1 ∧ (query s).2.Alike (query s').2) :
    Agree R (Action.ask failure query) (Action.ask failure query) := by
  have hlift : Agree (Matches Eq R)
      (liftM (liftM query : StateT Output (StateM Workshop) (Except ε α)))
      (liftM (liftM query : StateT Output (StateM Workshop) (Except ε α))) :=
    fun s s' _ _ hs ho => ⟨.ok (h s s' hs).1, ho, (h s s' hs).2⟩
  unfold Action.ask
  refine hlift.bind fun r r' hr => ?_
  cases hr with
  | ok hab => exact .pure hab
  | error he =>
    obtain rfl := he
    exact .throw _

end Agree

/-! ### The actions of the toolchain -/

namespace Action

lemma agree_readFile (failure : FileFault → Failure) (name : String) :
    Agree SameText (ask failure (Host.readFile name : StateM Workshop _))
      (ask failure (Host.readFile name)) :=
  .ask failure fun _ _ hs => ⟨hs.world.read name, hs⟩

lemma stable_loadManifest : Stable loadManifest := by
  unfold loadManifest
  refine (agree_readFile .manifestFile Manifest.fileName).bind fun bytes bytes' hbytes => ?_
  rw [hbytes]
  exact .ofExcept _ _

lemma stable_writeManifest (manifest : Manifest) : Stable (writeManifest manifest) := by
  refine .ask _ fun s s' hs => ?_
  have hwrite := hs.world.write Manifest.fileName manifest.text
  simp only [Host.writeFile, Workshop.inWorld, bind, StateT.bind, get, getThe, MonadStateOf.get,
    StateT.get, pure]
  generalize s.world.write Manifest.fileName manifest.text = r,
    s'.world.write Manifest.fileName manifest.text = r' at hwrite ⊢
  cases hwrite with
  | ok hw => exact ⟨.ok rfl, hw, hs.compilations⟩
  | error he => exact ⟨.error he, hs⟩

lemma stable_compile (compiler output code : String) :
    Stable (ask .compiler (Host.compile compiler output code)) := by
  refine .ask _ fun s s' hs => ?_
  have hcompile : s.world.compile compiler = s'.world.compile compiler := by
    rw [World.compile, World.compile, hs.world.programs]
  refine ⟨?_, hs.world, congrArg (· ++ _) hs.compilations⟩
  change Matches Eq Eq (s.world.compile compiler) (s'.world.compile compiler)
  rw [hcompile]
  exact .refl (fun _ => rfl) _

/-- The text that was read, once the number of its bytes is noted. -/
lemma agree_noted {bytes bytes' : ByteArray} (h : SameText bytes bytes') (name : String) :
    Agree Eq (do
      log ["D | hi: read " ++ toString bytes.size ++ " bytes from " ++ name]
      return (Utf8.decode bytes, name) : Action (StateM Workshop) _) (do
      log ["D | hi: read " ++ toString bytes'.size ++ " bytes from " ++ name]
      return (Utf8.decode bytes', name)) :=
  (Agree.log (.cons (.count bytes.size bytes'.size name) .nil)).bind fun _ _ _ =>
    .pure (congrArg (·, name) h)

lemma stable_namedSource (name : String) :
    Stable (do
      let (bytes, name) ←
        if name = "-" then do pure (← (Host.readInput : StateM Workshop ByteArray), "stdin")
        else do pure (← ask .file (Host.readFile name), name)
      log ["D | hi: read " ++ toString bytes.size ++ " bytes from " ++ name]
      return (Utf8.decode bytes, name)) := by
  dsimp only
  split_ifs
  · have hinput : Agree SameText (liftM (Host.readInput : StateM Workshop ByteArray))
        (liftM (Host.readInput : StateM Workshop ByteArray)) :=
      fun _ _ _ _ hs ho => ⟨.ok hs.world.input, ho, hs⟩
    exact hinput.bind fun _ _ htext => agree_noted htext "stdin"
  · exact (agree_readFile .file name).bind fun _ _ htext => agree_noted htext name

lemma stable_readSource (name : String) : Stable (readSource name) := by
  unfold readSource
  dsimp only
  split_ifs
  · refine (stable_loadManifest.map (S := Eq) fun _ _ => congrArg _).bind ?_
    rintro main _ rfl
    exact stable_namedSource main
  · exact stable_namedSource name

lemma stable_readProgram (name : String) : Stable (readProgram name) := by
  refine (stable_readSource name).bind ?_
  rintro ⟨text, file⟩ _ rfl
  exact (Agree.logSame _).bind fun _ _ _ => .ofExcept _ _

lemma stable_runFile [Elementary] (name : String) : Stable (runFile name) := by
  refine (stable_readProgram name).bind ?_
  rintro p _ rfl
  refine (Agree.print _).bind fun _ _ _ => ?_
  generalize (runStmts none p.body).2 = fault
  cases fault with
  | some f => exact .throw _
  | none => exact .pure rfl

lemma stable_printYaml (name : String) : Stable (printYaml name) := by
  refine (stable_readProgram name).bind ?_
  rintro p _ rfl
  refine (Agree.ofExcept _ _).bind ?_
  rintro doc _ rfl
  exact .print _

lemma stable_printTree (name : String) : Stable (printTree name) := by
  refine (stable_readProgram name).bind ?_
  rintro p _ rfl
  exact .print _

lemma stable_printTokens (name : String) : Stable (printTokens name) := by
  refine (stable_readSource name).bind ?_
  rintro ⟨text, file⟩ _ rfl
  refine (Agree.logSame _).bind fun _ _ _ => ?_
  cases (Cursor.ofText text file).tokens.1.2 with
  | some f => exact .throw _
  | none => exact .print _

lemma stable_build (options : BuildOptions) (name : String) : Stable (build options name) := by
  refine (stable_readProgram name).bind ?_
  rintro p _ rfl
  refine (Agree.ofExcept _ _).bind ?_
  rintro code _ rfl
  dsimp only
  split_ifs with hdump hempty
  · exact .print _
  · refine (stable_loadManifest.map (S := Eq) fun _ _ => congrArg _).bind ?_
    rintro output _ rfl
    exact (Agree.logSame _).bind fun _ _ _ => stable_compile ..
  · refine (Agree.pure rfl).bind ?_
    rintro output _ rfl
    exact (Agree.logSame _).bind fun _ _ _ => stable_compile ..

lemma stable_initModule (name : String) : Stable (initModule name) := by
  unfold initModule
  split_ifs
  · exact .throw _
  · exact stable_writeManifest _

end Action

/-! ### Runs of the toolchain -/

/-- From workshops that are alike a run ends alike, and leaves workshops that are alike. Where
nothing is logged it ends the same. -/
def Steady (debug : Bool) (x : StateM Workshop Outcome) : Prop :=
  ∀ s s', s.Alike s' → (x s).1.Alike (x s').1 ∧ (x s).2.Alike (x s').2 ∧
    (debug = false → (x s).1 = (x s').1)

lemma steady_pure (debug : Bool) (o : Outcome) : Steady debug (pure o) :=
  fun _ _ hs => ⟨.refl o, hs, fun _ => rfl⟩

lemma Output.Alike.outcome {o o' : Output} (h : o.Alike o') (debug : Bool) (exit : Nat)
    (report : String) :
    let log (o : Output) := if debug then String.join (o.log.map (· ++ "\n")) else ""
    Outcome.Alike ⟨exit, o.stdout, log o ++ report⟩ ⟨exit, o'.stdout, log o' ++ report⟩ ∧
      (debug = false → Outcome.mk exit o.stdout (log o ++ report) =
        ⟨exit, o'.stdout, log o' ++ report⟩) := by
  cases debug with
  | true =>
    exact ⟨⟨rfl, h.stdout, o.log, o'.log, report, h.log, rfl, rfl⟩, fun hoff => by cases hoff⟩
  | false =>
    simp only [h.stdout]
    exact ⟨.refl _, fun _ => rfl⟩

lemma Agree.perform {x : Action (StateM Workshop) Unit} (hx : Stable x) (debug : Bool) :
    Steady debug (Cli.perform debug x) := by
  intro s s' hs
  obtain ⟨hresult, ho, hsa⟩ := @hx s s' ⟨"", []⟩ ⟨"", []⟩ hs ⟨rfl, .nil⟩
  simp only [Cli.perform, Bind.bind, StateT.bind]
  generalize StateT.run (ExceptT.run x) ⟨"", []⟩ s = p,
    StateT.run (ExceptT.run x) ⟨"", []⟩ s' = p' at hresult ho hsa ⊢
  obtain ⟨⟨r, o⟩, s₁⟩ := p
  obtain ⟨⟨r', o'⟩, s₁'⟩ := p'
  have houtcome := ho.outcome debug
  cases hresult with
  | ok _ =>
    obtain ⟨halike, hsame⟩ := houtcome 0 ""
    simp only [String.append_empty] at halike hsame
    exact ⟨halike, hsa, hsame⟩
  | @error e e' he =>
    obtain rfl : e = e' := he
    have hreport (report : String) := (houtcome 1 report).imp_right (And.intro hsa)
    cases e with
    | noName =>
      simp only [String.append_assoc]
      exact hreport _
    | _ => exact hreport _

lemma steady_runTask [Elementary] (initial debug : Bool) (task : Task) (args : List String) :
    Steady debug (runTask initial debug task args) := by
  unfold runTask
  dsimp only
  split
  · exact steady_pure debug _
  · split
    · exact steady_pure debug _
    · split_ifs
      · exact steady_pure debug _
      · cases task with
        | init => exact (Action.stable_initModule _).perform debug
        | run => exact (Action.stable_runFile _).perform debug
        | yaml => exact (Action.stable_printYaml _).perform debug
        | tree => exact (Action.stable_printTree _).perform debug
        | tokens => exact (Action.stable_printTokens _).perform debug
        | build => exact (Action.stable_build _ _).perform debug
        | help => exact steady_pure debug _

lemma steady_run [Elementary] (args : List String) (debugSetting : Option String) :
    Steady true (run args debugSetting) := by
  have hwith (initial : Bool) : Steady true (runWith initial args) := by
    unfold runWith
    dsimp only
    split
    · exact steady_pure true _
    · exact steady_pure true _
    · split_ifs
      · exact steady_pure true _
      · split
        · exact steady_pure true _
        · split
          · exact fun s s' hs =>
              have htask := steady_runTask initial _ _ _ s s' hs
              ⟨htask.1, htask.2.1, fun hoff => by cases hoff⟩
          · exact steady_pure true _
  unfold run
  split
  · exact hwith false
  · split_ifs
    · exact hwith false
    · split
      · exact hwith _
      · exact steady_pure true _

/-- A world that has bytes in a file and on its standard input. -/
def World.withSource (w : World) (path : List String) (bytes : ByteArray) : World :=
  { w.withFile path bytes with input := bytes }

lemma World.Alike.withSource (w : World) (path : List String) {bytes bytes' : ByteArray}
    (h : SameText bytes bytes') : (w.withSource path bytes).Alike (w.withSource path bytes') :=
  ⟨.cons ⟨rfl, h⟩ (List.forall₂_same.mpr fun _ _ => ⟨rfl, rfl⟩), rfl, h, rfl⟩

end Cli

/-- The values of the tokens and nodes that a step of a session shows. -/
def Session.Outcome.values : Session.Outcome → List String
  | .token t => [t.value]
  | .tokens list _ => list.map Token.value
  | .program p => p.lexemes.map Prod.snd
  | _ => []

open Cli in
/-- Decoding is a stable sanitisation. The characters are those that the bytes stand for; encoded
again they are well formed and decode to themselves, and well-formed bytes are unchanged. So
sessions are the same from the clean bytes as from the given ones, the values in them are well
formed, and every command ends alike, the same if nothing is logged. -/
theorem decoding_is_stable [Elementary] (bytes : ByteArray) :
    let text := Utf8.decode bytes
    let clean := Utf8.encode text
    (∀ cs, Utf8.Decodes bytes.data.toList cs ↔ cs = text.toList) ∧
      Utf8.WellFormed clean.data.toList ∧ Utf8.decode clean = text ∧
      (Utf8.WellFormed bytes.data.toList → clean = bytes) ∧
      (∀ file steps, Session.run (Cursor.ofText (Utf8.decode clean) file) steps =
        Session.run (Cursor.ofText (Utf8.decode bytes) file) steps) ∧
      (∀ file steps, ∀ r ∈ Session.run (Cursor.ofText (Utf8.decode bytes) file) steps,
        ∀ v ∈ r.1.values, Utf8.WellFormed (utf8 v)) ∧
      ∀ (w : World) (path : List String) (compilations : List Compilation),
        let given : Workshop := ⟨w.withSource path bytes, compilations⟩
        let cleaned : Workshop := ⟨w.withSource path clean, compilations⟩
        (∀ args debugSetting,
          let command : StateM Workshop Outcome := run args debugSetting
          (command given).1.Alike (command cleaned).1 ∧
            (command given).2.Alike (command cleaned).2) ∧
        ∀ initial task args,
          let command : StateM Workshop Outcome := runTask initial false task args
          (command given).1 = (command cleaned).1 := by
  have hsame : Utf8.decode (Utf8.encode (Utf8.decode bytes)) = Utf8.decode bytes :=
    Utf8.decode_encode _
  refine ⟨Utf8.decodes_iff bytes, Utf8.wellFormed_utf8 _, hsame, Utf8.encode_decode, ?_, ?_, ?_⟩
  · intro file steps
    rw [hsame]
  · intro file steps r _ v _
    exact Utf8.wellFormed_utf8 v
  · intro w path compilations
    have halike : Workshop.Alike ⟨w.withSource path bytes, compilations⟩
        ⟨w.withSource path (Utf8.encode (Utf8.decode bytes)), compilations⟩ :=
      ⟨.withSource w path hsame.symm, rfl⟩
    refine ⟨fun args debugSetting => ?_, fun initial task args => ?_⟩
    · obtain ⟨hends, hleaves, -⟩ := steady_run args debugSetting _ _ halike
      exact ⟨hends, hleaves⟩
    · exact (steady_runTask initial false task args _ _ halike).2.2 rfl

/-- A surrogate is three stray bytes; an accented letter is kept. -/
theorem decoding_is_stable_at_surrogate :
    Utf8.decode ⟨#[0xed, 0xa0, 0x80]⟩ = "\uFFFD\uFFFD\uFFFD" ∧
      Utf8.WellFormed [0xc3, 0xa9] ∧
      Utf8.encode (Utf8.decode ⟨#[0xc3, 0xa9]⟩) = ⟨#[0xc3, 0xa9]⟩ := by
  have hletter : Utf8.WellFormed [0xc3, 0xa9] :=
    .cons (.two (by decide) (by decide) ⟨by decide, by decide⟩) .nil
  have hsurrogate : Utf8.Decodes [0xed, 0xa0, 0x80] ['\uFFFD', '\uFFFD', '\uFFFD'] := by
    refine .stray ?_ (.stray ?_ (.stray ?_ .nil))
    all_goals
      rintro s n hs ⟨rest, hrest⟩
      cases hs <;> simp_all
  obtain ⟨hdecodes, -⟩ := decoding_is_stable ⟨#[0xed, 0xa0, 0x80]⟩
  obtain ⟨-, -, -, hclean, -⟩ := decoding_is_stable ⟨#[0xc3, 0xa9]⟩
  exact ⟨String.toList_inj.mp ((hdecodes _).mp hsurrogate).symm, hletter, hclean hletter⟩

end HiToolchain
