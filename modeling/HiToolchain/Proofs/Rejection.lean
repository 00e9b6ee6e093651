import HiToolchain.Cli.App
import HiToolchain.Cli.World
import HiToolchain.Proofs.Sequencing

/-!
# Running and lowering reject the same programs

Both walks visit statements in order, a left operand before the right one and both before their
operator, so the first fault that one meets is the first fault that the other meets. All else that
lowering does cannot fail.
-/

namespace HiToolchain

open Ir Lower

/-! ### What lowering adds never fails -/

def Ir.Lower.Total {α : Type} (x : Lower α) : Prop := ∀ m, ∃ r, x m = .ok r

lemma Ir.Lower.Total.bind {α β : Type} {x : Lower α} {f : α → Lower β} (hx : Lower.Total x)
    (hf : ∀ a, Lower.Total (f a)) : Lower.Total (x >>= f) := by
  intro m
  obtain ⟨⟨a, m'⟩, ha⟩ := hx m
  obtain ⟨r, hr⟩ := hf a m'
  refine ⟨r, ?_⟩
  change (x m >>= fun r => f r.1 r.2) = _
  rw [ha]
  exact hr

lemma Ir.Lower.Total.discard {α : Type} {x : Lower α} (hx : Lower.Total x) :
    Lower.Total (discard x) := by
  intro m
  obtain ⟨r, hr⟩ := hx m
  refine ⟨((), r.2), ?_⟩
  change (x m >>= fun r => .ok ((), r.2)) = _
  rw [hr]
  rfl

lemma emit_total (i : Instr) : Lower.Total (emit i) := fun _ => ⟨_, rfl⟩

lemma textAddress_total (text : String) : Lower.Total (textAddress text) := by
  refine Lower.Total.bind (fun m => ?_) fun _ => emit_total _
  unfold global
  cases m.globals.idxOf? text with
  | some i => exact ⟨_, rfl⟩
  | none => exact ⟨_, rfl⟩

lemma numberFormat_total (x : Operand) : Lower.Total (numberFormat x) := by
  refine (emit_total _).bind fun whole => ?_
  refine (emit_total _).bind fun integral => ?_
  refine (emit_total _).bind fun size => ?_
  refine (emit_total _).bind fun small => ?_
  refine (emit_total _).bind fun condition => ?_
  refine (textAddress_total _).bind fun plain => ?_
  exact (textAddress_total _).bind fun general => emit_total _

/-! ### The first fault -/

/-- Both succeed, or both fail with one fault. -/
abbrev RejectAlike {α β : Type} : Except WalkFault α → Except WalkFault β → Prop :=
  Matches Eq fun _ _ => True

lemma Ir.Lower.Total.rejectAlike {α β : Type} {x : Lower α} (hx : Lower.Total x) (b : β)
    (m : Module) : RejectAlike (.ok b) (x m) := by
  obtain ⟨r, hr⟩ := hx m
  rw [hr]
  exact .ok trivial

lemma Expr.eval_lower [Elementary] (e : Expr) (m : Module) : RejectAlike e.eval (e.lower m) := by
  induction e generalizing m with
  | number span digits =>
    simp only [Expr.eval, Expr.lower]
    cases Literal.value digits span with
    | ok v => exact .ok trivial
    | error fault => exact .error rfl
  | binary span op left right ihl ihr =>
    rw [Expr.eval, Expr.lower]
    refine (ihl m).bind fun v r _ => (ihr r.2).bind fun w s _ => ?_
    cases op with
    | plus | minus | times | divide | power => exact .ok trivial
    | eof | hi | print | string | number | other code => exact .error rfl
  | foreign span node => exact .error rfl

lemma Stmt.line_lower [Elementary] (s : Stmt) (m : Module) : RejectAlike s.line? (s.lower m) := by
  cases s with
  | greet span name =>
    have htotal : Lower.Total (Stmt.greet span name).lower :=
      (textAddress_total _).bind fun text => (textAddress_total _).bind fun format =>
        (emit_total _).discard
    exact htotal.rejectAlike _ m
  | print span value =>
    refine (value.eval_lower m).bind fun v r _ => ?_
    have htotal := (numberFormat_total r.1).bind fun format =>
      (emit_total (.printNumber format r.1)).discard
    exact htotal.rejectAlike _ r.2
  | evaluate span value => exact (value.eval_lower m).bind fun v r _ => .ok trivial
  | foreign span node => exact .error rfl

lemma runStmts_of_line [Elementary] {s : Stmt} {line : Option String} (h : s.line? = .ok line)
    (body : List Stmt) : runStmts none (s :: body) =
      (line.toList ++ (runStmts none body).1, (runStmts none body).2) := by
  rw [runStmts, h]
  cases line <;> rfl

lemma runStmts_of_fault [Elementary] {s : Stmt} {fault : WalkFault} (h : s.line? = .error fault)
    (body : List Stmt) : runStmts none (s :: body) = ([], some (.walk fault)) := by
  rw [runStmts, h]

/-- A run ends without a fault where lowering succeeds, and else with its fault. -/
def EndsAlike {α : Type} (fault : Option RunFault) (lowered : Except WalkFault α) : Prop :=
  (fault = none ∧ ∃ a, lowered = .ok a) ∨ ∃ f, fault = some (.walk f) ∧ lowered = .error f

lemma runStmts_lowerStmts [Elementary] (body : List Stmt) (m : Module) :
    EndsAlike (runStmts none body).2 (lowerStmts body m) := by
  -- whatever module the statements before have left, and however many lines they have written
  induction body generalizing m with
  | nil => exact .inl ⟨rfl, _, rfl⟩
  | cons s body ih =>
    have hstmt := s.line_lower m
    rw [lowerStmts]
    change EndsAlike _ (s.lower m >>= fun r => lowerStmts body r.2)
    rw [runStmts]
    generalize s.line? = x, s.lower m = y at hstmt
    cases hstmt with
    | error h =>
      subst h
      exact .inr ⟨_, rfl, rfl⟩
    | @ok line r _ =>
      cases line with
      | none => exact ih r.2
      | some line => exact ih r.2

lemma Program.run_lower [Elementary] (p : Program) : EndsAlike p.run.2 p.lower := by
  obtain ⟨hnone, r, hr⟩ | ⟨f, hfault, hf⟩ := runStmts_lowerStmts p.body ⟨#[], #[]⟩
  · refine .inl ⟨hnone, r.2, ?_⟩
    rw [Program.lower, hr]
    rfl
  · refine .inr ⟨f, hfault, ?_⟩
    rw [Program.lower, hf]
    rfl

/-! ### Status and diagnostics of the two commands -/

namespace Cli

/-- What a run tells besides its output: its status and its diagnostics. -/
def Outcome.verdict (o : Outcome) : Nat × String := (o.exit, o.stderr)

section

variable {m : Type → Type} [Monad m] [LawfulMonad m]

/-- Actions that have logged the same, and failed alike or not at all. -/
structure SettledAlike (r r' : Except Failure Unit × Output) : Prop where
  log : r.2.log = r'.2.log
  result : Matches (fun f g => ∃ fault, f = .running (.walk fault) ∧ g = .walking fault)
    (fun _ _ => True) r.1 r'.1

/-- Two commands that begin alike and settle alike give one verdict. -/
lemma perform_verdict {α : Type} (debug : Bool) (x : Action m α) {k k' : α → Action m Unit}
    (h : ∀ a o, ∃ r r', StateT.run (ExceptT.run (k a)) o = pure r ∧
      StateT.run (ExceptT.run (k' a)) o = pure r' ∧ SettledAlike r r') :
    Outcome.verdict <$> perform debug (x >>= k) = Outcome.verdict <$> perform debug (x >>= k') := by
  simp only [perform, ExceptT.run_bind, StateT.run_bind, bind_assoc, map_bind]
  refine bind_congr fun ⟨result, o⟩ => ?_
  cases result with
  | error failure => rfl
  | ok a =>
    -- standard output may differ, but the verdict does not show it
    obtain ⟨⟨r, o₁⟩, ⟨r', o₂⟩, hr, hr', hlog, hresult⟩ := h a o
    change o₁.log = o₂.log at hlog
    simp only [hr, hr', pure_bind, hlog]
    cases hresult with
    | ok _ =>
      rw [map_pure, map_pure]
      rfl
    | error hfault =>
      obtain ⟨fault, rfl, rfl⟩ := hfault
      dsimp only
      rw [map_pure, map_pure]
      rfl

lemma run_print (text : String) (o : Output) :
    StateT.run (ExceptT.run (Action.print text : Action m Unit)) o =
      pure (.ok (), { o with stdout := o.stdout ++ text }) := by
  change (pure ((), { o with stdout := o.stdout ++ text }) >>=
    fun r => pure (Except.ok r.1, r.2)) = _
  rw [pure_bind]

lemma run_code_settle [Elementary] (p : Program) (o : Output) : ∃ r r',
    StateT.run (ExceptT.run (do
      Action.print (linesText p.run.1)
      match p.run.2 with
      | some f => throw (.running f)
      | none => return () : Action m Unit)) o = pure r ∧
    StateT.run (ExceptT.run (do
      let code ← Action.ofExcept .walking p.lower
      Action.print code.text : Action m Unit)) o = pure r' ∧ SettledAlike r r' := by
  rw [ExceptT.run_bind, StateT.run_bind, run_print, pure_bind]
  obtain ⟨hnone, code, hcode⟩ | ⟨fault, hsome, hfault⟩ := p.run_lower
  · rw [hnone, hcode, Action.ofExcept, pure_bind, run_print]
    exact ⟨_, _, rfl, rfl, rfl, .ok trivial⟩
  · rw [hsome, hfault, Action.ofExcept]
    refine ⟨(.error (.running (.walk fault)), _), (.error (.walking fault), o), rfl, ?_, rfl,
      .error ⟨fault, rfl, rfl⟩⟩
    simp

lemma parseFlags_file (flags : List Flag) (settings : Settings) {file : String}
    (h : Argument.ofText file = .other) :
    parseFlags flags settings [file] = (settings, .ok [file]) := by
  simp only [parseFlags, h]

lemma runTask_verdict [Elementary] [Host m] (initial debug : Bool) {file : String}
    (h : Argument.ofText file = .other) :
    Outcome.verdict <$> (runTask initial debug .run [file] : m Outcome) =
      Outcome.verdict <$> runTask initial debug .build ["--dump", file] := by
  have hdump : parseFlags Task.build.command.withHelpFlag.flags [] ["--dump", file] =
      parseFlags Task.build.command.withHelpFlag.flags [("dump", "true")] [file] := rfl
  have hrun : (runTask initial debug .run [file] : m Outcome) = perform debug (.runFile file) := by
    rw [runTask, parseFlags_file _ _ h]
    rfl
  have hbuild : (runTask initial debug .build ["--dump", file] : m Outcome) =
      perform debug (.build ⟨"", "clang", true⟩ file) := by
    rw [runTask, hdump, parseFlags_file _ _ h]
    rfl
  rw [hrun, hbuild]
  exact perform_verdict debug (Action.readProgram file) run_code_settle

omit [LawfulMonad m] in
lemma runWith_run [Elementary] [Host m] (initial : Bool) (file : String) :
    (runWith initial ["run", file] : m Outcome) = runTask initial initial .run [file] := by
  rfl

omit [LawfulMonad m] in
lemma runWith_build [Elementary] [Host m] (initial : Bool) (file : String) :
    (runWith initial ["build", "--dump", file] : m Outcome) =
      runTask initial initial .build ["--dump", file] := by
  rfl

end

lemma Argument.ofText_of_file {file : String} (h : file.toList.head? = some '-' → file = "-") :
    Argument.ofText file = .other := by
  by_cases hdash : file.toList.head? = some '-'
  · rw [h hdash]
    rfl
  · unfold Argument.ofText
    cases hfile : file.toList with
    | nil => rfl
    | cons ch chars =>
      have hch : ch ≠ '-' := by
        rintro rfl
        exact hdash (by rw [hfile]; rfl)
      simp [hch]

end Cli

open Cli

/-- A program runs to its end exactly if it can be lowered, and else both stop at the same fault.
So running a file and printing its code end with the same status and the same diagnostics,
whatever the surroundings hold, if the name of the file is not taken for a flag. -/
theorem run_and_lower_reject_alike [Elementary] :
    (∀ p : Program, EndsAlike p.run.2 p.lower) ∧
    ∀ (m : Type → Type) [Monad m] [LawfulMonad m] [Host m] (file : String)
      (debugSetting : Option String), (file.toList.head? = some '-' → file = "-") →
      Outcome.verdict <$> (Cli.run ["run", file] debugSetting : m Outcome) =
        Outcome.verdict <$> Cli.run ["build", "--dump", file] debugSetting := by
  refine ⟨Program.run_lower, ?_⟩
  intro m _ _ _ file debugSetting hfile
  have hwith : ∀ initial, Outcome.verdict <$> (runWith initial ["run", file] : m Outcome) =
      Outcome.verdict <$> runWith initial ["build", "--dump", file] := by
    intro initial
    rw [runWith_run, runWith_build]
    exact runTask_verdict initial initial (Argument.ofText_of_file hfile)
  cases debugSetting with
  | none => exact hwith false
  | some s =>
    unfold Cli.run
    dsimp only
    split_ifs
    · exact hwith false
    · cases parseBool? s with
      | some initial => exact hwith initial
      | none => rfl

theorem run_and_lower_reject_first_fault :
    let p : Program := ⟨default, [.evaluate default
      (.binary default (.other 12) (.number (.point .start) "x") (.foreign default (.ofCode 0)))]⟩
    let fault : WalkFault := .evaluation ⟨.malformedNumber "x", .point .start⟩
    let w : World := ⟨[], [], "1 +".toUTF8, []⟩
    let ran := (Outcome.verdict <$> Cli.run ["run", "-"] none : StateM World _) w
    let built := (Outcome.verdict <$> Cli.run ["build", "--dump", "-"] none : StateM World _) w
    (p.run.2 = some (.walk fault) ∧ p.lower = .error fault) ∧ ran = built ∧
      ran.1 = (1, "error: stdin: Unexpected token at line: 1 column: 3, got eof, " ++
        "expected one of number\n") := by
  intro p fault w ran built
  have hrun : p.run.2 = some (.walk fault) := rfl
  have hlower : p.lower = .error fault := by
    obtain ⟨hnone, -⟩ | ⟨f, hfault, hlower⟩ := run_and_lower_reject_alike.1 p
    · cases hrun.symm.trans hnone
    · cases hrun.symm.trans hfault
      exact hlower
  have hsame := run_and_lower_reject_alike.2 (StateM World) "-" none fun _ => rfl
  refine ⟨⟨hrun, hlower⟩, congrFun hsame w, ?_⟩
  decide +kernel

end HiToolchain
