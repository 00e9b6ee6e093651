import HiToolchain.Proofs.Rejection

/-!
# Output up to a failure

A run writes line after line and can fail in two ways: an expression has no value, or the output
takes no more. Either way the output has received a first part of what there was to write, and the
failure that comes first is the one reported.
-/

namespace HiToolchain

def Expr.isHandled : Expr → Bool
  | .number .. => true
  | .binary _ _ left right => left.isHandled && right.isHandled
  | .foreign .. => false

/-- No node of the statement is foreign. -/
def Stmt.isHandled : Stmt → Bool
  | .greet .. => true
  | .print _ value => value.isHandled
  | .evaluate _ value => value.isHandled
  | .foreign .. => false

/-- What is written for a statement that is executed. -/
inductive Stmt.Writes [Elementary] : Stmt → List String → Prop
  | greet (span : Span) (name : String) : Writes (.greet span name) ["hi " ++ name ++ "\n"]
  | print (span : Span) {value : Expr} {v : Binary64} (h : value.eval = .ok v) :
      Writes (.print span value) [v.text ++ "\n"]
  | evaluate (span : Span) {value : Expr} {v : Binary64} (h : value.eval = .ok v) :
      Writes (.evaluate span value) []

/-- The expression of the statement has no value. -/
inductive Stmt.Fails [Elementary] : Stmt → EvalFault → Prop
  | print (span : Span) {value : Expr} {fault : EvalFault}
      (h : value.eval = .error (.evaluation fault)) : Fails (.print span value) fault
  | evaluate (span : Span) {value : Expr} {fault : EvalFault}
      (h : value.eval = .error (.evaluation fault)) : Fails (.evaluate span value) fault

/-- The statements are executed in order, all of them or those before one that fails. -/
structure Executed [Elementary] (body executed : List Stmt) (writes : List String)
    (outcome : Option EvalFault) : Prop where
  written : ∃ parts, List.Forall₂ Stmt.Writes executed parts ∧ writes = parts.flatten
  stopped : match outcome with
    | none => body = executed
    | some fault => ∃ s later, body = executed ++ s :: later ∧ s.Fails fault

/-! ### Outputs -/

/-- Why a run ended early into an output with faults of its own. -/
inductive Halt (ε : Type) where
  | walk (fault : WalkFault)
  | output (fault : ε)

section

variable {σ ε : Type} (write : σ → String → Except ε σ)

/-- Runs statements into any output: what it is after the run, and why the run ended early. -/
def feedStmts [Elementary] : List Stmt → σ → σ × Option (Halt ε)
  | [], out => (out, none)
  | s :: rest, out =>
    match s.line? with
    | .error fault => (out, some (.walk fault))
    | .ok none => feedStmts rest out
    | .ok (some line) =>
      match write out (line ++ "\n") with
      | .error fault => (out, some (.output fault))
      | .ok out => feedStmts rest out

/-- Writes the texts one by one until one is refused. -/
def writeAll : List String → σ → σ × Option ε
  | [], out => (out, none)
  | text :: rest, out =>
    match write out text with
    | .error fault => (out, some fault)
    | .ok out => writeAll rest out

end

/-- An output that accepts `n` writes and then fails with `e`. -/
def upTo {ε : Type} (n : Nat) (e : ε) (accepted : List String) (text : String) :
    Except ε (List String) :=
  if accepted.length < n then .ok (accepted ++ [text]) else .error e

/-! ### Writes of a run -/

lemma Expr.eval_fault [Elementary] {e : Expr} {fault : WalkFault} (h : e.isHandled)
    (he : e.eval = .error fault) : ∃ f, fault = .evaluation f := by
  induction e generalizing fault with
  | number span digits =>
    rw [Expr.eval] at he
    cases hvalue : Literal.value digits span with
    | ok v =>
      rw [hvalue] at he
      cases he
    | error f =>
      rw [hvalue] at he
      cases he
      exact ⟨f, rfl⟩
  | binary span op left right ihleft ihright =>
    rw [Expr.isHandled, Bool.and_eq_true] at h
    obtain hleft | ⟨x, -, he⟩ := bind_eq_error.mp he
    · exact ihleft h.1 hleft
    obtain hright | ⟨y, -, he⟩ := bind_eq_error.mp he
    · exact ihright h.2 hright
    split at he
    · cases he
    · cases he
      exact ⟨_, rfl⟩
  | foreign span node => cases h

/-- A statement is executed or fails, and its line tells which. -/
lemma Stmt.line_cases [Elementary] {s : Stmt} (h : s.isHandled) :
    (∃ line, s.line? = .ok line ∧ s.Writes (line.toList.map (· ++ "\n"))) ∨
      ∃ fault, s.line? = .error (.evaluation fault) ∧ s.Fails fault := by
  cases s with
  | greet span name => exact .inl ⟨some ("hi " ++ name), rfl, .greet span name⟩
  | print span value =>
    cases hvalue : value.eval with
    | ok v => exact .inl ⟨some v.text, by rw [Stmt.line?, hvalue]; rfl, .print span hvalue⟩
    | error fault =>
      obtain ⟨f, rfl⟩ := Expr.eval_fault h hvalue
      exact .inr ⟨f, by rw [Stmt.line?, hvalue]; rfl, .print span hvalue⟩
  | evaluate span value =>
    cases hvalue : value.eval with
    | ok v => exact .inl ⟨none, by rw [Stmt.line?, hvalue]; rfl, .evaluate span hvalue⟩
    | error fault =>
      obtain ⟨f, rfl⟩ := Expr.eval_fault h hvalue
      exact .inr ⟨f, by rw [Stmt.line?, hvalue]; rfl, .evaluate span hvalue⟩
  | foreign span node => cases h

lemma runStmts_executed [Elementary] {body : List Stmt} (h : ∀ s ∈ body, s.isHandled) :
    ∃ executed lines outcome, Executed body executed (lines.map (· ++ "\n")) outcome ∧
      runStmts none body = (lines, outcome.map fun f => .walk (.evaluation f)) := by
  induction body with
  | nil => exact ⟨[], [], none, ⟨⟨[], .nil, rfl⟩, rfl⟩, rfl⟩
  | cons s body ih =>
    rw [List.forall_mem_cons] at h
    obtain ⟨line, hline, hwrites⟩ | ⟨fault, hline, hfails⟩ := s.line_cases h.1
    · obtain ⟨executed, lines, outcome, ⟨⟨parts, hparts, hlines⟩, hstopped⟩, hrun⟩ := ih h.2
      refine ⟨s :: executed, line.toList ++ lines, outcome, ⟨⟨_, .cons hwrites hparts, ?_⟩, ?_⟩, ?_⟩
      · rw [List.map_append, hlines, List.flatten_cons]
      · cases outcome with
        | none => exact congrArg (s :: ·) hstopped
        | some f =>
          obtain ⟨t, later, rfl, ht⟩ := hstopped
          exact ⟨t, later, rfl, ht⟩
      · rw [runStmts_of_line hline, hrun]
    · exact ⟨[], [], some fault, ⟨⟨[], .nil, rfl⟩, s, body, rfl, hfails⟩,
        runStmts_of_fault hline body⟩

/-! ### Outputs that fail -/

/-- With room for `n` lines the run writes the first `n` of them. -/
lemma runStmts_some [Elementary] (n : Nat) (body : List Stmt) :
    runStmts (some n) body = ((runStmts none body).1.take n,
      if n < (runStmts none body).1.length then some .closed else (runStmts none body).2) := by
  induction body generalizing n with
  | nil => simp [runStmts]
  | cons s body ih =>
    cases hs : s.line? with
    | error fault =>
      rw [runStmts_of_fault hs, runStmts, hs]
      simp
    | ok line =>
      rw [runStmts_of_line hs, runStmts, hs]
      cases line with
      | none => exact ih n
      | some line =>
        cases n with
        | zero => simp
        | succ n => simp [ih n]

/-- A run into any output writes there what the run without failures writes. -/
lemma feedStmts_eq [Elementary] {σ ε : Type} (write : σ → String → Except ε σ) {body : List Stmt}
    {lines : List String} {fault : Option WalkFault}
    (h : runStmts none body = (lines, fault.map .walk)) (out : σ) :
    feedStmts write body out = ((writeAll write (lines.map (· ++ "\n")) out).1,
      ((writeAll write (lines.map (· ++ "\n")) out).2.map .output).or (fault.map .walk)) := by
  induction body generalizing lines out with
  | nil =>
    obtain ⟨rfl, hfault⟩ := Prod.mk.inj h
    obtain rfl := Option.map_eq_none_iff.mp hfault.symm
    rfl
  | cons s body ih =>
    cases hs : s.line? with
    | error f =>
      rw [runStmts_of_fault hs] at h
      obtain ⟨rfl, hfault⟩ := Prod.mk.inj h
      obtain ⟨_, rfl, ⟨rfl⟩⟩ := Option.map_eq_some_iff.mp hfault.symm
      rw [feedStmts, hs]
      rfl
    | ok line =>
      rw [runStmts_of_line hs] at h
      obtain ⟨rfl, hfault⟩ := Prod.mk.inj h
      have hrest : runStmts none body = ((runStmts none body).1, fault.map .walk) := by
        rw [← hfault]
      rw [feedStmts, hs]
      cases line with
      | none => exact ih hrest out
      | some line =>
        simp only [Option.toList_some, List.singleton_append, List.map_cons, writeAll]
        cases write out (line ++ "\n") with
        | error f => rfl
        | ok out => exact ih hrest out

lemma writeAll_upTo {ε : Type} (n : Nat) (e : ε) (texts accepted : List String) :
    writeAll (upTo n e) texts accepted = (accepted ++ texts.take (n - accepted.length),
      if n - accepted.length < texts.length then some e else none) := by
  induction texts generalizing accepted with
  | nil => simp [writeAll]
  | cons text texts ih =>
    rw [writeAll, upTo]
    by_cases hroom : accepted.length < n
    · obtain ⟨room, hroom'⟩ : ∃ room, n - accepted.length = room + 1 :=
        ⟨n - accepted.length - 1, by omega⟩
      have hless : n - (accepted ++ [text]).length = room := by
        rw [List.length_append, List.length_singleton]
        omega
      rw [if_pos hroom]
      change writeAll (upTo n e) texts (accepted ++ [text]) = _
      rw [ih, hless, hroom']
      simp
    · have hfull : n - accepted.length = 0 := by omega
      rw [if_neg hroom, hfull]
      simp

/-- A program without foreign nodes is executed statement by statement, up to the first that
fails. An output that accepts `n` writes receives the first `n` of the writes that there are, and
its own fault ends the run exactly if there are more. -/
theorem run_output_prefix [Elementary] (p : Program) (h : ∀ s ∈ p.body, s.isHandled) :
    ∃ executed lines outcome, Executed p.body executed (lines.map (· ++ "\n")) outcome ∧
      p.run = (lines, outcome.map fun f => .walk (.evaluation f)) ∧
      ∀ n, p.runInto n = (lines.take n,
          if n < lines.length then some .closed else outcome.map fun f => .walk (.evaluation f)) ∧
        ∀ {ε : Type} (e : ε), feedStmts (upTo n e) p.body [] = ((lines.map (· ++ "\n")).take n,
          if n < lines.length then some (.output e)
          else outcome.map fun f => .walk (.evaluation f)) := by
  obtain ⟨executed, lines, outcome, hexecuted, hrun⟩ := runStmts_executed h
  refine ⟨executed, lines, outcome, hexecuted, hrun, fun n => ⟨?_, fun e => ?_⟩⟩
  · rw [Program.runInto, runStmts_some, hrun]
  · have hrun' : runStmts none p.body = (lines, (outcome.map .evaluation).map .walk) := by
      rw [hrun, Option.map_map]
      rfl
    rw [feedStmts_eq _ hrun', writeAll_upTo]
    by_cases hmore : n < lines.length
    · simp [hmore]
    · simp [hmore, Function.comp_def]

/-- Of two lines before a number that cannot be read, the output takes one, or both and no more. -/
theorem run_output_prefix_before_malformed_number :
    let sum : Expr := .binary default .plus (.number default "1") (.number default "1")
    let bad : Expr := .binary default .minus sum (.number (.point .start) "x")
    let p : Program := ⟨default, [.print default sum, .evaluate default sum, .greet default "b",
      .print default bad, .greet default "c"]⟩
    let fault : EvalFault := ⟨.malformedNumber "x", .point .start⟩
    p.run = (["2", "hi b"], some (.walk (.evaluation fault))) ∧
      p.runInto 1 = (["2"], some .closed) ∧
      p.runInto 2 = (["2", "hi b"], some (.walk (.evaluation fault))) ∧
      feedStmts (upTo 1 "full") p.body [] = (["2\n"], some (.output "full")) ∧
      feedStmts (upTo 2 "full") p.body [] =
        (["2\n", "hi b\n"], some (.walk (.evaluation fault))) := by
  intro sum bad p fault
  have hrun : p.run = (["2", "hi b"], some (.walk (.evaluation fault))) := by decide +kernel
  obtain ⟨executed, lines, outcome, -, hrun', hfirst⟩ := run_output_prefix p (by decide)
  obtain ⟨rfl, houtcome⟩ := Prod.mk.inj (hrun.symm.trans hrun')
  obtain ⟨_, rfl, ⟨rfl⟩⟩ := Option.map_eq_some_iff.mp houtcome.symm
  exact ⟨hrun, (hfirst 1).1, (hfirst 2).1, (hfirst 1).2 "full", (hfirst 2).2 "full"⟩

end HiToolchain
