import HiToolchain.Ir.Lower
import HiToolchain.Ir.Print
import HiToolchain.Outline
import HiToolchain.Proofs.Respan
import HiToolchain.Proofs.TokenWalk

/-!
# Offsets are never looked at

Diagnostics name lines and columns. Offsets are carried along in every span and decide nothing:
tokens that differ in their offsets alone are read as trees that differ in theirs alone, and such
trees run, are outlined and are lowered alike.
-/

namespace HiToolchain

/-- The position with its offset taken away. -/
def Position.sansOffset (p : Position) : Position := { p with offset := 0 }

def Span.sansOffset (s : Span) : Span := ⟨s.start.sansOffset, s.stop.sansOffset⟩

def Token.sansOffset (t : Token) : Token := { t with span := t.span.sansOffset }

def Expr.sansOffset : Expr → Expr
  | number span digits => number span.sansOffset digits
  | binary span op left right => binary span.sansOffset op left.sansOffset right.sansOffset
  | foreign span node => foreign span.sansOffset node

def Stmt.sansOffset : Stmt → Stmt
  | greet span name => greet span.sansOffset name
  | print span value => print span.sansOffset value.sansOffset
  | evaluate span value => evaluate span.sansOffset value.sansOffset
  | foreign span node => foreign span.sansOffset node

def Program.sansOffset (p : Program) : Program :=
  ⟨p.span.sansOffset, p.body.map Stmt.sansOffset⟩

def ParseFault.sansOffset (f : ParseFault) : ParseFault := { f with span := f.span.sansOffset }

def ReadFault.sansOffset : ReadFault → ReadFault
  | lexical f => lexical f
  | grammatical f => grammatical f.sansOffset

/-- What can be seen of a program: the text that its run writes and why it stops, its outline, and
its module. -/
structure Report where
  written : String
  stop : Option String
  outline : Except String String
  module : Except String String
  deriving DecidableEq

def Program.report [Elementary] (p : Program) : Report where
  written := linesText p.run.1
  stop := p.run.2.map RunFault.message
  outline := (p.outline.map Yaml.Doc.text).mapError WalkFault.message
  module := (p.lower.map Ir.Module.text).mapError WalkFault.message

lemma Token.kind_eq_of_sansOffset {t u : Token} (h : t.sansOffset = u.sansOffset) :
    t.kind = u.kind := by
  have hkind := congrArg Token.kind h
  exact hkind

lemma Expr.span_sansOffset (e : Expr) : e.sansOffset.span = e.span.sansOffset := by
  cases e <;> rfl

lemma Stmt.span_sansOffset (s : Stmt) : s.sansOffset.span = s.span.sansOffset := by
  cases s <;> rfl

lemma ReadFault.message_sansOffset (f : ReadFault) : f.sansOffset.message = f.message := by
  cases f <;> rfl

/-! ### Trees are walked alike -/

def SameMessage (f g : WalkFault) : Prop := f.message = g.message

lemma evaluation_sameMessage (cause : EvalCause) (span : Span) :
    SameMessage (.evaluation ⟨cause, span.sansOffset⟩) (.evaluation ⟨cause, span⟩) := rfl

lemma Expr.sansOffset_eq_mapSpan (e : Expr) : e.sansOffset = e.mapSpan Span.sansOffset := by
  induction e with
  | binary span op left right ihleft ihright =>
    rw [Expr.sansOffset, ihleft, ihright, Expr.mapSpan]
  | _ => rfl

lemma Stmt.sansOffset_eq_mapSpan (s : Stmt) : s.sansOffset = s.mapSpan Span.sansOffset := by
  cases s <;> simp [Stmt.sansOffset, Stmt.mapSpan, Expr.sansOffset_eq_mapSpan]

lemma RunFault.message_sansOffset (f : RunFault) :
    (f.mapSpan Span.sansOffset).message = f.message := by
  cases f with
  | walk fault => cases fault <;> rfl
  | closed => rfl

lemma runStmts_sansOffset [Elementary] (room : Option Nat) (body : List Stmt) :
    (runStmts room (body.map Stmt.sansOffset)).1 = (runStmts room body).1 ∧
      (runStmts room (body.map Stmt.sansOffset)).2.map RunFault.message =
        (runStmts room body).2.map RunFault.message := by
  rw [funext Stmt.sansOffset_eq_mapSpan, runStmts_mapSpan, Option.map_map]
  exact ⟨rfl, congrArg (Option.map · _) (funext RunFault.message_sansOffset)⟩

lemma Expr.outline_sansOffset (e : Expr) : e.sansOffset.outline = e.outline := by
  induction e with
  | number span digits => rfl
  | binary span op left right ihl ihr =>
    rw [Expr.sansOffset, Expr.outline, Expr.outline, ihl, ihr]
  | foreign span node => rfl

lemma Stmt.outline_sansOffset (s : Stmt) : s.sansOffset.outline = s.outline := by
  cases s with
  | greet span name => rfl
  | print span value => rw [Stmt.sansOffset, Stmt.outline, Stmt.outline, value.outline_sansOffset]
  | evaluate span value =>
    rw [Stmt.sansOffset, Stmt.outline, Stmt.outline, value.outline_sansOffset]
  | foreign span node => rfl

lemma Program.outline_sansOffset (p : Program) : p.sansOffset.outline = p.outline := by
  have hbody : ∀ body : List Stmt,
      (body.map Stmt.sansOffset).mapM Stmt.outline = body.mapM Stmt.outline := by
    intro body
    induction body with
    | nil => rfl
    | cons s body ih => rw [List.map_cons, List.mapM_cons, List.mapM_cons, s.outline_sansOffset, ih]
  rw [Program.outline, Program.outline, Program.sansOffset, hbody]

section

open Ir Lower

/-- Two ways to extend modules that extend each of them alike. -/
def Ir.Lower.Alike {α : Type} (x y : Lower α) : Prop := ∀ m, Matches SameMessage Eq (x m) (y m)

lemma Ir.Lower.Alike.refl {α : Type} (x : Lower α) : Lower.Alike x x :=
  fun m => .refl (E := SameMessage) (fun _ => rfl) (x m)

lemma Ir.Lower.Alike.bind {α β : Type} {x y : Lower α} {f g : α → Lower β}
    (h : Lower.Alike x y) (hnext : ∀ a, Lower.Alike (f a) (g a)) :
    Lower.Alike (x >>= f) (y >>= g) := by
  intro m
  refine (h m).bind ?_
  rintro ⟨a, m'⟩ _ rfl
  exact hnext a m'

lemma Ir.Lower.Alike.discard {α : Type} {x y : Lower α} (h : Lower.Alike x y) :
    Lower.Alike (discard x) (discard y) := by
  intro m
  refine (h m).bind ?_
  rintro r _ rfl
  exact .ok rfl

lemma Expr.lower_sansOffset (e : Expr) : Lower.Alike e.sansOffset.lower e.lower := by
  induction e with
  | number span digits =>
    simp only [Expr.sansOffset, Expr.lower, Literal.value]
    cases Literal.value? digits with
    | some v => exact .refl _
    | none => exact fun m => .error (evaluation_sameMessage _ _)
  | binary span op left right ihl ihr =>
    rw [Expr.sansOffset, Expr.lower, Expr.lower]
    refine ihl.bind fun x => ihr.bind fun y => ?_
    cases op.instr? x y with
    | some i => exact .refl _
    | none => exact fun m => .error (evaluation_sameMessage _ _)
  | foreign span node => exact .refl _

lemma Stmt.lower_sansOffset (s : Stmt) : Lower.Alike s.sansOffset.lower s.lower := by
  cases s with
  | greet span name => exact .refl _
  | print span value => exact value.lower_sansOffset.bind fun _ => .refl _
  | evaluate span value => exact value.lower_sansOffset.discard
  | foreign span node => exact .refl _

lemma lowerStmts_sansOffset (body : List Stmt) :
    Lower.Alike (lowerStmts (body.map Stmt.sansOffset)) (lowerStmts body) := by
  induction body with
  | nil => exact .refl _
  | cons s body ih =>
    rw [List.map_cons, lowerStmts, lowerStmts]
    exact s.lower_sansOffset.bind fun _ => ih

lemma Program.lower_sansOffset (p : Program) :
    Matches SameMessage Eq p.sansOffset.lower p.lower := by
  refine (lowerStmts_sansOffset p.body ⟨#[], #[]⟩).bind ?_
  rintro r _ rfl
  exact .ok rfl

end

lemma Program.report_sansOffset [Elementary] (p : Program) : p.sansOffset.report = p.report := by
  obtain ⟨hlines, hfault⟩ := runStmts_sansOffset none p.body
  have hmodule : (p.sansOffset.lower.map Ir.Module.text).mapError WalkFault.message =
      (p.lower.map Ir.Module.text).mapError WalkFault.message := by
    have hlower := p.lower_sansOffset
    generalize p.sansOffset.lower = x, p.lower = y at hlower
    cases hlower with
    | ok h => rw [h]
    | error h => exact congrArg Except.error h
  rw [Program.report, Program.report, hmodule, p.outline_sansOffset]
  exact congrArg₂ (Report.mk · · _ _) (congrArg linesText hlines) hfault

/-! ### Token lists are walked alike -/

namespace TokenWalk

/-- Two readings with values and tokens left over that differ in their offsets alone. -/
structure Reading.Alike {α : Type} (forget : α → α) {ts us : List Token} (r : Reading α ts)
    (s : Reading α us) : Prop where
  value : forget r.value = forget s.value
  rest : r.rest.map Token.sansOffset = s.rest.map Token.sansOffset

def SameFault (e f : Option ReadFault) : Prop :=
  e.map ReadFault.sansOffset = f.map ReadFault.sansOffset

lemma operation_sansOffset (op : TokenKind) (left right : Expr) :
    (Parser.operation op left right).sansOffset =
      Parser.operation op left.sansOffset right.sansOffset := by
  simp only [Parser.operation, Expr.sansOffset, Span.sansOffset, Expr.span_sansOffset]

lemma lastStop_sansOffset (start : Position) (body : List Stmt) :
    (lastStop start body).sansOffset = lastStop start.sansOffset (body.map Stmt.sansOffset) := by
  rw [lastStop, lastStop, List.getLast?_map]
  cases body.getLast? with
  | none => rfl
  | some s => exact congrArg Span.stop s.span_sansOffset.symm

section

variable {file : String} {fault : Option LexFault} {ts us : List Token}

lemma first_alike (h : ts.map Token.sansOffset = us.map Token.sansOffset) :
    Matches SameFault (Reading.Alike Token.sansOffset) (first fault ts) (first fault us) := by
  cases ts with
  | nil =>
    obtain rfl := List.map_eq_nil_iff.mp h.symm
    exact .error rfl
  | cons t ts =>
    obtain ⟨u, us, rfl, ht, hts⟩ := List.map_eq_cons_iff.mp h.symm
    exact .ok ⟨ht.symm, hts.symm⟩

lemma refuse_alike {ρ σ : Type} {R : ρ → σ → Prop} {t u : Token}
    (h : t.sansOffset = u.sansOffset) (expected : List TokenKind) :
    Matches SameFault R (refuse file t expected) (refuse file u expected) := by
  refine .error ?_
  have hfault := congrArg (fun t : Token => ParseFault.mk file t.kind expected t.span) h
  exact congrArg (fun f => some (ReadFault.grammatical f)) hfault

lemma expect_alike (kind : TokenKind) (h : ts.map Token.sansOffset = us.map Token.sansOffset) :
    Matches SameFault (Reading.Alike Token.sansOffset)
      (expect file fault kind ts) (expect file fault kind us) := by
  refine (first_alike h).bind fun t u htu => ?_
  have hkind : t.value.kind = u.value.kind := Token.kind_eq_of_sansOffset htu.value
  exact .ite (by rw [hkind]) (.ok htu) (refuse_alike htu.value _)

lemma number_alike (h : ts.map Token.sansOffset = us.map Token.sansOffset) :
    Matches SameFault (Reading.Alike Expr.sansOffset)
      (number file fault ts) (number file fault us) := by
  refine (expect_alike _ h).bind fun t u htu => .ok ⟨?_, htu.rest⟩
  exact congrArg (fun t : Token => Expr.number t.span t.value) htu.value

/-- Operands and operators that are alike make operations that are. -/
lemma Reading.Alike.operation {left : Reading Expr ts} {left' : Reading Expr us}
    {op : Reading Token left.rest} {op' : Reading Token left'.rest}
    {right : Reading Expr op.rest} {right' : Reading Expr op'.rest}
    (hleft : left.Alike Expr.sansOffset left') (hop : op.Alike Token.sansOffset op')
    (hright : right.Alike Expr.sansOffset right') :
    ((left.andThen (op.andThen right)).map (Parser.operation op.value.kind left.value)).Alike
      Expr.sansOffset
      ((left'.andThen (op'.andThen right')).map
        (Parser.operation op'.value.kind left'.value)) := by
  have hkind : op.value.kind = op'.value.kind := Token.kind_eq_of_sansOffset hop.value
  -- the span of an operation is made of those of its operands
  have hvalue : (Parser.operation op.value.kind left.value right.value).sansOffset =
      (Parser.operation op'.value.kind left'.value right'.value).sansOffset := by
    rw [operation_sansOffset, operation_sansOffset, hkind, hleft.value, hright.value]
  exact ⟨hvalue, hright.rest⟩

lemma power_alike (h : ts.map Token.sansOffset = us.map Token.sansOffset) :
    Matches SameFault (Reading.Alike Expr.sansOffset)
      (power file fault ts) (power file fault us) := by
  induction ts using power.induct generalizing us with
  | case1 ts ih =>
    rw [power, power]
    refine (number_alike h).bind fun left left' hleft => ?_
    refine (first_alike hleft.rest).bind fun op op' hop => ?_
    have hkind : op.value.kind = op'.value.kind := Token.kind_eq_of_sansOffset hop.value
    refine .ite (by rw [hkind]) ?_ (.ok hleft)
    exact (ih left op hop.rest).bind fun right right' hright =>
      .ok (hleft.operation hop hright)

lemma chain_alike {isOp : TokenKind → Bool} {operand : (ts : List Token) → Outcome Expr ts}
    (hoperand : ∀ {ts us}, ts.map Token.sansOffset = us.map Token.sansOffset →
      Matches SameFault (Reading.Alike Expr.sansOffset) (operand ts) (operand us))
    {left : Reading Expr ts} {left' : Reading Expr us} (h : left.Alike Expr.sansOffset left') :
    Matches SameFault (Reading.Alike Expr.sansOffset)
      (chain fault isOp operand left) (chain fault isOp operand left') := by
  induction left using chain.induct generalizing left' with
  | case1 left ih =>
    rw [chain, chain]
    refine (first_alike h.rest).bind fun op op' hop => ?_
    have hkind : op.value.kind = op'.value.kind := Token.kind_eq_of_sansOffset hop.value
    refine .ite (by rw [hkind]) ?_ (.ok h)
    exact (hoperand hop.rest).bind fun right right' hright =>
      ih op right (h.operation hop hright)

lemma product_alike (h : ts.map Token.sansOffset = us.map Token.sansOffset) :
    Matches SameFault (Reading.Alike Expr.sansOffset)
      (product file fault ts) (product file fault us) :=
  (power_alike h).bind fun _ _ hleft => chain_alike power_alike hleft

lemma sum_alike (h : ts.map Token.sansOffset = us.map Token.sansOffset) :
    Matches SameFault (Reading.Alike Expr.sansOffset)
      (sum file fault ts) (sum file fault us) :=
  (product_alike h).bind fun _ _ hleft => chain_alike product_alike hleft

lemma greeting_alike (h : ts.map Token.sansOffset = us.map Token.sansOffset) :
    Matches SameFault (Reading.Alike Stmt.sansOffset)
      (greeting file fault ts) (greeting file fault us) := by
  refine (expect_alike _ h).bind fun hi hi' hhi => ?_
  refine (expect_alike _ hhi.rest).bind fun name name' hname => .ok ⟨?_, hname.rest⟩
  exact congrArg₂ (fun t u : Token => Stmt.greet ⟨t.span.start, u.span.stop⟩ u.value)
    hhi.value hname.value

lemma printing_alike (h : ts.map Token.sansOffset = us.map Token.sansOffset) :
    Matches SameFault (Reading.Alike Stmt.sansOffset)
      (printing file fault ts) (printing file fault us) := by
  refine (expect_alike _ h).bind fun word word' hword => ?_
  refine (sum_alike hword.rest).bind fun e e' he => .ok ⟨?_, he.rest⟩
  have hsame := congrArg₂ (fun (t : Token) (e : Expr) => Stmt.print ⟨t.span.start, e.span.stop⟩ e)
    hword.value he.value
  simp only [Expr.span_sansOffset] at hsame
  exact hsame

lemma evaluation_alike (h : ts.map Token.sansOffset = us.map Token.sansOffset) :
    Matches SameFault (Reading.Alike Stmt.sansOffset)
      (evaluation file fault ts) (evaluation file fault us) := by
  refine (sum_alike h).bind fun e e' he => .ok ⟨?_, he.rest⟩
  have hsame := congrArg (fun e : Expr => Stmt.evaluate e.span e) he.value
  simp only [Expr.span_sansOffset] at hsame
  exact hsame

lemma statement_alike (h : ts.map Token.sansOffset = us.map Token.sansOffset) :
    Matches SameFault (Reading.Alike Stmt.sansOffset)
      (statement file fault ts) (statement file fault us) := by
  refine (first_alike h).bind fun t u htu => ?_
  have hkind : t.value.kind = u.value.kind := Token.kind_eq_of_sansOffset htu.value
  rw [hkind]
  split
  · exact greeting_alike h
  · exact evaluation_alike h
  · exact printing_alike h
  · exact refuse_alike htu.value _

lemma statements_alike (h : ts.map Token.sansOffset = us.map Token.sansOffset) :
    Matches SameFault (fun body body' => body.map Stmt.sansOffset = body'.map Stmt.sansOffset)
      (statements file fault ts) (statements file fault us) := by
  induction ts using statements.induct generalizing us with
  | case1 ts ih =>
    rw [statements, statements]
    refine (first_alike h).bind fun t u htu => ?_
    have hkind : t.value.kind = u.value.kind := Token.kind_eq_of_sansOffset htu.value
    refine .ite (by rw [hkind]) (.ok rfl) ?_
    refine (statement_alike h).bind fun s s' hs => ?_
    exact (ih s hs.rest).bind fun body body' hbody => .ok (congrArg₂ List.cons hs.value hbody)

lemma program_alike (h : ts.map Token.sansOffset = us.map Token.sansOffset) :
    Matches SameFault (fun p q => p.sansOffset = q.sansOffset)
      (program file fault ts) (program file fault us) := by
  refine (statements_alike h).bind fun body body' hbody => .ok ?_
  simp only [Program.sansOffset, Span.sansOffset, lastStop_sansOffset, hbody]

end

end TokenWalk

end HiToolchain
