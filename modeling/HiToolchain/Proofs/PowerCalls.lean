import HiToolchain.Proofs.LiteralRange
import HiToolchain.Proofs.WholePowers

/-!
# The powers that a run takes

Evaluation with the function for powers as a parameter, where every call of it is noted. In a
program that was read from a text a power has a number for its base and a number or another power
for its exponent, so a call gets its base from a literal and its exponent from a literal or from a
call before it. Whole numbers are all that can arise this way, however long the chain.
-/

namespace HiToolchain

/-- A call of the function for powers. -/
structure PowerCall where
  base : Binary64
  exponent : Binary64
  deriving DecidableEq, Repr

/-- A walk that notes the powers it takes; a failure keeps what was noted. -/
abbrev Noting := ExceptT WalkFault (StateM (List PowerCall))

section

variable (power : Binary64 → Binary64 → Binary64)

def takePower (x y : Binary64) : Noting Binary64 := do
  modify fun calls => calls ++ [⟨x, y⟩]
  return power x y

/-- The value of an expression, where powers are taken by `power`. -/
def Expr.evalBy [Elementary] : Expr → Noting Binary64
  | number span digits => ExceptT.mk (pure ((Literal.value digits span).mapError .evaluation))
  | binary span op left right => do
    let x ← left.evalBy
    let y ← right.evalBy
    if op = .power then takePower power x y
    else match op.operation? with
      | some f => return f x y
      | none => throw (.evaluation ⟨.unknownOperator op, span⟩)
  | foreign _ node => throw (.unhandledExpr node)

/-- The line that a statement writes, where powers are taken by `power`. -/
def Stmt.lineBy [Elementary] : Stmt → Noting (Option String)
  | greet _ name => return some ("hi " ++ name)
  | print _ value => do return some (← value.evalBy power).text
  | evaluate _ value => do
    let _ ← value.evalBy power
    return none
  | foreign _ node => throw (.unhandledStmt node)

/-- A run of statements, where powers are taken by `power`. -/
def runStmtsBy [Elementary] :
    Option Nat → List Stmt → StateM (List PowerCall) (List String × Option RunFault)
  | _, [] => return ([], none)
  | room, s :: rest => do
    match ← (s.lineBy power).run with
    | .error fault => return ([], some (.walk fault))
    | .ok none => runStmtsBy room rest
    | .ok (some line) =>
      match room with
      | some 0 => return ([], some .closed)
      | _ =>
        let (lines, fault) ← runStmtsBy (room.map (· - 1)) rest
        return (line :: lines, fault)

end

/-! ### Walks and what they note -/

/-- From whatever was noted before, a walk comes to `r` and notes `calls`. -/
def Noting.Gives {α : Type} (x : Noting α) (r : Except WalkFault α) (calls : List PowerCall) :
    Prop :=
  ∀ before, x before = (r, before ++ calls)

namespace Noting.Gives

variable {α β : Type} {x : Noting α} {f : α → Noting β} {r : Except WalkFault β}
  {calls more : List PowerCall}

lemma pure (a : α) : Gives (pure a) (.ok a) [] := fun before => by
  rw [List.append_nil]
  rfl

lemma bind {a : α} (hx : Gives x (.ok a) calls) (hf : Gives (f a) r more) :
    Gives (x >>= f) r (calls ++ more) := by
  intro before
  change StateT.bind x (ExceptT.bindCont f) before = _
  rw [StateT.bind, hx before, ← List.append_assoc, ← hf]
  rfl

lemma bind_error {fault : WalkFault} (hx : Gives x (.error fault) calls) :
    Gives (x >>= f) (.error fault) calls := by
  intro before
  change StateT.bind x (ExceptT.bindCont f) before = _
  rw [StateT.bind, hx before]
  rfl

lemma takePower (power : Binary64 → Binary64 → Binary64) (x y : Binary64) :
    Gives (takePower power x y) (.ok (power x y)) [⟨x, y⟩] := fun _ => rfl

end Noting.Gives

/-! ### Noting changes no result -/

lemma Noting.bind_fst {α β : Type} {x : Noting α} {x' : Except WalkFault α} {f : α → Noting β}
    {f' : α → Except WalkFault β} (hx : ∀ before, (x before).1 = x')
    (hf : ∀ a before, (f a before).1 = f' a) (before : List PowerCall) :
    ((x >>= f) before).1 = (x' >>= f') := by
  change (StateT.bind x (ExceptT.bindCont f) before).1 = _
  rw [StateT.bind, ← hx before]
  cases hresult : x before with
  | mk result after =>
    cases result with
    | ok a => exact hf a after
    | error fault => rfl

lemma Expr.evalBy_fst [Elementary] (e : Expr) (before : List PowerCall) :
    (e.evalBy Binary64.pow before).1 = e.eval := by
  induction e generalizing before with
  | number span digits => rfl
  | binary span op left right ihleft ihright =>
    rw [Expr.evalBy, Expr.eval]
    refine Noting.bind_fst ihleft (fun x => Noting.bind_fst ihright fun y after => ?_) before
    cases op <;> rfl
  | foreign span node => rfl

lemma Stmt.lineBy_fst [Elementary] (s : Stmt) (before : List PowerCall) :
    (s.lineBy Binary64.pow before).1 = s.line? := by
  cases s with
  | greet span name => rfl
  | print span value | evaluate span value =>
    rw [Stmt.lineBy, Stmt.line?]
    refine Noting.bind_fst value.evalBy_fst ?_ before
    intro v after
    rfl
  | foreign span node => rfl

/-- Noting the powers leaves output and fault of a run as they are. -/
lemma runStmtsBy_fst [Elementary] (room : Option Nat) (body : List Stmt) (before : List PowerCall) :
    (runStmtsBy Binary64.pow room body before).1 = runStmts room body := by
  induction body generalizing room before with
  | nil => rfl
  | cons s body ih =>
    have hline := s.lineBy_fst before
    rw [runStmtsBy, runStmts, ← hline]
    change (StateT.bind (s.lineBy Binary64.pow) _ before).1 = _
    rw [StateT.bind]
    cases hresult : s.lineBy Binary64.pow before with
    | mk result after =>
      cases result with
      | error fault => rfl
      | ok line =>
        cases line with
        | none => exact ih room after
        | some line =>
          cases room with
          | none => exact congrArg (fun r => (line :: r.1, r.2)) (ih none after)
          | some n =>
            cases n with
            | zero => rfl
            | succ n => exact congrArg (fun r => (line :: r.1, r.2)) (ih (some n) after)

/-! ### Calls that are grounded in literals -/

section

variable (lit : Binary64 → Prop) (power : Binary64 → Binary64 → Binary64)

/-- A literal value, or what one of these calls returned. -/
def Rooted (calls : List PowerCall) (v : Binary64) : Prop :=
  lit v ∨ ∃ c ∈ calls, v = power c.base c.exponent

/-- Every base is a literal value, and every exponent is one or was returned by a call before. -/
inductive Grounded : List PowerCall → Prop
  | nil : Grounded []
  | concat {calls : List PowerCall} {c : PowerCall} (before : Grounded calls) (base : lit c.base)
      (exponent : Rooted lit power calls c.exponent) : Grounded (calls ++ [c])

variable {lit power} {calls more : List PowerCall} {v : Binary64}

lemma Rooted.mono (h : Rooted lit power more v) (hsub : more ⊆ calls) :
    Rooted lit power calls v := by
  obtain hlit | ⟨c, hc, hv⟩ := h
  · exact .inl hlit
  · exact .inr ⟨c, hsub hc, hv⟩

lemma Grounded.append (h : Grounded lit power calls) (h' : Grounded lit power more) :
    Grounded lit power (calls ++ more) := by
  induction h' with
  | nil => rwa [List.append_nil]
  | concat before base exponent ih =>
    rw [← List.append_assoc]
    exact .concat ih base (exponent.mono (List.subset_append_right _ _))

lemma Grounded.call (h : Grounded lit power calls) {before after : List PowerCall} {c : PowerCall}
    (hcalls : calls = before ++ c :: after) :
    lit c.base ∧ Rooted lit power before c.exponent := by
  induction h generalizing after with
  | nil => simp at hcalls
  | @concat calls d _ base exponent ih =>
    obtain rfl | ⟨after, last, rfl⟩ := List.eq_nil_or_concat' after
    · obtain ⟨rfl, ⟨rfl⟩⟩ := List.append_inj' hcalls rfl
      exact ⟨base, exponent⟩
    · rw [← List.cons_append, ← List.append_assoc] at hcalls
      exact ih (List.append_inj' hcalls rfl).1

/-- A function for powers that leads from whole numbers and infinity to nothing else. -/
def KeepsNaturals (power : Binary64 → Binary64 → Binary64) : Prop :=
  ∀ x y, x.IsNatural → y.IsNaturalOrInfinite → (power x y).IsNaturalOrInfinite

lemma Grounded.whole (h : Grounded lit power calls) (hlit : ∀ v, lit v → v.IsNatural)
    (hpower : KeepsNaturals power) :
    ∀ c ∈ calls, c.base.IsNatural ∧ c.exponent.IsNaturalOrInfinite := by
  induction h with
  | nil => simp
  | @concat calls d _ base exponent ih =>
    refine List.forall_mem_append.mpr ⟨ih, List.forall_mem_singleton.mpr ⟨hlit _ base, ?_⟩⟩
    obtain hvalue | ⟨c, hc, hvalue⟩ := exponent
    · exact .inl (hlit _ hvalue)
    · rw [hvalue]
      exact hpower _ _ (ih c hc).1 (ih c hc).2

end

/-! ### Trees in normal form -/

section

variable {lit : Binary64 → Prop} (power : Binary64 → Binary64 → Binary64)

lemma Expr.number_gives [Elementary] {e : Expr} (hnumber : e.isNumber)
    (hlit : ∀ t ∈ e.numbers, ∀ v, Literal.value? t.value = some v → lit v) :
    ∃ r, (e.evalBy power).Gives r [] ∧ ∀ v, r = .ok v → lit v := by
  cases e with
  | binary | foreign => cases hnumber
  | number span digits =>
    refine ⟨(Literal.value digits span).mapError .evaluation, fun before => ?_, fun v hv => ?_⟩
    · rw [List.append_nil]
      rfl
    · refine hlit _ List.mem_cons_self v ?_
      unfold Literal.value at hv
      split at hv
      · next hvalue =>
        cases hv
        exact hvalue
      · cases hv

/-- A power in normal form has a number for its base. -/
lemma NormalOperation.of_power {left right : Expr} (h : NormalOperation .power left right) :
    left.isNumber ∧ right.isFactor := by
  obtain ⟨hop, -⟩ | ⟨hop, -, -⟩ | ⟨-, hleft, hright⟩ := h
  · cases hop
  · cases hop
  · exact ⟨hleft, hright⟩

lemma Expr.evalBy_gives [Elementary] {e : Expr} (hnormal : e.isNormal)
    (hlit : ∀ t ∈ e.numbers, ∀ v, Literal.value? t.value = some v → lit v) :
    ∃ r calls, (e.evalBy power).Gives r calls ∧ Grounded lit power calls ∧
      (e.isFactor → ∀ v, r = .ok v → Rooted lit power calls v) := by
  induction e with
  | number span digits =>
    obtain ⟨r, hr, hvalue⟩ := Expr.number_gives power (e := .number span digits) rfl hlit
    exact ⟨r, [], hr, .nil, fun _ v hv => .inl (hvalue v hv)⟩
  | foreign span node => cases hnormal
  | binary span op left right ihleft ihright =>
    obtain ⟨hleft, hright, hoperation⟩ := isNormal_binary.mp hnormal
    obtain ⟨hlitleft, hlitright⟩ := List.forall_mem_append.mp hlit
    obtain ⟨r', more, hr', hmore, hrooted⟩ := ihright hright hlitright
    rw [Expr.evalBy]
    by_cases hop : op = .power
    · -- the base is a number, so evaluating it takes no powers
      subst hop
      obtain ⟨hnumber, hfactor⟩ := hoperation.of_power
      obtain ⟨r, hr, hvalue⟩ := Expr.number_gives power hnumber hlitleft
      cases r with
      | error fault => exact ⟨.error fault, [], hr.bind_error, .nil, fun _ v hv => by cases hv⟩
      | ok x =>
        cases r' with
        | error fault =>
          exact ⟨.error fault, more, hr.bind hr'.bind_error, hmore, fun _ v hv => by cases hv⟩
        | ok y =>
          refine ⟨.ok (power x y), more ++ [⟨x, y⟩], hr.bind (hr'.bind ?_),
            .concat hmore (hvalue x rfl) (hrooted hfactor y rfl), ?_⟩
          · rw [if_pos rfl]
            exact .takePower power x y
          · rintro - _ ⟨rfl⟩
            exact .inr ⟨⟨x, y⟩, by simp, rfl⟩
    · obtain ⟨f, hf⟩ := operation?_of_isOperator hoperation.isOperator
      obtain ⟨r, calls, hr, hcalls, -⟩ := ihleft hleft hlitleft
      have hnotFactor : ¬(Expr.binary span op left right).isFactor := by simpa [Expr.isFactor]
      suffices hgives : ∃ r calls, Noting.Gives _ r calls ∧ Grounded lit power calls by
        obtain ⟨r, calls, h, h'⟩ := hgives
        exact ⟨r, calls, h, h', fun hfactor => absurd hfactor hnotFactor⟩
      cases r with
      | error fault => exact ⟨.error fault, calls, hr.bind_error, hcalls⟩
      | ok x =>
        cases r' with
        | error fault =>
          exact ⟨.error fault, calls ++ more, hr.bind hr'.bind_error, hcalls.append hmore⟩
        | ok y =>
          refine ⟨.ok (f x y), calls ++ (more ++ []), hr.bind (hr'.bind ?_),
            hcalls.append (by rwa [List.append_nil])⟩
          rw [if_neg hop, hf]
          exact .pure _

lemma Stmt.lineBy_gives [Elementary] {s : Stmt} (hnormal : s.isNormal)
    (hlit : ∀ t ∈ s.numbers, ∀ v, Literal.value? t.value = some v → lit v) :
    ∃ r calls, (s.lineBy power).Gives r calls ∧ Grounded lit power calls := by
  cases s with
  | greet span name => exact ⟨_, [], .pure _, .nil⟩
  | foreign span node => cases hnormal
  | print span value | evaluate span value =>
    obtain ⟨r, calls, hr, hcalls, -⟩ := Expr.evalBy_gives power hnormal hlit
    rw [Stmt.lineBy]
    cases r with
    | error fault => exact ⟨.error fault, calls, hr.bind_error, hcalls⟩
    | ok v => exact ⟨_, calls ++ [], hr.bind (.pure _), by rwa [List.append_nil]⟩

/-- Whatever output and fault a run comes to, the powers it takes are grounded in literals. -/
lemma runStmtsBy_grounded [Elementary] {body : List Stmt} (hnormal : ∀ s ∈ body, s.isNormal)
    (hlit : ∀ t ∈ body.flatMap Stmt.numbers, ∀ v, Literal.value? t.value = some v → lit v)
    (room : Option Nat) {before : List PowerCall} (hbefore : Grounded lit power before) :
    Grounded lit power (runStmtsBy power room body before).2 := by
  induction body generalizing room before with
  | nil => exact hbefore
  | cons s body ih =>
    obtain ⟨hs, hbody⟩ := List.forall_mem_cons.mp hnormal
    rw [List.flatMap_cons] at hlit
    obtain ⟨hlits, hlitbody⟩ := List.forall_mem_append.mp hlit
    obtain ⟨r, calls, hr, hcalls⟩ := Stmt.lineBy_gives power hs hlits
    have hafter := hbefore.append hcalls
    rw [runStmtsBy]
    change Grounded lit power (StateT.bind (s.lineBy power) _ before).2
    rw [StateT.bind, hr before]
    cases r with
    | error fault => exact hafter
    | ok line =>
      cases line with
      | none => exact ih hbody hlitbody room hafter
      | some line =>
        cases room with
        | none => exact ih hbody hlitbody none hafter
        | some n =>
          cases n with
          | zero => exact hafter
          | succ n => exact ih hbody hlitbody (some n) hafter

end

/-- The value of a number that stands in a text. -/
def IsLiteralOf (text file : String) (v : Binary64) : Prop :=
  ∃ t ∈ (Cursor.ofText text file).tokens.1.1, t.kind = .number ∧ Literal.value? t.value = some v

/-- Whatever function takes the powers of a program that was read from a text, into an output with
any room: every base is the value of a number of the text, which is whole, and every exponent is
such a value or was returned by an earlier call. So if the function leads from whole numbers and
infinity to nothing else, no exponent is negative, a fraction or not a number. The function of the
library is such a one, and noting its calls leaves the run as it is. -/
theorem powers_take_whole_numbers [Elementary] :
    (∀ (room : Option Nat) (body : List Stmt),
      (runStmtsBy Binary64.pow room body []).1 = runStmts room body) ∧
    KeepsNaturals Binary64.pow ∧
    ∀ (power : Binary64 → Binary64 → Binary64) (text file : String) (p : Program)
      (room : Option Nat), Program.parse text file = .ok p →
      let calls := (runStmtsBy power room p.body []).2
      (∀ before c after, calls = before ++ c :: after →
        (IsLiteralOf text file c.base ∧ c.base.IsNatural) ∧
        (IsLiteralOf text file c.exponent ∧ c.exponent.IsNatural ∨
          ∃ d ∈ before, c.exponent = power d.base d.exponent)) ∧
      (KeepsNaturals power → ∀ c ∈ calls, c.exponent.IsNaturalOrInfinite) := by
  refine ⟨fun room body => runStmtsBy_fst room body [],
    fun x y hx hy => Binary64.pow_isNaturalOrInfinite hx hy, ?_⟩
  intro power text file p room h calls
  obtain ⟨hnormal, hnumbers⟩ := parse_numbers h
  have hlit : ∀ t ∈ p.numbers, ∀ v, Literal.value? t.value = some v → IsLiteralOf text file v := by
    intro t ht v hv
    rw [hnumbers, List.mem_filter] at ht
    exact ⟨t, ht.1, by simpa [Token.isNumber] using ht.2, hv⟩
  have hwhole : ∀ v, IsLiteralOf text file v → v.IsNatural := by
    rintro v ⟨t, -, -, hv⟩
    exact Literal.value?_isNatural hv
  have hgrounded : Grounded (IsLiteralOf text file) power calls :=
    runStmtsBy_grounded power (List.all_eq_true.mp hnormal) hlit room .nil
  constructor
  · intro before c after hcalls
    obtain ⟨hbase, hexponent⟩ := hgrounded.call hcalls
    exact ⟨⟨hbase, hwhole _ hbase⟩, hexponent.imp_left fun hlit => ⟨hlit, hwhole _ hlit⟩⟩
  · exact fun hpower c hc => (hgrounded.whole hwhole hpower c hc).2

/-- The exponent grows until it is infinite, and the last power is one again. -/
theorem powers_take_whole_numbers_up_to_infinity :
    let text := "1 ** 2 ** 2 ** 2 ** 2 ** 2 ** 2"
    let two := Binary64.ofNat 2
    ∃ p, Program.parse text "f" = .ok p ∧
      (runStmtsBy Binary64.pow none p.body []).2 =
        [⟨two, two⟩, ⟨two, .ofNat 4⟩, ⟨two, .ofNat 16⟩, ⟨two, .ofNat 65536⟩, ⟨two, .infinity false⟩,
          ⟨.ofNat 1, .infinity false⟩] ∧
      ∀ c ∈ (runStmtsBy Binary64.pow none p.body []).2, c.exponent.IsNaturalOrInfinite := by
  intro text two
  have hcalls : (Program.parse text "f").toOption.map
      (fun p => (runStmtsBy Binary64.pow none p.body []).2) =
        some [⟨two, two⟩, ⟨two, .ofNat 4⟩, ⟨two, .ofNat 16⟩, ⟨two, .ofNat 65536⟩,
          ⟨two, .infinity false⟩, ⟨.ofNat 1, .infinity false⟩] := by
    decide +kernel
  cases hparse : Program.parse text "f" with
  | error fault =>
    rw [hparse] at hcalls
    cases hcalls
  | ok p =>
    rw [hparse] at hcalls
    obtain ⟨-, hpower, hpowers⟩ := powers_take_whole_numbers
    obtain ⟨-, hexponents⟩ := hpowers Binary64.pow text "f" p none hparse
    exact ⟨p, rfl, Option.some.inj hcalls, hexponents hpower⟩

end HiToolchain
