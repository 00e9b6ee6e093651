import HiToolchain.Binary64.Portable
import HiToolchain.Ir.Lower
import HiToolchain.Ir.Print
import HiToolchain.Proofs.Execution
import HiToolchain.Proofs.Sequencing
import HiToolchain.Run

/-!
# Lowering preserves meaning

Lowering only appends to a module, so a machine that has run the instructions so far can run on
through those that a statement adds. They compute the value of its expression, choose the format
by the rule that chooses the notation of a number, and make the one call that belongs to it.
-/

namespace HiToolchain

open Ir Lower

/-- The numbers that are written without an exponent: whole, finite and below `1e21`. -/
def Binary64.isPositional : Binary64 → Bool
  | finite s m q => (finite s m q).isIntegral && (finite s m q).abs.lt positionalBound
  | _ => false

/-- The calls that the statements make, one for each greeting and each `print`. -/
inductive Calls [Elementary] : List Stmt → List Call → Prop
  | nil : Calls [] []
  | greet {span : Span} {name : String} {rest : List Stmt} {calls : List Call}
      (h : Calls rest calls) :
      Calls (.greet span name :: rest) (.text "%s\n" ("hi " ++ name) :: calls)
  | print {span : Span} {value : Expr} {v : Binary64} {rest : List Stmt} {calls : List Call}
      (hvalue : value.eval = .ok v) (h : Calls rest calls) :
      Calls (.print span value :: rest)
        (.number (if v.isPositional then "%.0f\n" else "%.17g\n") v :: calls)
  | evaluate {span : Span} {value : Expr} {v : Binary64} {rest : List Stmt} {calls : List Call}
      (hvalue : value.eval = .ok v) (h : Calls rest calls) :
      Calls (.evaluate span value :: rest) calls

/-- The texts that the code of a statement refers to, in the order in which it does. -/
def Stmt.texts : Stmt → List String
  | .greet _ name => ["hi " ++ name, "%s\n"]
  | .print _ _ => ["%.0f\n", "%.17g\n"]
  | _ => []

/-- The global whose address an instruction takes. -/
def Ir.Instr.address? : Instr → Option Nat
  | .address i => some i
  | _ => none

/-! ### What lowering does to a module -/

lemma Lower.bind_eq_ok {α β : Type} {x : Lower α} {f : α → Lower β} {m : Module}
    {r : β × Module} :
    (x >>= f) m = .ok r ↔ ∃ a m₁, x m = .ok (a, m₁) ∧ f a m₁ = .ok r := by
  change (x m >>= fun y => f y.1 y.2) = .ok r ↔ _
  rw [HiToolchain.bind_eq_ok]
  constructor
  · rintro ⟨⟨a, m₁⟩, hx, hf⟩
    exact ⟨a, m₁, hx, hf⟩
  · rintro ⟨a, m₁, hx, hf⟩
    exact ⟨(a, m₁), hx, hf⟩

lemma Lower.discard_eq_ok {α : Type} {x : Lower α} {m : Module} {r : PUnit × Module} :
    (discard x) m = .ok r ↔ ∃ a, x m = .ok (a, r.2) := by
  change (x >>= fun _ => pure PUnit.unit) m = .ok r ↔ _
  rw [Lower.bind_eq_ok]
  constructor
  · rintro ⟨a, m₁, hx, ⟨rfl⟩⟩
    exact ⟨a, hx⟩
  · rintro ⟨a, hx⟩
    exact ⟨a, r.2, hx, rfl⟩

lemma Lower.emit_eq_ok {i : Instr} {m : Module} {r : Operand × Module} :
    emit i m = .ok r ↔ r = (.result m.body.size, { m with body := m.body.push i }) := by
  rw [emit, Except.ok.injEq, eq_comm]

lemma Lower.global_eq_ok {text : String} {m m' : Module} {i : Nat}
    (h : global text m = .ok (i, m')) :
    m'.body = m.body ∧ m.globals.toList <+: m'.globals.toList ∧
      m'.globals.toList[i]? = some text := by
  unfold global at h
  split at h
  · next j hj =>
    cases h
    obtain ⟨k, hk, rfl⟩ := Option.map_eq_some_iff.mp hj
    obtain ⟨htext, -⟩ := Array.finIdxOf?_eq_some_iff.mp hk
    refine ⟨rfl, List.prefix_refl _, ?_⟩
    rw [Array.getElem?_toList, Array.getElem?_eq_getElem k.isLt]
    exact congrArg some htext
  · next hnone =>
    cases h
    refine ⟨rfl, ?_, ?_⟩
    · rw [Array.toList_push]
      exact List.prefix_append _ _
    · simp

lemma Expr.lower_number_eq_ok {span : Span} {digits : String} {m m' : Module} {x : Operand}
    (h : (Expr.number span digits).lower m = .ok (x, m')) :
    ∃ v, Literal.value digits span = .ok v ∧ x = .constant v ∧ m' = m := by
  unfold Expr.lower at h
  cases hvalue : Literal.value digits span with
  | error fault =>
    rw [hvalue] at h
    cases h
  | ok v =>
    rw [hvalue] at h
    cases h
    exact ⟨v, rfl, rfl, rfl⟩

lemma Expr.lower_binary_eq_ok {span : Span} {op : TokenKind} {left right : Expr} {m m' : Module}
    {z : Operand} (h : (Expr.binary span op left right).lower m = .ok (z, m')) :
    ∃ x m₁ y m₂ i, left.lower m = .ok (x, m₁) ∧ right.lower m₁ = .ok (y, m₂) ∧
      op.instr? x y = some i ∧ emit i m₂ = .ok (z, m') := by
  obtain ⟨x, m₁, hleft, h⟩ := Lower.bind_eq_ok.mp h
  obtain ⟨y, m₂, hright, h⟩ := Lower.bind_eq_ok.mp h
  cases hinstr : op.instr? x y with
  | none =>
    rw [hinstr] at h
    cases h
  | some i =>
    rw [hinstr] at h
    exact ⟨x, m₁, y, m₂, i, hleft, hright, hinstr, h⟩

/-! ### The texts that are asked for -/

/-- Lowering from the first module has led to the second one and has asked for the addresses of
the texts, in this order. Globals stay where they are, a text gets one on first use, and what was
appended takes the addresses of globals that hold the texts. -/
structure Ir.Module.Extends (m m' : Module) (texts : List String) : Prop where
  kept : m.globals.toList <+: m'.globals.toList
  shared : ∀ used : List String, m.globals.toList = used.eraseDups →
    m'.globals.toList = (used ++ texts).eraseDups
  addressed : ∃ more, m'.body.toList = m.body.toList ++ more ∧
    (more.filterMap Instr.address?).map (m'.globals.toList[·]?) = texts.map some

lemma Ir.Module.Extends.refl (m : Module) : m.Extends m [] := by
  refine ⟨List.prefix_refl _, fun used h => ?_, [], (List.append_nil _).symm, rfl⟩
  rw [List.append_nil]
  exact h

lemma getElem?_of_prefix {globals globals' : List String} (h : globals <+: globals')
    {ids : List Nat} {texts : List String} (hids : ids.map (globals[·]?) = texts.map some) :
    ids.map (globals'[·]?) = texts.map some := by
  rw [← hids]
  apply List.map_congr_left
  intro i hi
  have hsome : globals[i]? ∈ texts.map some := hids ▸ List.mem_map_of_mem hi
  obtain ⟨text, -, htext⟩ := List.mem_map.mp hsome
  obtain ⟨more, rfl⟩ := h
  rw [List.getElem?_append_left (List.getElem?_eq_some_iff.mp htext.symm).1]

lemma Ir.Module.Extends.trans {m₁ m₂ m₃ : Module} {texts more : List String}
    (h : m₁.Extends m₂ texts) (h' : m₂.Extends m₃ more) : m₁.Extends m₃ (texts ++ more) := by
  obtain ⟨body, hbody, hids⟩ := h.addressed
  obtain ⟨body', hbody', hids'⟩ := h'.addressed
  refine ⟨h.kept.trans h'.kept, fun used hused => ?_, body ++ body', ?_, ?_⟩
  · rw [← List.append_assoc]
    exact h'.shared _ (h.shared used hused)
  · rw [hbody', hbody, List.append_assoc]
  · rw [List.filterMap_append, List.map_append, List.map_append, getElem?_of_prefix h'.kept hids,
      hids']

lemma eraseDups_concat (used : List String) (text : String) :
    (used ++ [text]).eraseDups =
      if text ∈ used then used.eraseDups else used.eraseDups ++ [text] := by
  rw [List.eraseDups_append]
  by_cases h : text ∈ used
  · simp [List.removeAll, h]
  · simp [List.removeAll, h, List.eraseDups_cons]

def Lower.Requests {α : Type} (x : Lower α) (texts : List String) : Prop :=
  ∀ ⦃m : Module⦄ ⦃a : α⦄ ⦃m' : Module⦄, x m = .ok (a, m') → m.Extends m' texts

section

variable {α β : Type} {x : Lower α} {texts more : List String}

lemma Lower.Requests.pure (a : α) : Lower.Requests (Pure.pure a : Lower α) [] := by
  intro m b m' h
  cases h
  exact .refl m

lemma Lower.Requests.throw (fault : WalkFault) :
    Lower.Requests (MonadExcept.throw fault : Lower α) texts := by
  intro m a m' h
  cases h

lemma Lower.Requests.bind {f : α → Lower β} (hx : Lower.Requests x texts)
    (hf : ∀ a, Lower.Requests (f a) more) : Lower.Requests (x >>= f) (texts ++ more) := by
  intro m b m' h
  obtain ⟨a, m₁, hxm, hfm⟩ := Lower.bind_eq_ok.mp h
  exact (hx hxm).trans (hf a hfm)

lemma Lower.Requests.discard (hx : Lower.Requests x texts) :
    Lower.Requests (discard x) texts := by
  intro m b m' h
  obtain ⟨a, ha⟩ := Lower.discard_eq_ok.mp h
  exact hx ha

end

lemma emit_requests {i : Instr} (hi : i.address? = none) : Lower.Requests (emit i) [] := by
  intro m x m' h
  obtain ⟨rfl, rfl⟩ := Prod.mk.inj (Lower.emit_eq_ok.mp h)
  refine ⟨List.prefix_refl _, fun used hused => ?_, [i], Array.toList_push, ?_⟩
  · rw [List.append_nil]
    exact hused
  · rw [List.filterMap_cons_none hi]
    rfl

lemma global_globals {text : String} {m m' : Module} {i : Nat}
    (h : global text m = .ok (i, m')) : m'.globals.toList =
      if text ∈ m.globals.toList then m.globals.toList else m.globals.toList ++ [text] := by
  unfold global at h
  split at h
  · next j hj =>
    cases h
    have hmem : text ∈ m.globals := by
      by_contra hnot
      rw [Array.idxOf?_eq_none_iff.mpr hnot] at hj
      cases hj
    rw [if_pos (Array.mem_toList_iff.mpr hmem)]
  · next hnone =>
    cases h
    have hnot := Array.idxOf?_eq_none_iff.mp hnone
    rw [if_neg (fun hmem => hnot (Array.mem_toList_iff.mp hmem)), Array.toList_push]

lemma textAddress_requests (text : String) : Lower.Requests (textAddress text) [text] := by
  intro m x m' h
  obtain ⟨i, m₁, hglobal, hemit⟩ := Lower.bind_eq_ok.mp h
  obtain ⟨-, rfl⟩ := Prod.mk.inj (Lower.emit_eq_ok.mp hemit)
  obtain ⟨hbody, hkept, htext⟩ := Lower.global_eq_ok hglobal
  refine ⟨hkept, fun used hused => ?_, [.address i], ?_, ?_⟩
  · rw [global_globals hglobal, eraseDups_concat, hused]
    simp only [List.mem_eraseDups]
  · rw [Array.toList_push, hbody]
  · exact congrArg (fun t => [t]) htext

lemma numberFormat_requests (x : Operand) :
    Lower.Requests (numberFormat x) [integralFormat, generalFormat] := by
  unfold numberFormat
  -- five instructions, two addresses, and the choice between them
  exact .bind (emit_requests rfl) fun _ => .bind (emit_requests rfl) fun _ =>
    .bind (emit_requests rfl) fun _ => .bind (emit_requests rfl) fun _ =>
    .bind (emit_requests rfl) fun _ => .bind (textAddress_requests _) fun _ =>
    .bind (textAddress_requests _) fun _ => emit_requests rfl

lemma Expr.lower_requests (e : Expr) : Lower.Requests e.lower [] := by
  induction e with
  | number span digits =>
    rw [Expr.lower]
    cases Literal.value digits span with
    | ok v => exact .pure _
    | error fault => exact .throw _
  | binary span op left right ihleft ihright =>
    refine .bind ihleft fun x => .bind ihright fun y => ?_
    cases op with
    | plus | minus | times | divide | power => exact emit_requests rfl
    | _ => exact .throw _
  | foreign span node => exact .throw _

lemma Stmt.lower_requests (s : Stmt) : Lower.Requests s.lower s.texts := by
  cases s with
  | greet span name =>
    exact .bind (textAddress_requests _) fun _ => .bind (textAddress_requests _) fun _ =>
      (emit_requests rfl).discard
  | print span value =>
    exact .bind value.lower_requests fun x => .bind (numberFormat_requests x) fun _ =>
      (emit_requests rfl).discard
  | evaluate span value => exact value.lower_requests.discard
  | foreign span node => exact .throw _

lemma lowerStmts_requests (body : List Stmt) :
    Lower.Requests (lowerStmts body) (body.flatMap Stmt.texts) := by
  induction body with
  | nil => exact .pure ()
  | cons s body ih => exact s.lower_requests.bind fun _ => ih

/-! ### Running on through what was appended -/

section

variable {m m' : Module} {globals : List String} {s : Machine}

lemma emit_runs [Elementary] {i : Instr} {x : Operand} {v : Value} {call : Option Call}
    (h : emit i m = .ok (x, m')) (hs : m.Reaches globals s)
    (hi : i.perform globals s.results = some (v, call)) :
    ∃ t, m'.Reaches globals t ∧ s.Grows t call.toList ∧ t.Holds x v := by
  obtain ⟨rfl, rfl⟩ := Prod.mk.inj (Lower.emit_eq_ok.mp h)
  exact ⟨s.after v call, hs.push hi rfl⟩

lemma textAddress_runs [Elementary] {text : String} {x : Operand}
    (h : textAddress text m = .ok (x, m')) (hglobals : m'.globals.toList <+: globals)
    (hs : m.Reaches globals s) :
    ∃ t, m'.Reaches globals t ∧ s.Grows t [] ∧ t.PointsTo globals x text := by
  obtain ⟨i, m₁, hglobal, hemit⟩ := Lower.bind_eq_ok.mp h
  obtain ⟨hbody, -, htext⟩ := Lower.global_eq_ok hglobal
  have htext' : globals[i]? = some text := by
    obtain ⟨-, rfl⟩ := Prod.mk.inj (Lower.emit_eq_ok.mp hemit)
    obtain ⟨more, rfl⟩ := hglobals
    obtain ⟨hlt, -⟩ := List.getElem?_eq_some_iff.mp htext
    rw [List.getElem?_append_left hlt, htext]
  have hlt : i < globals.length := (List.getElem?_eq_some_iff.mp htext').1
  have hs₁ : m₁.Reaches globals s := by
    unfold Module.Reaches
    rw [hbody]
    exact hs
  obtain ⟨t, ht, hgrows, hx⟩ := emit_runs hemit hs₁ (if_pos hlt)
  exact ⟨t, ht, hgrows, i, hx, htext'⟩

/-- The condition that the instructions compute. Both comparisons hold of no NaN, and an infinity
is equal to its whole part but is not small. -/
lemma Binary64.isPositional_eq (v : Binary64) :
    (v.same v.trunc && v.abs.lt positionalBound) = v.isPositional := by
  cases v with
  | nan => rfl
  | infinity negative =>
    have hlt : ∀ y : Binary64, (Binary64.infinity false).lt y = false := by
      intro y
      cases y <;> rfl
    rw [Binary64.abs, hlt, Bool.and_false]
    rfl
  | finite negative m q => rfl

lemma numberFormat_runs [Elementary] {x f : Operand} {v : Binary64}
    (h : numberFormat x m = .ok (f, m')) (hglobals : m'.globals.toList <+: globals)
    (hs : m.Reaches globals s) (hx : s.Holds x (.double v)) :
    ∃ t, m'.Reaches globals t ∧ s.Grows t [] ∧
      t.PointsTo globals f (if v.isPositional then integralFormat else generalFormat) := by
  obtain ⟨whole, m₁, h₁, h⟩ := Lower.bind_eq_ok.mp h
  obtain ⟨integral, m₂, h₂, h⟩ := Lower.bind_eq_ok.mp h
  obtain ⟨size, m₃, h₃, h⟩ := Lower.bind_eq_ok.mp h
  obtain ⟨small, m₄, h₄, h⟩ := Lower.bind_eq_ok.mp h
  obtain ⟨condition, m₅, h₅, h⟩ := Lower.bind_eq_ok.mp h
  obtain ⟨plain, m₆, h₆, h⟩ := Lower.bind_eq_ok.mp h
  obtain ⟨general, m₇, h₇, h₈⟩ := Lower.bind_eq_ok.mp h
  have hglobals₇ : m₇.globals.toList <+: globals := (emit_requests rfl h₈).kept.trans hglobals
  have hglobals₆ : m₆.globals.toList <+: globals :=
    (textAddress_requests _ h₇).kept.trans hglobals₇
  have p₁ : (Instr.trunc x).perform globals s.results = some (.double v.trunc, none) := by
    simp [Instr.perform, hx.double?]
  obtain ⟨s₁, hs₁, g₁, hwhole⟩ := emit_runs h₁ hs p₁
  replace hx := hx.mono g₁
  have p₂ : (Instr.compare .equal x whole).perform globals s₁.results =
      some (.bit (v.same v.trunc), none) := by
    simp [Instr.perform, Predicate.holds, hx.double?, hwhole.double?]
  obtain ⟨s₂, hs₂, g₂, hintegral⟩ := emit_runs h₂ hs₁ p₂
  replace hx := hx.mono g₂
  have p₃ : (Instr.abs x).perform globals s₂.results = some (.double v.abs, none) := by
    simp [Instr.perform, hx.double?]
  obtain ⟨s₃, hs₃, g₃, hsize⟩ := emit_runs h₃ hs₂ p₃
  have hbound : s₃.Holds (.constant Binary64.positionalBound)
      (.double Binary64.positionalBound) := rfl
  have p₄ : (Instr.compare .less size (.constant Binary64.positionalBound)).perform globals
      s₃.results = some (.bit (v.abs.lt Binary64.positionalBound), none) := by
    simp [Instr.perform, Predicate.holds, hsize.double?, hbound.double?]
  obtain ⟨s₄, hs₄, g₄, hsmall⟩ := emit_runs h₄ hs₃ p₄
  replace hintegral := (hintegral.mono g₃).mono g₄
  have p₅ : (Instr.both integral small).perform globals s₄.results =
      some (.bit v.isPositional, none) := by
    simp [Instr.perform, hintegral.bit?, hsmall.bit?, ← Binary64.isPositional_eq]
  obtain ⟨s₅, hs₅, g₅, hcondition⟩ := emit_runs h₅ hs₄ p₅
  obtain ⟨s₆, hs₆, g₆, hplain⟩ := textAddress_runs h₆ hglobals₆ hs₅
  obtain ⟨s₇, hs₇, g₇, hgeneral⟩ := textAddress_runs h₇ hglobals₇ hs₆
  replace hcondition := (hcondition.mono g₆).mono g₇
  obtain ⟨i, hi, hitext⟩ := hplain.mono g₇
  obtain ⟨j, hj, hjtext⟩ := hgeneral
  have p₈ : (Instr.select condition plain general).perform globals s₇.results =
      some (.pointer (if v.isPositional then i else j), none) := by
    simp [Instr.perform, hcondition.bit?, hi.pointer?, hj.pointer?]
  obtain ⟨t, ht, g₈, hf⟩ := emit_runs h₈ hs₇ p₈
  have hgrows : s.Grows t [] :=
    g₁.trans (g₂.trans (g₃.trans (g₄.trans (g₅.trans (g₆.trans (g₇.trans g₈))))))
  refine ⟨t, ht, hgrows, _, hf, ?_⟩
  split
  · exact hitext
  · exact hjtext

/-- The instruction of an operator computes the function that the operator denotes. -/
lemma instr?_performs [Elementary] (globals : List String) {op : TokenKind} {x y : Operand}
    {i : Instr} (h : op.instr? x y = some i) {v w : Binary64} (hx : s.Holds x (.double v))
    (hy : s.Holds y (.double w)) :
    ∃ f, op.operation? = some f ∧
      i.perform globals s.results = some (.double (f v w), none) := by
  cases op <;> cases h <;>
    exact ⟨_, rfl, by simp [Instr.perform, Arith.apply, hx.double?, hy.double?]⟩

/-- Expressions come out as their value, and nothing is called on the way. -/
lemma Expr.lower_runs [Elementary] {e : Expr} {x : Operand} (h : e.lower m = .ok (x, m'))
    (hs : m.Reaches globals s) :
    ∃ v t, e.eval = .ok v ∧ m'.Reaches globals t ∧ s.Grows t [] ∧ t.Holds x (.double v) := by
  induction e generalizing m m' s x with
  | number span digits =>
    obtain ⟨v, hvalue, rfl, rfl⟩ := Expr.lower_number_eq_ok h
    refine ⟨v, s, ?_, hs, ⟨List.prefix_refl _, (List.append_nil _).symm⟩, rfl⟩
    rw [Expr.eval, hvalue]
    rfl
  | binary span op left right ihleft ihright =>
    obtain ⟨y, m₁, z, m₂, i, hleft, hright, hinstr, hemit⟩ := Expr.lower_binary_eq_ok h
    obtain ⟨v, s₁, hv, hs₁, g₁, hy⟩ := ihleft hleft hs
    obtain ⟨w, s₂, hw, hs₂, g₂, hz⟩ := ihright hright hs₁
    obtain ⟨f, hf, hi⟩ := instr?_performs globals hinstr (hy.mono g₂) hz
    obtain ⟨t, ht, g₃, hx⟩ := emit_runs hemit hs₂ hi
    refine ⟨f v w, t, ?_, ht, g₁.trans (g₂.trans g₃), hx⟩
    rw [Expr.eval, hv, ok_bind, hw, ok_bind, hf]
    rfl
  | foreign span node => cases h

lemma Stmt.lower_runs [Elementary] {stmt : Stmt} {u : Unit} (h : stmt.lower m = .ok (u, m'))
    (hglobals : m'.globals.toList <+: globals) (hs : m.Reaches globals s) :
    ∃ own t, (∀ rest calls, Calls rest calls → Calls (stmt :: rest) (own ++ calls)) ∧
      m'.Reaches globals t ∧ s.Grows t own := by
  cases stmt with
  | greet span name =>
    obtain ⟨text, m₁, h₁, h⟩ := Lower.bind_eq_ok.mp h
    obtain ⟨format, m₂, h₂, h⟩ := Lower.bind_eq_ok.mp h
    obtain ⟨x, h₃⟩ := Lower.discard_eq_ok.mp h
    have hglobals₂ := (emit_requests rfl h₃).kept.trans hglobals
    have hglobals₁ := (textAddress_requests _ h₂).kept.trans hglobals₂
    obtain ⟨s₁, hs₁, g₁, htext⟩ := textAddress_runs h₁ hglobals₁ hs
    obtain ⟨s₂, hs₂, g₂, hformat⟩ := textAddress_runs h₂ hglobals₂ hs₁
    have hprint : (Instr.printText format text).perform globals s₂.results =
        some (.count, some (.text textFormat ("hi " ++ name))) := by
      simp [Instr.perform, hformat.text?, (htext.mono g₂).text?]
    obtain ⟨t, ht, g₃, -⟩ := emit_runs h₃ hs₂ hprint
    exact ⟨_, t, fun rest calls hrest => .greet hrest, ht, g₁.trans (g₂.trans g₃)⟩
  | print span value =>
    obtain ⟨x, m₁, h₁, h⟩ := Lower.bind_eq_ok.mp h
    obtain ⟨format, m₂, h₂, h⟩ := Lower.bind_eq_ok.mp h
    obtain ⟨y, h₃⟩ := Lower.discard_eq_ok.mp h
    have hglobals₂ := (emit_requests rfl h₃).kept.trans hglobals
    obtain ⟨v, s₁, hv, hs₁, g₁, hx⟩ := Expr.lower_runs h₁ hs
    obtain ⟨s₂, hs₂, g₂, hformat⟩ := numberFormat_runs h₂ hglobals₂ hs₁ hx
    have hprint : (Instr.printNumber format x).perform globals s₂.results = some (.count,
        some (.number (if v.isPositional then integralFormat else generalFormat) v)) := by
      simp [Instr.perform, hformat.text?, (hx.mono g₂).double?]
    obtain ⟨t, ht, g₃, -⟩ := emit_runs h₃ hs₂ hprint
    exact ⟨_, t, fun rest calls hrest => .print hv hrest, ht, g₁.trans (g₂.trans g₃)⟩
  | evaluate span value =>
    obtain ⟨x, hvalue⟩ := Lower.discard_eq_ok.mp h
    obtain ⟨v, t, hv, ht, hgrows, -⟩ := Expr.lower_runs hvalue hs
    exact ⟨[], t, fun rest calls hrest => .evaluate hv hrest, ht, hgrows⟩
  | foreign span node => cases h

lemma lowerStmts_runs [Elementary] {body : List Stmt} {u : Unit}
    (h : lowerStmts body m = .ok (u, m')) (hglobals : m'.globals.toList <+: globals)
    (hs : m.Reaches globals s) :
    ∃ calls t, Calls body calls ∧ m'.Reaches globals t ∧ s.Grows t calls := by
  induction body generalizing m s with
  | nil =>
    cases h
    exact ⟨[], s, .nil, hs, List.prefix_refl _, (List.append_nil _).symm⟩
  | cons stmt body ih =>
    obtain ⟨u', m₁, hstmt, hbody⟩ := Lower.bind_eq_ok.mp h
    have hglobals₁ := (lowerStmts_requests body hbody).kept.trans hglobals
    obtain ⟨own, s₁, hown, hs₁, g₁⟩ := Stmt.lower_runs hstmt hglobals₁ hs
    obtain ⟨calls, t, hcalls, ht, g₂⟩ := ih hbody hs₁
    exact ⟨own ++ calls, t, hown body calls hcalls, ht, g₁.trans g₂⟩

end

/-! ### Whole modules -/

lemma Program.lower_calls [Elementary] {p : Program} {m : Module} (h : p.lower = .ok m) :
    ∃ calls, m.calls? = some calls ∧ Calls p.body calls := by
  obtain ⟨⟨u, m'⟩, hbody, hm⟩ := bind_eq_ok.mp h
  cases hm
  have hempty : Module.Reaches ⟨#[], #[]⟩ m.globals.toList ⟨[], []⟩ := rfl
  obtain ⟨calls, t, hcalls, ht, hgrows⟩ := lowerStmts_runs hbody (List.prefix_refl _) hempty
  refine ⟨calls, ?_, hcalls⟩
  rw [Module.calls?, ht, Option.map_some, hgrows.calls]
  rfl

lemma Calls.format_mem [Elementary] {body : List Stmt} {calls : List Call} (h : Calls body calls) :
    ∀ call ∈ calls, call.format ∈ ["%s\n", "%.0f\n", "%.17g\n"] := by
  induction h with
  | nil => exact fun call hcall => nomatch hcall
  | greet _ ih => exact List.forall_mem_cons.mpr ⟨List.mem_cons_self, ih⟩
  | print _ _ ih =>
    refine List.forall_mem_cons.mpr ⟨?_, ih⟩
    rw [Call.format]
    split <;> decide
  | evaluate _ _ ih => exact ih

/-- A format begins with a percent sign, and the text of a greeting does not. -/
lemma format_ne_greeting {format : String} (h : format ∈ ["%s\n", "%.0f\n", "%.17g\n"])
    (name : String) : format ≠ "hi " ++ name := by
  intro heq
  have hfirst : format.toList.head? = some 'h' := by rw [heq]; simp
  simp only [List.mem_cons, List.not_mem_nil, or_false] at h
  obtain rfl | rfl | rfl := h <;> exact absurd hfirst (by decide)

lemma Binary64.text_finite (negative : Bool) (m : Nat) (q : Int) :
    (Binary64.finite negative m q).text = (if negative then "-" else "") ++
      if (Binary64.finite negative m q).isPositional then (Decimal.shortest m q).positional
      else (Decimal.shortest m q).written generalStyle := by
  cases negative <;> simp [Binary64.text, Binary64.isPositional]

/-- Executing the module of a program makes the calls that belong to its statements, in order and
no others. Their formats are fixed texts and never the text of a greeting. A number has the format
for whole numbers exactly when its own text has no exponent by being whole. The instructions of
`main` are followed by a return of zero. -/
theorem lower_preserves_meaning [Elementary] (p : Program) (m : Module) (h : p.lower = .ok m) :
    (∃ calls, m.calls? = some calls ∧ Calls p.body calls ∧
      ∀ call ∈ calls, call.format ∈ ["%s\n", "%.0f\n", "%.17g\n"] ∧
        ∀ name, call.format ≠ "hi " ++ name) ∧
    (∀ negative k q, (Binary64.finite negative k q).text = (if negative then "-" else "") ++
      if (Binary64.finite negative k q).isPositional then (Decimal.shortest k q).positional
      else (Decimal.shortest k q).written generalStyle) ∧
    ∃ before, m.text = before ++ "define i32 @main() \x7b\nentry:\n" ++
      String.join (m.body.toList.mapIdx fun i x =>
        "\t%" ++ toString i ++ " = " ++ x.text m.globals ++ "\n") ++ "\tret i32 0\n\x7d\n" := by
  obtain ⟨calls, hexecuted, hcalls⟩ := Program.lower_calls h
  refine ⟨⟨calls, hexecuted, hcalls, fun call hcall => ?_⟩, Binary64.text_finite, _, rfl⟩
  have hformat := hcalls.format_mem call hcall
  exact ⟨hformat, format_ne_greeting hformat⟩

/-- A greeting that looks like a format, a value that nothing prints, and a quotient that is not
finite. -/
theorem lower_preserves_meaning_of_quotient :
    ∃ m, (⟨default, [.greet default "%d", .evaluate default (.number default "2"),
        .print default (.binary default .divide (.number default "1") (.number default "0"))]⟩ :
          Program).lower = .ok m ∧
      m.calls? = some [.text "%s\n" "hi %d", .number "%.17g\n" (.infinity false)] ∧
      Calls [.greet default "%d", .evaluate default (.number default "2"),
          .print default (.binary default .divide (.number default "1") (.number default "0"))]
        [.text "%s\n" "hi %d", .number "%.17g\n" (.infinity false)] := by
  have hcalls : (Program.lower ⟨default, [.greet default "%d",
      .evaluate default (.number default "2"), .print default
        (.binary default .divide (.number default "1") (.number default "0"))]⟩).toOption.bind
          Module.calls? =
      some [.text "%s\n" "hi %d", .number "%.17g\n" (.infinity false)] := by decide +kernel
  cases hlower : Program.lower ⟨default, [.greet default "%d",
      .evaluate default (.number default "2"), .print default
        (.binary default .divide (.number default "1") (.number default "0"))]⟩ with
  | error fault =>
    rw [hlower] at hcalls
    cases hcalls
  | ok m =>
    rw [hlower] at hcalls
    obtain ⟨⟨calls, hexecuted, hspec, -⟩, -⟩ := lower_preserves_meaning _ m hlower
    obtain rfl := Option.some.inj (hexecuted.symm.trans hcalls)
    exact ⟨m, rfl, hexecuted, hspec⟩

end HiToolchain
