import HiToolchain.Binary64.Power
import HiToolchain.Ir.Module
import Mathlib.Tactic.Common

/-!
# Executing intermediate code

The instructions of `main` run in order. Each has one result, which later instructions refer to by
its index, and the calls of `printf` are recorded with the texts that their pointers lead to.
-/

namespace HiToolchain.Ir

/-- What the result of an instruction is when it has run. A pointer leads to a global; the count
that `printf` returns is left open, since nothing reads it. -/
inductive Value where
  | double (v : Binary64)
  | bit (b : Bool)
  | pointer (global : Nat)
  | count
  deriving DecidableEq, Repr

/-- A call of `printf`: the text of its format, and its argument. -/
inductive Call where
  | number (format : String) (v : Binary64)
  | text (format : String) (text : String)
  deriving DecidableEq, Repr

def Call.format : Call → String
  | number format _ => format
  | text format _ => format

namespace Operand

def value? (results : List Value) : Operand → Option Value
  | constant v => some (.double v)
  | result i => results[i]?

def double? (results : List Value) (x : Operand) : Option Binary64 :=
  match x.value? results with
  | some (.double v) => some v
  | _ => none

def bit? (results : List Value) (x : Operand) : Option Bool :=
  match x.value? results with
  | some (.bit b) => some b
  | _ => none

def pointer? (results : List Value) (x : Operand) : Option Nat :=
  match x.value? results with
  | some (.pointer i) => some i
  | _ => none

def text? (globals : List String) (results : List Value) (x : Operand) : Option String := do
  globals[← x.pointer? results]?

end Operand

def Arith.apply : Arith → Binary64 → Binary64 → Binary64
  | .add => Binary64.add
  | .sub => Binary64.sub
  | .mul => Binary64.mul
  | .div => Binary64.div

def Predicate.holds : Predicate → Binary64 → Binary64 → Bool
  | .equal => Binary64.same
  | .less => Binary64.lt

/-- The result of an instruction and the call that it makes. There is none if an operand is
missing or has another type. -/
def Instr.perform [Elementary] (globals : List String) (results : List Value) :
    Instr → Option (Value × Option Call)
  | .arith op x y => do
    return (.double (op.apply (← x.double? results) (← y.double? results)), none)
  | .power x y => do
    return (.double (Binary64.pow (← x.double? results) (← y.double? results)), none)
  | .trunc x => do return (.double (← x.double? results).trunc, none)
  | .abs x => do return (.double (← x.double? results).abs, none)
  | .compare p x y => do
    return (.bit (p.holds (← x.double? results) (← y.double? results)), none)
  | .both a b => do return (.bit ((← a.bit? results) && (← b.bit? results)), none)
  | .address i => if i < globals.length then some (.pointer i, none) else none
  | .select c a b => do
    let condition ← c.bit? results
    let a ← a.pointer? results
    let b ← b.pointer? results
    return (.pointer (if condition then a else b), none)
  | .printNumber f x => do
    return (.count, some (.number (← f.text? globals results) (← x.double? results)))
  | .printText f s => do
    return (.count, some (.text (← f.text? globals results) (← s.text? globals results)))

/-- The results of the instructions that have run and the calls they have made. -/
structure Machine where
  results : List Value
  calls : List Call
  deriving DecidableEq, Repr

namespace Machine

def after (s : Machine) (v : Value) (call : Option Call) : Machine :=
  ⟨s.results ++ [v], s.calls ++ call.toList⟩

def step [Elementary] (globals : List String) (s : Machine) (i : Instr) : Option Machine := do
  let (v, call) ← i.perform globals s.results
  return s.after v call

end Machine

def run [Elementary] (globals : List String) (body : List Instr) : Option Machine :=
  body.foldlM (Machine.step globals) ⟨[], []⟩

/-- The calls that executing a module makes. -/
def Module.calls? [Elementary] (m : Module) : Option (List Call) :=
  (run m.globals.toList m.body.toList).map Machine.calls

/-! ### Growing machines -/

/-- The machine `t` has the results of `s` and more, and has made `calls` since. -/
structure Machine.Grows (s t : Machine) (calls : List Call) : Prop where
  results : s.results <+: t.results
  calls : t.calls = s.calls ++ calls

lemma Machine.Grows.trans {s t u : Machine} {calls calls' : List Call} (h : s.Grows t calls)
    (h' : t.Grows u calls') : s.Grows u (calls ++ calls') := by
  refine ⟨h.results.trans h'.results, ?_⟩
  rw [h'.calls, h.calls, List.append_assoc]

def Machine.Holds (s : Machine) (x : Operand) (v : Value) : Prop := x.value? s.results = some v

lemma Machine.Holds.mono {s t : Machine} {x : Operand} {v : Value} {calls : List Call}
    (h : s.Holds x v) (hgrows : s.Grows t calls) : t.Holds x v := by
  cases x with
  | constant w => exact h
  | result i =>
    obtain ⟨more, hmore⟩ := hgrows.results
    have hi : s.results[i]? = some v := h
    obtain ⟨hlt, -⟩ := List.getElem?_eq_some_iff.mp hi
    change t.results[i]? = some v
    rw [← hmore, List.getElem?_append_left hlt, hi]

section

variable {s : Machine} {x : Operand}

lemma Machine.Holds.double? {v : Binary64} (h : s.Holds x (.double v)) :
    x.double? s.results = some v := by
  rw [Operand.double?, h]

lemma Machine.Holds.bit? {b : Bool} (h : s.Holds x (.bit b)) : x.bit? s.results = some b := by
  rw [Operand.bit?, h]

lemma Machine.Holds.pointer? {i : Nat} (h : s.Holds x (.pointer i)) :
    x.pointer? s.results = some i := by
  rw [Operand.pointer?, h]

def Machine.PointsTo (s : Machine) (globals : List String) (x : Operand) (text : String) : Prop :=
  ∃ i, s.Holds x (.pointer i) ∧ globals[i]? = some text

lemma Machine.PointsTo.mono {globals : List String} {t : Machine} {text : String}
    {calls : List Call} (h : s.PointsTo globals x text) (hgrows : s.Grows t calls) :
    t.PointsTo globals x text := by
  obtain ⟨i, hi, htext⟩ := h
  exact ⟨i, hi.mono hgrows, htext⟩

lemma Machine.PointsTo.text? {globals : List String} {text : String}
    (h : s.PointsTo globals x text) : x.text? globals s.results = some text := by
  obtain ⟨i, hi, htext⟩ := h
  rw [Operand.text?, hi.pointer?]
  exact htext

end

/-! ### Running one instruction more -/

lemma length_results_of_foldlM [Elementary] {globals : List String} {body : List Instr}
    {s t : Machine} (h : body.foldlM (Machine.step globals) s = some t) :
    t.results.length = s.results.length + body.length := by
  induction body generalizing s with
  | nil =>
    obtain rfl : s = t := by simpa using h
    rfl
  | cons i body ih =>
    rw [List.foldlM_cons] at h
    obtain ⟨u, hu, h⟩ := Option.bind_eq_some_iff.mp h
    obtain ⟨⟨v, call⟩, -, hafter⟩ := Option.bind_eq_some_iff.mp hu
    obtain rfl : s.after v call = u := by simpa using hafter
    have hlength := ih h
    rw [Machine.after, List.length_append, List.length_singleton] at hlength
    rw [List.length_cons]
    omega

/-- Running the body of `m` with these globals leads to `s`. -/
def Module.Reaches [Elementary] (m : Module) (globals : List String) (s : Machine) : Prop :=
  run globals m.body.toList = some s

lemma Module.Reaches.push [Elementary] {m m' : Module} {globals : List String} {s : Machine}
    (h : m.Reaches globals s) {i : Instr} {v : Value} {call : Option Call}
    (hi : i.perform globals s.results = some (v, call)) (hm' : m'.body = m.body.push i) :
    m'.Reaches globals (s.after v call) ∧ s.Grows (s.after v call) call.toList ∧
      (s.after v call).Holds (.result m.body.size) v := by
  have hlength := length_results_of_foldlM h
  refine ⟨?_, ⟨List.prefix_append _ _, rfl⟩, ?_⟩
  · unfold Module.Reaches run at h ⊢
    rw [hm', Array.toList_push, List.foldlM_append, h]
    simp [Machine.step, hi]
  · simp only [List.length_nil, Nat.zero_add, Array.length_toList] at hlength
    unfold Machine.Holds
    rw [Operand.value?, ← hlength, Machine.after, List.getElem?_concat_length]

end HiToolchain.Ir
