import HiToolchain.Proofs.Sequencing
import HiToolchain.Visit
import Mathlib.Data.List.Basic

/-!
# A walk reaches the nodes that its kinds open

Nodes are told by their paths from the root, and the lexicographic order of paths is the order in
which a tree is walked: a node before what is below it, and the left before the right. A walk that
is opened for some kinds records the nodes of these kinds that have only such nodes above them, in
this order, and fails at the first unhandled node that it comes to.
-/

namespace HiToolchain

open Visit

/-- A node with all that is below it. -/
inductive Subtree where
  | program (p : Program)
  | stmt (s : Stmt)
  | expr (e : Expr)

namespace Subtree

def kind : Subtree → NodeKind
  | program _ => .program
  | stmt s => s.kind
  | expr e => e.kind

def sighting : Subtree → Sighting
  | program p => ⟨.program, p.text⟩
  | stmt s => ⟨s.kind, s.text⟩
  | expr e => ⟨e.kind, e.text⟩

/-- What a node is where it stands. -/
def role : Subtree → String
  | program _ => "program"
  | stmt _ => "statement"
  | expr _ => "expression"

/-- The fault of a node that no walk handles. -/
def fault? : Subtree → Option WalkFault
  | stmt (.foreign _ node) => some (.unhandledStmt node)
  | expr (.foreign _ node) => some (.unhandledExpr node)
  | _ => none

/-- The children of a node from left to right, each numbered by the place that its result has in
the result of the node. -/
def child? : Subtree → Nat → Option Subtree
  | program p, i => p.body[i]?.map stmt
  | stmt (.print _ value), 1 => some (expr value)
  | stmt (.evaluate _ value), 1 => some (expr value)
  | expr (.binary _ _ left _), 1 => some (expr left)
  | expr (.binary _ _ _ right), 2 => some (expr right)
  | _, _ => none

lemma child?_print {span : Span} {value : Expr} {i : Nat} {c : Subtree} :
    (stmt (.print span value)).child? i = some c ↔ i = 1 ∧ c = expr value := by
  simp only [child?]
  split <;> simp_all [eq_comm]

lemma child?_evaluate {span : Span} {value : Expr} {i : Nat} {c : Subtree} :
    (stmt (.evaluate span value)).child? i = some c ↔ i = 1 ∧ c = expr value := by
  simp only [child?]
  split <;> simp_all [eq_comm]

lemma child?_binary {span : Span} {op : TokenKind} {left right : Expr} {i : Nat} {c : Subtree} :
    (expr (.binary span op left right)).child? i = some c ↔
      i = 1 ∧ c = expr left ∨ i = 2 ∧ c = expr right := by
  simp only [child?]
  split <;> simp_all [eq_comm]

/-- The node at the end of a path. -/
def at? : List Nat → Subtree → Option Subtree
  | [], t => some t
  | i :: path, t => (t.child? i).bind (at? path)

end Subtree

/-- The part of a result at the end of a path. -/
def Visit.Result.at? : List Nat → Result → Option Result
  | [], r => some r
  | i :: path, .parts items => items[i]?.bind (at? path)
  | _ :: _, _ => none

/-- The node `t` stands at the end of a path, and the kinds of all nodes above it are opened. -/
structure Exposed (opens : NodeKind → Bool) (root : Subtree) (path : List Nat) (t : Subtree) :
    Prop where
  found : root.at? path = some t
  opened : ∀ above a, above <+: path → above ≠ path → root.at? above = some a → opens a.kind

section

variable {opens : NodeKind → Bool} {root t : Subtree}

lemma exposed_nil : Exposed opens root [] t ↔ t = root := by
  constructor
  · intro h
    exact (Option.some.inj h.found).symm
  · rintro rfl
    refine ⟨rfl, fun above a habove hne => ?_⟩
    exact (hne (List.prefix_nil.mp habove)).elim

lemma exposed_cons {i : Nat} {path : List Nat} :
    Exposed opens root (i :: path) t ↔
      opens root.kind ∧ ∃ c, root.child? i = some c ∧ Exposed opens c path t := by
  constructor
  · rintro ⟨hfound, hopened⟩
    obtain ⟨c, hc, hpath⟩ := Option.bind_eq_some_iff.mp hfound
    refine ⟨hopened [] root (List.nil_prefix) (by simp) rfl, c, hc, hpath, ?_⟩
    intro above a habove hne ha
    refine hopened (i :: above) a (by simpa using habove) (by simpa using hne) ?_
    simpa [Subtree.at?, hc] using ha
  · rintro ⟨hroot, c, hc, hfound, hopened⟩
    refine ⟨by simpa [Subtree.at?, hc] using hfound, ?_⟩
    intro above a habove hne ha
    cases above with
    | nil =>
      obtain rfl : root = a := Option.some.inj ha
      exact hroot
    | cons j above =>
      obtain ⟨rfl, hprefix⟩ := List.cons_prefix_cons.mp habove
      refine hopened above a hprefix (by simpa using hne) ?_
      simpa [Subtree.at?, hc] using ha

lemma exposed_iff {path : List Nat} : Exposed opens root path t ↔
    path = [] ∧ t = root ∨
      opens root.kind ∧ ∃ i rest, path = i :: rest ∧
        ∃ c, root.child? i = some c ∧ Exposed opens c rest t := by
  cases path with
  | nil => simp [exposed_nil]
  | cons i path => simp [exposed_cons]

end

/-! ### What a walk reports -/

/-- What is to be walked: nodes with their paths. -/
abbrev Scene := List Nat → Subtree → Prop

/-- A walk over a scene succeeds and records the nodes of opened kinds in the order of their paths,
or it fails at the first unhandled node. -/
inductive Reports {ρ : Type} (opens : NodeKind → Bool) (scene : Scene) :
    Except WalkFault (ρ × List Sighting) → Prop
  | ok {r : ρ} {seen : List Sighting} (nodes : List (List Nat × Subtree))
      (handled : ∀ path t, scene path t → t.fault? = none)
      (sorted : nodes.Pairwise fun m n => m.1 < n.1)
      (mem : ∀ path t, (path, t) ∈ nodes ↔ scene path t ∧ opens t.kind)
      (recorded : seen = nodes.map fun n => n.2.sighting) : Reports opens scene (.ok (r, seen))
  | error {fault : WalkFault} (path : List Nat) (t : Subtree) (met : scene path t)
      (unhandled : t.fault? = some fault)
      (first : ∀ path' t', path' < path → scene path' t' → t'.fault? = none) :
      Reports opens scene (.error fault)

namespace Reports

variable {ρ σ : Type} {opens : NodeKind → Bool} {scene scene' : Scene}
  {x : Except WalkFault (ρ × List Sighting)} {y : Except WalkFault (σ × List Sighting)}

lemma congr (h : Reports opens scene x) (hscene : ∀ path t, scene path t ↔ scene' path t) :
    Reports opens scene' x := by
  obtain rfl : scene = scene' := by
    funext path t
    exact propext (hscene path t)
  exact h

lemma nothing (r : ρ) : Reports opens (fun _ _ => False) (.ok (r, [])) :=
  .ok [] (by simp) List.Pairwise.nil (by simp) rfl

lemma map (g : ρ → σ) (h : Reports opens scene x) :
    Reports opens scene (x >>= fun a => .ok (g a.1, a.2)) := by
  cases h with
  | ok nodes handled sorted mem recorded => exact .ok nodes handled sorted mem recorded
  | error path t met unhandled first => exact .error path t met unhandled first

/-- A scene as it is seen from the parent of its root. -/
lemma below (i : Nat) (h : Reports opens scene x) :
    Reports opens (fun path t => ∃ rest, path = i :: rest ∧ scene rest t) x := by
  cases h with
  | ok nodes handled sorted mem recorded =>
    refine .ok (nodes.map fun n => (i :: n.1, n.2)) ?_ ?_ ?_ ?_
    · rintro _ t ⟨rest, -, h⟩
      exact handled rest t h
    · rw [List.pairwise_map]
      exact sorted.imp fun h => List.cons_lt_cons_iff.mpr (.inr ⟨rfl, h⟩)
    · intro path t
      simp only [List.mem_map, Prod.mk.injEq, Prod.exists]
      constructor
      · rintro ⟨rest, _, hmem, rfl, rfl⟩
        obtain ⟨hscene, hopen⟩ := (mem _ _).mp hmem
        exact ⟨⟨rest, rfl, hscene⟩, hopen⟩
      · rintro ⟨⟨rest, rfl, hscene⟩, hopen⟩
        exact ⟨rest, t, (mem _ _).mpr ⟨hscene, hopen⟩, rfl, rfl⟩
    · rw [recorded, List.map_map]
      rfl
  | error path t met unhandled first =>
    refine .error (i :: path) t ⟨path, rfl, met⟩ unhandled ?_
    rintro _ t' hlt ⟨rest, rfl, h⟩
    have hlt' : rest < path := by simpa [List.cons_lt_cons_iff] using hlt
    exact first rest t' hlt' h

/-- One scene after the other. -/
lemma both {τ : Type} (g : ρ → σ → τ) (h : Reports opens scene x) (h' : Reports opens scene' y)
    (hbefore : ∀ path t path' t', scene path t → scene' path' t' → path < path') :
    Reports opens (fun path t => scene path t ∨ scene' path t)
      (x >>= fun a => y >>= fun b => .ok (g a.1 b.1, a.2 ++ b.2)) := by
  cases h with
  | error path t met unhandled first =>
    refine .error path t (.inl met) unhandled ?_
    rintro path' t' hlt (h | h)
    · exact first path' t' hlt h
    · exact (List.lt_asymm hlt (hbefore _ _ _ _ met h)).elim
  | ok nodes handled sorted mem recorded =>
    cases h' with
    | error path t met unhandled first =>
      refine .error path t (.inr met) unhandled ?_
      rintro path' t' hlt (h | h)
      · exact handled path' t' h
      · exact first path' t' hlt h
    | ok nodes' handled' sorted' mem' recorded' =>
      refine .ok (nodes ++ nodes') ?_ ?_ ?_ ?_
      · rintro path t (h | h)
        · exact handled path t h
        · exact handled' path t h
      · refine List.pairwise_append.mpr ⟨sorted, sorted', ?_⟩
        rintro ⟨path, t⟩ hm ⟨path', t'⟩ hn
        exact hbefore _ _ _ _ ((mem _ _).mp hm).1 ((mem' _ _).mp hn).1
      · intro path t
        rw [List.mem_append, mem, mem', or_and_right]
      · rw [recorded, recorded', List.map_append]

/-- A node above a scene. -/
lemma enter {root : Subtree} {kind : NodeKind} {text : String} {inside : Walk}
    (h : Reports opens scene inside) (hbelow : ∀ path t, scene path t → path ≠ [])
    (hroot : root.fault? = none) (hsighting : root.sighting = ⟨kind, text⟩) :
    Reports opens (fun path t => path = [] ∧ t = root ∨ opens root.kind ∧ scene path t)
      (Visit.enter opens kind text inside) := by
  obtain rfl : root.kind = kind := by
    cases root <;> exact congrArg Sighting.kind hsighting
  unfold Visit.enter
  by_cases hopen : opens root.kind = true
  · rw [if_pos hopen]
    simp only [hopen, true_and]
    cases h with
    | ok nodes handled sorted mem recorded =>
      refine .ok (([], root) :: nodes) ?_ ?_ ?_ ?_
      · rintro path t (⟨-, rfl⟩ | h)
        · exact hroot
        · exact handled path t h
      · refine List.pairwise_cons.mpr ⟨?_, sorted⟩
        rintro ⟨path, t⟩ hm
        obtain ⟨i, rest, rfl⟩ := List.exists_cons_of_ne_nil (hbelow _ _ ((mem _ _).mp hm).1)
        exact List.nil_lt_cons i rest
      · intro path t
        rw [List.mem_cons, mem, Prod.mk.injEq]
        constructor
        · rintro (⟨rfl, rfl⟩ | ⟨h, hk⟩)
          · exact ⟨.inl ⟨rfl, rfl⟩, hopen⟩
          · exact ⟨.inr h, hk⟩
        · rintro ⟨⟨rfl, rfl⟩ | h, hk⟩
          · exact .inl ⟨rfl, rfl⟩
          · exact .inr ⟨h, hk⟩
      · rw [recorded, List.map_cons, hsighting]
    | error path t met unhandled first =>
      refine .error path t (.inr met) unhandled ?_
      rintro path' t' hlt (⟨-, rfl⟩ | h)
      · exact hroot
      · exact first path' t' hlt h
  · rw [if_neg hopen]
    refine .ok [] ?_ List.Pairwise.nil ?_ rfl
    · rintro path t (⟨-, rfl⟩ | ⟨h, -⟩)
      · exact hroot
      · exact (hopen h).elim
    · simp only [List.not_mem_nil, false_iff, not_and]
      rintro path t (⟨-, rfl⟩ | ⟨h, -⟩)
      · exact hopen
      · exact (hopen h).elim

end Reports

/-! ### Walks over trees -/

section

variable {opens : NodeKind → Bool}

/-- What is below a node. -/
def Below (opens : NodeKind → Bool) (root : Subtree) : Scene := fun path t =>
  ∃ i rest, path = i :: rest ∧ ∃ c, root.child? i = some c ∧ Exposed opens c rest t

lemma Reports.exposed {root : Subtree} {kind : NodeKind} {text : String} {inside : Walk}
    (h : Reports opens (Below opens root) inside) (hroot : root.fault? = none)
    (hsighting : root.sighting = ⟨kind, text⟩) :
    Reports opens (Exposed opens root) (Visit.enter opens kind text inside) := by
  have hbelow : ∀ path t, Below opens root path t → path ≠ [] := by
    rintro _ t ⟨i, rest, rfl, -⟩
    simp
  refine (h.enter hbelow hroot hsighting).congr fun path t => ?_
  rw [exposed_iff]
  rfl

/-- A node without children. -/
lemma Reports.leaf {root : Subtree} {kind : NodeKind} {text : String} (r : Result)
    (hchild : ∀ i, root.child? i = none) (hroot : root.fault? = none)
    (hsighting : root.sighting = ⟨kind, text⟩) :
    Reports opens (Exposed opens root) (Visit.enter opens kind text (.ok (r, []))) := by
  refine Reports.exposed ((Reports.nothing r).congr fun path t => ?_) hroot hsighting
  simp [Below, hchild]

/-- A node with one child. -/
lemma Reports.single {root c : Subtree} {kind : NodeKind} {text : String} {x : Walk}
    (g : Result → Result) (h : Reports opens (Exposed opens c) x)
    (hchild : ∀ i d, root.child? i = some d ↔ i = 1 ∧ d = c) (hroot : root.fault? = none)
    (hsighting : root.sighting = ⟨kind, text⟩) :
    Reports opens (Exposed opens root)
      (Visit.enter opens kind text (x >>= fun a => .ok (g a.1, a.2))) := by
  refine Reports.exposed (((h.below 1).map g).congr fun path t => ?_) hroot hsighting
  simp [Below, hchild]

/-- A foreign node is met before anything else. -/
lemma Reports.unhandled {ρ : Type} {root : Subtree} {fault : WalkFault}
    (hroot : root.fault? = some fault) :
    Reports opens (Exposed opens root) (.error fault : Except WalkFault (ρ × List Sighting)) := by
  refine .error [] root (exposed_nil.mpr rfl) hroot ?_
  intro path t hlt
  exact (List.not_lt_nil path hlt).elim

lemma Expr.visit_reports (e : Expr) : Reports opens (Exposed opens (.expr e)) (e.visit opens) := by
  induction e with
  | number span digits => exact Reports.leaf (.text digits) (fun i => rfl) rfl rfl
  | binary span op left right ihleft ihright =>
    have hboth := (ihleft.below 1).both (fun l r => Result.parts [.text op.name, l, r])
      (ihright.below 2) <| by
        rintro _ _ _ _ ⟨rest, rfl, -⟩ ⟨rest', rfl, -⟩
        exact List.cons_lt_cons_iff.mpr (.inl (by decide))
    refine @Reports.exposed _ (.expr (.binary span op left right)) _ _ _ (hboth.congr ?_) rfl rfl
    intro path t
    constructor
    · rintro (⟨rest, rfl, h⟩ | ⟨rest, rfl, h⟩)
      · exact ⟨1, rest, rfl, .expr left, rfl, h⟩
      · exact ⟨2, rest, rfl, .expr right, rfl, h⟩
    · rintro ⟨i, rest, rfl, c, hc, h⟩
      obtain ⟨rfl, rfl⟩ | ⟨rfl, rfl⟩ := Subtree.child?_binary.mp hc
      · exact .inl ⟨rest, rfl, h⟩
      · exact .inr ⟨rest, rfl, h⟩
  | foreign span node => exact Reports.unhandled rfl

lemma Stmt.visit_reports (s : Stmt) : Reports opens (Exposed opens (.stmt s)) (s.visit opens) := by
  cases s with
  | greet span name => exact Reports.leaf (.text name) (fun i => rfl) rfl rfl
  | print span value =>
    exact Reports.single (fun r => .parts [.text "print", r]) value.visit_reports
      (fun i d => Subtree.child?_print) rfl rfl
  | evaluate span value =>
    exact Reports.single (fun r => .parts [.text "expr", r]) value.visit_reports
      (fun i d => Subtree.child?_evaluate) rfl rfl
  | foreign span node => exact Reports.unhandled rfl

/-- Statements that are the children of a program from number `k` on. -/
lemma visitStmts_reports (k : Nat) (body : List Stmt) :
    Reports opens (fun path t => ∃ i rest s, path = (k + i) :: rest ∧ body[i]? = some s ∧
      Exposed opens (.stmt s) rest t) (visitStmts opens body) := by
  induction body generalizing k with
  | nil => exact (Reports.nothing []).congr (by simp)
  | cons s body ih =>
    have hboth := (s.visit_reports.below k).both (fun r results => r :: results) (ih (k + 1)) <| by
      rintro _ _ _ _ ⟨rest, rfl, -⟩ ⟨i, rest', s', rfl, -⟩
      exact List.cons_lt_cons_iff.mpr (.inl (by omega))
    refine hboth.congr fun path t => ?_
    constructor
    · rintro (⟨rest, rfl, h⟩ | ⟨i, rest, s', rfl, hs', h⟩)
      · exact ⟨0, rest, s, rfl, rfl, h⟩
      · exact ⟨i + 1, rest, s', by simp; omega, hs', h⟩
    · rintro ⟨i, rest, s', rfl, hs', h⟩
      cases i with
      | zero =>
        obtain rfl : s = s' := Option.some.inj hs'
        exact .inl ⟨rest, rfl, h⟩
      | succ i => exact .inr ⟨i, rest, s', by simp; omega, hs', h⟩

lemma Program.visit_reports (p : Program) :
    Reports opens (Exposed opens (.program p)) (p.visit opens) := by
  have hbody := (@visitStmts_reports opens 0 p.body).map Result.parts
  refine @Reports.exposed _ (.program p) _ _ _ (hbody.congr fun path t => ?_) rfl rfl
  simp only [Nat.zero_add]
  constructor
  · rintro ⟨i, rest, s, rfl, hs, h⟩
    exact ⟨i, rest, rfl, .stmt s, by simp [Subtree.child?, hs], h⟩
  · rintro ⟨i, rest, rfl, c, hc, h⟩
    obtain ⟨s, hs, rfl⟩ := Option.map_eq_some_iff.mp hc
    exact ⟨i, rest, s, rfl, hs, h⟩

end

/-! ### Results -/

section

variable {opens : NodeKind → Bool}

/-- Every node that is reached has its part in the result, and the part is nothing exactly if the
node is passed over. -/
def Answers (opens : NodeKind → Bool) (root : Subtree) (result : Result) : Prop :=
  ∀ path t, Exposed opens root path t →
    ∃ r, result.at? path = some r ∧ (r = .nothing ↔ opens t.kind = false)

lemma answers_passed {root : Subtree} (h : opens root.kind = false) :
    Answers opens root .nothing := by
  intro path t ht
  rw [exposed_iff, h] at ht
  obtain ⟨rfl, rfl⟩ | ⟨hfalse, -⟩ := ht
  · exact ⟨_, rfl, by simp [h]⟩
  · cases hfalse

/-- The result of an opened node, from the results of its children. -/
lemma answers_opened {root : Subtree} {result : Result} (h : opens root.kind)
    (hresult : result ≠ .nothing)
    (hbelow : ∀ i c, root.child? i = some c →
      ∃ r, result.at? [i] = some r ∧ Answers opens c r) : Answers opens root result := by
  intro path t ht
  rw [exposed_iff] at ht
  obtain ⟨rfl, rfl⟩ | ⟨-, i, rest, rfl, c, hc, hrest⟩ := ht
  · exact ⟨_, rfl, by simp [h, hresult]⟩
  · obtain ⟨r, hr, hanswers⟩ := hbelow i c hc
    obtain ⟨r', hr', hiff⟩ := hanswers rest t hrest
    refine ⟨r', ?_, hiff⟩
    cases result with
    | parts items =>
      obtain ⟨item, hitem, rfl⟩ : ∃ item, items[i]? = some item ∧ item = r := by
        simpa [Result.at?, Option.bind_eq_some_iff] using hr
      rw [Result.at?, hitem]
      exact hr'
    | nothing => cases hr
    | text s => cases hr

lemma answers_enter {root : Subtree} {kind : NodeKind} {text : String} {inside : Walk}
    {a : Result × List Sighting} (h : Visit.enter opens kind text inside = .ok a)
    (hkind : root.kind = kind)
    (hinside : ∀ b, inside = .ok b → b.1 ≠ .nothing ∧ ∀ i c, root.child? i = some c →
      ∃ r, b.1.at? [i] = some r ∧ Answers opens c r) : Answers opens root a.1 := by
  subst hkind
  unfold Visit.enter at h
  by_cases hopen : opens root.kind = true
  · rw [if_pos hopen] at h
    obtain ⟨b, hb, h⟩ := bind_eq_ok.mp h
    cases h
    obtain ⟨hresult, hbelow⟩ := hinside b hb
    exact answers_opened hopen hresult hbelow
  · rw [if_neg hopen] at h
    cases h
    exact answers_passed (by simpa using hopen)

lemma Expr.visit_answers {e : Expr} {a : Result × List Sighting} (h : e.visit opens = .ok a) :
    Answers opens (.expr e) a.1 := by
  induction e generalizing a with
  | number span digits =>
    refine answers_enter h rfl ?_
    rintro _ ⟨rfl⟩
    exact ⟨by simp, by simp [Subtree.child?]⟩
  | binary span op left right ihleft ihright =>
    refine answers_enter h rfl fun b hb => ?_
    obtain ⟨l, hl, hb⟩ := bind_eq_ok.mp hb
    obtain ⟨r, hr, hb⟩ := bind_eq_ok.mp hb
    cases hb
    refine ⟨by simp, fun i c hc => ?_⟩
    obtain ⟨rfl, rfl⟩ | ⟨rfl, rfl⟩ := Subtree.child?_binary.mp hc
    · exact ⟨l.1, rfl, ihleft hl⟩
    · exact ⟨r.1, rfl, ihright hr⟩
  | foreign span node => cases h

lemma Stmt.visit_answers {s : Stmt} {a : Result × List Sighting} (h : s.visit opens = .ok a) :
    Answers opens (.stmt s) a.1 := by
  cases s with
  | greet span name =>
    refine answers_enter h rfl ?_
    rintro _ ⟨rfl⟩
    exact ⟨by simp, by simp [Subtree.child?]⟩
  | print span value | evaluate span value =>
    refine answers_enter h rfl fun b hb => ?_
    obtain ⟨r, hr, hb⟩ := bind_eq_ok.mp hb
    cases hb
    refine ⟨by simp, fun i c hc => ?_⟩
    simp only [Subtree.child?_print, Subtree.child?_evaluate] at hc
    obtain ⟨rfl, rfl⟩ := hc
    exact ⟨r.1, rfl, Expr.visit_answers hr⟩
  | foreign span node => cases h

lemma visitStmts_answers {body : List Stmt} {a : List Result × List Sighting}
    (h : visitStmts opens body = .ok a) :
    ∀ (i : Nat) (s : Stmt), body[i]? = some s →
      ∃ r, a.1[i]? = some r ∧ Answers opens (.stmt s) r := by
  induction body generalizing a with
  | nil => simp
  | cons s body ih =>
    obtain ⟨r, hr, h⟩ := bind_eq_ok.mp h
    obtain ⟨rest, hrest, h⟩ := bind_eq_ok.mp h
    cases h
    intro i s' hs'
    cases i with
    | zero =>
      obtain rfl : s = s' := Option.some.inj hs'
      exact ⟨r.1, rfl, Stmt.visit_answers hr⟩
    | succ i => exact ih hrest i s' hs'

lemma Program.visit_answers {p : Program} {a : Result × List Sighting}
    (h : p.visit opens = .ok a) : Answers opens (.program p) a.1 := by
  refine answers_enter h rfl fun b hb => ?_
  obtain ⟨results, hresults, hb⟩ := bind_eq_ok.mp hb
  cases hb
  refine ⟨by simp, fun i c hc => ?_⟩
  obtain ⟨s, hs, rfl⟩ := Option.map_eq_some_iff.mp hc
  obtain ⟨r, hr, hanswers⟩ := visitStmts_answers hresults i s hs
  exact ⟨r, by simp [Result.at?, hr], hanswers⟩

end

/-- A walk fails exactly if some unhandled node has only opened kinds above it; it fails at the
first such node in the order of their paths, and the message names its kind. Else it records the
nodes whose own kind and all kinds above are opened, in this order and each once, and among the
nodes that it comes to it has nothing for those of other kinds and for no others. -/
theorem visit_records_opened_nodes (opens : NodeKind → Bool) (p : Program) :
    ((∃ fault, p.visit opens = .error fault) ↔
      ∃ path t, Exposed opens (.program p) path t ∧ t.fault? ≠ none) ∧
    (∀ fault, p.visit opens = .error fault →
      ∃ path t, Exposed opens (.program p) path t ∧ t.fault? = some fault ∧
        (∀ path' t', path' < path → Exposed opens (.program p) path' t' → t'.fault? = none) ∧
        fault.message = "unhandled " ++ t.role ++ " kind " ++ t.kind.name) ∧
    ∀ result seen, p.visit opens = .ok (result, seen) →
      (∃ nodes : List (List Nat × Subtree), nodes.Pairwise (fun m n => m.1 < n.1) ∧
        (∀ path t, (path, t) ∈ nodes ↔ Exposed opens (.program p) path t ∧ opens t.kind) ∧
        seen = nodes.map fun n => n.2.sighting) ∧
      ∀ path t, Exposed opens (.program p) path t →
        ∃ r, result.at? path = some r ∧ (r = .nothing ↔ opens t.kind = false) := by
  have hmessage : ∀ (t : Subtree) fault, t.fault? = some fault →
      fault.message = "unhandled " ++ t.role ++ " kind " ++ t.kind.name := by
    intro t fault h
    unfold Subtree.fault? at h
    split at h <;> cases h <;> rfl
  have hreports := @Program.visit_reports opens p
  generalize hvisit : p.visit opens = outcome at hreports
  cases hreports with
  | ok nodes handled sorted mem recorded =>
    refine ⟨⟨?_, ?_⟩, ?_, ?_⟩
    · rintro ⟨fault, hfault⟩
      cases hfault
    · rintro ⟨path, t, ht, hfault⟩
      exact (hfault (handled path t ht)).elim
    · intro fault hfault
      cases hfault
    · rintro result seen ⟨rfl⟩
      exact ⟨⟨nodes, sorted, mem, recorded⟩, Program.visit_answers hvisit⟩
  | error path t met unhandled first =>
    refine ⟨⟨fun _ => ⟨path, t, met, by simp [unhandled]⟩, fun _ => ⟨_, rfl⟩⟩, ?_, ?_⟩
    · rintro fault ⟨rfl⟩
      exact ⟨path, t, met, unhandled, first, hmessage t _ unhandled⟩
    · intro result seen hok
      cases hok

/-- A foreign expression is met only if the statement around it is opened. -/
theorem visit_of_hidden_foreign :
    let p : Program := ⟨default, [.print default (.foreign default (.ofCode 0))]⟩
    let opens : NodeKind → Bool := (· ≠ .printing)
    (¬∃ path t, Exposed opens (.program p) path t ∧ t.fault? ≠ none) ∧
      ∃ path t, Exposed (fun _ => true) (.program p) path t ∧ t.fault? ≠ none := by
  intro p opens
  constructor
  · rw [← (visit_records_opened_nodes opens p).1]
    rintro ⟨fault, h⟩
    cases h
  · rw [← (visit_records_opened_nodes _ p).1]
    exact ⟨_, rfl⟩

end HiToolchain
