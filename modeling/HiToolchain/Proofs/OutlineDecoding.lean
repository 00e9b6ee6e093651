import HiToolchain.Proofs.LiteralRange
import HiToolchain.Proofs.OutputPrefix
import HiToolchain.Proofs.ScalarTexts

/-!
# The outline of a program determines it

The document of a program can be decoded to the program without its spans, and the text of the
document shows which document it is: the fields of a node have fixed keys, and a scalar ends where
a line with less indentation begins.
-/

namespace HiToolchain

open Yaml

/-! ### Decoding -/

/-- Reads digits with an optional minus sign. -/
def readInt? : List Char → Option Int
  | '-' :: digits => (readNat? digits).map fun n => -n
  | digits => (readNat? digits).map fun n => n

namespace TokenKind

/-- The kinds that a lexeme can have. -/
def known : List TokenKind :=
  [eof, hi, print, string, number, plus, minus, times, divide, power]

/-- The kind with a name. The code of any other kind stands in parentheses. -/
def ofName? (name : String) : Option TokenKind :=
  (known.find? (·.name = name)).or do
    let code ← readInt? (name.toList.drop "TokenKind(".length).dropLast
    guard ((other code).name = name)
    return other code

end TokenKind

def Yaml.Doc.scalar? : Doc → Option String
  | .scalar text => some text
  | _ => none

def Expr.ofDoc? : Doc → Option Expr
  | .scalar digits => some (.number default digits)
  | .mapping [(type, .scalar kind), (op, .scalar name), (left, l), (right, r)] => do
    guard ([type, kind, op, left, right] = ["type", NodeKind.binary.name, "op", "left", "right"])
    return .binary default (← TokenKind.ofName? name) (← ofDoc? l) (← ofDoc? r)
  | _ => none

def Stmt.ofDoc? : Doc → Option Stmt
  | .mapping [(type, .scalar kind), (value, v)] => do
    guard ([type, value] = ["type", "value"])
    if kind = NodeKind.printing.name then return .print default (← Expr.ofDoc? v)
    else if kind = NodeKind.evaluation.name then return .evaluate default (← Expr.ofDoc? v)
    else
      guard (kind = NodeKind.greeting.name)
      return .greet default (← v.scalar?)
  | _ => none

/-- The program that a document outlines, without spans. -/
def Program.ofDoc? : Doc → Option Program
  | .mapping [(type, .scalar kind), (body, .list docs)] => do
    guard ([type, kind, body] = ["type", NodeKind.program.name, "body"])
    return ⟨default, ← docs.mapM Stmt.ofDoc?⟩
  | _ => none

lemma readNat?_toString (n : Nat) : readNat? (toString n).toList = some n := by
  rw [Nat.toString_eq_ofList_toDigits, String.toList_ofList]
  have hne : Nat.toDigits 10 n ≠ [] := List.ne_nil_of_length_pos Nat.length_toDigits_pos
  have hdigits : ∀ c ∈ Nat.toDigits 10 n, c.isDigit := fun _ hc =>
    Nat.isDigit_of_mem_toDigits (by decide) (by decide) hc
  rw [readNat?_eq hne hdigits, Nat.ofDigitChars_ten_toDigits]

lemma readInt?_toString (n : Int) : readInt? (toString n).toList = some n := by
  cases n with
  | ofNat n =>
    have htext : (toString (Int.ofNat n)).toList = (toString n).toList := rfl
    have hread := readNat?_toString n
    rw [htext]
    unfold readInt?
    split
    · next digits hdigits =>
      -- digits start with no minus sign
      rw [hdigits] at hread
      cases hread
    · rw [hread]
      rfl
  | negSucc n =>
    have htext : (toString (Int.negSucc n)).toList = '-' :: (toString (n + 1)).toList :=
      String.toList_append
    rw [htext, readInt?, readNat?_toString]
    rfl

lemma TokenKind.ofName?_name (k : TokenKind) : ofName? k.name = some k := by
  cases k with
  | other code =>
    have htext : (other code).name.toList =
        "TokenKind(".toList ++ ((toString code).toList ++ [')']) := by
      rw [name, String.toList_append, String.toList_append, List.append_assoc]
      rfl
    have hheads : ∀ k ∈ known, k.name.toList.head? ≠ some 'T' := by decide
    have hnone : known.find? (·.name = (other code).name) = none := by
      rw [List.find?_eq_none]
      intro k hk hname
      apply hheads k hk
      rw [of_decide_eq_true hname, htext]
      rfl
    have hcode : ((other code).name.toList.drop "TokenKind(".length).dropLast =
        (toString code).toList := by
      rw [htext, List.drop_left' String.length_toList, List.dropLast_concat]
    rw [ofName?, hnone, hcode, readInt?_toString]
    simp
  | _ => rfl

def TokenKind.code : TokenKind → Int
  | eof => 0
  | hi => 1
  | print => 2
  | string => 3
  | number => 4
  | plus => 5
  | minus => 6
  | times => 7
  | divide => 8
  | power => 9
  | other code => code

lemma TokenKind.code_ofCode (n : Int) : (ofCode n).code = n := by
  unfold ofCode
  split <;> rfl

/-- The name of a kind tells its code. -/
lemma TokenKind.name_ofCode_inj (m n : Int) : (ofCode m).name = (ofCode n).name ↔ m = n := by
  constructor
  · intro h
    have hkind : some (ofCode m) = some (ofCode n) := by
      rw [← ofName?_name, h, ofName?_name]
    rw [← code_ofCode m, Option.some.inj hkind, code_ofCode]
  · rintro rfl
    rfl

lemma Expr.ofDoc?_outline {e : Expr} {d : Doc} (h : e.outline = .ok d) :
    Expr.ofDoc? d = some e.bare := by
  induction e generalizing d with
  | number span digits =>
    cases h
    rfl
  | binary span op left right ihleft ihright =>
    obtain ⟨l, hl, h⟩ := bind_eq_ok.mp h
    obtain ⟨r, hr, h⟩ := bind_eq_ok.mp h
    cases h
    rw [nodeDoc, Expr.ofDoc?, ihleft hl, ihright hr, TokenKind.ofName?_name]
    rfl
  | foreign span node => cases h

lemma Stmt.ofDoc?_outline {s : Stmt} {d : Doc} (h : s.outline = .ok d) :
    Stmt.ofDoc? d = some s.bare := by
  cases s with
  | greet span name =>
    cases h
    rfl
  | print span value =>
    obtain ⟨v, hv, h⟩ := bind_eq_ok.mp h
    cases h
    rw [nodeDoc, Stmt.ofDoc?, Expr.ofDoc?_outline hv]
    rfl
  | evaluate span value =>
    obtain ⟨v, hv, h⟩ := bind_eq_ok.mp h
    cases h
    rw [nodeDoc, Stmt.ofDoc?, Expr.ofDoc?_outline hv]
    rfl
  | foreign span node => cases h

lemma mapM_of_mapM {α β γ ε : Type} {f : α → Except ε β} {g : β → Option γ} {m : α → γ}
    (h : ∀ a b, f a = .ok b → g b = some (m a)) {as : List α} {bs : List β}
    (hbs : as.mapM f = .ok bs) : bs.mapM g = some (as.map m) := by
  induction as generalizing bs with
  | nil =>
    cases hbs
    rfl
  | cons a as ih =>
    rw [List.mapM_cons] at hbs
    obtain ⟨b, hb, hbs⟩ := bind_eq_ok.mp hbs
    obtain ⟨rest, hrest, hbs⟩ := bind_eq_ok.mp hbs
    cases hbs
    rw [List.mapM_cons, h a b hb, ih hrest]
    rfl

lemma Program.ofDoc?_outline {p : Program} {d : Doc} (h : p.outline = .ok d) :
    Program.ofDoc? d = some p.bare := by
  obtain ⟨docs, hdocs, h⟩ := bind_eq_ok.mp h
  cases h
  have hbody : docs.mapM Stmt.ofDoc? = some (p.body.map Stmt.bare) :=
    mapM_of_mapM (fun _ _ => Stmt.ofDoc?_outline) hdocs
  rw [nodeDoc, Program.ofDoc?, hbody]
  rfl

/-! ### Outlines have no spans -/

lemma Expr.outline_bare (e : Expr) : e.bare.outline = e.outline := by
  induction e with
  | binary span op left right ihleft ihright =>
    rw [Expr.bare, Expr.outline, Expr.outline, ihleft, ihright]
  | _ => rfl

lemma Stmt.outline_bare (s : Stmt) : s.bare.outline = s.outline := by
  cases s <;> simp only [Stmt.bare, Stmt.outline, Expr.outline_bare]

lemma Program.outline_bare (p : Program) : p.bare.outline = p.outline := by
  have hbody : (p.body.map Stmt.bare).mapM Stmt.outline = p.body.mapM Stmt.outline := by
    rw [List.mapM_map]
    exact congrArg (fun f => p.body.mapM f) (funext Stmt.outline_bare)
  rw [Program.outline, Program.outline, Program.bare, hbody]

lemma Expr.outline_of_isHandled {e : Expr} (h : e.isHandled) : ∃ d, e.outline = .ok d := by
  induction e with
  | number span digits => exact ⟨_, rfl⟩
  | binary span op left right ihleft ihright =>
    rw [Expr.isHandled, Bool.and_eq_true] at h
    obtain ⟨l, hl⟩ := ihleft h.1
    obtain ⟨r, hr⟩ := ihright h.2
    rw [Expr.outline, hl, ok_bind, hr]
    exact ⟨_, rfl⟩
  | foreign span node => cases h

lemma Stmt.outline_of_isHandled {s : Stmt} (h : s.isHandled) : ∃ d, s.outline = .ok d := by
  cases s with
  | greet span name => exact ⟨_, rfl⟩
  | print span value | evaluate span value =>
    obtain ⟨d, hd⟩ := Expr.outline_of_isHandled h
    rw [Stmt.outline, hd]
    exact ⟨_, rfl⟩
  | foreign span node => cases h

lemma Program.outline_of_isHandled {p : Program} (h : ∀ s ∈ p.body, s.isHandled) :
    ∃ d, p.outline = .ok d := by
  obtain ⟨docs, hdocs⟩ := mapM_ok fun s hs => Stmt.outline_of_isHandled (h s hs)
  rw [Program.outline, hdocs]
  exact ⟨_, rfl⟩

/-! ### Texts of documents -/

namespace Yaml

lemma Outdented.weaken {indent more : Nat} {text : List Char} (h : Outdented indent text)
    (hle : indent ≤ more) : Outdented more text := by
  refine ⟨fun hmore => h.less (List.IsPrefix.trans ?_ hmore), h.noBreak⟩
  rw [← Nat.add_sub_cancel' hle, List.replicate_add]
  exact List.prefix_append _ _

lemma outdented_nil {indent : Nat} (h : 0 < indent) : Outdented indent [] := by
  refine ⟨fun hprefix => ?_, nofun⟩
  have hlength := hprefix.length_le
  rw [List.length_replicate, List.length_nil] at hlength
  omega

/-- A line that starts with fewer spaces and then something else. -/
lemma outdented_spaces {indent more : Nat} (h : indent < more) {c : Char} (hspace : c ≠ ' ')
    (hbreak : isBreak c = false) (rest : List Char) :
    Outdented more (List.replicate indent ' ' ++ c :: rest) := by
  constructor
  · intro hprefix
    rw [← Nat.add_sub_cancel' h.le, List.replicate_add, List.prefix_append_right_inj] at hprefix
    obtain ⟨n, hn⟩ : ∃ n, more - indent = n + 1 := ⟨more - indent - 1, by omega⟩
    rw [hn, List.replicate_succ, List.cons_prefix_cons] at hprefix
    exact hspace hprefix.1.symm
  · cases indent with
    | zero =>
      rintro _ ⟨rfl⟩
      exact hbreak
    | succ indent =>
      rintro _ ⟨rfl⟩
      rfl

lemma toList_spaces (n : Nat) : (Doc.spaces n).toList = List.replicate n ' ' :=
  String.toList_ofList

/-- A key that starts with something to see. -/
def IsKey (key : String) : Prop :=
  ∃ c more, key.toList = c :: more ∧ c ≠ ' ' ∧ isBreak c = false

namespace Doc

/-- The texts of the documents as fields show which of the two it is. -/
def Discerned (d e : Doc) : Prop :=
  ∀ indent key rest rest', Outdented (indent + 2) rest → Outdented (indent + 2) rest' →
    (fieldText indent key d).toList ++ rest = (fieldText indent key e).toList ++ rest' →
      d = e ∧ rest = rest'

lemma toList_scalarField (indent : Nat) (key s : String) :
    (fieldText indent key (.scalar s)).toList =
      key.toList ++ ':' :: ' ' :: (scalarLine (indent + 2) (indent + key.length + 2) s).toList := by
  rw [fieldText, String.toList_append, String.toList_append, List.append_assoc]
  rfl

lemma toList_mappingField (indent : Nat) (key : String) (field : String × Doc)
    (fields : List (String × Doc)) :
    (fieldText indent key (.mapping (field :: fields))).toList =
      key.toList ++ ':' :: '\n' ::
        (fieldsText (indent + 2) (spaces (indent + 2)) (field :: fields)).toList := by
  rw [fieldText, String.toList_append, String.toList_append, List.append_assoc]
  rfl

lemma toList_fieldsText (indent : Nat) (lead key : String) (value : Doc)
    (fields : List (String × Doc)) :
    (fieldsText indent lead ((key, value) :: fields)).toList =
      lead.toList ++ ((fieldText indent key value).toList ++
        (fieldsText indent (spaces indent) fields).toList) := by
  rw [fieldsText, String.toList_append, String.toList_append, List.append_assoc]

lemma discerned_scalar (s t : String) : Discerned (.scalar s) (.scalar t) := by
  intro indent key rest rest' hrest hrest' h
  rw [toList_scalarField, toList_scalarField, List.append_assoc, List.append_assoc] at h
  obtain ⟨-, h⟩ := List.cons.inj (List.append_cancel_left h)
  obtain ⟨-, h⟩ := List.cons.inj h
  obtain ⟨rfl, hend⟩ := scalarLine_unique hrest hrest' h
  exact ⟨rfl, hend⟩

lemma discerned_scalar_mapping (s : String) (field : String × Doc) (fields : List (String × Doc)) :
    Discerned (.scalar s) (.mapping (field :: fields)) := by
  intro indent key rest rest' hrest hrest' h
  rw [toList_scalarField, toList_mappingField, List.append_assoc, List.append_assoc] at h
  obtain ⟨-, h⟩ := List.cons.inj (List.append_cancel_left h)
  cases h

lemma Discerned.symm {d e : Doc} (h : Discerned d e) : Discerned e d := by
  intro indent key rest rest' hrest hrest' heq
  obtain ⟨rfl, hend⟩ := h indent key rest' rest hrest' hrest heq.symm
  exact ⟨rfl, hend.symm⟩

lemma exists_fieldText (indent : Nat) (key : String) (d : Doc) :
    ∃ more, (fieldText indent key d).toList = key.toList ++ more := by
  cases d with
  | scalar s => exact ⟨_, toList_scalarField indent key s⟩
  | list items =>
    cases items with
    | nil =>
      rw [fieldText, String.toList_append]
      exact ⟨_, rfl⟩
    | cons item items =>
      rw [fieldText, String.toList_append, String.toList_append, List.append_assoc]
      exact ⟨_, rfl⟩
  | mapping fields =>
    cases fields with
    | nil =>
      rw [fieldText, String.toList_append]
      exact ⟨_, rfl⟩
    | cons field fields => exact ⟨_, toList_mappingField indent key field fields⟩

/-- What comes after a field: another one, or what follows the fields. -/
lemma outdented_fields {indent : Nat} {fields : List (String × Doc)}
    (hkeys : ∀ f ∈ fields, IsKey f.1) {rest : List Char} (hrest : Outdented (indent + 2) rest) :
    Outdented (indent + 2) ((fieldsText indent (spaces indent) fields).toList ++ rest) := by
  cases fields with
  | nil =>
    rw [fieldsText]
    exact hrest
  | cons field fields =>
    obtain ⟨key, value⟩ := field
    obtain ⟨c, more, hkey, hspace, hbreak⟩ := hkeys _ List.mem_cons_self
    obtain ⟨text, htext⟩ := exists_fieldText indent key value
    rw [toList_fieldsText, htext, hkey, toList_spaces]
    simp only [List.append_assoc, List.cons_append]
    exact outdented_spaces (by omega) hspace hbreak _

/-- Fields with the same keys, and values that their texts tell apart. -/
def SameKeys (fs gs : List (String × Doc)) : Prop :=
  List.Forall₂ (fun f g => f.1 = g.1 ∧ IsKey f.1 ∧ Discerned f.2 g.2) fs gs

lemma SameKeys.nil : SameKeys [] [] := List.Forall₂.nil

lemma SameKeys.field {fs gs : List (String × Doc)} {key : String} {d e : Doc}
    (hrest : SameKeys fs gs) (hkey : IsKey key) (h : Discerned d e) :
    SameKeys ((key, d) :: fs) ((key, e) :: gs) :=
  List.Forall₂.cons ⟨rfl, hkey, h⟩ hrest

lemma SameKeys.isKey {fs gs : List (String × Doc)} (h : SameKeys fs gs) :
    (∀ f ∈ fs, IsKey f.1) ∧ ∀ g ∈ gs, IsKey g.1 := by
  induction h with
  | nil => exact ⟨List.forall_mem_nil _, List.forall_mem_nil _⟩
  | cons hfield hrest ih =>
    obtain ⟨hkey, hf, -⟩ := hfield
    rw [List.forall_mem_cons, List.forall_mem_cons]
    exact ⟨⟨hf, ih.1⟩, hkey ▸ hf, ih.2⟩

lemma SameKeys.unique {fs gs : List (String × Doc)} (h : SameKeys fs gs) {indent : Nat}
    {lead : String} {rest rest' : List Char} (hrest : Outdented (indent + 2) rest)
    (hrest' : Outdented (indent + 2) rest')
    (heq : (fieldsText indent lead fs).toList ++ rest =
      (fieldsText indent lead gs).toList ++ rest') : fs = gs ∧ rest = rest' := by
  induction h generalizing lead with
  | nil =>
    rw [fieldsText] at heq
    exact ⟨rfl, heq⟩
  | @cons f g fs gs hfield hfields ih =>
    obtain ⟨key, d⟩ := f
    obtain ⟨key', e⟩ := g
    obtain ⟨rfl, hkey, hdiscerned⟩ := hfield
    rw [toList_fieldsText, toList_fieldsText, List.append_assoc, List.append_assoc,
      List.append_assoc, List.append_assoc] at heq
    obtain ⟨hfs, hgs⟩ := isKey hfields
    obtain ⟨rfl, hmore⟩ := hdiscerned _ _ _ _ (outdented_fields hfs hrest)
      (outdented_fields hgs hrest') (List.append_cancel_left heq)
    obtain ⟨rfl, hend⟩ := ih hmore
    exact ⟨rfl, hend⟩

/-- Two mappings with the same keys. -/
def SameNode (d e : Doc) : Prop :=
  ∃ f fs g gs, d = .mapping (f :: fs) ∧ e = .mapping (g :: gs) ∧ SameKeys (f :: fs) (g :: gs)

lemma SameNode.discerned {d e : Doc} (h : SameNode d e) : Discerned d e := by
  obtain ⟨f, fs, g, gs, rfl, rfl, hkeys⟩ := h
  intro indent key rest rest' hrest hrest' heq
  rw [toList_mappingField, toList_mappingField, List.append_assoc, List.append_assoc] at heq
  obtain ⟨-, heq⟩ := List.cons.inj (List.append_cancel_left heq)
  obtain ⟨-, heq⟩ := List.cons.inj heq
  obtain ⟨hfields, hend⟩ := hkeys.unique (hrest.weaken (by omega)) (hrest'.weaken (by omega)) heq
  exact ⟨congrArg Doc.mapping hfields, hend⟩

lemma toList_itemsText (indent : Nat) (lead : String) (field : String × Doc)
    (fields : List (String × Doc)) (items : List Doc) :
    (itemsText indent lead (.mapping (field :: fields) :: items)).toList =
      lead.toList ++ '-' :: ' ' :: ((fieldsText (indent + 2) "" (field :: fields)).toList ++
        (itemsText indent (spaces indent) items).toList) := by
  rw [itemsText, itemText]
  simp only [String.toList_append, List.append_assoc]
  rfl

lemma outdented_items (indent : Nat) (items : List Doc) :
    Outdented (indent + 2) (itemsText indent (spaces indent) items).toList := by
  cases items with
  | nil =>
    rw [itemsText]
    exact outdented_nil (by omega)
  | cons item items =>
    rw [itemsText]
    simp only [String.toList_append, List.append_assoc, toList_spaces]
    exact outdented_spaces (by omega) (by decide) rfl _

lemma itemsText_inj {indent : Nat} {ds es : List Doc} (h : ∀ d ∈ ds, ∀ e ∈ es, SameNode d e)
    (heq : (itemsText indent (spaces indent) ds).toList =
      (itemsText indent (spaces indent) es).toList) : ds = es := by
  have hne : ∀ item items, (itemsText indent (spaces indent) (item :: items)).toList ≠ [] := by
    intro item items
    rw [itemsText]
    simp [String.toList_append]
  induction ds generalizing es with
  | nil =>
    cases es with
    | nil => rfl
    | cons e es =>
      rw [itemsText] at heq
      exact (hne e es heq.symm).elim
  | cons d ds ih =>
    cases es with
    | nil =>
      have hnil : itemsText indent (spaces indent) [] = "" := by rw [itemsText]
      rw [hnil] at heq
      exact (hne d ds heq).elim
    | cons e es =>
      obtain ⟨f, fs, g, gs, rfl, rfl, hkeys⟩ := h d List.mem_cons_self e List.mem_cons_self
      rw [toList_itemsText, toList_itemsText] at heq
      obtain ⟨-, heq⟩ := List.cons.inj (List.append_cancel_left heq)
      obtain ⟨-, heq⟩ := List.cons.inj heq
      obtain ⟨hfields, hmore⟩ := hkeys.unique ((outdented_items indent ds).weaken (by omega))
        ((outdented_items indent es).weaken (by omega)) heq
      rw [hfields, ih (fun d hd e he => h d (List.mem_cons_of_mem _ hd) e
        (List.mem_cons_of_mem _ he)) hmore]

end Doc

end Yaml

/-! ### Texts of outlines -/

open Doc

lemma isKey_type : IsKey "type" := ⟨'t', _, rfl, by decide, rfl⟩

lemma sameNode_nodeDoc {kind kind' : NodeKind} {parts parts' : List (String × Doc)}
    (h : SameKeys parts parts') : SameNode (nodeDoc kind parts) (nodeDoc kind' parts') :=
  ⟨_, _, _, _, rfl, rfl, h.field isKey_type (discerned_scalar _ _)⟩

lemma Expr.outline_discerned {e e' : Expr} {d d' : Doc} (h : e.outline = .ok d)
    (h' : e'.outline = .ok d') : Discerned d d' := by
  induction e generalizing e' d d' with
  | number span digits =>
    cases h
    cases e' with
    | number span' digits' =>
      cases h'
      exact discerned_scalar _ _
    | binary span' op' left' right' =>
      obtain ⟨l', hl', h'⟩ := bind_eq_ok.mp h'
      obtain ⟨r', hr', h'⟩ := bind_eq_ok.mp h'
      cases h'
      exact discerned_scalar_mapping _ _ _
    | foreign span' node' => cases h'
  | binary span op left right ihleft ihright =>
    obtain ⟨l, hl, h⟩ := bind_eq_ok.mp h
    obtain ⟨r, hr, h⟩ := bind_eq_ok.mp h
    cases h
    cases e' with
    | number span' digits' =>
      cases h'
      exact (discerned_scalar_mapping _ _ _).symm
    | binary span' op' left' right' =>
      obtain ⟨l', hl', h'⟩ := bind_eq_ok.mp h'
      obtain ⟨r', hr', h'⟩ := bind_eq_ok.mp h'
      cases h'
      have hop : IsKey "op" := ⟨'o', _, rfl, by decide, rfl⟩
      have hleft : IsKey "left" := ⟨'l', _, rfl, by decide, rfl⟩
      have hright : IsKey "right" := ⟨'r', _, rfl, by decide, rfl⟩
      have hparts : SameKeys [("op", .scalar op.name), ("left", l), ("right", r)]
          [("op", .scalar op'.name), ("left", l'), ("right", r')] :=
        ((SameKeys.nil.field hright (ihright hr hr')).field hleft (ihleft hl hl')).field hop
          (discerned_scalar _ _)
      exact (sameNode_nodeDoc hparts).discerned
    | foreign span' node' => cases h'
  | foreign span node => cases h

/-- The document of a statement is a mapping with the document of an expression in it. -/
lemma Stmt.outline_node {s : Stmt} {d : Doc} (h : s.outline = .ok d) :
    ∃ kind v, d = nodeDoc kind [("value", v)] ∧ ∃ e : Expr, e.outline = .ok v := by
  cases s with
  | greet span name =>
    cases h
    exact ⟨_, _, rfl, .number default name, rfl⟩
  | print span value | evaluate span value =>
    obtain ⟨v, hv, h⟩ := bind_eq_ok.mp h
    cases h
    exact ⟨_, v, rfl, value, hv⟩
  | foreign span node => cases h

lemma Stmt.outline_sameNode {s s' : Stmt} {d d' : Doc} (h : s.outline = .ok d)
    (h' : s'.outline = .ok d') : SameNode d d' := by
  obtain ⟨kind, v, rfl, e, he⟩ := Stmt.outline_node h
  obtain ⟨kind', v', rfl, e', he'⟩ := Stmt.outline_node h'
  have hvalue : IsKey "value" := ⟨'v', _, rfl, by decide, rfl⟩
  exact sameNode_nodeDoc (SameKeys.nil.field hvalue (Expr.outline_discerned he he'))

lemma exists_of_mem_mapM {α β ε : Type} {f : α → Except ε β} {as : List α} {bs : List β}
    (h : as.mapM f = .ok bs) : ∀ b ∈ bs, ∃ a ∈ as, f a = .ok b := by
  induction as generalizing bs with
  | nil =>
    cases h
    exact List.forall_mem_nil _
  | cons a as ih =>
    rw [List.mapM_cons] at h
    obtain ⟨b, hb, h⟩ := bind_eq_ok.mp h
    obtain ⟨rest, hrest, h⟩ := bind_eq_ok.mp h
    cases h
    rw [List.forall_mem_cons]
    refine ⟨⟨a, List.mem_cons_self, hb⟩, fun b' hb' => ?_⟩
    obtain ⟨a', ha', hfa'⟩ := ih hrest b' hb'
    exact ⟨a', List.mem_cons_of_mem _ ha', hfa'⟩

lemma text_of_body (docs : List Doc) : (nodeDoc .program [("body", .list docs)]).text.toList =
    (fieldText 0 "type" (.scalar NodeKind.program.name)).toList ++
      (fieldText 0 "body" (.list docs)).toList := by
  rw [nodeDoc, Doc.text, toList_fieldsText, toList_fieldsText, fieldsText]
  simp [spaces]

lemma text_of_body_inj {ds es : List Doc} (h : ∀ d ∈ ds, ∀ e ∈ es, SameNode d e)
    (heq : (nodeDoc .program [("body", .list ds)]).text =
      (nodeDoc .program [("body", .list es)]).text) : ds = es := by
  have hbody : (fieldText 0 "body" (.list ds)).toList = (fieldText 0 "body" (.list es)).toList := by
    have htoList := congrArg String.toList heq
    rw [text_of_body, text_of_body] at htoList
    exact List.append_cancel_left htoList
  have hcons : ∀ item items, (fieldText 0 "body" (.list (item :: items))).toList =
      "body:\n".toList ++ (itemsText 0 (spaces 0) (item :: items)).toList := by
    intro item items
    rw [fieldText, String.toList_append]
    rfl
  have hnil : (fieldText 0 "body" (.list [])).toList = "body: []\n".toList := by
    rw [fieldText]
    rfl
  cases ds with
  | nil =>
    cases es with
    | nil => rfl
    | cons e es =>
      rw [hnil, hcons] at hbody
      cases hbody
  | cons d ds =>
    cases es with
    | nil =>
      rw [hnil, hcons] at hbody
      cases hbody
    | cons e es =>
      rw [hcons, hcons] at hbody
      exact itemsText_inj h (List.append_cancel_left hbody)

/-- Programs with the same text of their documents have the same documents. -/
lemma Program.outline_text_inj {p q : Program} {d e : Doc} (hd : p.outline = .ok d)
    (he : q.outline = .ok e) (h : d.text = e.text) : d = e := by
  obtain ⟨ds, hds, hd⟩ := bind_eq_ok.mp hd
  obtain ⟨es, hes, he⟩ := bind_eq_ok.mp he
  cases hd
  cases he
  have hsame : ∀ d ∈ ds, ∀ e ∈ es, SameNode d e := by
    intro d hd e he
    obtain ⟨s, -, hs⟩ := exists_of_mem_mapM hds d hd
    obtain ⟨t, -, ht⟩ := exists_of_mem_mapM hes e he
    exact Stmt.outline_sameNode hs ht
  rw [text_of_body_inj hsame h]

/-- Programs without foreign nodes have documents, and decoding gives back the program without its
spans: its statements in their order, the operands of each operation on their sides, and each
operator by its name, which tells its code. So two documents are the same exactly if the programs
are but for their spans, and this is also when their texts are the same. -/
theorem outline_determines_program (p q : Program) (hp : ∀ s ∈ p.body, s.isHandled)
    (hq : ∀ s ∈ q.body, s.isHandled) :
    (∀ m n, (TokenKind.ofCode m).name = (TokenKind.ofCode n).name ↔ m = n) ∧
    ∃ d e, p.outline = .ok d ∧ q.outline = .ok e ∧
      Program.ofDoc? d = some p.bare ∧ Program.ofDoc? e = some q.bare ∧
      (d = e ↔ p.bare = q.bare) ∧ (d.text = e.text ↔ p.bare = q.bare) := by
  refine ⟨TokenKind.name_ofCode_inj, ?_⟩
  obtain ⟨d, hd⟩ := Program.outline_of_isHandled hp
  obtain ⟨e, he⟩ := Program.outline_of_isHandled hq
  have hdecoded := Program.ofDoc?_outline hd
  have hdecoded' := Program.ofDoc?_outline he
  have hdocs : d = e ↔ p.bare = q.bare := by
    constructor
    · rintro rfl
      exact Option.some.inj (hdecoded.symm.trans hdecoded')
    · intro hbare
      have hsame : p.outline = q.outline := by
        rw [← Program.outline_bare, hbare, Program.outline_bare]
      exact Except.ok.inj (hd.symm.trans (hsame.trans he))
  refine ⟨d, e, hd, he, hdecoded, hdecoded', hdocs, ?_⟩
  rw [← hdocs]
  exact ⟨Program.outline_text_inj hd he, congrArg Doc.text⟩

theorem outline_of_exchanged_operands :
    let greeting : Stmt := .greet default "a\nb"
    let print (left right : String) : Stmt :=
      .print default (.binary default (.other 77) (.number default left) (.number default right))
    let p : Program := ⟨default, [greeting, print "1" "2"]⟩
    let q : Program := ⟨default, [greeting, print "2" "1"]⟩
    ∃ d e, p.outline = .ok d ∧ q.outline = .ok e ∧ Program.ofDoc? d = some p ∧
      d ≠ e ∧ d.text ≠ e.text := by
  intro greeting print p q
  obtain ⟨-, d, e, hd, he, hdecoded, -, hdocs, htexts⟩ :=
    outline_determines_program p q (by decide) (by decide)
  have hbare : p.bare ≠ q.bare := by decide
  refine ⟨d, e, hd, he, hdecoded, ?_, ?_⟩
  · rw [Ne, hdocs]
    exact hbare
  · rw [Ne, htexts]
    exact hbare

end HiToolchain
