import HiToolchain.Proofs.EnumerationFile

/-!
# What a generated enumeration means

The file that is made for declarations is compared with them. A name can make the file one that
does not compile, and a constant with the name of the receiver is hidden in the method, whose case
for it then stands for every number that no case before it takes.
-/

namespace HiToolchain.Kinds

/-! ### What the file declares -/

/-- Names that no constant can have: the file uses them for something else, or they declare nothing
that can be used. -/
def clashingNames (package : String) : List String :=
  ["_", "NodeKind", "int", "iota", "string", "init"] ++ if package = "main" then ["main"] else []

lemma names_listing (package : String) (ds : List Declaration) :
    (listing package ds).constants.map Constant.name = ds.map Declaration.name := by
  cases ds with
  | nil => rfl
  | cons first rest =>
    simp only [listing, List.map_cons, List.map_map]
    rfl

lemma declared_listing (package : String) (ds : List Declaration) :
    (listing package ds).declared = "NodeKind" :: ds.map Declaration.name :=
  congrArg _ (names_listing package ds)

lemma mem_clashingNames {package name : String} :
    name ∈ clashingNames package ↔ name = "NodeKind" ∨ name ∈ ["_", "init"] ∨
      name ∈ ["int", "iota", "string"] ∨ package = "main" ∧ name = "main" := by
  rw [clashingNames, List.mem_append]
  by_cases hmain : package = "main"
  · rw [if_pos hmain]
    simp only [hmain, true_and, List.mem_cons, List.not_mem_nil, or_false]
    tauto
  · rw [if_neg hmain]
    simp only [hmain, false_and, List.mem_cons, List.not_mem_nil, or_false]
    tauto

lemma File.Compiles.notMem_clashingNames {package : String} {ds : List Declaration}
    (h : (listing package ds).Compiles) {d : Declaration} (hd : d ∈ ds) :
    d.name ∉ clashingNames package := by
  have hname : d.name ∈ ds.map Declaration.name := List.mem_map_of_mem hd
  have hdeclared : d.name ∈ (listing package ds).declared := by
    rw [declared_listing]
    exact List.mem_cons_of_mem _ hname
  have hdistinct := h.distinct
  rw [declared_listing, List.nodup_cons] at hdistinct
  rw [mem_clashingNames]
  rintro (htype | hunusable | hbuiltin | ⟨hpackage, hmain⟩)
  · exact hdistinct.1 (htype ▸ hname)
  · exact (h.usable d.name hdeclared).1 hunusable
  · exact h.builtin d.name hbuiltin hdeclared
  · exact (h.usable d.name hdeclared).2 hpackage hmain

/-- The file compiles exactly if no name clashes. -/
lemma compiles_listing_iff {package : String} {ds : List Declaration}
    (hdistinct : (ds.map Declaration.name).Nodup) :
    (listing package ds).Compiles ↔
      package ≠ "_" ∧ ∀ d ∈ ds, d.name ∉ clashingNames package := by
  refine ⟨fun h => ⟨h.package, fun d hd => h.notMem_clashingNames hd⟩, ?_⟩
  rintro ⟨hpackage, hnames⟩
  have hfree {name : String} (hname : name ∈ clashingNames package) :
      name ∉ ds.map Declaration.name := by
    intro hmem
    obtain ⟨d, hd, rfl⟩ := List.mem_map.mp hmem
    exact hnames d hd hname
  constructor
  case package => exact hpackage
  case distinct =>
    rw [declared_listing]
    exact List.nodup_cons.mpr ⟨hfree (mem_clashingNames.mpr (.inl rfl)), hdistinct⟩
  case usable =>
    rw [declared_listing]
    intro name hname
    obtain rfl | hname := List.mem_cons.mp hname
    · exact ⟨by decide, fun _ => by decide⟩
    · exact ⟨fun hunusable => hfree (mem_clashingNames.mpr (.inr (.inl hunusable))) hname,
        fun hpackage hmain =>
          hfree (mem_clashingNames.mpr (.inr (.inr (.inr ⟨hpackage, hmain⟩)))) hname⟩
  case builtin =>
    rw [declared_listing]
    intro name hbuiltin hname
    obtain rfl | hname := List.mem_cons.mp hname
    · exact absurd hbuiltin (by decide)
    · exact hfree (mem_clashingNames.mpr (.inr (.inr (.inl hbuiltin)))) hname
  case base => rfl
  case counter => cases ds <;> simp [listing]
  case repeated => cases ds <;> simp [listing]
  case receiver => rfl
  case method => exact ⟨rfl, rfl⟩
  case subject => rfl
  case cases =>
    rw [names_listing]
    intro c hc
    obtain ⟨d, hd, rfl⟩ := List.mem_map.mp hc
    exact .inr (List.mem_map_of_mem hd)

lemma value?_listing (package : String) {ds : List Declaration}
    (hdistinct : (ds.map Declaration.name).Nodup) {i : Nat} {d : Declaration}
    (hd : ds[i]? = some d) : (listing package ds).value? d.name = some i := by
  rw [File.value?, names_listing, List.findIdx?_eq_some_iff_getElem]
  obtain ⟨hi, rfl⟩ := List.getElem?_eq_some_iff.mp hd
  have hbound : i < (ds.map Declaration.name).length := by rwa [List.length_map]
  refine ⟨hbound, by simp, fun j hj => ?_⟩
  have hlt : j < (ds.map Declaration.name).length := hj.trans hbound
  have hne : (ds.map Declaration.name)[j] ≠ (ds.map Declaration.name)[i] :=
    fun heq => absurd (hdistinct.getElem_inj_iff.mp heq) (by omega)
  simpa using hne

lemma index_unique {ds : List Declaration} (hdistinct : (ds.map Declaration.name).Nodup)
    {i j : Nat} {d c : Declaration} (hd : ds[i]? = some d) (hc : ds[j]? = some c)
    (hname : c.name = d.name) : j = i := by
  have hvalue := value?_listing "" hdistinct hc
  rw [hname, value?_listing "" hdistinct hd, Option.some_inj] at hvalue
  exact hvalue.symm

/-! ### What the method returns -/

/-- The case of a declaration takes its number, or every number if the receiver hides its name. -/
def Declaration.Takes (d : Declaration) (i : Nat) (v : Int) : Prop := d.name = "k" ∨ v = i

section

variable {package : String} {ds : List Declaration} {v : Int}

variable (package) in
lemma takes_iff (hdistinct : (ds.map Declaration.name).Nodup) {i : Nat} {d : Declaration}
    (hd : ds[i]? = some d) :
    (d.name = (listing package ds).receiver ∨
      ((listing package ds).value? d.name).map Int.ofNat = some v) ↔ d.Takes i v := by
  rw [value?_listing package hdistinct hd, Option.map_some, Option.some_inj, eq_comm (b := v)]
  rfl

/-- The first case that takes a number answers for it. -/
lemma string_of_first (hdistinct : (ds.map Declaration.name).Nodup) {i : Nat} {d : Declaration}
    (hd : ds[i]? = some d) (htakes : d.Takes i v)
    (hfirst : ∀ j < i, ∀ c, ds[j]? = some c → ¬ c.Takes j v) :
    (listing package ds).string v = d.tag := by
  obtain ⟨hlt, hdi⟩ := List.getElem?_eq_some_iff.mp hd
  have hfind : (listing package ds).cases.find? (fun c => c.1 = (listing package ds).receiver ∨
      ((listing package ds).value? c.1).map Int.ofNat = some v) = some (d.name, d.tag) := by
    rw [List.find?_eq_some_iff_getElem, decide_eq_true_iff]
    refine ⟨(takes_iff package hdistinct hd).mpr htakes, i, by simpa [listing] using hlt, ?_, ?_⟩
    · simp [listing, hdi]
    · intro j hj
      have hjd : ds[j]? = some ds[j] := List.getElem?_eq_getElem (by omega)
      have hother := (takes_iff package hdistinct hjd).not.mpr (hfirst j hj _ hjd)
      simpa [listing] using hother
  rw [File.string, hfind]
  rfl

/-- A number that no case takes is unknown. -/
lemma string_of_none (hdistinct : (ds.map Declaration.name).Nodup)
    (hnone : ∀ (i : Nat) d, ds[i]? = some d → ¬ d.Takes i v) :
    (listing package ds).string v = "unknown".toUTF8 := by
  have hfind : (listing package ds).cases.find? (fun c => c.1 = (listing package ds).receiver ∨
      ((listing package ds).value? c.1).map Int.ofNat = some v) = none := by
    rw [List.find?_eq_none]
    intro c hc
    obtain ⟨d, hd, rfl⟩ := List.mem_map.mp hc
    obtain ⟨i, hi⟩ := List.getElem?_of_mem hd
    rw [decide_eq_true_iff]
    exact (takes_iff package hdistinct hi).not.mpr (hnone i d hi)
  rw [File.string, hfind]
  rfl

/-- Behind the constant that the receiver hides no case is reached. -/
lemma string_of_hidden (hdistinct : (ds.map Declaration.name).Nodup) {i : Nat} {d : Declaration}
    (hd : ds[i]? = some d) (hname : d.name = "k") (hv : ∀ j < i, v ≠ j) :
    (listing package ds).string v = d.tag := by
  refine string_of_first hdistinct hd (.inl hname) fun j hj c hc htakes => ?_
  obtain hk | hvj := htakes
  · have hsame := index_unique hdistinct hd hc (hk.trans hname.symm)
    omega
  · exact hv j hj hvj

/-- Up to the constant that the receiver hides every case answers for its own number. -/
lemma string_of_visible (hdistinct : (ds.map Declaration.name).Nodup) {i : Nat} {d : Declaration}
    (hd : ds[i]? = some d) (hvisible : ∀ j < i, ∀ c, ds[j]? = some c → c.name ≠ "k") :
    (listing package ds).string i = d.tag := by
  refine string_of_first hdistinct hd (.inr rfl) fun j hj c hc htakes => ?_
  obtain hk | hij := htakes
  · exact hvisible j hj c hc hk
  · omega

end

/-! ### What the file lists -/

/-- If the receiver hides a constant, the texts from this one on are those of unknown numbers. -/
def HiddenUnknown (kinds : List (String × ByteArray)) : Prop :=
  ∀ (i j : Nat) text kind, i ≤ j → kinds[i]? = some ("k", text) → kinds[j]? = some kind →
    kind.2 = "unknown".toUTF8

/-- The kinds that no hidden constant precedes have the tags of the declarations. -/
def VisibleTagged (ds : List Declaration) (kinds : List (String × ByteArray)) : Prop :=
  ∀ (i : Nat) d kind, ds[i]? = some d → kinds[i]? = some kind →
    (∀ j < i, ∀ c, ds[j]? = some c → c.name ≠ "k") → kind.2 = d.tag

section

variable {package : String} {ds : List Declaration} {kinds : List (String × ByteArray)}

lemma declaration_of_kind (hnames : kinds.map Prod.fst = ds.map Declaration.name) {i : Nat}
    {kind : String × ByteArray} (hkind : kinds[i]? = some kind) :
    ∃ d, ds[i]? = some d ∧ d.name = kind.1 := by
  have hname := congrArg (·[i]?) hnames
  simp only [List.getElem?_map, hkind, Option.map_some] at hname
  exact Option.map_eq_some_iff.mp hname.symm

lemma kind_of_declaration (hnames : kinds.map Prod.fst = ds.map Declaration.name) {i : Nat}
    {d : Declaration} (hd : ds[i]? = some d) : ∃ text, kinds[i]? = some (d.name, text) := by
  have hname := congrArg (·[i]?) hnames
  simp only [List.getElem?_map, hd, Option.map_some] at hname
  obtain ⟨⟨name, text⟩, hkind, rfl⟩ := Option.map_eq_some_iff.mp hname
  exact ⟨text, hkind⟩

lemma File.Lists.hiddenUnknown (hdistinct : (ds.map Declaration.name).Nodup)
    (hnames : kinds.map Prod.fst = ds.map Declaration.name)
    (h : (listing package ds).Lists kinds) : HiddenUnknown kinds := by
  intro i j text kind hij hhidden hkind
  obtain ⟨d, hd, hname⟩ := declaration_of_kind hnames hhidden
  have hbound : j < kinds.length := (List.getElem?_eq_some_iff.mp hkind).1
  -- the hidden constant answers for a number that is too great as it does for the kind
  have hunknown := h.unknown kinds.length fun _ _ => by omega
  have htext := h.text j kind hkind
  rw [string_of_hidden hdistinct hd hname fun _ _ => by omega] at hunknown htext
  exact htext.symm.trans hunknown

lemma File.Lists.visibleTagged (hdistinct : (ds.map Declaration.name).Nodup)
    (h : (listing package ds).Lists kinds) : VisibleTagged ds kinds := by
  intro i d kind hd hkind hvisible
  rw [← h.text i kind hkind, string_of_visible hdistinct hd hvisible]

/-- The hidden constant is itself preceded by none. -/
lemma tag_of_hidden (hdistinct : (ds.map Declaration.name).Nodup)
    (hnames : kinds.map Prod.fst = ds.map Declaration.name) (hhidden : HiddenUnknown kinds)
    (htags : VisibleTagged ds kinds) {i : Nat} {d : Declaration} (hd : ds[i]? = some d)
    (hname : d.name = "k") : d.tag = "unknown".toUTF8 := by
  obtain ⟨text, hkind⟩ := kind_of_declaration hnames hd
  rw [hname] at hkind
  have hvisible : ∀ j < i, ∀ c, ds[j]? = some c → c.name ≠ "k" := by
    intro j hj c hc hk
    have hsame := index_unique hdistinct hd hc (hk.trans hname.symm)
    omega
  rw [← htags i d _ hd hkind hvisible, hhidden i i text _ le_rfl hkind hkind]

/-- The file of declarations lists kinds of the same names exactly if it compiles, hidden kinds
have the text of unknown numbers, and the others have the tags of the declarations. -/
lemma lists_listing_iff (hdistinct : (ds.map Declaration.name).Nodup)
    (hnames : kinds.map Prod.fst = ds.map Declaration.name) :
    (listing package ds).Lists kinds ↔
      (listing package ds).Compiles ∧ HiddenUnknown kinds ∧ VisibleTagged ds kinds := by
  constructor
  · exact fun h => ⟨h.compiles, h.hiddenUnknown hdistinct hnames, h.visibleTagged hdistinct⟩
  rintro ⟨hcompiles, hhidden, htags⟩
  have hlength : kinds.length = ds.length := by simpa using congrArg List.length hnames
  constructor
  case compiles => exact hcompiles
  case constants => rw [names_listing, hnames]
  case value =>
    intro i kind hkind
    obtain ⟨d, hd, hname⟩ := declaration_of_kind hnames hkind
    rw [← hname]
    exact value?_listing package hdistinct hd
  case text =>
    intro i kind hkind
    obtain ⟨d, hd, -⟩ := declaration_of_kind hnames hkind
    by_cases hvisible : ∀ j < i, ∀ c, ds[j]? = some c → c.name ≠ "k"
    · rw [string_of_visible hdistinct hd hvisible, htags i d kind hd hkind hvisible]
    · push Not at hvisible
      obtain ⟨j, hj, c, hc, hname⟩ := hvisible
      obtain ⟨text, hfirst⟩ := kind_of_declaration hnames hc
      rw [hname] at hfirst
      rw [string_of_hidden hdistinct hc hname fun _ _ => by omega,
        tag_of_hidden hdistinct hnames hhidden htags hc hname,
        hhidden j i text kind hj.le hfirst hkind]
  case unknown =>
    intro v hv
    rw [hlength] at hv
    by_cases hvisible : ∀ (i : Nat) d, ds[i]? = some d → d.name ≠ "k"
    · refine string_of_none hdistinct fun i d hd htakes => ?_
      exact htakes.elim (hvisible i d hd) (hv i (List.getElem?_eq_some_iff.mp hd).1)
    · push Not at hvisible
      obtain ⟨i, d, hd, hname⟩ := hvisible
      have hbound := (List.getElem?_eq_some_iff.mp hd).1
      rw [string_of_hidden hdistinct hd hname fun j hj => hv j (by omega),
        tag_of_hidden hdistinct hnames hhidden htags hd hname]

end

/-! ### Faithfulness -/

section

variable {package text : String} {es : List Entry}

lemma names_declarations (es : List Entry) :
    (es.map Entry.declaration).map Declaration.name = es.map Entry.name := by
  rw [List.map_map]
  rfl

/-- There is a file if every literal is between double quotes and no keyword stands for a name. -/
lemma Declares.generate_eq_ok_iff (htext : Declares es text) {file : String} :
    generate package text = .ok file ↔
      ((∀ e ∈ es, e.isInterpreted) ∧ ∀ name ∈ package :: es.map Entry.name, name ∉ keywords) ∧
        file = Enumeration.text package (es.map Entry.declaration) := by
  obtain ⟨hform, hparse⟩ | ⟨⟨e, he, hraw⟩, fault, hfault⟩ := htext.parse
  · rw [generate, hparse, ← names_declarations]
    generalize es.map Entry.declaration = ds
    by_cases hkeyword : (package :: ds.map Declaration.name).any (· ∈ keywords)
    · obtain ⟨name, hname, hmem⟩ := List.any_eq_true.mp hkeyword
      have hsome : ¬∀ name ∈ package :: ds.map Declaration.name, name ∉ keywords :=
        fun hnone => hnone name hname (of_decide_eq_true hmem)
      simp only [Except.mapError, ok_bind, if_pos hkeyword, hsome, and_false, false_and, iff_false]
      exact fun h => by cases h
    · have hnone : ∀ name ∈ package :: ds.map Declaration.name, name ∉ keywords :=
        fun name hname hmem =>
          hkeyword (List.any_eq_true.mpr ⟨name, hname, decide_eq_true hmem⟩)
      simp only [Except.mapError, ok_bind, if_neg hkeyword]
      exact ⟨fun h => ⟨⟨hform, hnone⟩, by cases h; rfl⟩, fun h => by rw [h.2]; rfl⟩
  · rw [generate, hfault]
    refine iff_of_false (fun h => by cases h) fun h => ?_
    rw [h.1.1 e he] at hraw
    cases hraw

/-- What is generated is read as the listing of the declarations. -/
lemma Declares.read_generated (htext : Declares es text) (hpackage : IsName package)
    {file : String} (hfile : generate package text = .ok file) :
    File.ofText? file = some (listing package (es.map Entry.declaration)) := by
  obtain ⟨⟨-, hfree⟩, rfl⟩ := htext.generate_eq_ok_iff.mp hfile
  obtain ⟨hfreePackage, hfreeNames⟩ := List.forall_mem_cons.mp hfree
  refine file_text ⟨hpackage, hfreePackage⟩ fun d hd => ?_
  obtain ⟨e, he, rfl⟩ := List.mem_map.mp hd
  exact ⟨e.isName, hfreeNames _ (List.mem_map_of_mem he)⟩

/-- A text that is the one for unknown numbers is no literal. -/
lemma value?_unknown : StringLiteral.value? "unknown".toUTF8 = none := by
  rw [StringLiteral.value?, Utf8.pieces_toUTF8]
  rfl

/-- The tag is the text that the literal denotes exactly if this is no literal itself. -/
lemma Entry.denoted_eq_tag_iff (e : Entry) :
    e.denoted.toByteArray = e.declaration.tag ↔
      StringLiteral.value? e.denoted.toByteArray = none := by
  cases hvalue : StringLiteral.value? e.denoted.toByteArray with
  | none =>
    have htag : e.declaration.tag = e.denoted.toByteArray := by
      rw [Entry.declaration, hvalue]
      rfl
    exact iff_of_true htag.symm rfl
  | some value =>
    have htag : e.declaration.tag = value := by
      rw [Entry.declaration, hvalue]
      rfl
    refine iff_of_false (fun heq => ?_) (by simp)
    rw [heq, htag] at hvalue
    exact StringLiteral.value?_ne_self _ hvalue

/-- The kinds of entries, each with a text. -/
def kindsBy (es : List Entry) (text : Entry → ByteArray) : List (String × ByteArray) :=
  es.map fun e => (e.name, text e)

lemma names_kindsBy (text : Entry → ByteArray) :
    (kindsBy es text).map Prod.fst = (es.map Entry.declaration).map Declaration.name := by
  rw [kindsBy, List.map_map, names_declarations]
  rfl

lemma hiddenUnknown_of_free (text : Entry → ByteArray) (h : "k" ∉ es.map Entry.name) :
    HiddenUnknown (kindsBy es text) := by
  intro i j hidden kind _ hkind
  rw [kindsBy, List.getElem?_map, Option.map_eq_some_iff] at hkind
  obtain ⟨e, he, hpair⟩ := hkind
  have hname : e.name = "k" := congrArg Prod.fst hpair
  exact absurd (hname ▸ List.mem_map_of_mem (List.mem_of_getElem? he)) h

/-- Texts are those of the visible kinds if they are the tags wherever no constant before is
hidden. -/
lemma visibleTagged_kindsBy_iff {text : Entry → ByteArray} :
    VisibleTagged (es.map Entry.declaration) (kindsBy es text) ↔
      ∀ (i : Nat) e, es[i]? = some e → (∀ j < i, ∀ c, es[j]? = some c → c.name ≠ "k") →
        text e = e.declaration.tag := by
  constructor
  · intro h i e he hvisible
    refine h i e.declaration (e.name, text e) (by simp [he]) (by simp [kindsBy, he]) ?_
    intro j hj c hc
    rw [List.getElem?_map, Option.map_eq_some_iff] at hc
    obtain ⟨c, hc, rfl⟩ := hc
    exact hvisible j hj c hc
  · intro h i d kind hd hkind hvisible
    rw [List.getElem?_map, Option.map_eq_some_iff] at hd
    obtain ⟨e, he, rfl⟩ := hd
    rw [kindsBy, List.getElem?_map, he, Option.map_some, Option.some_inj] at hkind
    rw [← hkind]
    exact h i e he fun j hj c hc => hvisible j hj c.declaration (by simp [hc])

lemma lists_tags_iff (hdistinct : (es.map Entry.name).Nodup) :
    (listing package (es.map Entry.declaration)).Lists (kindsBy es fun e => e.declaration.tag) ↔
      (listing package (es.map Entry.declaration)).Compiles ∧
        HiddenUnknown (kindsBy es fun e => e.declaration.tag) := by
  rw [← names_declarations] at hdistinct
  rw [lists_listing_iff hdistinct (names_kindsBy _),
    and_iff_left (visibleTagged_kindsBy_iff.mpr fun _ _ _ _ => rfl)]

/-- A kind behind a hidden one has a text that is no literal. -/
lemma lists_denoted_iff (hdistinct : (es.map Entry.name).Nodup) :
    (listing package (es.map Entry.declaration)).Lists
        (kindsBy es fun e => e.denoted.toByteArray) ↔
      (listing package (es.map Entry.declaration)).Compiles ∧
        HiddenUnknown (kindsBy es fun e => e.denoted.toByteArray) ∧
        ∀ e ∈ es, StringLiteral.value? e.denoted.toByteArray = none := by
  rw [← names_declarations] at hdistinct
  rw [lists_listing_iff hdistinct (names_kindsBy _), visibleTagged_kindsBy_iff]
  refine and_congr_right fun _ => and_congr_right fun hhidden => ⟨fun htags e he => ?_, ?_⟩
  · obtain ⟨i, hi⟩ := List.getElem?_of_mem he
    by_cases hvisible : ∀ j < i, ∀ c, es[j]? = some c → c.name ≠ "k"
    · exact e.denoted_eq_tag_iff.mp (htags i e hi hvisible)
    · push Not at hvisible
      obtain ⟨j, hj, c, hc, hname⟩ := hvisible
      have hunknown := hhidden j i c.denoted.toByteArray (e.name, e.denoted.toByteArray) hj.le
        (by simp [kindsBy, hc, hname]) (by simp [kindsBy, hi])
      have htext : e.denoted.toByteArray = "unknown".toUTF8 := hunknown
      rw [htext, value?_unknown]
  · exact fun hnone i e he _ => e.denoted_eq_tag_iff.mpr (hnone e (List.mem_of_getElem? he))

/-- A file of declarations with distinct names, in any layout. An enumeration is made of it exactly
if every literal stands between double quotes and no keyword stands for a name. It compiles exactly
if no name clashes with what else the file declares and uses. Then it lists the kinds, but a text
that is a literal itself is read once more, and a kind that the receiver of the method hides has to
be called unknown, with all those behind it. So the enumeration is faithful to its declarations
exactly if every literal is between double quotes and denotes no literal, the names are free, and
hidden kinds are unknown. -/
theorem enumeration_faithful_iff (htext : Declares es text) (hpackage : IsName package)
    (hdistinct : (es.map Entry.name).Nodup) :
    ((∃ file, generate package text = .ok file) ↔
      (∀ e ∈ es, e.isInterpreted) ∧ ∀ name ∈ package :: es.map Entry.name, name ∉ keywords) ∧
    (∀ file, generate package text = .ok file → ∃ f, File.ofText? file = some f ∧
      (f.Compiles ↔ package ≠ "_" ∧ ∀ e ∈ es, e.name ∉ clashingNames package) ∧
      (f.Lists (kindsBy es fun e => e.declaration.tag) ↔
        f.Compiles ∧ HiddenUnknown (kindsBy es fun e => e.declaration.tag))) ∧
    ((∃ file f, generate package text = .ok file ∧ File.ofText? file = some f ∧
        f.Lists (kindsBy es fun e => e.denoted.toByteArray)) ↔
      (∀ e ∈ es, e.isInterpreted ∧ StringLiteral.value? e.denoted.toByteArray = none ∧
        e.name ∉ keywords ++ clashingNames package) ∧
      package ∉ "_" :: keywords ∧ HiddenUnknown (kindsBy es fun e => e.denoted.toByteArray)) := by
  have hcompiles : (listing package (es.map Entry.declaration)).Compiles ↔
      package ≠ "_" ∧ ∀ e ∈ es, e.name ∉ clashingNames package := by
    rw [compiles_listing_iff (by rwa [names_declarations]), List.forall_mem_map]
    rfl
  have hexists : (∃ file, generate package text = .ok file) ↔
      (∀ e ∈ es, e.isInterpreted) ∧ ∀ name ∈ package :: es.map Entry.name, name ∉ keywords := by
    simp only [htext.generate_eq_ok_iff, exists_and_left, exists_eq, and_true]
  refine ⟨hexists, fun file hfile => ?_, ?_⟩
  · exact ⟨_, htext.read_generated hpackage hfile, hcompiles, lists_tags_iff hdistinct⟩
  have hread : (∃ file f, generate package text = .ok file ∧ File.ofText? file = some f ∧
      f.Lists (kindsBy es fun e => e.denoted.toByteArray)) ↔
      (∃ file, generate package text = .ok file) ∧
        (listing package (es.map Entry.declaration)).Lists
          (kindsBy es fun e => e.denoted.toByteArray) := by
    constructor
    · rintro ⟨file, f, hfile, hf, hlists⟩
      rw [htext.read_generated hpackage hfile, Option.some_inj] at hf
      exact ⟨⟨file, hfile⟩, hf ▸ hlists⟩
    · rintro ⟨⟨file, hfile⟩, hlists⟩
      exact ⟨file, _, hfile, htext.read_generated hpackage hfile, hlists⟩
  rw [hread, hexists, lists_denoted_iff hdistinct, hcompiles, List.forall_mem_cons,
    List.forall_mem_map]
  simp only [List.mem_append, List.mem_cons, not_or, forall_and]
  tauto

end

theorem enumeration_faithful_for_words :
    ∃ es, Declares es "kind AKind = \"a\"; kind BKind = \"b\";" ∧
      (es.map fun e => (e.name, e.denoted)) = [("AKind", utf8 "a"), ("BKind", utf8 "b")] ∧
      ∃ file f, generate "ast" "kind AKind = \"a\"; kind BKind = \"b\";" = .ok file ∧
        File.ofText? file = some f ∧
        f.Lists (es.map fun e => (e.name, e.denoted.toByteArray)) := by
  let a : Entry := ⟨"AKind", isName_of_alpha rfl, _, _,
    .interpreted (StringLiteral.denotes_plain (w := ['a']) (by simp))⟩
  let b : Entry := ⟨"BKind", isName_of_alpha rfl, _, _,
    .interpreted (StringLiteral.denotes_plain (w := ['b']) (by simp))⟩
  have hwritten : Written [a, b] _ :=
    .spaced (e := a) .nil (.spaced (e := b) (.blank (c := ' ') rfl .nil) (.nil (.inl .nil)))
  have hdeclares : Declares [a, b] "kind AKind = \"a\"; kind BKind = \"b\";" := by
    refine ⟨by decide, .inl ?_⟩
    convert hwritten using 1
    decide
  refine ⟨[a, b], hdeclares, ?_, ?_⟩
  · rfl
  · have hpackage : IsName "ast" := isName_of_alpha rfl
    have hfaithful := enumeration_faithful_iff hdeclares hpackage (by decide)
    have ha : StringLiteral.value? "a".toUTF8 = none := by
      rw [StringLiteral.value?, Utf8.pieces_toUTF8]
      rfl
    have hb : StringLiteral.value? "b".toUTF8 = none := by
      rw [StringLiteral.value?, Utf8.pieces_toUTF8]
      rfl
    exact hfaithful.2.2.mpr ⟨List.forall_mem_cons.mpr ⟨⟨rfl, ha, by decide⟩,
      List.forall_mem_singleton.mpr ⟨rfl, hb, by decide⟩⟩, by decide,
      hiddenUnknown_of_free _ (by decide)⟩

/-- The tag that is two quotes is lost. -/
theorem quotes_are_lost :
    ∃ e : Entry, Declares [e] "kind A = \"\\\"\\\"\";" ∧ e.name = "A" ∧ e.denoted = utf8 "\"\"" ∧
      ∃ file f, generate "ast" "kind A = \"\\\"\\\"\";" = .ok file ∧ File.ofText? file = some f ∧
        f.string 0 = .empty ∧ ¬ f.Lists [("A", "\"\"".toUTF8)] := by
  have hquote : StringLiteral.Escape ['"'] [0x22] := .short (by decide)
  let e : Entry := ⟨"A", isName_of_alpha rfl, _, _,
    .interpreted (.escape hquote (.escape hquote .nil))⟩
  have hwritten : Written [e] _ := .spaced (e := e) .nil (.nil (.inl .nil))
  have hdeclares : Declares [e] "kind A = \"\\\"\\\"\";" := by
    refine ⟨by decide, .inl ?_⟩
    convert hwritten using 1
    simp [e]
  have hvalue : StringLiteral.value? e.denoted.toByteArray = some .empty :=
    StringLiteral.Denotes.nil.value?
  have htag : e.declaration.tag = .empty := by
    rw [Entry.declaration, hvalue]
    rfl
  have hpackage : IsName "ast" := isName_of_alpha rfl
  have hdistinct : ([e].map Entry.name).Nodup := List.nodup_singleton _
  have hfree : ∀ name ∈ ["ast", "A"], name ∉ keywords := by decide
  have hclash : "A" ∉ clashingNames "ast" := by decide
  have hvisible : "k" ∉ ["A"] := by decide
  have hfile : generate "ast" _ = .ok _ :=
    hdeclares.generate_eq_ok_iff.mpr ⟨⟨List.forall_mem_singleton.mpr rfl, hfree⟩, rfl⟩
  have hcompiles : (listing "ast" ([e].map Entry.declaration)).Compiles :=
    (compiles_listing_iff (by rwa [names_declarations])).mpr
      ⟨by decide, List.forall_mem_singleton.mpr hclash⟩
  have hlists :=
    (lists_tags_iff hdistinct).mpr ⟨hcompiles, hiddenUnknown_of_free _ hvisible⟩
  have hempty : (listing "ast" ([e].map Entry.declaration)).string 0 = .empty :=
    (hlists.text 0 _ rfl).trans htag
  refine ⟨e, hdeclares, rfl, rfl, _, _, hfile, hdeclares.read_generated hpackage hfile, hempty,
    fun hfaithful => ?_⟩
  have hquotes := hfaithful.text 0 _ rfl
  rw [Nat.cast_zero, hempty] at hquotes
  exact absurd hquotes (by decide)

end HiToolchain.Kinds
