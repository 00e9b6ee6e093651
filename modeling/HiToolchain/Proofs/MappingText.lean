import HiToolchain.Proofs.FieldTokens
import HiToolchain.Proofs.OutlineDecoding
import HiToolchain.Yaml.Node

/-!
# Reading a mapping of strings back

The text of a mapping of strings holds only characters that a text may hold, and its tokens are
read as a mapping with one entry for each field.
-/

namespace HiToolchain.Yaml

/-! ### Characters of the text -/

lemma isAllowed_of_not_special {c : Char} (h : isSpecial c = false) : isAllowed c := by
  simp only [isSpecial, isPlainChar, Bool.not_eq_false', Bool.or_eq_true, Bool.and_eq_true,
    beq_iff_eq, bne_iff_ne, decide_eq_true_eq] at h
  simp only [isAllowed, Bool.or_eq_true, Bool.and_eq_true, beq_iff_eq, decide_eq_true_eq]
  omega

lemma isAllowed_of_isKeyChar {c : Char} (h : isKeyChar c) : isAllowed c := by
  simp only [isKeyChar, Bool.or_eq_true, Bool.and_eq_true, decide_eq_true_eq] at h
  simp only [isAllowed, Bool.or_eq_true, Bool.and_eq_true, beq_iff_eq, decide_eq_true_eq]
  omega

lemma mem_literalLines {indent : Nat} {lineStart : Bool} {cs : List Char} {d : Char}
    (h : d ∈ literalLines indent lineStart cs) : d = ' ' ∨ d ∈ cs := by
  induction cs generalizing lineStart with
  | nil => cases h
  | cons c cs ih =>
    rw [literalLines] at h
    split at h
    · obtain rfl | h := List.mem_cons.mp h
      · exact .inr List.mem_cons_self
      · exact (ih h).imp_right (List.mem_cons_of_mem c)
    · obtain h | h := List.mem_append.mp h
      · split at h
        · exact .inl (List.eq_of_mem_replicate h)
        · cases h
      · obtain rfl | h := List.mem_cons.mp h
        · exact .inr List.mem_cons_self
        · exact (ih h).imp_right (List.mem_cons_of_mem c)

lemma allowed_literalHeader (cs : List Char) : ∀ d ∈ literalHeader cs, isAllowed d := by
  obtain ⟨hint, chomp, hheader, hhint, hchomp⟩ := literalHeader_cases cs
  rw [hheader, ← List.all_eq_true]
  split at hchomp
  · obtain rfl | rfl := hhint <;> obtain rfl | rfl := hchomp <;> decide
  · obtain rfl := hchomp
    obtain rfl | rfl := hhint <;> decide

/-- What has to be escaped stands in double quotes. -/
lemma not_special_of_chooseStyle {v : String} (h : chooseStyle v ≠ .double) :
    ∀ c ∈ v.toList, isSpecial c = false := by
  have hspec := chooseStyle_spec v
  cases hstyle : chooseStyle v with
  | plain =>
    rw [hstyle] at hspec
    have hplain := hspec.2.2
    simp only [allowsPlain, Bool.not_eq_true', Bool.or_eq_false_iff, List.any_eq_false,
      Bool.not_eq_true] at hplain
    exact hplain.1.1.1.2
  | single =>
    rw [hstyle] at hspec
    have hsingle := hspec.2
    simp only [allowsSingle, Bool.not_eq_true', Bool.or_eq_false_iff, List.any_eq_false,
      Bool.not_eq_true] at hsingle
    exact hsingle.2
  | literal =>
    have hliteral := allowsLiteral_of_chooseStyle hstyle
    simp only [allowsLiteral, Bool.not_eq_true', Bool.or_eq_false_iff, List.any_eq_false,
      Bool.not_eq_true] at hliteral
    exact hliteral.2
  | double => exact (h hstyle).elim

lemma QuotedPiece.allowed {c : Char} {x : List Char} (h : QuotedPiece c x) :
    ∀ d ∈ x, isAllowed d := by
  cases h with
  | char hsolid h =>
    intro d hd
    rw [List.mem_singleton.mp hd]
    simp only [needsEscape, Bool.or_eq_false_iff] at h
    exact isAllowed_of_not_special h.1.1.1
  | escaped h hallowed => exact hallowed

lemma allowed_scalarLine (indent column : Nat) (v : String) :
    ∀ d ∈ (scalarLine indent column v).toList, isAllowed d := by
  have hspec := chooseStyle_spec v
  have hchars : chooseStyle v ≠ .double → ∀ c ∈ v.toList, isAllowed c := fun h c hc =>
    isAllowed_of_not_special (not_special_of_chooseStyle h c hc)
  have hfeed : ∀ d ∈ ['\n'], isAllowed d := List.all_eq_true.mp (by decide)
  rw [scalarLine, String.toList_ofList]
  cases hstyle : chooseStyle v with
  | plain =>
    rw [hstyle] at hspec hchars
    refine List.forall_mem_append.mpr ⟨(Plain.plainText_layout hspec.2.2 _ _).allowed ?_, hfeed⟩
    rintro c hc _ ⟨-, rfl⟩ d hd
    rw [List.mem_singleton.mp hd]
    exact hchars (by simp) c hc
  | single =>
    rw [hstyle] at hspec hchars
    have hlayout := QuotedScalar.singleText_layout hspec.1 hspec.2 indent (column + 1)
    refine List.forall_mem_append.mpr ⟨List.forall_mem_cons.mpr ⟨by decide, ?_⟩, hfeed⟩
    refine List.forall_mem_append.mpr ⟨hlayout.allowed ?_, List.all_eq_true.mp (by decide)⟩
    rintro c hc _ ⟨-, rfl⟩ d hd
    have hd : d = c := by
      unfold quoteTwice at hd
      split at hd <;> simpa using hd
    rw [hd]
    exact hchars (by simp) c hc
  | double =>
    have hlayout := (foldDouble_layout indent v.toList (column + 1) true false).1 _ .word
    refine List.forall_mem_append.mpr ⟨List.forall_mem_cons.mpr ⟨by decide, ?_⟩, hfeed⟩
    refine List.forall_mem_append.mpr ⟨hlayout.allowed ?_, List.all_eq_true.mp (by decide)⟩
    exact fun c _ x hx => hx.allowed
  | literal =>
    rw [hstyle] at hchars
    refine List.forall_mem_append.mpr ⟨List.forall_mem_append.mpr
      ⟨allowed_literalHeader v.toList, List.forall_mem_cons.mpr ⟨by decide, ?_⟩⟩, ?_⟩
    · intro d hd
      obtain rfl | hd := mem_literalLines hd
      · decide
      · exact hchars (by simp) d hd
    · split
      · simp
      · exact hfeed

lemma allowed_fieldsChars {fields : List (String × String)}
    (hkeys : ∀ f ∈ fields, Key f.1.toList) : ∀ d ∈ Scan.fieldsChars fields, isAllowed d := by
  rw [Scan.fieldsChars, List.forall_mem_flatMap]
  intro f hf
  refine List.forall_mem_append.mpr ⟨fun d hd => ?_, List.forall_mem_cons.mpr ⟨by decide,
    List.forall_mem_cons.mpr ⟨by decide, allowed_scalarLine _ _ _⟩⟩⟩
  exact isAllowed_of_isKeyChar ((hkeys f hf).letters d hd)

lemma Input.ofText_fields {text : String} {fields : List (String × String)}
    (htext : text.toList = Scan.fieldsChars fields) (hkeys : ∀ f ∈ fields, Key f.1.toList) :
    Input.ofText text = .ok ⟨.start, Scan.fieldsChars fields⟩ := by
  have hhead := Scan.head_fieldsChars hkeys
  rw [Input.ofText, htext, if_pos (List.all_eq_true.mpr (allowed_fieldsChars hkeys))]
  cases hchars : Scan.fieldsChars fields with
  | nil => rfl
  | cons c rest =>
    rw [hchars] at hhead
    have hc : c ≠ byteOrderMark := ne_of_isKeyChar (hhead c rfl) rfl
    simp [hc]

/-! ### Nodes -/

/-- The entry of a mapping that a field is read as. -/
def Node.IsField (f : String × String) (entry : Node × Node) : Prop :=
  ∃ line line', entry = (.scalar ⟨line, ""⟩ true f.1,
    .scalar ⟨line', ""⟩ (chooseStyle f.2 = .plain) f.2)

namespace NodeReader

section

variable (fuel line : Nat) (ts : List Token) (fault : Option Fault)
  (anchors : List (String × Node)) (handles : List (String × String))

lemma blockMapping_end :
    blockMapping (fuel + 1) ⟨⟨.blockEnd, line⟩ :: ts, fault, anchors, handles⟩ =
      .ok ([], ⟨ts, fault, anchors, handles⟩) := by
  exact Eq.refl _

lemma blockMapping_field (key value : String) (plain : Bool) (l₁ l₂ l₃ l₄ : Nat) :
    blockMapping (fuel + 2) ⟨⟨.key, l₁⟩ :: ⟨.scalar key true, l₂⟩ :: ⟨.value, l₃⟩ ::
        ⟨.scalar value plain, l₄⟩ :: ts, fault, anchors, handles⟩ =
      (blockMapping (fuel + 1) ⟨ts, fault, anchors, handles⟩).map fun r =>
        ((.scalar ⟨l₂, ""⟩ true key, .scalar ⟨l₄, ""⟩ plain value) :: r.1, r.2) := by
  cases plain <;> exact Eq.refl _

lemma node_blockMapping :
    node (fuel + 1) true false ⟨⟨.blockMappingStart, line⟩ :: ts, fault, anchors, handles⟩ =
      (blockMapping fuel ⟨ts, fault, anchors, handles⟩).map fun r =>
        (.mapping ⟨line, ""⟩ r.1, r.2) := by
  exact Eq.refl _

end

lemma blockMapping_fields {fields : List (String × String)} {fuel : Nat}
    (hfuel : fields.length < fuel) {ts : List Token} {kinds : List TokenKind}
    (hkinds : ts.map (·.kind) =
      (fields.flatMap fun f => Scan.fieldKinds f.1 f.2) ++ .blockEnd :: kinds)
    (fault : Option Fault) (anchors : List (String × Node)) (handles : List (String × String)) :
    ∃ entries rest, blockMapping fuel ⟨ts, fault, anchors, handles⟩ =
        .ok (entries, ⟨rest, fault, anchors, handles⟩) ∧
      rest.map (·.kind) = kinds ∧ List.Forall₂ Node.IsField fields entries := by
  induction fields generalizing fuel ts with
  | nil =>
    obtain ⟨fuel, rfl⟩ : ∃ k, fuel = k + 1 := ⟨fuel - 1, (Nat.sub_add_cancel hfuel).symm⟩
    obtain ⟨⟨_, line⟩, ts, rfl, rfl, hrest⟩ := List.map_eq_cons_iff.mp hkinds
    exact ⟨[], ts, blockMapping_end .., hrest, .nil⟩
  | cons f fields ih =>
    rw [List.length_cons] at hfuel
    obtain ⟨fuel, rfl⟩ : ∃ k, fuel = k + 2 := ⟨fuel - 2, by omega⟩
    obtain ⟨⟨_, l₁⟩, ts₁, rfl, rfl, hkinds₁⟩ := List.map_eq_cons_iff.mp hkinds
    obtain ⟨⟨_, l₂⟩, ts₂, rfl, rfl, hkinds₂⟩ := List.map_eq_cons_iff.mp hkinds₁
    obtain ⟨⟨_, l₃⟩, ts₃, rfl, rfl, hkinds₃⟩ := List.map_eq_cons_iff.mp hkinds₂
    obtain ⟨⟨_, l₄⟩, ts₄, rfl, rfl, hkinds₄⟩ := List.map_eq_cons_iff.mp hkinds₃
    obtain ⟨entries, rest, hread, hrest, hentries⟩ := @ih (fuel + 1) (by omega) _ hkinds₄
    refine ⟨_, rest, ?_, hrest, .cons ⟨l₂, l₄, rfl⟩ hentries⟩
    rw [blockMapping_field, hread]
    rfl

lemma document_blockMapping {fuel line : Nat} {ts rest : List Token} {t : Token}
    {entries : List (Node × Node)}
    (h : blockMapping fuel ⟨ts, none, [], standardHandles⟩ =
      .ok (entries, ⟨t :: rest, none, [], standardHandles⟩)) :
    document (fuel + 1) ⟨⟨.blockMappingStart, line⟩ :: ts, none, [], []⟩ =
      .ok (some (.mapping ⟨line, ""⟩ entries), ⟨t :: rest, none, [], standardHandles⟩) := by
  have hnode := node_blockMapping fuel line ts none [] standardHandles
  rw [h] at hnode
  change (node (fuel + 1) true false
      ⟨⟨.blockMappingStart, line⟩ :: ts, none, [], standardHandles⟩ >>= fun r =>
    peek r.2 >>= fun p => Except.ok (some r.1, p.2)) = _
  rw [hnode]
  rfl

end NodeReader

/-! ### The text of the document -/

lemma Doc.toList_fieldsText_scalars {lead : String} (hlead : lead.toList = [])
    (fields : List (String × String)) :
    (fieldsText 0 lead (fields.map fun f => (f.1, .scalar f.2))).toList =
      Scan.fieldsChars fields := by
  induction fields generalizing lead with
  | nil => rfl
  | cons f fields ih =>
    rw [List.map_cons, toList_fieldsText, hlead, toList_scalarField, ih (toList_spaces 0),
      Scan.fieldsChars_cons]
    simp

/-- A mapping of strings is read back with all its fields. -/
lemma Node.parse_mapping {f : String × String} {fields : List (String × String)}
    (hkeys : ∀ g ∈ f :: fields, Key g.1.toList) : ∃ line entries,
      Node.parse (Doc.mapping ((f :: fields).map fun g => (g.1, .scalar g.2))).text =
        .ok (some (.mapping ⟨line, ""⟩ entries)) ∧
      List.Forall₂ Node.IsField (f :: fields) entries := by
  have hinput := Input.ofText_fields (@Doc.toList_fieldsText_scalars "" rfl (f :: fields)) hkeys
  rw [List.map_cons] at hinput
  obtain ⟨list, htokens, hkinds⟩ := tokens_fields hkeys
  have hlength := congrArg List.length hkinds
  obtain ⟨⟨_, line⟩, ts, rfl, rfl, hentryKinds⟩ := List.map_eq_cons_iff.mp hkinds
  obtain ⟨fuel, hfuel⟩ : ∃ fuel,
      4 * ((⟨.blockMappingStart, line⟩ :: ts : List Token).length + 4) = fuel + 1 := ⟨_, rfl⟩
  have henough : (f :: fields).length < fuel := by
    simp [List.length_flatMap, Scan.fieldKinds] at hlength hfuel ⊢
    omega
  obtain ⟨entries, rest, hread, hrest, hentries⟩ :=
    NodeReader.blockMapping_fields henough hentryKinds none [] NodeReader.standardHandles
  obtain ⟨t, rest, rfl, -, -⟩ := List.map_eq_cons_iff.mp hrest
  refine ⟨line, entries, ?_, hentries⟩
  rw [List.map_cons, Doc.text, Node.parse, hinput, ok_bind]
  simp only [htokens, hfuel]
  rw [NodeReader.document_blockMapping hread]
  rfl

end HiToolchain.Yaml
