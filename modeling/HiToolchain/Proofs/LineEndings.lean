import HiToolchain.Proofs.Munch
import HiToolchain.Proofs.Offsets

/-!
# Line endings do not matter

Texts that differ in their line endings alone are read side by side. Two cursors stand at the same
index, whatever their offsets; the same characters come next, the same lexeme is munched, and it
ends at the same line and column.
-/

namespace HiToolchain

/-- Two cursors of one file at the same index of their texts. -/
structure Cursor.Abreast (text text' : String) (k : Nat) (c d : Cursor) : Prop where
  file : d.file = c.file
  left : c.place = (Place.ofText text).forward k
  right : d.place = (Place.ofText text').forward k

section

variable {text text' : String} (h : uniform text'.toList = uniform text.toList)

include h

lemma forward_pos_sansOffset (k : Nat) :
    ((Place.ofText text).forward k).pos.sansOffset =
      ((Place.ofText text').forward k).pos.sansOffset := by
  rw [forward_ofText_pos, forward_ofText_pos]
  simp only [Position.sansOffset, Position.ofIndex, h]

lemma Munch.placed_alike (m : Munch) (file : String) (k : Nat) :
    Matches Eq (fun t u => t.sansOffset = u.sansOffset)
      (m.placed file ((Place.ofText text).forward k))
      (m.placed file ((Place.ofText text').forward k)) := by
  have hstart := forward_pos_sansOffset h k
  have hstop := forward_pos_sansOffset h (k + m.length)
  simp only [Munch.placed, ← Place.forward_add]
  cases m.outcome with
  | ok x => exact .ok (congrArg₂ (fun p q => Token.mk x.1 x.2 ⟨p, q⟩) hstart hstop)
  | error cause =>
    have hfault := congrArg (fun p : Position => LexFault.mk file p.line p.column cause) hstop
    exact .error hfault

/-- One token, and the cursors are at the same index again. -/
lemma Cursor.Abreast.nextToken {c d : Cursor} {k : Nat} (hcd : Cursor.Abreast text text' k c d) :
    Matches Eq (fun t u => t.sansOffset = u.sansOffset) c.nextToken.1 d.nextToken.1 ∧
      ∃ k', Cursor.Abreast text text' k' c.nextToken.2 d.nextToken.2 := by
  obtain ⟨gap, chars, hsplit, -, hgap⟩ := gap_split ((uniform text.toList).drop k)
  have hsplit' : (uniform text'.toList).drop k = gap ++ chars := by rw [h, hsplit]
  obtain ⟨hleft, hleftPlace⟩ := Cursor.nextToken_at hcd.left hsplit hgap
  obtain ⟨hright, hrightPlace⟩ := Cursor.nextToken_at hcd.right hsplit' hgap
  constructor
  · rw [hleft, hright, hcd.file]
    exact Munch.placed_alike h _ _ _
  · refine ⟨k + gap.length + (munch chars).length, ?_, hleftPlace, hrightPlace⟩
    rw [d.nextToken_leads.file, c.nextToken_leads.file, hcd.file]

/-- The tokens are the same but for their offsets, and so is the fault that ends them. -/
lemma Cursor.Abreast.tokens {c d : Cursor} {k : Nat} (hcd : Cursor.Abreast text text' k c d) :
    c.tokens.1.1.map Token.sansOffset = d.tokens.1.1.map Token.sansOffset ∧
      c.tokens.1.2 = d.tokens.1.2 := by
  obtain ⟨ts, fault, hts⟩ : ∃ ts fault, c.tokens.1 = (ts, fault) := ⟨_, _, rfl⟩
  rw [hts]
  -- by the tokens of the one cursor; the other reads a token or meets a fault at each turn with it
  induction ts generalizing c d k with
  | nil =>
    obtain ⟨f, rfl, hc⟩ := Cursor.nextToken_of_tokens_nil hts
    have hnext := (hcd.nextToken h).1
    rw [hc] at hnext
    obtain ⟨_, hd, rfl⟩ := hnext.of_error
    rw [Cursor.tokens_of_error hd]
    exact ⟨rfl, rfl⟩
  | cons t ts ih =>
    obtain ⟨hc, hrest⟩ := Cursor.nextToken_of_tokens_cons hts
    obtain ⟨hnext, k', hagain⟩ := hcd.nextToken h
    rw [hc] at hnext
    obtain ⟨u, hd, htu⟩ := hnext.of_ok
    rw [Token.kind_eq_of_sansOffset htu] at hrest
    by_cases hkind : u.kind = .eof
    · rw [if_pos hkind] at hrest
      obtain ⟨rfl, rfl⟩ := hrest
      rw [Cursor.tokens_of_eof hd hkind]
      exact ⟨congrArg (fun t => [t]) htu, rfl⟩
    · rw [if_neg hkind] at hrest
      obtain ⟨htokens, hfault⟩ := ih hagain hrest
      rw [Cursor.tokens_of_token hd hkind]
      exact ⟨congrArg₂ List.cons htu htokens, hfault⟩

lemma parse_alike (file : String) :
    Matches (fun e f => e.sansOffset = f.sansOffset) (fun p q => p.sansOffset = q.sansOffset)
      (Program.parse text file) (Program.parse text' file) := by
  have hstart : Cursor.Abreast text text' 0 (.ofText text file) (.ofText text' file) :=
    ⟨rfl, rfl, rfl⟩
  obtain ⟨htokens, hfault⟩ := hstart.tokens h
  have hwalk := parse_eq_program (.ofText text file) rfl
  have hwalk' := parse_eq_program (.ofText text' file) rfl
  rw [← hfault] at hwalk'
  have hmatches : Matches TokenWalk.SameFault (fun p q => p.sansOffset = q.sansOffset)
      ((Program.parse text file).mapError some) ((Program.parse text' file).mapError some) := by
    rw [Program.parse, Program.parse, ← hwalk, ← hwalk']
    exact TokenWalk.program_alike htokens
  exact hmatches.of_mapError.imp (fun _ _ => Option.some.inj) fun _ _ => id

lemma report_alike [Elementary] (file : String) :
    Matches (fun e f => e.message = f.message) (fun p q => p.report = q.report)
      (Program.parse text file) (Program.parse text' file) := by
  refine (parse_alike h file).imp ?_ ?_
  · intro e f hef
    rw [← e.message_sansOffset, ← f.message_sansOffset, hef]
  · intro p q hpq
    rw [← p.report_sansOffset, ← q.report_sansOffset, hpq]

end

/-- A text and its uniform one have the same tokens and the same fault, and are read as the same
tree or refused with the same fault, but for offsets. The diagnostics are the same to the letter,
and so is all that is made of the tree. -/
theorem uniform_text_reads_alike [Elementary] (text file : String) :
    let plain := String.ofList (uniform text.toList)
    let tokens := (Cursor.ofText text file).tokens.1
    let plainTokens := (Cursor.ofText plain file).tokens.1
    let parsed := Program.parse text file
    let plainParsed := Program.parse plain file
    (tokens.1.map Token.sansOffset = plainTokens.1.map Token.sansOffset ∧
      tokens.2 = plainTokens.2) ∧
    (parsed.map Program.sansOffset).mapError ReadFault.sansOffset =
      (plainParsed.map Program.sansOffset).mapError ReadFault.sansOffset ∧
    (parsed.map Program.report).mapError ReadFault.message =
      (plainParsed.map Program.report).mapError ReadFault.message := by
  intro plain tokens plainTokens parsed plainParsed
  have h : uniform plain.toList = uniform text.toList := by
    rw [String.toList_ofList, uniform_uniform]
  have hstart : Cursor.Abreast text plain 0 (.ofText text file) (.ofText plain file) :=
    ⟨rfl, rfl, rfl⟩
  exact ⟨hstart.tokens h, (parse_alike h file).map_eq, (report_alike h file).map_eq⟩

end HiToolchain
