import HiToolchain.Proofs.MarkDiscipline
import HiToolchain.Proofs.Munch

/-!
# Where a lexical fault stands

A stray character is reported where it stands. A keyword is compared only after as many characters
as it has were read, so a misspelt one is reported at the end of these characters: past the first
wrong one unless the text ends there, and on a later line if a line ends in between.
-/

namespace HiToolchain

/-- What a fault tells of a position. -/
def Position.lineColumn (p : Position) : Int × Int := (p.line, p.column)

def LexFault.lineColumn (f : LexFault) : Int × Int := (f.line, f.column)

/-- `Offends cause chars n`: of the characters to come, where no blanks stand in front, the one
with index `n` is the first that is wrong. -/
inductive Offends : LexCause → List Char → Nat → Prop
  /-- No lexeme starts with a stray character, and it does not end the text. -/
  | stray {ch : Char} {rest : List Char} (hend : ch ≠ endMark)
      (h : ∀ x : Lexeme, x.Formed → x.spelling.head? ≠ some ch) :
      Offends .strayCharacter (ch :: rest) 0
  /-- The characters start like the keyword and depart from it, or end, at index `n`. -/
  | misspelt {word : String} {chars : List Char} {n : Nat} (hword : word = "hi" ∨ word = "print")
      (hpos : 0 < n) (hn : n < word.length) (hfront : chars.take n = word.toList.take n)
      (hdeparts : chars[n]? ≠ word.toList[n]?) : Offends (.misspelt word) chars n

/-- How far a scan has read, from index `start` on, when it reports a fault. -/
def LexCause.reach (text : List Char) (start : Nat) : LexCause → Nat
  | .misspelt word => min (start + word.length) text.length
  | _ => start

/-! ### Lines and columns of indices -/

section

variable {raw : List Char} {i j : Nat}

lemma take_split (text : List Char) (hij : i ≤ j) :
    text.take j = text.take i ++ (text.take j).drop i := by
  conv_lhs => rw [← List.take_append_drop i (text.take j)]
  rw [List.take_take, Nat.min_eq_left hij]

lemma ofIndex_line (hij : i ≤ j) : (Position.ofIndex raw j).line =
    (Position.ofIndex raw i).line + (((uniform raw).take j).drop i).count '\n' := by
  simp only [Position.ofIndex]
  rw [take_split (uniform raw) hij, List.count_append, ← take_split (uniform raw) hij]
  omega

lemma ofIndex_column (hij : i ≤ j) (hline : '\n' ∉ ((uniform raw).take j).drop i) :
    (Position.ofIndex raw j).column =
      (Position.ofIndex raw i).column + (((uniform raw).take j).drop i).length := by
  have hkeep : ∀ ch ∈ (((uniform raw).take j).drop i).reverse, decide (ch ≠ '\n') := by
    intro ch hch
    rw [List.mem_reverse] at hch
    simpa using ne_of_mem_of_not_mem hch hline
  simp only [Position.ofIndex]
  rw [take_split (uniform raw) hij, List.reverse_append, List.takeWhile_append_of_pos hkeep,
    ← take_split (uniform raw) hij]
  simp
  omega

/-- Different indices of a text have different lines or columns. -/
lemma lineColumn_eq_iff (hij : i ≤ j) (hj : j ≤ (uniform raw).length) :
    (Position.ofIndex raw j).lineColumn = (Position.ofIndex raw i).lineColumn ↔ j = i := by
  refine ⟨fun h => ?_, fun h => by rw [h]⟩
  obtain ⟨hline, hcolumn⟩ := Prod.mk.inj h
  have hcount := @ofIndex_line raw _ _ hij
  have hnone : '\n' ∉ ((uniform raw).take j).drop i := by
    rw [← List.count_eq_zero]
    omega
  have hlength : (((uniform raw).take j).drop i).length = j - i := by simp [hj]
  have hsum := ofIndex_column hij hnone
  omega

lemma lineColumn_min (k : Nat) :
    (Position.ofIndex raw (min k (uniform raw).length)).lineColumn =
      (Position.ofIndex raw k).lineColumn := by
  simp only [Position.lineColumn, Position.ofIndex, ← List.take_eq_take_min]

end

/-! ### The first wrong character -/

lemma exists_departure {word chars : List Char}
    (h : (chars ++ [endMark]).take word.length ≠ word) :
    ∃ n, n < word.length ∧ chars.take n = word.take n ∧ chars[n]? ≠ word[n]? := by
  induction word generalizing chars with
  | nil => simp at h
  | cons w word ih =>
    cases chars with
    | nil => exact ⟨0, by simp⟩
    | cons ch chars =>
      by_cases hch : ch = w
      · subst hch
        obtain ⟨n, hn, hfront, hdeparts⟩ := @ih chars (by simpa using h)
        exact ⟨n + 1, by simpa using hn, by simpa using hfront, by simpa using hdeparts⟩
      · exact ⟨0, by simpa using hch⟩

lemma keyword_offends {kind : TokenKind} {word : String} {ch : Char} {rest : List Char}
    {cause : LexCause} (hword : word = "hi" ∨ word = "print")
    (hch : word.toList.head? = some ch)
    (h : (Munch.keyword kind word (ch :: rest)).outcome = .error cause) :
    cause = .misspelt word ∧ ∃ n, Offends (.misspelt word) (ch :: rest) n := by
  rw [Munch.keyword] at h
  split at h
  · cases h
  · next htake =>
    cases h
    rw [← String.length_toList] at htake
    obtain ⟨n, hn, hfront, hdeparts⟩ := exists_departure htake
    refine ⟨rfl, n, .misspelt hword ?_ (by rwa [← String.length_toList]) hfront hdeparts⟩
    -- the keyword was tried because of its first letter
    rw [Nat.pos_iff_ne_zero]
    rintro rfl
    rw [← List.head?_eq_getElem?, ← List.head?_eq_getElem?, hch] at hdeparts
    exact hdeparts rfl

lemma head_spelling {x : Lexeme} (hx : x.Formed) {ch : Char}
    (h : x.spelling.head? = some ch) :
    ch = '"' ∨ ch = 'h' ∨ ch = 'p' ∨ isDigit ch ∨ ∃ op, operator? ch = some op := by
  cases hx with
  | hi => exact .inr (.inl (Option.some.inj h).symm)
  | print => exact .inr (.inr (.inl (Option.some.inj h).symm))
  | string htext => exact .inl (Option.some.inj h).symm
  | number hne hdigits =>
    have hmem : ch ∈ (Lexeme.spelling (.number, _)) := List.mem_of_mem_head? h
    exact .inr (.inr (.inr (.inl (hdigits ch hmem))))
  | operator hop =>
    rw [Lexeme.spelling_operator hop] at h
    obtain rfl | ⟨symbol, hsymbol, hoperator⟩ := symbol_of_isOperator hop
    · obtain rfl : '*' = ch := Option.some.inj h
      exact .inr (.inr (.inr (.inr ⟨_, rfl⟩)))
    · rw [hsymbol] at h
      obtain rfl : symbol = ch := Option.some.inj h
      exact .inr (.inr (.inr (.inr ⟨_, hoperator⟩)))

/-- Only a keyword is read before it is refused. -/
lemma munch_offends {chars : List Char} {cause : LexCause}
    (h : (munch chars).outcome = .error cause) (hcause : cause ≠ .unterminatedString) :
    ∃ n, Offends cause chars n ∧
      (cause = .strayCharacter ∧ (munch chars).length = 0 ∨
        ∃ word, cause = .misspelt word ∧ (munch chars).length = word.length) := by
  cases chars with
  | nil => cases h
  | cons ch rest =>
    unfold munch at h ⊢
    simp only [List.headD_cons, beq_iff_eq] at h ⊢
    split_ifs at h ⊢ with hquote hhi hprint hdigit hend
    · rw [Munch.string] at h
      split at h
      · cases h
      · cases h
        exact (hcause rfl).elim
    · subst hhi
      obtain ⟨rfl, n, hn⟩ := keyword_offends (.inl rfl) rfl h
      exact ⟨n, hn, .inr ⟨_, rfl, rfl⟩⟩
    · subst hprint
      obtain ⟨rfl, n, hn⟩ := keyword_offends (.inr rfl) rfl h
      exact ⟨n, hn, .inr ⟨_, rfl, rfl⟩⟩
    · cases h
    · cases hop : operator? ch with
      | some op =>
        simp only [hop, Munch.operator] at h
        split at h <;> cases h
      | none =>
        rw [hop] at h
        cases h
        refine ⟨0, .stray hend ?_, .inl ⟨rfl, rfl⟩⟩
        intro x hx hhead
        have hstart := head_spelling hx hhead
        simp_all

/-- The scan reads past the offending character unless it is stray or the text ends there. -/
lemma Offends.reach_spec {cause : LexCause} {text : List Char} {start n : Nat}
    (h : Offends cause (text.drop start) n) :
    start + n ≤ cause.reach text start ∧ cause.reach text start ≤ text.length ∧
      (cause.reach text start = start + n ↔
        cause = .strayCharacter ∨ text.length = start + n) := by
  generalize hchars : text.drop start = chars at h
  have hlength := congrArg List.length hchars
  rw [List.length_drop] at hlength
  cases h with
  | stray =>
    simp only [List.length_cons] at hlength
    simp [LexCause.reach]
    omega
  | @misspelt word chars n hword hpos hn hfront hdeparts =>
    -- as many characters of the keyword stand in the text
    have hread : min n chars.length = min n word.toList.length := by
      rw [← List.length_take, ← List.length_take, hfront]
    rw [String.length_toList] at hread
    simp only [LexCause.reach, reduceCtorEq, false_or]
    omega

/-- A fault that is not about an unterminated string stands, in line and column, where the scan had
read to: at the offending character for a stray one, and for a misspelt keyword as many characters
after its start as it has, or at the end of the text. So it stands just before the first wrong
character exactly if nothing was read from there on, which for a keyword means that the text ends
there; and it is on the line of that character exactly if no line ends in what was read. -/
theorem lexFault_stands_where_reading_stopped (text file : String) (steps : List Session.Step)
    (fault : LexFault)
    (h : (Session.leave (.ofText text file) steps).nextToken.1 = .error fault)
    (hcause : fault.cause ≠ .unterminatedString) :
    let logical := uniform text.toList
    ∃ k n, (Session.leave (.ofText text file) steps).pos = .ofIndex text.toList k ∧
      let start := k + ((logical.drop k).takeWhile isBlank).length
      let offence := Position.ofIndex text.toList (start + n)
      let reach := fault.cause.reach logical start
      Offends fault.cause (logical.drop start) n ∧
      fault.lineColumn = (Position.ofIndex text.toList reach).lineColumn ∧
      (fault.lineColumn = offence.lineColumn ↔
        fault.cause = .strayCharacter ∨ logical.length = start + n) ∧
      (fault.line = offence.line ↔ '\n' ∉ (logical.take reach).drop (start + n)) := by
  intro logical
  have hwithin := Session.leave_within (Cursor.ofText_within text file) steps
  obtain ⟨k, hk⟩ := hwithin _ List.mem_cons_self
  obtain ⟨gap, chars, hsplit, -, hgap⟩ := gap_split (logical.drop k)
  obtain ⟨houtcome, -⟩ := Cursor.nextToken_at hk hsplit hgap
  rw [houtcome] at h
  have hblanks : (logical.drop k).takeWhile isBlank = gap := by rw [hsplit, hgap]
  have hchars : logical.drop (k + gap.length) = chars := by
    rw [← List.drop_drop, hsplit, List.drop_left]
  unfold Munch.placed at h
  split at h
  · cases h
  · next cause hmunch =>
    cases h
    obtain ⟨n, hoffends, hread⟩ := munch_offends hmunch hcause
    rw [← hchars] at hoffends
    obtain ⟨hle, hreach, hplace⟩ := hoffends.reach_spec
    -- the scan stops where `reach` says
    have hstop :
        ((Place.ofText text).forward (k + gap.length + (munch chars).length)).pos.lineColumn =
          (Position.ofIndex text.toList (cause.reach logical (k + gap.length))).lineColumn := by
      rw [forward_ofText_pos]
      obtain ⟨rfl, hlength⟩ | ⟨word, rfl, hlength⟩ := hread
      · rw [hlength]
        rfl
      · rw [hlength, LexCause.reach, lineColumn_min]
    rw [Place.forward_add] at hstop
    refine ⟨k, n, ?_, ?_⟩
    · rw [Cursor.pos, hk, forward_ofText_pos]
    · simp only [hblanks]
      refine ⟨hoffends, hstop, ?_, ?_⟩
      · rw [← hplace, ← lineColumn_eq_iff hle hreach, ← hstop]
        rfl
      · have hline : _ = _ + (((logical.take _).drop _).count '\n' : Int) :=
          @ofIndex_line text.toList _ _ hle
        have hstopLine := congrArg Prod.fst hstop
        simp only [Position.lineColumn] at hstopLine
        rw [← List.count_eq_zero, hstopLine]
        omega

/-- At the end of a text, `prin` departs from the keyword where it is reported. -/
theorem lexFault_stands_at_end_of_text :
    let text := "1\r\nprin"
    let fault : LexFault := ⟨"stdin", 2, 4, .misspelt "print"⟩
    (Session.leave (.ofText text "") [.next]).nextToken.1 = .error fault ∧
      fault.cause ≠ .unterminatedString ∧
      ∃ start n, Offends fault.cause ((uniform text.toList).drop start) n ∧
        (fault.lineColumn = (Position.ofIndex text.toList (start + n)).lineColumn ↔
          (uniform text.toList).length = start + n) := by
  intro text fault
  have hfault : (Session.leave (.ofText text "") [.next]).nextToken.1 = .error fault := by
    decide +kernel
  have hcause : fault.cause ≠ .unterminatedString := by decide
  obtain ⟨k, n, -, hoffends, -, hplace, -⟩ :=
    lexFault_stands_where_reading_stopped text "" [.next] fault hfault hcause
  refine ⟨hfault, hcause, _, n, hoffends, ?_⟩
  rw [hplace]
  simp [fault]

/-- The keyword is wrong from the second character of the first line on. -/
theorem misspelt_keyword_reported_on_later_line :
    let fault : LexFault := ⟨"stdin", 2, 3, .misspelt "print"⟩
    let text := "p\nhi \"x\""
    (Cursor.ofText text "").nextToken.1 = .error fault ∧
      Offends fault.cause (uniform text.toList) 1 ∧
      fault.lineColumn ≠ (Position.ofIndex text.toList 1).lineColumn ∧
      fault.line ≠ (Position.ofIndex text.toList 1).line := by
  intro fault text
  refine ⟨by decide +kernel, ?_, by decide +kernel, by decide +kernel⟩
  exact .misspelt (.inr rfl) (by decide) (by decide) (by decide +kernel) (by decide +kernel)

end HiToolchain
