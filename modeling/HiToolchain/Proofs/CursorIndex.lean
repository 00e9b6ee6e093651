import HiToolchain.Proofs.LogicalText
import HiToolchain.Session
import Mathlib.Data.List.Forall2

/-!
# A cursor is an index into uniform text

Offset, line and column of a cursor are counted apart from one another, and a cursor looks ahead
at the line feed that may follow a carriage return. All of this comes to one number: how many
characters of the uniform text lie before the cursor. Marks are such numbers too, and every
operation is told by what it does to them.
-/

namespace HiToolchain

/-- The steps of a session that read characters, and those that set and take back marks. -/
inductive Motion where
  | read (count : Int)
  | peek (count : Int)
  | push
  | restore
  | drop
  deriving DecidableEq, Repr

def Motion.step : Motion → Session.Step
  | read n => .read n
  | peek n => .peek n
  | push => .push
  | restore => .restore
  | drop => .drop

/-- A place in a text as the number of characters before it, with the marked places, the latest
first. -/
structure Bookmark where
  index : Nat
  marks : List Nat
  deriving DecidableEq, Repr

namespace Bookmark

/-- What a read of `n` characters yields: those that are left of them, and the end mark if there
are fewer. -/
def ahead (text : List Char) (n : Int) (s : Bookmark) : List Char :=
  (text.drop s.index).take n.toNat ++ if text.length - s.index < n.toNat then [endMark] else []

def perform (file : String) (text : List Char) (s : Bookmark) :
    Motion → Session.Outcome × Bookmark
  | .read n => (.text (String.ofList (s.ahead text n)),
      { s with index := min (s.index + n.toNat) text.length })
  | .peek n => (.text (String.ofList (s.ahead text n)), s)
  | .push => (.done, { s with marks := s.index :: s.marks })
  | .restore =>
    match s.marks with
    | [] => (.unbalanced ⟨file⟩, s)
    | k :: marks => (.done, ⟨k, marks⟩)
  | .drop =>
    match s.marks with
    | [] => (.unbalanced ⟨file⟩, s)
    | _ :: marks => (.done, { s with marks := marks })

def run (file : String) (text : List Char) :
    Bookmark → List Motion → List (Session.Outcome × Bookmark)
  | _, [] => []
  | s, m :: motions =>
    let r := s.perform file text m
    r :: run file text r.2 motions

end Bookmark

/-- The positions of a cursor and of its marks are those of the indices, which lie in the text,
and none of them parts a CRLF. -/
structure Cursor.At (raw : List Char) (c : Cursor) (s : Bookmark) : Prop where
  pos : c.pos = .ofIndex raw s.index
  marks : c.marks.map Place.pos = s.marks.map (Position.ofIndex raw)
  within : ∀ k ∈ s.index :: s.marks, k ≤ (uniform raw).length
  whole : ∀ p ∈ c.pos :: c.marks.map Place.pos, ∀ i : Nat, p.offset = i → ¬SplitsPair raw i

/-! ### Walking as far as the text goes -/

lemma Place.forward_of_rest_nil {p : Place} (h : p.rest = []) (n : Nat) : p.forward n = p := by
  cases n with
  | zero => rfl
  | succ n => rw [Place.forward, h]

lemma Place.forward_min (n : Nat) (p : Place) : p.forward (min n p.rest.length) = p.forward n := by
  rcases Nat.le_total n p.rest.length with hn | hn
  · rw [Nat.min_eq_left hn]
  · have hend : (p.forward p.rest.length).rest = [] := by
      rw [Place.forward_rest, List.drop_length]
    obtain ⟨more, rfl⟩ := Nat.exists_eq_add_of_le hn
    rw [Nat.min_eq_right hn, Place.forward_add, Place.forward_of_rest_nil hend]

/-! ### One motion and whole sessions -/

/-- The cursor has walked from the start of the text to the index, and so have its marks. -/
structure Cursor.Tracks (text file : String) (c : Cursor) (s : Bookmark) : Prop where
  file_eq : c.file = (Cursor.ofText text file).file
  place_eq : c.place = (Place.ofText text).forward s.index
  marks_eq : c.marks = s.marks.map (Place.forward · (.ofText text))
  within : ∀ k ∈ s.index :: s.marks, k ≤ (uniform text.toList).length

section

variable {text file : String} {c : Cursor} {s : Bookmark}

lemma Cursor.tracks_start : (Cursor.ofText text file).Tracks text file ⟨0, []⟩ :=
  ⟨rfl, rfl, rfl, by simp⟩

lemma Cursor.Tracks.at (h : c.Tracks text file s) : c.At text.toList s := by
  have hpos : c.pos = .ofIndex text.toList s.index := by
    rw [Cursor.pos, h.place_eq, forward_ofText_pos]
  have hmarks : c.marks.map Place.pos = s.marks.map (Position.ofIndex text.toList) := by
    rw [h.marks_eq, List.map_map]
    exact List.map_congr_left fun k _ => forward_ofText_pos text k
  refine ⟨hpos, hmarks, h.within, ?_⟩
  rw [hpos, hmarks, ← List.map_cons]
  intro p hp i hi
  obtain ⟨k, -, rfl⟩ := List.mem_map.mp hp
  exact ofIndex_whole hi

lemma Cursor.Tracks.read_fst (h : c.Tracks text file s) (n : Int) :
    (c.read n).1 = String.ofList (s.ahead (uniform text.toList) n) := by
  have hone : ∀ m : Nat, [endMark].take m = if 0 < m then [endMark] else [] := by
    intro m
    cases m <;> simp
  rw [Cursor.read_fst, h.place_eq, map_char_forward_ofText, Bookmark.ahead, List.take_append, hone]
  simp only [List.length_drop, Nat.sub_pos_iff_lt]

lemma Cursor.Tracks.read (h : c.Tracks text file s) (n : Int) :
    (c.read n).2.Tracks text file
      { s with index := min (s.index + n.toNat) (uniform text.toList).length } := by
  refine ⟨h.file_eq, ?_, h.marks_eq, ?_⟩
  · have hlength : (Place.ofText text).rest.length = (uniform text.toList).length :=
      length_ofChars text.toList
    rw [Cursor.read_place, h.place_eq, ← Place.forward_add, ← hlength, Place.forward_min]
  · rw [List.forall_mem_cons]
    exact ⟨Nat.min_le_right _ _, (List.forall_mem_cons.mp h.within).2⟩

/-- Each motion has the outcome that it has at the index, and keeps to it. -/
lemma Cursor.Tracks.step (h : c.Tracks text file s) (m : Motion) :
    (Session.perform c m.step).1 =
        (s.perform (Cursor.ofText text file).file (uniform text.toList) m).1 ∧
      (Session.perform c m.step).2.Tracks text file
        (s.perform (Cursor.ofText text file).file (uniform text.toList) m).2 := by
  obtain ⟨hindex, hmarks⟩ := List.forall_mem_cons.mp h.within
  cases m with
  | read n => exact ⟨congrArg _ (h.read_fst n), h.read n⟩
  | peek n => exact ⟨congrArg _ (h.read_fst n), h⟩
  | push =>
    refine ⟨rfl, h.file_eq, h.place_eq, ?_, List.forall_mem_cons.mpr ⟨hindex, h.within⟩⟩
    change c.place :: c.marks = _
    rw [h.place_eq, h.marks_eq]
    rfl
  | restore =>
    change (Session.marked c c.restore).1 = _ ∧ (Session.marked c c.restore).2.Tracks text file _
    obtain ⟨k, marks⟩ := s
    cases marks with
    | nil =>
      have hempty : c.marks = [] := h.marks_eq
      have hfails : c.restore = .error ⟨c.file⟩ := by rw [Cursor.restore, hempty]
      rw [hfails, h.file_eq]
      exact ⟨rfl, h⟩
    | cons j marks =>
      have hcons : c.marks = _ :: _ := h.marks_eq
      rw [Cursor.restore, hcons]
      exact ⟨rfl, h.file_eq, rfl, rfl, hmarks⟩
  | drop =>
    change (Session.marked c c.drop).1 = _ ∧ (Session.marked c c.drop).2.Tracks text file _
    obtain ⟨k, marks⟩ := s
    cases marks with
    | nil =>
      have hempty : c.marks = [] := h.marks_eq
      have hfails : c.drop = .error ⟨c.file⟩ := by rw [Cursor.drop, hempty]
      rw [hfails, h.file_eq]
      exact ⟨rfl, h⟩
    | cons j marks =>
      have hcons : c.marks = _ :: _ := h.marks_eq
      rw [Cursor.drop, hcons]
      exact ⟨rfl, h.file_eq, h.place_eq, rfl,
        List.forall_mem_cons.mpr ⟨hindex, (List.forall_mem_cons.mp hmarks).2⟩⟩

lemma Cursor.Tracks.run (h : c.Tracks text file s) (motions : List Motion) :
    List.Forall₂ (fun r a => r.1 = a.1 ∧ Cursor.At text.toList r.2 a.2)
      (Session.run c (motions.map Motion.step))
      (s.run (Cursor.ofText text file).file (uniform text.toList) motions) := by
  induction motions generalizing c s with
  | nil => exact .nil
  | cons m motions ih =>
    obtain ⟨houtcome, hnext⟩ := h.step m
    exact .cons ⟨houtcome, hnext.at⟩ (ih hnext)

end

/-- In every session of reads and marks, each outcome is that of an index into the uniform text,
and each cursor is at the positions of the indices. A peek yields what a read would and leaves the
cursor alone. -/
theorem session_tracks_index (text file : String) (motions : List Motion) :
    let source := Cursor.ofText text file
    source.At text.toList ⟨0, []⟩ ∧
    List.Forall₂ (fun r a => r.1 = a.1 ∧ Cursor.At text.toList r.2 a.2)
      (Session.run source (motions.map Motion.step))
      (Bookmark.run source.file (uniform text.toList) ⟨0, []⟩ motions) ∧
    ∀ c n, Session.perform c (.peek n) = ((Session.perform c (.read n)).1, c) :=
  ⟨Cursor.tracks_start.at, Cursor.tracks_start.run motions, fun _ _ => rfl⟩

end HiToolchain
