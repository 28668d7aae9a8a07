import Folio.Markup.Formatter
import Folio.Proofs.Text.Cutting
import Mathlib.Data.List.Chain

/-!
# Where lines are broken

A run of atoms is wrapped in lines, each of which is a part of the run (`lineText`).  The
parts are a `Division`: inside of a line every atom that follows white space fits, and a
line ends only in front of an atom that follows white space and would not fit.

An atom is measured by itself.  What is glued to it comes later, and is put on the line
without being measured, since there is no white space to break at.  So a line longer than the
room is a single group, or it fits up to its last white space and the atom behind it and is
too long only by what is glued to that atom: `overlong_of_wrap`.

A run is wrapped in the lines of any division of it (`Division.wrap_eq`), and the lines up to
an atom divide the atoms before it (`Division.upTo`).  So the line that an atom is measured
against is the last one of the atoms before it, and a line end takes the place of the white
space there exactly if the atom does not fit: `breaks_of_wrap`.
-/

namespace Folio.Markup

open Text

/-! ## Lines of atoms -/

/-- What an atom adds to a line that has begun. -/
def Atom.inLine (a : Atom) : List Char :=
  if a.spaced then ' ' :: a.text else a.text

/-- Atoms on one line. -/
def lineText : List Atom → List Char
  | [] => []
  | first :: rest => first.text ++ rest.flatMap Atom.inLine

/-- An atom and what is glued to it: no white space at which the line could be broken. -/
def IsGroup (line : List Atom) : Prop :=
  ∀ a ∈ line.tail, a.spaced = false

/-- A line that fits up to its last white space and the atom behind it; it goes on with
what is glued to that atom. -/
def Overhangs (room : Nat) (line : List Atom) : Prop :=
  ∃ front last glued, line = front ++ last :: glued ∧ front ≠ [] ∧ last.spaced = true ∧
    glued ≠ [] ∧ (∀ a ∈ glued, a.spaced = false) ∧ (lineText (front ++ [last])).length ≤ room

/-- Wherever white space stands inside a line, the line fits up to the atom behind it. -/
def FitsAtBreaks (room : Nat) (line : List Atom) : Prop :=
  ∀ front a back, line = front ++ a :: back → front ≠ [] → a.spaced = true →
    (lineText (front ++ [a])).length ≤ room

/-- A run divided into lines: an atom behind white space stands on the line before it
if and only if it fits there. -/
structure Division (room : Nat) (lines : List (List Atom)) : Prop where
  nonempty : ∀ line ∈ lines, line ≠ []
  fits : ∀ line ∈ lines, FitsAtBreaks room line
  full : lines.IsChain fun line next => ∃ a rest, next = a :: rest ∧ a.spaced = true ∧
    room < (lineText (line ++ [a])).length

theorem lineText_append {line : List Atom} (hne : line ≠ []) (more : List Atom) :
    lineText (line ++ more) = lineText line ++ more.flatMap Atom.inLine := by
  obtain ⟨first, rest, rfl⟩ := List.exists_cons_of_ne_nil hne
  simp [lineText]

theorem lineText_concat {line : List Atom} (hne : line ≠ []) (a : Atom) :
    lineText (line ++ [a]) = lineText line ++ a.inLine := by
  simp [lineText_append hne]

theorem lineText_ne_nil {line : List Atom} (hne : line ≠ []) (htext : ∀ a ∈ line, a.text ≠ []) :
    lineText line ≠ [] := by
  obtain ⟨first, rest, rfl⟩ := List.exists_cons_of_ne_nil hne
  have hfirst : first.text ≠ [] := htext first List.mem_cons_self
  simp [lineText, hfirst]

/-! ## Inside of a line -/

section

variable {room : Nat} {line : List Atom} {a : Atom}

theorem fitsAtBreaks_singleton (room : Nat) (a : Atom) : FitsAtBreaks room [a] := by
  intro front b back hline hfront
  obtain ⟨c, rest, rfl⟩ := List.exists_cons_of_ne_nil hfront
  simp at hline

/-- One atom more breaks nothing if it fits, or if there is no white space before it. -/
theorem FitsAtBreaks.concat (h : FitsAtBreaks room line)
    (ha : a.spaced = true → (lineText (line ++ [a])).length ≤ room) :
    FitsAtBreaks room (line ++ [a]) := by
  intro front b back hline hfront hb
  rcases List.eq_nil_or_concat back with rfl | ⟨inner, last, rfl⟩
  · -- the white space is the one before the new atom
    obtain ⟨rfl, hsame⟩ := List.append_inj' hline rfl
    obtain rfl : a = b := List.singleton_inj.mp hsame
    exact ha hb
  · have hsplit : line = front ++ b :: inner := by
      have hconcat : line ++ [a] = (front ++ b :: inner) ++ [last] := by
        rw [hline]
        simp
      exact (List.append_inj' hconcat rfl).1
    exact h front b inner hsplit hfront hb

/-- The last white space inside a line that is not a single group. -/
theorem exists_last_break (hline : ¬ IsGroup line) :
    ∃ front last glued, line = front ++ last :: glued ∧ front ≠ [] ∧ last.spaced = true ∧
      ∀ b ∈ glued, b.spaced = false := by
  have hlast : ∀ atoms : List Atom, (∃ b ∈ atoms, b.spaced = true) →
      ∃ front last glued, atoms = front ++ last :: glued ∧ last.spaced = true ∧
        ∀ b ∈ glued, b.spaced = false := by
    intro atoms
    induction atoms with
    | nil => simp
    | cons b rest ih =>
        intro hspaced
        by_cases hrest : ∃ c ∈ rest, c.spaced = true
        · obtain ⟨front, last, glued, rfl, hlast, hglued⟩ := ih hrest
          exact ⟨b :: front, last, glued, rfl, hlast, hglued⟩
        · refine ⟨[], b, rest, rfl, ?_, by simpa using hrest⟩
          obtain ⟨c, hc, hcspaced⟩ := hspaced
          rcases List.mem_cons.mp hc with rfl | hc
          · exact hcspaced
          · exact absurd ⟨c, hc, hcspaced⟩ hrest
  cases line with
  | nil => simp [IsGroup] at hline
  | cons first rest =>
      obtain ⟨front, last, glued, rfl, hspaced, hglued⟩ := hlast rest (by simpa [IsGroup] using hline)
      exact ⟨first :: front, last, glued, rfl, List.cons_ne_nil _ _, hspaced, hglued⟩

/-- A line that is too long although it fits at its breaks has nothing to be broken at, or
hangs over. -/
theorem FitsAtBreaks.group_or_overhangs (h : FitsAtBreaks room line)
    (hlong : room < (lineText line).length) : IsGroup line ∨ Overhangs room line := by
  by_cases hgroup : IsGroup line
  · exact .inl hgroup
  · right
    obtain ⟨front, last, glued, rfl, hfront, hlast, hglued⟩ := exists_last_break hgroup
    have hfits := h front last glued rfl hfront hlast
    refine ⟨front, last, glued, rfl, hfront, hlast, ?_, hglued, hfits⟩
    -- with nothing glued to it, the atom would end the line, which would fit
    rintro rfl
    omega

end

/-! ## From line to line -/

section

variable {room : Nat} {line rest : List Atom} {a : Atom}

theorem length_lineText_concat (hne : line ≠ []) (ha : a.spaced = true) :
    (lineText (line ++ [a])).length = (lineText line).length + 1 + a.text.length := by
  have hbehind : a.inLine = ' ' :: a.text := by simp [Atom.inLine, ha]
  rw [lineText_concat hne, hbehind, List.length_append, List.length_cons]
  omega

/-- An atom that fits or is glued goes on the line. -/
theorem fill_goesOn (hne : line ≠ []) (hline : ∀ b ∈ line, b.text ≠ [])
    (ha : a.spaced = true → (lineText (line ++ [a])).length ≤ room) :
    fill room (lineText line) (a :: rest) = fill room (lineText (line ++ [a])) rest := by
  have hbegun := lineText_ne_nil hne hline
  rw [fill, if_neg (by simpa using hbegun)]
  cases hspaced : a.spaced with
  | false => simp [lineText_concat hne, Atom.inLine, hspaced]
  | true =>
      have hfits := ha hspaced
      rw [length_lineText_concat hne hspaced] at hfits
      rw [if_neg (by simp), if_neg (by omega), lineText_concat hne]
      simp [Atom.inLine, hspaced]

/-- An atom behind white space that does not fit begins the next line. -/
theorem fill_nextLine (hne : line ≠ []) (hline : ∀ b ∈ line, b.text ≠ [])
    (hspaced : a.spaced = true) (hlong : room < (lineText (line ++ [a])).length) :
    fill room (lineText line) (a :: rest) = lineText line :: fill room (lineText [a]) rest := by
  have hbegun := lineText_ne_nil hne hline
  rw [length_lineText_concat hne hspaced] at hlong
  rw [fill, if_neg (by simpa using hbegun), if_neg (by simp [hspaced]), if_pos hlong]
  simp [lineText]

end

/-- One line more in front of others, the next of which begins with an atom that did not
fit. -/
theorem Division.cons {room : Nat} {line rest : List Atom} {a : Atom} {later : List (List Atom)}
    (h : Division room ((a :: rest) :: later)) (hne : line ≠ []) (hline : FitsAtBreaks room line)
    (ha : a.spaced = true) (hlong : room < (lineText (line ++ [a])).length) :
    Division room (line :: (a :: rest) :: later) where
  nonempty := List.forall_mem_cons.mpr ⟨hne, h.nonempty⟩
  fits := List.forall_mem_cons.mpr ⟨hline, h.fits⟩
  full := List.isChain_cons_cons.mpr ⟨⟨a, rest, rfl, ha, hlong⟩, h.full⟩

/-- Filling goes on with the line that has begun, and then from line to line. -/
theorem exists_division_fill (room : Nat) {line rest : List Atom} (hne : line ≠ [])
    (hline : ∀ a ∈ line, a.text ≠ []) (hrest : ∀ a ∈ rest, a.text ≠ [])
    (hfits : FitsAtBreaks room line) :
    ∃ more later, more ++ later.flatten = rest ∧ Division room ((line ++ more) :: later) ∧
      fill room (lineText line) rest = ((line ++ more) :: later).map lineText := by
  induction rest generalizing line with
  | nil =>
      refine ⟨[], [], rfl, ⟨by simpa using hne, by simpa using hfits, List.isChain_singleton _⟩, ?_⟩
      simp [fill, lineText_ne_nil hne hline]
  | cons a rest ih =>
      obtain ⟨ha, hrest⟩ := List.forall_mem_cons.mp hrest
      by_cases hlong : a.spaced = true ∧ room < (lineText (line ++ [a])).length
      · -- the line ends, and the atom begins the next one
        obtain ⟨more, later, hsplit, hdivision, hfill⟩ := ih (List.cons_ne_nil a [])
          (by simpa using ha) hrest (fitsAtBreaks_singleton room a)
        refine ⟨[], ([a] ++ more) :: later, by simp [← hsplit], ?_, ?_⟩
        · rw [List.append_nil]
          exact hdivision.cons hne hfits hlong.1 hlong.2
        · rw [fill_nextLine hne hline hlong.1 hlong.2, hfill, List.append_nil]
          rfl
      · -- the atom goes on the line
        have hshort : a.spaced = true → (lineText (line ++ [a])).length ≤ room := fun hspaced =>
          Nat.le_of_not_lt fun hlt => hlong ⟨hspaced, hlt⟩
        have hlonger : ∀ b ∈ line ++ [a], b.text ≠ [] :=
          List.forall_mem_append.mpr ⟨hline, by simpa using ha⟩
        obtain ⟨more, later, hsplit, hdivision, hfill⟩ :=
          ih (by simp) hlonger hrest (hfits.concat hshort)
        rw [List.append_assoc] at hdivision hfill
        refine ⟨a :: more, later, by rw [← hsplit]; rfl, hdivision, ?_⟩
        rw [fill_goesOn hne hline hshort, hfill]
        rfl

/-- The lines of a run divide it. -/
theorem exists_division_wrap (width : Int) (depth : Nat) {atoms : List Atom}
    (hatoms : ∀ a ∈ atoms, a.text ≠ []) :
    ∃ lines : List (List Atom), wrap width depth atoms = lines.map lineText ∧
      lines.flatten = atoms ∧ Division (room width depth) lines := by
  cases atoms with
  | nil => exact ⟨[], rfl, rfl, ⟨by simp, by simp, List.isChain_nil⟩⟩
  | cons first rest =>
      obtain ⟨hfirst, hrest⟩ := List.forall_mem_cons.mp hatoms
      obtain ⟨more, later, hsplit, hdivision, hfill⟩ :=
        exists_division_fill (room width depth) (List.cons_ne_nil first []) (by simpa using hfirst)
          hrest (fitsAtBreaks_singleton _ first)
      have hbegin : lineText [first] = first.text := by simp [lineText]
      rw [hbegin] at hfill
      refine ⟨([first] ++ more) :: later, ?_, by simp [← hsplit], hdivision⟩
      rw [wrap, fill, if_pos List.isEmpty_nil, hfill]

/-- **Only a glued atom is too long.**  The lines of a run divide it, and a line that is longer
than the room is a single group, or else fits up to its last white space and the atom behind
it, and is too long by what is glued to that atom. -/
theorem overlong_of_wrap (width : Int) (depth : Nat) {atoms : List Atom}
    (hatoms : ∀ a ∈ atoms, a.text ≠ []) :
    ∃ lines : List (List Atom), wrap width depth atoms = lines.map lineText ∧
      lines.flatten = atoms ∧ Division (room width depth) lines ∧
      ∀ line ∈ lines, room width depth < (lineText line).length →
        IsGroup line ∨ Overhangs (room width depth) line := by
  obtain ⟨lines, hwrap, hflatten, hdivision⟩ := exists_division_wrap width depth hatoms
  refine ⟨lines, hwrap, hflatten, hdivision, fun line hline => ?_⟩
  exact (hdivision.fits line hline).group_or_overhangs

/-- A word, and behind white space a word with a tag and another word glued to it. -/
def gluedRun : List Atom :=
  [⟨"committee".toList, false⟩, ⟨"see".toList, true⟩, ⟨"<b>".toList, false⟩,
    ⟨"minutes".toList, false⟩, ⟨"</b>".toList, false⟩]

/-- The run is longer than twenty columns by what is glued to its second word. -/
theorem overlong_of_wrap_gluedRun :
    (∀ a ∈ gluedRun, a.text ≠ []) ∧ room 20 0 = 20 ∧
    ∃ lines : List (List Atom), wrap 20 0 gluedRun = lines.map lineText ∧
      lines.flatten = gluedRun ∧ Division (room 20 0) lines ∧
      ∀ line ∈ lines, room 20 0 < (lineText line).length →
        IsGroup line ∨ Overhangs (room 20 0) line :=
  ⟨by decide, by decide, overlong_of_wrap 20 0 (by decide)⟩

/-- It is not broken, although its second group would have fitted on a line of its own. -/
example : wrap 20 0 gluedRun = ["committee see<b>minutes</b>".toList] := by decide +kernel

/-! ## Any division of a run -/

theorem FitsAtBreaks.of_append {room : Nat} {front back : List Atom}
    (h : FitsAtBreaks room (front ++ back)) : FitsAtBreaks room front := by
  rintro inner a rest rfl
  exact h inner a (rest ++ back) (by simp)

/-- Atoms that fit at their breaks go on the line. -/
theorem fill_append_of_fits {room : Nat} {line more : List Atom} (hne : line ≠ [])
    (hatoms : ∀ a ∈ line ++ more, a.text ≠ []) (hfits : FitsAtBreaks room (line ++ more))
    (rest : List Atom) :
    fill room (lineText line) (more ++ rest) = fill room (lineText (line ++ more)) rest := by
  induction more generalizing line with
  | nil => simp
  | cons a more ih =>
      -- the line so far is what changes, so that the atom must move over to it
      have hassoc : line ++ a :: more = line ++ [a] ++ more := by simp
      rw [hassoc] at hatoms hfits ⊢
      have hshort : a.spaced = true → (lineText (line ++ [a])).length ≤ room :=
        hfits line a more (by simp) hne
      rw [List.cons_append, fill_goesOn hne
        (fun b hb => hatoms b (List.mem_append_left _ (List.mem_append_left _ hb))) hshort]
      exact ih (by simp) hatoms hfits

namespace Division

variable {room : Nat}

theorem tail {line : List Atom} {later : List (List Atom)} (h : Division room (line :: later)) :
    Division room later where
  nonempty := (List.forall_mem_cons.mp h.nonempty).2
  fits := (List.forall_mem_cons.mp h.fits).2
  full := h.full.tail

/-- The lines of the atoms up to a place inside a line, or at its end. -/
theorem upTo {done later : List (List Atom)} {front back : List Atom}
    (h : Division room (done ++ (front ++ back) :: later)) (hfront : front ≠ []) :
    Division room (done ++ [front]) where
  nonempty := List.forall_mem_append.mpr
    ⟨(List.forall_mem_append.mp h.nonempty).1, by simpa using hfront⟩
  fits := by
    obtain ⟨hdone, hlater⟩ := List.forall_mem_append.mp h.fits
    have hline : FitsAtBreaks room (front ++ back) := hlater _ (List.mem_cons_self ..)
    exact List.forall_mem_append.mpr ⟨hdone, by simpa using hline.of_append⟩
  full := by
    obtain ⟨hdone, -, hbetween⟩ := List.isChain_append.mp h.full
    refine List.isChain_append.mpr ⟨hdone, List.isChain_singleton _, ?_⟩
    intro last hlast next hnext
    obtain rfl : front = next := by simpa using hnext
    -- a line that is cut begins with the same atom
    obtain ⟨a, rest, hcons, hbreak⟩ := hbetween last hlast (front ++ back) rfl
    obtain ⟨first, others, rfl⟩ := List.exists_cons_of_ne_nil hfront
    obtain ⟨rfl, -⟩ := List.cons.inj hcons
    exact ⟨first, others, rfl, hbreak⟩

/-- Filling goes from line to line as the division does. -/
theorem fill_eq {line : List Atom} {later : List (List Atom)} (h : Division room (line :: later))
    (hatoms : ∀ a ∈ (line :: later).flatten, a.text ≠ []) :
    fill room (lineText line) later.flatten = (line :: later).map lineText := by
  induction later generalizing line with
  | nil =>
      have hne : line ≠ [] := h.nonempty line (List.mem_cons_self ..)
      have hline : lineText line ≠ [] := lineText_ne_nil hne (by simpa using hatoms)
      simp [fill, hline]
  | cons next later ih =>
      obtain ⟨⟨a, rest, rfl, hspaced, hlong⟩, -⟩ := List.isChain_cons_cons.mp h.full
      rw [List.flatten_cons] at hatoms
      obtain ⟨hline, hnext⟩ := List.forall_mem_append.mp hatoms
      have hbegins : ∀ b ∈ [a] ++ rest, b.text ≠ [] :=
        fun b hb => hnext b (by rw [List.flatten_cons]; exact List.mem_append_left _ hb)
      have hfits : FitsAtBreaks room ([a] ++ rest) :=
        h.tail.fits _ (List.mem_cons_self ..)
      rw [List.flatten_cons, List.cons_append,
        fill_nextLine (h.nonempty line (List.mem_cons_self ..)) hline hspaced hlong,
        fill_append_of_fits (List.cons_ne_nil a []) hbegins hfits, List.singleton_append,
        ih h.tail hnext]
      rfl

/-- A run is wrapped in the lines of any division of it. -/
theorem wrap_eq {width : Int} {depth : Nat} {lines : List (List Atom)}
    (h : Division (Markup.room width depth) lines) (hatoms : ∀ a ∈ lines.flatten, a.text ≠ []) :
    wrap width depth lines.flatten = lines.map lineText := by
  cases lines with
  | nil => rfl
  | cons line later =>
      obtain ⟨first, rest, rfl⟩ :=
        List.exists_cons_of_ne_nil (h.nonempty line (List.mem_cons_self ..))
      have hline : ∀ a ∈ [first] ++ rest, a.text ≠ [] := fun a ha =>
        hatoms a (by rw [List.flatten_cons]; exact List.mem_append_left _ ha)
      have hfits : FitsAtBreaks (Markup.room width depth) ([first] ++ rest) :=
        h.fits _ (List.mem_cons_self ..)
      have hfirst : lineText [first] = first.text := by simp [lineText]
      rw [wrap, List.flatten_cons, List.cons_append, fill, if_pos List.isEmpty_nil, ← hfirst,
        fill_append_of_fits (List.cons_ne_nil first []) hline hfits]
      exact h.fill_eq hatoms

end Division

/-! ## Breaks -/

/-- The line that is being filled when some atoms have been placed. -/
def currentLine (width : Int) (depth : Nat) (placed : List Atom) : List Char :=
  (wrap width depth placed).getLastD []

/-- One of the lines ends behind the atoms `before`. -/
def EndsBehind (lines : List (List Atom)) (before : List Atom) : Prop :=
  ∃ n, (lines.take n).flatten = before

/-- The columns left at a depth, as integers: a width may be negative. -/
theorem room_lt_iff (width : Int) (depth n : Nat) :
    room width depth < n ↔ max (width - 2 * depth) 20 < (n : Int) := by
  unfold room
  omega

/-- Lines joined by spaces are the run on one line. -/
theorem Division.joinWith_lines {room : Nat} {lines : List (List Atom)} (h : Division room lines) :
    joinWith [' '] (lines.map lineText) = lineText lines.flatten := by
  induction lines with
  | nil => rfl
  | cons line later ih =>
      cases later with
      | nil => simp
      | cons next later =>
          obtain ⟨⟨a, rest, rfl, hspaced, -⟩, -⟩ := List.isChain_cons_cons.mp h.full
          have hne : line ≠ [] := h.nonempty line (List.mem_cons_self ..)
          have hlater := ih h.tail
          rw [List.flatten_cons] at hlater ⊢
          rw [List.map_cons, joinWith_cons _ _ (by simp), hlater, lineText_append hne]
          simp [lineText, Atom.inLine, hspaced]

section

variable {width : Int} {depth : Nat} {before after : List Atom} {a : Atom}

/-- The line that is being filled at a place inside a line is the line up to there. -/
theorem Division.currentLine_eq {done later : List (List Atom)} {front back : List Atom}
    (h : Division (room width depth) (done ++ (front ++ back) :: later)) (hfront : front ≠ [])
    (hatoms : ∀ b ∈ done.flatten ++ front, b.text ≠ []) :
    currentLine width depth (done.flatten ++ front) = lineText front := by
  have hflatten : (done ++ [front]).flatten = done.flatten ++ front := by simp
  have hwrap := (h.upTo hfront).wrap_eq (by rwa [hflatten])
  rw [hflatten] at hwrap
  rw [currentLine, hwrap, List.map_append, List.map_singleton, List.getLastD_concat]

/-- A line ends only in front of an atom that follows white space and does not fit. -/
theorem Division.long_of_endsBehind {done later : List (List Atom)}
    (h : Division (room width depth) (done ++ later)) (hatoms : ∀ b ∈ done.flatten, b.text ≠ [])
    (hdone : done.flatten ≠ []) (hlater : later.flatten = a :: after) :
    a.spaced = true ∧
      room width depth < (currentLine width depth done.flatten).length + 1 + a.text.length := by
  obtain ⟨front, line, rfl⟩ : ∃ front line, done = front ++ [line] := by
    rcases List.eq_nil_or_concat done with rfl | ⟨front, line, rfl⟩
    · exact absurd rfl hdone
    · exact ⟨front, line, List.concat_eq_append⟩
  cases later with
  | nil => cases hlater
  | cons next later =>
      obtain ⟨b, rest, rfl, hspaced, hlong⟩ :=
        (List.isChain_append.mp h.full).2.2 line (by simp) next rfl
      obtain ⟨rfl, -⟩ := List.cons.inj hlater
      have hne : line ≠ [] := h.nonempty line (by simp)
      have hflatten : (front ++ [line]).flatten = front.flatten ++ line := by simp
      have hwhole : Division (room width depth)
          (front ++ (line ++ []) :: (b :: rest) :: later) := by simpa using h
      rw [hflatten] at hatoms ⊢
      rw [hwhole.currentLine_eq hne hatoms, ← length_lineText_concat hne hspaced]
      exact ⟨hspaced, hlong⟩

/-- A line ends in front of an atom exactly if the atom follows white space and does not fit. -/
theorem Division.endsBehind_iff {lines : List (List Atom)}
    (h : Division (room width depth) lines) (hatoms : ∀ b ∈ before, b.text ≠ [])
    (hbefore : before ≠ []) (hsplit : lines.flatten = before ++ a :: after) :
    EndsBehind lines before ↔ a.spaced = true ∧
      room width depth < (currentLine width depth before).length + 1 + a.text.length := by
  constructor
  · rintro ⟨n, rfl⟩
    have hlines : lines.take n ++ lines.drop n = lines := List.take_append_drop n lines
    have hboth : (lines.take n).flatten ++ (lines.drop n).flatten =
        (lines.take n).flatten ++ a :: after := by
      rw [← List.flatten_append, hlines, hsplit]
    rw [← hlines] at h
    exact h.long_of_endsBehind hatoms hbefore (List.append_cancel_left hboth)
  · rintro ⟨hspaced, hlong⟩
    rcases List.flatten_eq_append_iff.mp hsplit with ⟨done, later, rfl, rfl, -⟩ |
        ⟨done, front, b, back, later, rfl, rfl, hafter⟩
    · exact ⟨done.length, by simp⟩
    · obtain ⟨rfl, -⟩ := List.cons.inj hafter
      by_cases hfront : front = []
      · exact ⟨done.length, by simp [hfront]⟩
      · -- inside of a line the atom fits
        have hfits := h.fits (front ++ a :: back) (by simp) front a back rfl hfront hspaced
        rw [length_lineText_concat hfront hspaced] at hfits
        rw [h.currentLine_eq hfront hatoms] at hlong
        omega

end

/-- **Wrapping puts line ends in the place of white space.**  The lines, joined by spaces, are
the run on one line; none is empty; each consists of whole atoms; and behind the first atom a
line ends in front of those atoms that follow white space and, put on the line that is being
filled, would make it longer than the columns left at the depth, of which there are never
fewer than twenty. -/
theorem breaks_of_wrap (width : Int) (depth : Nat) {atoms : List Atom}
    (hatoms : ∀ a ∈ atoms, a.text ≠ []) :
    joinWith [' '] (wrap width depth atoms) = lineText atoms ∧
    [] ∉ wrap width depth atoms ∧
    ∃ lines : List (List Atom), wrap width depth atoms = lines.map lineText ∧
      lines.flatten = atoms ∧ [] ∉ lines ∧
      ∀ before a after, atoms = before ++ a :: after → before ≠ [] →
        (EndsBehind lines before ↔ a.spaced = true ∧
          max (width - 2 * depth) 20 <
            (currentLine width depth before).length + 1 + a.text.length) := by
  obtain ⟨lines, hwrap, rfl, hdivision⟩ := exists_division_wrap width depth hatoms
  refine ⟨by rw [hwrap, hdivision.joinWith_lines], ?_, lines, hwrap, rfl,
    fun hnil => hdivision.nonempty [] hnil rfl, ?_⟩
  · rw [hwrap, List.mem_map]
    rintro ⟨line, hline, hempty⟩
    exact lineText_ne_nil (hdivision.nonempty line hline)
      (fun a ha => hatoms a (List.mem_flatten_of_mem hline ha)) hempty
  · intro before a after hsplit hbefore
    have hplaced : ∀ b ∈ before, b.text ≠ [] := fun b hb =>
      hatoms b (hsplit ▸ List.mem_append_left _ hb)
    rw [hdivision.endsBehind_iff hplaced hbefore hsplit, room_lt_iff]
    push_cast
    rfl

/-- A sentence with tags glued to one of its words. -/
def taggedSentence : List Atom :=
  [⟨"the".toList, false⟩, ⟨"committee".toList, true⟩, ⟨"meets".toList, true⟩, ⟨"on".toList, true⟩,
    ⟨"<b>".toList, true⟩, ⟨"Monday".toList, false⟩, ⟨"</b>".toList, false⟩, ⟨"at".toList, true⟩,
    ⟨"noon".toList, true⟩]

/-- In twenty columns a line ends in front of the third space of the sentence, but not in
front of the fourth, where there is room, nor inside of what is glued. -/
theorem breaks_of_wrap_taggedSentence :
    (∀ a ∈ taggedSentence, a.text ≠ []) ∧
    joinWith [' '] (wrap 20 0 taggedSentence) = lineText taggedSentence ∧
    ∃ lines : List (List Atom), wrap 20 0 taggedSentence = lines.map lineText ∧
      lines.flatten = taggedSentence ∧ EndsBehind lines (taggedSentence.take 3) ∧
      ¬ EndsBehind lines (taggedSentence.take 4) ∧ ¬ EndsBehind lines (taggedSentence.take 5) := by
  have htexts : ∀ a ∈ taggedSentence, a.text ≠ [] := by decide
  obtain ⟨hjoined, -, lines, hwrap, hflatten, -, hbreaks⟩ := breaks_of_wrap 20 0 htexts
  have hthird := hbreaks (taggedSentence.take 3) ⟨"on".toList, true⟩ (taggedSentence.drop 4) rfl
    (by decide)
  have hfourth := hbreaks (taggedSentence.take 4) ⟨"<b>".toList, true⟩ (taggedSentence.drop 5) rfl
    (by decide)
  have hglued := hbreaks (taggedSentence.take 5) ⟨"Monday".toList, false⟩
    (taggedSentence.drop 6) rfl (by decide)
  refine ⟨htexts, hjoined, lines, hwrap, hflatten, hthird.mpr (by decide), ?_, ?_⟩
  · rw [hfourth]
    decide
  · rw [hglued]
    decide

example : wrap 20 0 taggedSentence =
    ["the committee meets".toList, "on <b>Monday</b> at".toList, "noon".toList] := by decide

end Folio.Markup
