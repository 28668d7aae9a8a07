import Folio.Proofs.Source.Tagged

/-!
# Texts with flat definitions

A text is made of plain text and of definitions with no tag within (`Segment`), and each
definition is to be listed with the lines of its own two tags (`listing`).  Four searches go
through the text, two for openings and two for closings; each finds its tags where the
definitions stand (`occurrencesFrom_written`).  The next closing behind an opening is its own,
since each definition ends before the next begins (`pairwise_places`).

Where a plain text ends with a brace and the next begins with a percent sign, a mark comes about
that is in neither of them.  Without such a seam the definitions are listed as they are written
(`definitions_written`).
-/

namespace Folio.Source

open Text

variable {α : Type}

/-! ## Segments -/

/-- A part of a text: plain text without a mark, or a definition. -/
inductive Segment
  | plain (text : List Char) (unmarked : Unmarked text := by decide +kernel)
  | definition (d : FlatDefinition)

/-- A part as it is written. -/
def Segment.text : Segment → List Char
  | .plain text _ => text
  | .definition d => d.text

/-- Parts as they are written one after the other. -/
def written (segments : List Segment) : List Char :=
  segments.flatMap Segment.text

/-- No mark comes about where plain text ends. -/
def Seamless : List Segment → Prop
  | [] => True
  | .plain text _ :: rest =>
      (text.getLast? = some '{' → (written rest).head? ≠ some '%') ∧ Seamless rest
  | .definition _ :: rest => Seamless rest

/-- The line of what stands behind a text. -/
def lineAfter (before : List Char) : Nat :=
  before.count '\n' + 1

/-- What is to be listed of the parts of a text, which stand behind `before`. -/
def listing (before : List Char) : List Segment → List Definition
  | [] => []
  | .plain text _ :: rest => listing (before ++ text) rest
  | .definition d :: rest =>
      ⟨d.kind, d.name, lineAfter before, some (lineAfter (before ++ (d.openingTag ++ d.body)))⟩ ::
        listing (before ++ d.text) rest

/-! ## Places -/

/-- A definition and the place where it begins. -/
structure PlacedDefinition where
  start : Nat
  definition : FlatDefinition

namespace PlacedDefinition

/-- The place of the closing tag. -/
def close (p : PlacedDefinition) : Nat :=
  p.start + p.definition.closingPlace

/-- The definition by its places. -/
def site (p : PlacedDefinition) : Site :=
  ⟨p.definition.kind, p.definition.name, p.start, some p.close⟩

theorem start_lt_close (p : PlacedDefinition) : p.start < p.close := by
  have hopening : 0 < p.definition.openingTag.length :=
    List.length_pos_iff.mpr p.definition.tags_ne_nil.1
  rw [close, FlatDefinition.closingPlace]
  omega

end PlacedDefinition

/-- The definitions among parts of which the first begins at a place. -/
def places : Nat → List Segment → List PlacedDefinition
  | _, [] => []
  | place, .plain text _ :: rest => places (place + text.length) rest
  | place, .definition d :: rest => ⟨place, d⟩ :: places (place + d.text.length) rest

/-- A definition ends before the next one begins. -/
theorem pairwise_places (place : Nat) (segments : List Segment) :
    (∀ p ∈ places place segments, place ≤ p.start) ∧
      (places place segments).Pairwise fun a b => a.close < b.start := by
  induction segments generalizing place with
  | nil => exact ⟨fun p hp => absurd hp List.not_mem_nil, List.Pairwise.nil⟩
  | cons segment rest ih =>
      cases segment with
      | plain text _ =>
          obtain ⟨hbehind, hpairs⟩ := ih (place + text.length)
          exact ⟨fun p hp => (Nat.le_add_right _ _).trans (hbehind p hp), hpairs⟩
      | definition d =>
          obtain ⟨hbehind, hpairs⟩ := ih (place + d.text.length)
          have hclose : place + d.closingPlace < place + d.text.length :=
            Nat.add_lt_add_left d.closingPlace_lt place
          refine ⟨List.forall_mem_cons.mpr ⟨Nat.le_refl _, fun p hp => ?_⟩,
            List.pairwise_cons.mpr ⟨fun p hp => hclose.trans_le (hbehind p hp), hpairs⟩⟩
          exact (Nat.le_add_right _ _).trans (hbehind p hp)

/-- The first closing behind an opening is its own. -/
theorem find?_close {ps : List PlacedDefinition}
    (hps : ps.Pairwise fun a b => a.close < b.start) {p : PlacedDefinition} (hp : p ∈ ps) :
    (ps.map PlacedDefinition.close).find? (fun place => p.start < place) = some p.close := by
  induction ps with
  | nil => cases hp
  | cons first rest ih =>
      obtain ⟨hfirst, hrest⟩ := List.pairwise_cons.mp hps
      rw [List.map_cons]
      rcases List.mem_cons.mp hp with rfl | hp
      · rw [List.find?_cons_of_pos (by simpa using p.start_lt_close)]
      · have hlt := hfirst p hp
        rw [List.find?_cons_of_neg (by simp; omega), ih hrest hp]

/-! ## What is found -/

/-- A search that finds in each definition of one kind something at a place of its own, and
nothing elsewhere, finds this in the definitions of a whole text. -/
theorem occurrencesFrom_written {pattern : Pattern α} (hpattern : BeginsAtMark pattern)
    {kind : DefinitionKind} {place : FlatDefinition → Nat} {value : FlatDefinition → α}
    (hstep : ∀ (d : FlatDefinition) offset t,
      occurrencesFrom pattern offset 0 (d.text ++ t) =
        (if kind = d.kind then [⟨offset + place d, value d⟩] else []) ++
          occurrencesFrom pattern (offset + d.text.length) 0 t)
    {segments : List Segment} (hseamless : Seamless segments) (offset : Nat) :
    occurrencesFrom pattern offset 0 (written segments) =
      ((places offset segments).filter fun p => kind = p.definition.kind).map fun p =>
        ⟨p.start + place p.definition, value p.definition⟩ := by
  induction segments generalizing offset with
  | nil => rfl
  | cons segment rest ih =>
      have hwritten : written (segment :: rest) = segment.text ++ written rest := rfl
      cases segment with
      | plain text hunmarked =>
          obtain ⟨hseam, hrest⟩ := hseamless
          rw [hwritten, Segment.text,
            occurrencesFrom_append (hpattern.quiet (quiet_unmarked hunmarked hseam)), ih hrest]
          rfl
      | definition d =>
          rw [hwritten, Segment.text, hstep, ih hseamless, places]
          by_cases hkind : kind = d.kind
          · rw [if_pos hkind, List.filter_cons_of_pos (by simpa using hkind)]
            rfl
          · rw [if_neg hkind, List.filter_cons_of_neg (by simpa using hkind)]
            rfl

variable {segments : List Segment}

/-- The definitions of one kind are found at their places, each with its own closing. -/
theorem sitesOfKind_written (hseamless : Seamless segments) (kind : DefinitionKind) :
    sitesOfKind (written segments) kind =
      ((places 0 segments).filter fun p => kind = p.definition.kind).map
        PlacedDefinition.site := by
  have hopening : ∀ (d : FlatDefinition) offset t,
      occurrencesFrom (openingPattern kind) offset 0 (d.text ++ t) =
        (if kind = d.kind then [⟨offset + 0, d.name⟩] else []) ++
          occurrencesFrom (openingPattern kind) (offset + d.text.length) 0 t :=
    fun d offset t => d.occurrencesFrom_openingPattern kind offset t
  have hopenings := occurrencesFrom_written (beginsAtMark_openingPattern kind) hopening hseamless 0
  have hclosings := occurrencesFrom_written (beginsAtMark_closingPattern kind)
    (fun d offset t => d.occurrencesFrom_closingPattern kind offset t) hseamless 0
  have hpairs := ((pairwise_places 0 segments).2).filter fun p => kind = p.definition.kind
  rw [sitesOfKind, sitesOf, occurrences, occurrences, hopenings, hclosings]
  simp only [List.map_map]
  refine List.map_congr_left fun p hp => ?_
  have hclose := find?_close hpairs hp
  have hkind : kind = p.definition.kind := by simpa using (List.mem_filter.mp hp).2
  exact Site.mk.injEq .. ▸ ⟨hkind, rfl, rfl, hclose⟩

theorem sites_written (hseamless : Seamless segments) :
    sites (written segments) = (places 0 segments).map PlacedDefinition.site := by
  have hpairs := (pairwise_places 0 segments).2
  refine eq_of_perm_of_pairwise ?_ (pairwise_sites _)
    (List.pairwise_map.mpr (hpairs.imp fun h => (PlacedDefinition.start_lt_close _).trans h))
  have hmacro : (fun p : PlacedDefinition => decide (.namedMacro = p.definition.kind)) =
      fun p => !decide (.namedBlock = p.definition.kind) := by
    funext p
    cases p.definition.kind <;> rfl
  refine (perm_sites _).trans ?_
  rw [sitesOfKind_written hseamless, sitesOfKind_written hseamless, ← List.map_append, hmacro]
  exact (List.filter_append_perm _ _).map _

/-! ## Lines -/

/-- The places of definitions give the lines that are to be listed. -/
theorem map_places (before : List Char) (segments : List Segment) :
    (places before.length segments).map
        (fun p => p.site.definition (lineOf (before ++ written segments))) =
      listing before segments := by
  induction segments generalizing before with
  | nil => rfl
  | cons segment rest ih =>
      have hwritten : before ++ written (segment :: rest) =
          before ++ segment.text ++ written rest := by
        rw [List.append_assoc]
        rfl
      have hrest := ih (before ++ segment.text)
      rw [List.length_append] at hrest
      rw [hwritten]
      cases segment with
      | plain text _ => exact hrest
      | definition d =>
          have hstart := lineOf_append before (d.text ++ written rest)
          have hclose := lineOf_append (before ++ (d.openingTag ++ d.body))
            (d.closingTag ++ written rest)
          have htext : before ++ (d.openingTag ++ d.body) ++ (d.closingTag ++ written rest) =
              before ++ d.text ++ written rest := by
            simp [FlatDefinition.text]
          rw [htext, List.length_append, List.length_append] at hclose
          rw [← List.append_assoc] at hstart
          rw [Segment.text] at hrest ⊢
          rw [listing, ← hrest, lineAfter, lineAfter, ← hstart, ← hclose]
          rfl

/-- **Definitions are listed as they are written.**  A text of plain text and flat definitions,
in which no mark comes about at a seam, has just these definitions, in order, each with its kind,
its name and the lines of its own two tags.  In any text the lines on which definitions begin do
not decrease, no definition ends before it begins, and the first macro that is found is the first
that is listed. -/
theorem definitions_written :
    (∀ segments, Seamless segments → definitions (written segments) = listing [] segments) ∧
    ∀ text, ((definitions text).Pairwise fun a b => a.line ≤ b.line) ∧
      (∀ d ∈ definitions text, ∀ line ∈ d.endLine, d.line ≤ line) ∧
      firstMacroName? text =
        ((definitions text).find? fun d => d.kind = .namedMacro).map (·.name) := by
  refine ⟨fun segments hseamless => ?_, fun text =>
    ⟨pairwise_definitions text, fun d hd => line_le_endLine hd, firstMacroName?_eq text⟩⟩
  rw [definitions_eq, sites_written hseamless, List.map_map]
  exact map_places [] segments

/-- Tags without signs. -/
def plainEnds : TagEnds :=
  ⟨[], [' '], [' '], [], by decide, by decide, by decide, by decide⟩

/-- Tags with signs, and a line feed in them. -/
def signedEnds : TagEnds :=
  ⟨['-'], ['\n'], [], ['+'], by decide, by decide, by decide, by decide⟩

/-- A macro and two blocks, with braces and percent signs at their ends. -/
def sampleSegments : List Segment :=
  [.plain "<p>\n\x7b".toList,
    .definition
      { kind := .namedMacro, name := "card".toList, arguments := "a,\nb='\x7b'".toList
        body := "%\n \x7b".toList, opening := signedEnds, space := [' '], closing := plainEnds },
    .plain "%\x7d\n".toList,
    .definition
      { kind := .namedBlock, name := "_x1".toList, arguments := [], body := []
        opening := signedEnds, space := ['\n'], closing := signedEnds },
    .definition
      { kind := .namedBlock, name := "end".toList, arguments := [], body := "\n".toList
        opening := plainEnds, space := [' '], closing := plainEnds }]

theorem definitions_written_sampleSegments :
    Seamless sampleSegments ∧
      definitions (written sampleSegments) =
        [⟨.namedMacro, "card".toList, 2, some 5⟩, ⟨.namedBlock, "_x1".toList, 6, some 8⟩,
          ⟨.namedBlock, "end".toList, 9, some 10⟩] := by
  have hseamless : Seamless sampleSegments := by
    refine ⟨fun _ => ?_, fun h => ?_, trivial⟩
    · decide
    · exact absurd h (by decide)
  exact ⟨hseamless, (definitions_written.1 sampleSegments hseamless).trans (by decide +kernel)⟩

/-- Two plain texts without a mark, and one where they meet. -/
theorem definitions_over_seam :
    ¬ ∀ segments, definitions (written segments) = listing [] segments := by
  intro h
  have hseam := h [.plain ['{'], .plain "% block a %\x7d".toList]
  revert hseam
  decide +kernel

end Folio.Source
