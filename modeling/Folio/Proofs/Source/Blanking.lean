import Folio.Proofs.Source.Delimiters
import Folio.Source.Reference

/-!
# Blanked frontmatter keeps its lines

The frontmatter of a template is replaced by its line feeds before the template is looked at.
What follows the block then stands further to the left, but on the same line: counted from the
end of the text, a place is where it was (`unblanked`).

Statements are looked for in the blanked text.  None begins at a line feed, so all of them are
found behind the block, and the lines that are reported for them are those of the text itself
(`blankFrontmatter_keeps_lines`).
-/

namespace Folio.Source

open Text

variable {text : List Char}

/-! ## The block -/

theorem exists_of_lineEnd {s rest : List Char} (h : lineEnd s = some rest) :
    ∃ ending, s = ending ++ rest ∧ 0 < ending.count '\n' := by
  unfold lineEnd at h
  split at h
  · exact ⟨['\r', '\n'], by rw [← Option.some.inj h]; rfl, by decide⟩
  · exact ⟨['\n'], by rw [← Option.some.inj h]; rfl, by decide⟩
  · cases h

theorem suffix_of_dashes {s rest : List Char} (h : dashes s = some rest) : rest <:+ s := by
  obtain ⟨u, hword, rfl⟩ := Option.map_eq_some_iff.mp h
  exact (List.dropWhile_suffix _).trans (suffix_of_dropWord hword)

theorem suffix_of_closingLine {s rest : List Char} (h : closingLine s = some rest) :
    rest <:+ s := by
  obtain ⟨u, hopening, hclose⟩ := Option.bind_eq_some_iff.mp h
  obtain ⟨v, hend, hdashes⟩ := Option.bind_eq_some_iff.mp hopening
  obtain ⟨ending, rfl, -⟩ := exists_of_lineEnd hend
  have hsuffix : u <:+ ending ++ v :=
    (suffix_of_dashes hdashes).trans (List.suffix_append ending v)
  split at hclose
  · rw [← Option.some.inj hclose]
    exact List.nil_suffix
  · obtain ⟨closing, rfl, -⟩ := exists_of_lineEnd hclose
    exact (List.suffix_append closing rest).trans hsuffix

theorem suffix_of_beforeClosingLine {s body rest : List Char}
    (h : beforeClosingLine s = some (body, rest)) : rest <:+ s := by
  induction s generalizing body with
  | nil => cases h
  | cons c s ih =>
      rw [beforeClosingLine] at h
      split at h
      · rename_i hclosing
        cases h
        exact suffix_of_closingLine hclosing
      · obtain ⟨⟨body, rest⟩, hrest, heq⟩ := Option.map_eq_some_iff.mp h
        cases heq
        exact (ih hrest).trans (List.suffix_cons c s)

/-- A block has a line end, that of its first line. -/
theorem exists_block {body rest : List Char} (h : splitFrontmatter text = some (body, rest)) :
    ∃ block, text = block ++ rest ∧ 0 < block.count '\n' := by
  obtain ⟨u, hopen, hbody⟩ := Option.bind_eq_some_iff.mp h
  obtain ⟨v, hdashes, hend⟩ := Option.bind_eq_some_iff.mp hopen
  obtain ⟨opening, rfl⟩ := suffix_of_dashes hdashes
  obtain ⟨ending, rfl, hfeed⟩ := exists_of_lineEnd hend
  obtain ⟨inner, rfl⟩ := suffix_of_beforeClosingLine hbody
  refine ⟨opening ++ ending ++ inner, by simp, ?_⟩
  rw [List.count_append, List.count_append]
  omega

/-- What blanking makes of a text. -/
theorem blankFrontmatter_cases (text : List Char) :
    (frontmatter text = none ∧ blankFrontmatter text = text) ∨
      ∃ block body rest, splitFrontmatter text = some (body, rest) ∧ text = block ++ rest ∧
        0 < block.count '\n' ∧
        blankFrontmatter text = List.replicate (block.count '\n') '\n' ++ rest := by
  cases hsplit : splitFrontmatter text with
  | none => exact .inl (frontmatter_of_none hsplit)
  | some found =>
      obtain ⟨body, rest⟩ := found
      obtain ⟨block, rfl, hfeed⟩ := exists_block hsplit
      refine .inr ⟨block, body, rest, rfl, rfl, hfeed, ?_⟩
      rw [blankFrontmatter_of_some hsplit, List.filter_beq]

/-- In any case, a part of the text has been replaced by its line feeds. -/
theorem exists_blanked (text : List Char) :
    ∃ block rest, text = block ++ rest ∧
      blankFrontmatter text = List.replicate (block.count '\n') '\n' ++ rest := by
  rcases blankFrontmatter_cases text with ⟨-, hsame⟩ | ⟨block, -, rest, -, htext, -, hblank⟩
  · exact ⟨[], text, rfl, hsame⟩
  · exact ⟨block, rest, htext, hblank⟩

theorem splitFrontmatter_newline (s : List Char) : splitFrontmatter ('\n' :: s) = none :=
  rfl

/-- A text that is blanked has no frontmatter any more. -/
theorem splitFrontmatter_blankFrontmatter (text : List Char) :
    splitFrontmatter (blankFrontmatter text) = none := by
  rcases blankFrontmatter_cases text with ⟨hnone, hsame⟩ | ⟨block, -, rest, -, -, hfeed, hblank⟩
  · rw [hsame]
    exact Option.map_eq_none_iff.mp hnone
  · obtain ⟨n, hn⟩ := Nat.exists_eq_add_of_lt hfeed
    rw [hblank, hn, Nat.zero_add, List.replicate_succ, List.cons_append,
      splitFrontmatter_newline]

theorem count_blankFrontmatter (text : List Char) :
    (blankFrontmatter text).count '\n' = text.count '\n' := by
  obtain ⟨block, rest, htext, hblank⟩ := exists_blanked text
  rw [hblank, htext, List.count_append, List.count_append, List.count_replicate_self]

/-! ## Places -/

/-- Where a place of the blanked text is in the text itself: as far from the end. -/
def unblanked (text : List Char) (place : Nat) : Nat :=
  place + text.length - (blankFrontmatter text).length

/-- A place of the blanked text at which, and on a line with which, the text goes on in the same
way. -/
structure Kept (text : List Char) (place : Nat) : Prop where
  drop : text.drop (unblanked text place) = (blankFrontmatter text).drop place
  line : lineOf (blankFrontmatter text) place = lineOf text (unblanked text place)

/-- Places behind the line feeds are kept. -/
theorem kept_of_le {block rest : List Char} (htext : text = block ++ rest)
    (hblank : blankFrontmatter text = List.replicate (block.count '\n') '\n' ++ rest)
    {place : Nat} (hplace : block.count '\n' ≤ place) : Kept text place := by
  obtain ⟨feeds, hfeeds, hlength, hcount⟩ :
      ∃ feeds, feeds = List.replicate (block.count '\n') '\n' ∧
        feeds.length = block.count '\n' ∧ feeds.count '\n' = block.count '\n' :=
    ⟨_, rfl, List.length_replicate, List.count_replicate_self⟩
  rw [← hlength] at hplace
  rw [← hfeeds] at hblank
  obtain ⟨k, rfl⟩ := Nat.exists_eq_add_of_le hplace
  have hunblanked : unblanked text (feeds.length + k) = block.length + k := by
    rw [unblanked, hblank, htext, List.length_append, List.length_append]
    omega
  constructor
  · rw [hunblanked, hblank, htext, List.drop_length_add_append, List.drop_length_add_append]
  · rw [hunblanked, hblank, htext, lineOf, lineOf, List.take_length_add_append,
      List.take_length_add_append, List.count_append, List.count_append, hcount]

theorem offset_le_of_occurrencesFrom {α : Type} {pattern : Pattern α} {offset skip : Nat}
    {s : List Char} {found : Located α} (h : found ∈ occurrencesFrom pattern offset skip s) :
    offset ≤ found.offset := by
  fun_induction occurrencesFrom pattern offset skip s with
  | case1 => cases h
  | case2 offset skip c s ih => exact Nat.le_of_succ_le (ih h)
  | case3 offset c s value rest hmatch ih =>
      rcases List.mem_cons.mp h with rfl | hlater
      · exact Nat.le_refl _
      · exact Nat.le_of_succ_le (ih hlater)
  | case4 offset c s hmatch ih => exact Nat.le_of_succ_le (ih h)

/-- What begins with something else than a line feed is found where the text is kept. -/
theorem kept_of_occurrence {α : Type} {pattern : Pattern α}
    (hnewline : ∀ s, pattern ('\n' :: s) = none) {found : Located α}
    (hfound : found ∈ occurrences pattern (blankFrontmatter text)) : Kept text found.offset := by
  obtain ⟨block, rest, htext, hblank⟩ := exists_blanked text
  refine kept_of_le htext hblank ?_
  have hquiet : Quiet pattern (List.replicate (block.count '\n') '\n') rest := by
    intro c v hv
    obtain rfl := List.eq_of_mem_replicate (hv.subset List.mem_cons_self)
    exact hnewline (v ++ rest)
  rw [hblank, occurrences, occurrencesFrom_append hquiet, Nat.zero_add,
    List.length_replicate] at hfound
  exact offset_le_of_occurrencesFrom hfound

/-! ## Definitions by their places -/

/-- A definition with the places, instead of the lines, of its two statements. -/
structure Site where
  kind : DefinitionKind
  name : List Char
  start : Nat
  close? : Option Nat
  deriving Repr, DecidableEq

namespace Site

/-- A definition, when the line of each place is known. -/
def definition (line : Nat → Nat) (site : Site) : Definition :=
  ⟨site.kind, site.name, line site.start, site.close?.map line⟩

/-- The places of both statements. -/
def places (site : Site) : List Nat :=
  site.start :: site.close?.toList

theorem definition_congr {line line' : Nat → Nat} {site : Site}
    (h : ∀ place ∈ site.places, line place = line' place) :
    site.definition line = site.definition line' := by
  obtain ⟨hstart, hclose⟩ := List.forall_mem_cons.mp h
  rw [definition, definition, hstart]
  cases hsite : site.close? with
  | none => rfl
  | some place => rw [Option.map_some, Option.map_some, hclose place (by simp [hsite])]

end Site

/-- The definitions of one kind by their places. -/
def sitesOf (kind : DefinitionKind) (pattern : Pattern (List Char)) (text : List Char) :
    List Site :=
  let ends := (occurrences (closingPattern kind) text).map (·.offset)
  (occurrences pattern text).map fun found =>
    ⟨kind, found.value, found.offset, ends.find? fun e => found.offset < e⟩

/-- The definitions of a text by their places, in the order in which they begin. -/
def sites (text : List Char) : List Site :=
  (sitesOf .namedBlock blockPattern text ++ sitesOf .namedMacro macroPattern text).mergeSort
    fun a b => a.start ≤ b.start

theorem definitionsOf_eq (kind : DefinitionKind) (pattern : Pattern (List Char))
    (text : List Char) :
    definitionsOf kind pattern text =
      (sitesOf kind pattern text).map fun site =>
        ⟨site.start, site.definition (lineOf text)⟩ := by
  rw [definitionsOf, sitesOf, List.map_map]
  rfl

/-- The definitions of a text are reported with the lines of their places. -/
theorem definitions_eq (text : List Char) :
    definitions text = (sites text).map (Site.definition (lineOf text)) := by
  rw [definitions, sites, definitionsOf_eq, definitionsOf_eq, ← List.map_append,
    ← List.map_mergeSort (r := fun a b : Site => a.start ≤ b.start) fun _ _ _ _ => rfl,
    List.map_map]
  rfl

theorem kept_of_site {site : Site} (hsite : site ∈ sites (blankFrontmatter text)) :
    ∀ place ∈ site.places, Kept text place := by
  have hof : ∀ kind pattern, (∀ s, pattern ('\n' :: s) = none) →
      ∀ other ∈ sitesOf kind pattern (blankFrontmatter text),
        ∀ place ∈ other.places, Kept text place := by
    intro kind pattern hnewline other hother
    obtain ⟨found, hfound, rfl⟩ := List.mem_map.mp hother
    refine List.forall_mem_cons.mpr ⟨kept_of_occurrence hnewline hfound, fun place hplace => ?_⟩
    obtain ⟨closing, hclosing, rfl⟩ :=
      List.mem_map.mp (List.mem_of_find?_eq_some (Option.mem_toList.mp hplace))
    exact kept_of_occurrence (fun _ => rfl) hclosing
  rcases List.mem_append.mp (List.mem_mergeSort.mp hsite) with hblock | hmacro
  · exact hof .namedBlock blockPattern (fun _ => rfl) site hblock
  · exact hof .namedMacro macroPattern (fun _ => rfl) site hmacro

/-! ## All that is reported -/

/-- **Blanking keeps every line.**  A text without frontmatter stays as it is; otherwise the
block becomes its line feeds, so that there are as many as before and no frontmatter is left.
The references and definitions of the blanked text are reported with the lines on which they are
in the text itself, where as far from the end the same stands. -/
theorem blankFrontmatter_keeps_lines (text : List Char) :
    (blankFrontmatter text).count '\n' = text.count '\n' ∧
    ((frontmatter text = none ∧ blankFrontmatter text = text) ∨
      ∃ block body rest, splitFrontmatter text = some (body, rest) ∧ text = block ++ rest ∧
        blankFrontmatter text = List.replicate (block.count '\n') '\n' ++ rest) ∧
    blankFrontmatter (blankFrontmatter text) = blankFrontmatter text ∧
    frontmatter (blankFrontmatter text) = none ∧
    (references (blankFrontmatter text) =
        (occurrences referencePattern (blankFrontmatter text)).map (fun found =>
          ⟨found.value.1, found.value.2, lineOf text (unblanked text found.offset)⟩) ∧
      ∀ found ∈ occurrences referencePattern (blankFrontmatter text),
        text.drop (unblanked text found.offset) =
          (blankFrontmatter text).drop found.offset) ∧
    definitions (blankFrontmatter text) =
        (sites (blankFrontmatter text)).map (Site.definition fun place =>
          lineOf text (unblanked text place)) ∧
      ∀ site ∈ sites (blankFrontmatter text), ∀ place ∈ site.places,
        text.drop (unblanked text place) = (blankFrontmatter text).drop place := by
  have hblanked := splitFrontmatter_blankFrontmatter text
  have hreference : ∀ found ∈ occurrences referencePattern (blankFrontmatter text),
      Kept text found.offset := fun found hfound => kept_of_occurrence (fun _ => rfl) hfound
  refine ⟨count_blankFrontmatter text, ?_, (frontmatter_of_none hblanked).2,
    (frontmatter_of_none hblanked).1, ⟨?_, fun found hfound => (hreference found hfound).drop⟩,
    ?_, fun site hsite place hplace => (kept_of_site hsite place hplace).drop⟩
  · rcases blankFrontmatter_cases text with hnone | ⟨block, body, rest, hsplit, htext, -, hblank⟩
    · exact .inl hnone
    · exact .inr ⟨block, body, rest, hsplit, htext, hblank⟩
  · refine List.map_congr_left fun found hfound => ?_
    rw [(hreference found hfound).line]
  · rw [definitions_eq]
    refine List.map_congr_left fun site hsite => ?_
    exact Site.definition_congr fun place hplace => (kept_of_site hsite place hplace).line

/-- A macro behind a block of two kinds of line ends keeps its lines. -/
example : definitions (blankFrontmatter
    "---\r\na: 1\n---\n\x7b% macro m() %\x7d\n\x7b% endmacro %\x7d".toList) =
      [⟨.namedMacro, "m".toList, 4, some 5⟩] := by
  decide +kernel

end Folio.Source
