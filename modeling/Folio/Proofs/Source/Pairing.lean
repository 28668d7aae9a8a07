import Folio.Proofs.Source.Blanking
import Folio.Proofs.Text.Lines
import Mathlib.Data.List.Sort

/-!
# The order of definitions

Openings of blocks and of macros are searched for apart from each other and from closings, and
are brought together by their places.  Whatever the text, the places of the definitions do not
decrease, a closing stands behind the opening that it is paired with, and the definitions of one
kind are those that the search for its openings has found (`filter_sites`).

So the lines that are reported are in order (`pairwise_definitions`, `line_le_endLine`), and the
first macro that is listed is the first that is found (`firstMacroName?_eq`).
-/

namespace Folio.Source

open Text

variable {text : List Char} {α : Type}

/-! ## Searching -/

/-- Places of occurrences increase. -/
theorem pairwise_occurrencesFrom (pattern : Pattern α) (offset skip : Nat) (s : List Char) :
    (occurrencesFrom pattern offset skip s).Pairwise fun a b => a.offset < b.offset := by
  fun_induction occurrencesFrom pattern offset skip s with
  | case1 => exact .nil
  | case2 offset skip c s ih => exact ih
  | case3 offset c s value rest hmatch ih =>
      exact List.pairwise_cons.mpr ⟨fun found hfound => offset_le_of_occurrencesFrom hfound, ih⟩
  | case4 offset c s hmatch ih => exact ih

/-- A search that stops at the first match finds the first of all matches. -/
theorem firstMatchAfter_eq_head? (pattern : Pattern α) (offset : Nat) (before : Option Char)
    (s : List Char) :
    firstMatchAfter (fun _ => pattern) offset before s =
      (occurrencesFrom pattern offset 0 s).head? := by
  induction s generalizing offset before with
  | nil => rfl
  | cons c s ih =>
      rw [firstMatchAfter, occurrencesFrom]
      split
      · rfl
      · exact ih _ _

/-! ## Places of definitions -/

/-- The pattern for the openings of one kind. -/
def openingPattern : DefinitionKind → Pattern (List Char)
  | .namedBlock => blockPattern
  | .namedMacro => macroPattern

/-- The definitions of one kind in a text. -/
def sitesOfKind (text : List Char) (kind : DefinitionKind) : List Site :=
  sitesOf kind (openingPattern kind) text

theorem kind_of_mem_sitesOfKind {kind : DefinitionKind} {site : Site}
    (h : site ∈ sitesOfKind text kind) : site.kind = kind := by
  obtain ⟨found, -, rfl⟩ := List.mem_map.mp h
  rfl

theorem pairwise_sitesOfKind (text : List Char) (kind : DefinitionKind) :
    (sitesOfKind text kind).Pairwise fun a b => a.start < b.start :=
  List.pairwise_map.mpr (pairwise_occurrencesFrom _ _ _ _)

/-- A closing is looked for behind the opening. -/
theorem start_lt_close {kind : DefinitionKind} {site : Site}
    (h : site ∈ sitesOfKind text kind) : ∀ place ∈ site.close?, site.start < place := by
  obtain ⟨found, -, rfl⟩ := List.mem_map.mp h
  intro place hplace
  simpa using List.find?_some hplace

theorem perm_sites (text : List Char) :
    (sites text).Perm (sitesOfKind text .namedBlock ++ sitesOfKind text .namedMacro) :=
  List.mergeSort_perm _ _

theorem mem_sites {site : Site} : site ∈ sites text ↔ site ∈ sitesOfKind text site.kind := by
  rw [(perm_sites text).mem_iff, List.mem_append]
  constructor
  · rintro (h | h)
    · rwa [kind_of_mem_sitesOfKind h]
    · rwa [kind_of_mem_sitesOfKind h]
  · intro h
    cases hkind : site.kind with
    | namedBlock => exact .inl (hkind ▸ h)
    | namedMacro => exact .inr (hkind ▸ h)

theorem pairwise_sites (text : List Char) :
    (sites text).Pairwise fun a b => a.start ≤ b.start := by
  have htrans : ∀ a b c : Site, decide (a.start ≤ b.start) = true →
      decide (b.start ≤ c.start) = true → decide (a.start ≤ c.start) = true := by
    intro a b c hab hbc
    rw [decide_eq_true_eq] at *
    exact hab.trans hbc
  have htotal : ∀ a b : Site,
      (decide (a.start ≤ b.start) || decide (b.start ≤ a.start)) = true := by
    intro a b
    rw [Bool.or_eq_true, decide_eq_true_eq, decide_eq_true_eq]
    exact Nat.le_total _ _
  exact (List.pairwise_mergeSort htrans htotal _).imp of_decide_eq_true

/-- A list in strict order is what sorting makes of it. -/
theorem eq_of_perm_of_pairwise {sorted ordered : List Site} (hperm : sorted.Perm ordered)
    (hsorted : sorted.Pairwise fun a b => a.start ≤ b.start)
    (hordered : ordered.Pairwise fun a b => a.start < b.start) : sorted = ordered := by
  have hnodup : (ordered.map Site.start).Nodup :=
    List.pairwise_map.mpr (hordered.imp Nat.ne_of_lt)
  exact hperm.eq_of_pairwise
    (fun a b ha hb hle hge =>
      List.inj_on_of_nodup_map hnodup (hperm.subset ha) hb (Nat.le_antisymm hle hge))
    hsorted (hordered.imp Nat.le_of_lt)

/-- Among all definitions, those of one kind are in the order in which they were found. -/
theorem filter_sites (text : List Char) (kind : DefinitionKind) :
    (sites text).filter (fun site => site.kind = kind) = sitesOfKind text kind := by
  refine eq_of_perm_of_pairwise ?_ ((pairwise_sites text).filter _) (pairwise_sitesOfKind text kind)
  have hperm := (perm_sites text).filter fun site => site.kind = kind
  have hkept : (sitesOfKind text kind).filter (fun site => site.kind = kind) =
      sitesOfKind text kind := by
    rw [List.filter_eq_self]
    exact fun site hsite => decide_eq_true (kind_of_mem_sitesOfKind hsite)
  have hdropped : ∀ other, other ≠ kind →
      (sitesOfKind text other).filter (fun site => site.kind = kind) = [] := by
    intro other hother
    rw [List.filter_eq_nil_iff]
    intro site hsite
    simpa [kind_of_mem_sitesOfKind hsite] using hother
  rw [List.filter_append] at hperm
  cases kind with
  | namedBlock => rwa [hkept, hdropped _ (by decide), List.append_nil] at hperm
  | namedMacro => rwa [hkept, hdropped _ (by decide), List.nil_append] at hperm

/-! ## Lines -/

/-- The lines on which definitions begin do not decrease. -/
theorem pairwise_definitions (text : List Char) :
    (definitions text).Pairwise fun a b => a.line ≤ b.line := by
  rw [definitions_eq, List.pairwise_map]
  exact (pairwise_sites text).imp fun h => lineOf_mono text h

/-- A definition ends on its first line or further down. -/
theorem line_le_endLine {definition : Definition} (h : definition ∈ definitions text) :
    ∀ line ∈ definition.endLine, definition.line ≤ line := by
  rw [definitions_eq] at h
  obtain ⟨site, hsite, rfl⟩ := List.mem_map.mp h
  intro line hline
  obtain ⟨place, hplace, rfl⟩ := Option.map_eq_some_iff.mp hline
  exact lineOf_mono text (Nat.le_of_lt (start_lt_close (mem_sites.mp hsite) place hplace))

/-- The first macro of a text is the first that is listed. -/
theorem firstMacroName?_eq (text : List Char) :
    firstMacroName? text =
      ((definitions text).find? fun d => d.kind = .namedMacro).map (·.name) := by
  have hkind : (fun d : Definition => decide (d.kind = .namedMacro)) ∘
      Site.definition (lineOf text) = fun site => decide (site.kind = .namedMacro) := rfl
  rw [definitions_eq, List.find?_map, hkind, ← List.head?_filter, filter_sites, sitesOfKind, sitesOf,
    firstMacroName?, firstMatch, firstMatchAfter_eq_head?, List.head?_map, Option.map_map,
    Option.map_map]
  rfl

end Folio.Source
