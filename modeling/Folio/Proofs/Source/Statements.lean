import Folio.Proofs.Text.Leftmost
import Folio.Source.Reference
import Mathlib.Data.List.TakeWhile

/-!
# The grammar of references

A statement that names another template is written with an optional sign, white space, a
keyword, white space, a target in quotation marks and anything but a percent sign (`Statement`).
The reader of references accepts such statements and nothing else (`recognizes_reference`), so
that the references of a text are what is found from the left (`references_eq_found`).
-/

namespace Folio.Source

open Text

variable {s rest : List Char}

/-! ## Statements -/

/-- White space, possibly none. -/
def IsWhite (text : List Char) : Prop :=
  ∀ c ∈ text, isBlank c = true

/-- A statement that names another template, as it is written. -/
structure Statement where
  sign : List Char
  gap : List Char
  kind : ReferenceKind
  space : List Char
  mark : Char
  target : List Char
  remainder : List Char
  deriving Repr, DecidableEq

namespace Statement

structure WellFormed (t : Statement) : Prop where
  sign : t.sign = [] ∨ t.sign = ['-'] ∨ t.sign = ['+']
  gap : IsWhite t.gap
  space_ne_nil : t.space ≠ []
  space : IsWhite t.space
  mark : t.mark = '\'' ∨ t.mark = '"'
  target_ne_nil : t.target ≠ []
  target : ∀ c ∈ t.target, c ≠ '\'' ∧ c ≠ '"'
  remainder : ∀ c ∈ t.remainder, c ≠ '%'

/-- The target in its quotation marks. -/
def quoted (t : Statement) : List Char :=
  t.mark :: (t.target ++ [t.mark])

/-- A statement from its keyword on. -/
def body (t : Statement) : List Char :=
  t.kind.keyword.toList ++ (t.space ++ (t.quoted ++ (t.remainder ++ ['%', '\x7d'])))

/-- The text of a statement. -/
def text (t : Statement) : List Char :=
  ['\x7b', '%'] ++ (t.sign ++ (t.gap ++ t.body))

end Statement

/-- A reference is written as a statement of its kind with its target. -/
def WritesReference : Grammar (ReferenceKind × List Char) := fun value written =>
  ∃ t : Statement, t.WellFormed ∧ value = (t.kind, t.target) ∧ written = t.text

/-! ## Parts of a statement -/

theorem ReferenceKind.keyword_head (kind : ReferenceKind) :
    ∃ c word, kind.keyword.toList = c :: word ∧ isBlank c = false ∧ c ≠ '-' ∧ c ≠ '+' := by
  cases kind <;> exact ⟨_, _, rfl, by decide, by decide, by decide⟩

theorem exists_of_statementStart (h : statementStart s = some rest) :
    ∃ sign gap, (sign = [] ∨ sign = ['-'] ∨ sign = ['+']) ∧ IsWhite gap ∧
      s = ['\x7b', '%'] ++ (sign ++ (gap ++ rest)) := by
  obtain ⟨u, hopen, rfl⟩ := Option.map_eq_some_iff.mp h
  obtain rfl := eq_append_of_dropWord hopen
  obtain ⟨sign, hsign, hu⟩ : ∃ sign : List Char, (sign = [] ∨ sign = ['-'] ∨ sign = ['+']) ∧
      u = sign ++ dropOne ['-', '+'] u := by
    cases u with
    | nil => exact ⟨[], .inl rfl, rfl⟩
    | cons c u =>
        rw [dropOne]
        split
        · rename_i hc
          have hmarks : c = '-' ∨ c = '+' := by simpa using hc
          rcases hmarks with rfl | rfl
          · exact ⟨['-'], .inr (.inl rfl), rfl⟩
          · exact ⟨['+'], .inr (.inr rfl), rfl⟩
        · exact ⟨[], .inl rfl, rfl⟩
  refine ⟨sign, (dropOne ['-', '+'] u).takeWhile isBlank, hsign,
    fun c hc => List.mem_takeWhile_imp hc, ?_⟩
  rw [dropBlanks, List.takeWhile_append_dropWhile, ← hu]

theorem statementStart_append {sign gap : List Char}
    (hsign : sign = [] ∨ sign = ['-'] ∨ sign = ['+']) (hgap : IsWhite gap) {c : Char}
    (hc : isBlank c = false ∧ c ≠ '-' ∧ c ≠ '+') (t : List Char) :
    statementStart (['\x7b', '%'] ++ (sign ++ (gap ++ c :: t))) = some (c :: t) := by
  obtain ⟨hblank, hminus, hplus⟩ := hc
  have hdrop : dropBlanks (gap ++ c :: t) = c :: t := by
    rw [dropBlanks_append hgap, dropBlanks, List.dropWhile_cons_of_neg (by simp [hblank])]
  have hone : dropOne ['-', '+'] (sign ++ (gap ++ c :: t)) = gap ++ c :: t := by
    rcases hsign with rfl | rfl | rfl
    · -- without a sign, what follows is white space or the keyword
      cases gap with
      | nil => simp [dropOne, hminus, hplus]
      | cons d gap =>
          have hd : isBlank d = true := hgap d List.mem_cons_self
          have hne : d ≠ '-' ∧ d ≠ '+' := by
            constructor <;> rintro rfl <;> exact absurd hd (by decide)
          simp [dropOne, hne.1, hne.2]
    · rfl
    · rfl
  rw [statementStart, dropWord_append, Option.map_some, hone, hdrop]

theorem exists_of_dropSomeBlanks (h : dropSomeBlanks s = some rest) :
    ∃ space, space ≠ [] ∧ IsWhite space ∧ s = space ++ rest := by
  unfold dropSomeBlanks at h
  split at h
  · rename_i c s
    split at h
    · rename_i hc
      obtain rfl := Option.some.inj h
      refine ⟨c :: s.takeWhile isBlank, by simp, ?_, ?_⟩
      · exact List.forall_mem_cons.mpr ⟨hc, fun d hd => List.mem_takeWhile_imp hd⟩
      · rw [dropBlanks, List.cons_append, List.takeWhile_append_dropWhile]
    · cases h
  · cases h

theorem dropSomeBlanks_append {space : List Char} (hne : space ≠ []) (hspace : IsWhite space)
    {c : Char} (hc : isBlank c = false) (t : List Char) :
    dropSomeBlanks (space ++ c :: t) = some (c :: t) := by
  obtain ⟨d, space, rfl⟩ := List.exists_cons_of_ne_nil hne
  obtain ⟨hd, hrest⟩ := List.forall_mem_cons.mp hspace
  rw [List.cons_append, dropSomeBlanks, if_pos hd, dropBlanks_append hrest, dropBlanks,
    List.dropWhile_cons_of_neg (by simp [hc])]

/-- The reader of a keyword, for all kinds. -/
def keywordPattern : Pattern ReferenceKind := fun s =>
  ReferenceKind.all.findSome? fun kind =>
    (dropWord kind.keyword.toList s).map fun rest => (kind, rest)

theorem eq_append_of_keywordPattern {kind : ReferenceKind}
    (h : keywordPattern s = some (kind, rest)) : s = kind.keyword.toList ++ rest := by
  obtain ⟨found, -, hfound⟩ := List.exists_of_findSome?_eq_some h
  obtain ⟨u, hword, heq⟩ := Option.map_eq_some_iff.mp hfound
  obtain ⟨rfl, rfl⟩ := Prod.mk.inj heq
  exact eq_append_of_dropWord hword

/-- No keyword begins with another. -/
theorem keywordPattern_append (kind : ReferenceKind) (t : List Char) :
    keywordPattern (kind.keyword.toList ++ t) = some (kind, t) := by
  cases kind <;> rfl

theorem exists_of_quotedTarget {target : List Char} (h : quotedTarget s = some (target, rest)) :
    ∃ mark, (mark = '\'' ∨ mark = '"') ∧ target ≠ [] ∧ (∀ c ∈ target, c ≠ '\'' ∧ c ≠ '"') ∧
      s = mark :: (target ++ mark :: rest) := by
  unfold quotedTarget at h
  split at h
  · cases h
  · rename_i mark s
    split at h
    · rename_i hmark
      have hmark : mark = '\'' ∨ mark = '"' := by simpa using hmark
      dsimp only at h
      split at h
      · rename_i closing after hafter
        split at h
        · rename_i hclosing
          obtain ⟨rfl, hne⟩ : closing = mark ∧
              s.takeWhile (fun c => !(c == '\'' || c == '"')) ≠ [] := by simpa using hclosing
          obtain ⟨rfl, rfl⟩ := Prod.mk.inj (Option.some.inj h)
          refine ⟨closing, hmark, hne, fun c hc => ?_, ?_⟩
          · have hplain := List.mem_takeWhile_imp hc
            simpa using hplain
          · rw [← hafter, List.takeWhile_append_dropWhile]
        · cases h
      · cases h
    · cases h

theorem quotedTarget_append {mark : Char} {target : List Char}
    (hmark : mark = '\'' ∨ mark = '"') (hne : target ≠ [])
    (htarget : ∀ c ∈ target, c ≠ '\'' ∧ c ≠ '"') (t : List Char) :
    quotedTarget (mark :: (target ++ mark :: t)) = some (target, t) := by
  have hplain : ∀ c ∈ target, (!(c == '\'' || c == '"')) = true := by
    intro c hc
    simp [htarget c hc]
  have hstop : (!(mark == '\'' || mark == '"')) = false := by
    rcases hmark with rfl | rfl <;> rfl
  have htake : (target ++ mark :: t).takeWhile (fun c => !(c == '\'' || c == '"')) = target := by
    rw [List.takeWhile_append_of_pos hplain, List.takeWhile_cons_of_neg (by simp [hstop]),
      List.append_nil]
  have hdrop : (target ++ mark :: t).dropWhile (fun c => !(c == '\'' || c == '"')) =
      mark :: t := by
    rw [List.dropWhile_append_of_pos hplain, List.dropWhile_cons_of_neg (by simp [hstop])]
  rw [quotedTarget, if_pos (by simpa using hmark)]
  simp only [htake, hdrop]
  simp [hne]

theorem exists_of_statementEnd (h : statementEnd s = some rest) :
    ∃ remainder, (∀ c ∈ remainder, c ≠ '%') ∧ s = remainder ++ (['%', '\x7d'] ++ rest) := by
  refine ⟨s.takeWhile (· != '%'), fun c hc => by simpa using List.mem_takeWhile_imp hc, ?_⟩
  rw [← eq_append_of_dropWord h, List.takeWhile_append_dropWhile]

theorem statementEnd_append {remainder : List Char} (h : ∀ c ∈ remainder, c ≠ '%')
    (t : List Char) : statementEnd (remainder ++ (['%', '\x7d'] ++ t)) = some t := by
  have hdrop : (remainder ++ (['%', '\x7d'] ++ t)).dropWhile (· != '%') = ['%', '\x7d'] ++ t := by
    rw [List.dropWhile_append_of_pos fun c hc => by simpa using h c hc]
    rfl
  rw [statementEnd, hdrop, dropWord_append]

/-! ## Whole statements -/

/-- The reader of references as its parts one after the other. -/
theorem referencePattern_eq (s : List Char) :
    referencePattern s = (statementStart s).bind fun body =>
      (keywordPattern body).bind fun (kind, afterKind) =>
        (dropSomeBlanks afterKind).bind fun afterSpace =>
          (quotedTarget afterSpace).bind fun (target, afterTarget) =>
            (statementEnd afterTarget).map fun rest => ((kind, target), rest) := by
  unfold referencePattern keywordPattern
  simp only [bind, Option.map_eq_bind]
  rfl

theorem exists_of_referencePattern {value : ReferenceKind × List Char}
    (h : referencePattern s = some (value, rest)) :
    ∃ written, s = written ++ rest ∧ WritesReference value written := by
  rw [referencePattern_eq] at h
  obtain ⟨body, hstart, h⟩ := Option.bind_eq_some_iff.mp h
  obtain ⟨⟨kind, afterKind⟩, hkind, h⟩ := Option.bind_eq_some_iff.mp h
  obtain ⟨afterSpace, hspaces, h⟩ := Option.bind_eq_some_iff.mp h
  obtain ⟨⟨target, afterTarget⟩, hquoted, h⟩ := Option.bind_eq_some_iff.mp h
  obtain ⟨u, hend, heq⟩ := Option.map_eq_some_iff.mp h
  obtain ⟨rfl, rfl⟩ := Prod.mk.inj heq
  obtain ⟨sign, gap, hsign, hgap, rfl⟩ := exists_of_statementStart hstart
  obtain rfl := eq_append_of_keywordPattern hkind
  obtain ⟨space, hspace_ne, hspace, rfl⟩ := exists_of_dropSomeBlanks hspaces
  obtain ⟨mark, hmark, htarget_ne, htarget, rfl⟩ := exists_of_quotedTarget hquoted
  obtain ⟨remainder, hremainder, rfl⟩ := exists_of_statementEnd hend
  refine ⟨_, ?_, ⟨sign, gap, kind, space, mark, target, remainder⟩,
    ⟨hsign, hgap, hspace_ne, hspace, hmark, htarget_ne, htarget, hremainder⟩, rfl, rfl⟩
  simp [Statement.text, Statement.body, Statement.quoted]

theorem referencePattern_append {t : Statement} (h : t.WellFormed) (rest : List Char) :
    referencePattern (t.text ++ rest) = some ((t.kind, t.target), rest) := by
  obtain ⟨c, word, hword, hc⟩ := t.kind.keyword_head
  have hmark : isBlank t.mark = false := by
    rcases h.mark with hm | hm <;> rw [hm] <;> decide
  have htext : t.text ++ rest = ['\x7b', '%'] ++ (t.sign ++ (t.gap ++ c :: (word ++ (t.space ++
      t.mark :: (t.target ++ t.mark :: (t.remainder ++ (['%', '\x7d'] ++ rest))))))) := by
    simp [Statement.text, Statement.body, Statement.quoted, hword]
  rw [referencePattern_eq, htext, statementStart_append h.sign h.gap hc, Option.bind_some,
    ← List.cons_append, ← hword, keywordPattern_append, Option.bind_some]
  dsimp only
  rw [dropSomeBlanks_append h.space_ne_nil h.space hmark, Option.bind_some,
    quotedTarget_append h.mark h.target_ne_nil h.target, Option.bind_some]
  dsimp only
  rw [statementEnd_append h.remainder, Option.map_some]

/-- The reader of references reads just the statements of the grammar. -/
theorem recognizes_reference : Recognizes referencePattern WritesReference where
  sound h := exists_of_referencePattern h
  complete := by
    rintro written value ⟨t, ht, rfl, rfl⟩ rest
    exact referencePattern_append ht rest
  ne_nil := by
    rintro written value ⟨t, -, -, rfl⟩
    simp [Statement.text]

/-! ## The references of a text -/

/-- **References are found from the left.**  The references of a text are the statements of the
grammar that are found from its beginning on, each with its keyword, its target and its line.
They do not overlap and are in order, and every other statement begins inside of one of them. -/
theorem references_eq_found (text : List Char) :
    ∃ found : List (Span (ReferenceKind × List Char)),
      (∀ other, FoundFrom WritesReference text 0 other ↔ other = found) ∧
      references text = found.map (fun span =>
        ⟨span.value.1, span.value.2, 1 + (text.take span.start).count '\n'⟩) ∧
      (∀ span ∈ found, StandsIn WritesReference text span) ∧
      (found.Pairwise fun a b => a.start < a.stop ∧ a.stop ≤ b.start) ∧
      ∀ span, StandsIn WritesReference text span →
        span ∈ found ∨ ∃ other ∈ found, other.start < span.start ∧ span.start < other.stop := by
  obtain ⟨found, hfound, hoccurrences⟩ := foundFrom_occurrences recognizes_reference text
  refine ⟨found, fun other => ⟨fun hother => hother.unique recognizes_reference hfound, ?_⟩, ?_,
    hfound.standsIn, (hfound.pairwise recognizes_reference).2, fun span hspan =>
      hfound.mem_or_inside recognizes_reference hspan (Nat.zero_le _)⟩
  · rintro rfl
    exact hfound
  · rw [references, hoccurrences, List.map_map]
    refine List.map_congr_left fun span _ => ?_
    simp [Span.located, lineOf, Nat.add_comm]

/-- A target in two kinds of quotation marks is none, and a statement may go on over lines. -/
example :
    references "\x7b% include 'a\"b' %\x7d\n\x7b%- from \t\"base.tmpl\"\nimport x %\x7d".toList =
      [⟨.from, "base.tmpl".toList, 2⟩] := by
  decide +kernel

end Folio.Source
