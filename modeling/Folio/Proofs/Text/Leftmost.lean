import Folio.Proofs.Text.Finding

/-!
# What is found from the left

A *grammar* says which texts write a value, and a span says where in a text something is
written.  A search from the left finds the first span, and goes on behind its end: `FoundFrom`
says so without a pattern.

If a pattern recognizes a grammar, its occurrences are what is found
(`foundFrom_occurrences`), and nothing else is (`FoundFrom.unique`).  The spans found do not
overlap (`FoundFrom.pairwise`), and whatever else is written in the text begins inside of one of
them (`FoundFrom.mem_or_inside`).
-/

namespace Folio.Text

variable {α : Type}

/-- Which texts write a value. -/
abbrev Grammar (α : Type) := α → List Char → Prop

/-- A value in a text, with the place where it begins and the place behind its end. -/
structure Span (α : Type) where
  start : Nat
  stop : Nat
  value : α
  deriving Repr, DecidableEq

/-- A value is written in a text from the beginning of a span to its end. -/
def StandsIn (g : Grammar α) (text : List Char) (span : Span α) : Prop :=
  ∃ before written after, text = before ++ (written ++ after) ∧ g span.value written ∧
    span.start = before.length ∧ span.stop = before.length + written.length

/-- The spans found from a place on: the first that begins there or later, and then those found
from its end on. -/
inductive FoundFrom (g : Grammar α) (text : List Char) : Nat → List (Span α) → Prop
  | nothing {place : Nat} (hnone : ∀ span, StandsIn g text span → span.start < place) :
      FoundFrom g text place []
  | next {place : Nat} {span : Span α} {later : List (Span α)} (hspan : StandsIn g text span)
      (hplace : place ≤ span.start)
      (hfirst : ∀ other, StandsIn g text other → other.start < span.start → other.start < place)
      (hlater : FoundFrom g text span.stop later) : FoundFrom g text place (span :: later)

/-- A pattern reads just what a grammar writes, whatever follows it. -/
structure Recognizes (pattern : Pattern α) (g : Grammar α) : Prop where
  sound {s rest : List Char} {value : α} (h : pattern s = some (value, rest)) :
    ∃ written, s = written ++ rest ∧ g value written
  complete {written : List Char} {value : α} (h : g value written) (rest : List Char) :
    pattern (written ++ rest) = some (value, rest)
  ne_nil {written : List Char} {value : α} (h : g value written) : written ≠ []

variable {pattern : Pattern α} {g : Grammar α} {text : List Char}

/-! ## Spans -/

namespace Recognizes

theorem start_lt_stop (h : Recognizes pattern g) {span : Span α} (hspan : StandsIn g text span) :
    span.start < span.stop ∧ span.stop ≤ text.length := by
  obtain ⟨before, written, after, rfl, hwritten, hstart, hstop⟩ := hspan
  have hlength : 0 < written.length := List.length_pos_iff.mpr (h.ne_nil hwritten)
  simp only [List.length_append]
  omega

/-- What the pattern reads behind a part of a text is written there. -/
theorem standsIn (h : Recognizes pattern g) (front : List Char) {s rest : List Char} {value : α}
    (hmatch : pattern s = some (value, rest)) :
    ∃ written, s = written ++ rest ∧ written ≠ [] ∧
      StandsIn g (front ++ s) ⟨front.length, front.length + written.length, value⟩ := by
  obtain ⟨written, rfl, hwritten⟩ := h.sound hmatch
  exact ⟨written, rfl, h.ne_nil hwritten, front, written, rest, rfl, hwritten, rfl, rfl⟩

/-- The pattern reads what is written behind a part of a text. -/
theorem pattern_of_standsIn (h : Recognizes pattern g) {front s : List Char} {span : Span α}
    (hspan : StandsIn g (front ++ s) span) (hstart : span.start = front.length) :
    ∃ rest, pattern s = some (span.value, rest) ∧
      span.stop + rest.length = front.length + s.length := by
  obtain ⟨before, written, after, htext, hwritten, hbefore, hstop⟩ := hspan
  obtain ⟨rfl, rfl⟩ := List.append_inj htext (hstart.symm.trans hbefore)
  exact ⟨after, h.complete hwritten after, by simp only [List.length_append]; omega⟩

/-- One value at most is written from a place on, and in one way. -/
theorem span_unique (h : Recognizes pattern g) {span other : Span α}
    (hspan : StandsIn g text span) (hother : StandsIn g text other)
    (hstart : span.start = other.start) : span = other := by
  have hlt := (h.start_lt_stop hspan).1
  have hle := (h.start_lt_stop hspan).2
  have hsplit := List.take_append_drop span.start text
  have hlength : (text.take span.start).length = span.start := by
    rw [List.length_take]
    omega
  rw [← hsplit] at hspan hother
  obtain ⟨rest, hread, hstop⟩ := h.pattern_of_standsIn hspan hlength.symm
  obtain ⟨rest', hread', hstop'⟩ :=
    h.pattern_of_standsIn hother (hstart.symm.trans hlength.symm)
  obtain ⟨hvalue, rfl⟩ := Prod.mk.inj (Option.some.inj (hread.symm.trans hread'))
  cases span
  cases other
  simp only [Span.mk.injEq] at *
  exact ⟨hstart, by omega, hvalue⟩

end Recognizes

/-! ## What is found -/

namespace FoundFrom

variable {place : Nat} {found : List (Span α)}

theorem standsIn (hfound : FoundFrom g text place found) :
    ∀ span ∈ found, StandsIn g text span := by
  induction hfound with
  | nothing => simp
  | next hspan _ _ _ ih => exact List.forall_mem_cons.mpr ⟨hspan, ih⟩

/-- Where nothing begins at a place, a search may as well begin behind it. -/
theorem of_succ (hnone : ∀ span, StandsIn g text span → span.start ≠ place)
    (hfound : FoundFrom g text (place + 1) found) : FoundFrom g text place found := by
  have hearlier : ∀ span, StandsIn g text span → span.start < place + 1 → span.start < place := by
    intro span hspan hlt
    have hne := hnone span hspan
    omega
  cases hfound with
  | nothing hlate => exact .nothing fun span hspan => hearlier span hspan (hlate span hspan)
  | next hspan hplace hfirst hlater =>
      refine .next hspan (by omega) (fun other hother hlt => ?_) hlater
      exact hearlier other hother (hfirst other hother hlt)

/-- The spans stand one behind the other. -/
theorem pairwise (h : Recognizes pattern g) (hfound : FoundFrom g text place found) :
    (∀ span ∈ found, place ≤ span.start) ∧
      found.Pairwise fun a b => a.start < a.stop ∧ a.stop ≤ b.start := by
  induction hfound with
  | nothing => exact ⟨by simp, .nil⟩
  | @next place span later hspan hplace hfirst hlater ih =>
      obtain ⟨hbehind, hpairs⟩ := ih
      have hlt := (h.start_lt_stop hspan).1
      refine ⟨List.forall_mem_cons.mpr ⟨hplace, fun other hother => ?_⟩,
        List.pairwise_cons.mpr ⟨fun other hother => ⟨hlt, hbehind other hother⟩, hpairs⟩⟩
      have hle := hbehind other hother
      omega

/-- What is not found begins inside of what is. -/
theorem mem_or_inside (h : Recognizes pattern g) (hfound : FoundFrom g text place found)
    {span : Span α} (hspan : StandsIn g text span) (hplace : place ≤ span.start) :
    span ∈ found ∨ ∃ other ∈ found, other.start < span.start ∧ span.start < other.stop := by
  induction hfound with
  | nothing hnone =>
      have hlt := hnone span hspan
      omega
  | @next place first later hfirstIn _ hfirst hlater ih =>
      rcases Nat.lt_trichotomy span.start first.start with hlt | heq | hgt
      · have hearly := hfirst span hspan hlt
        omega
      · exact .inl (by rw [h.span_unique hspan hfirstIn heq]; exact List.mem_cons_self)
      · by_cases hinside : span.start < first.stop
        · exact .inr ⟨first, List.mem_cons_self, hgt, hinside⟩
        · rcases ih (by omega) with hmem | ⟨other, hmem, hother⟩
          · exact .inl (List.mem_cons_of_mem _ hmem)
          · exact .inr ⟨other, List.mem_cons_of_mem _ hmem, hother⟩

/-- A search from a place finds one thing only. -/
theorem unique (h : Recognizes pattern g) {other : List (Span α)}
    (hfound : FoundFrom g text place found) (hother : FoundFrom g text place other) :
    found = other := by
  induction hfound generalizing other with
  | nothing hnone =>
      cases hother with
      | nothing => rfl
      | next hspan hplace _ _ =>
          have hlt := hnone _ hspan
          omega
  | @next place span later hspan hplace hfirst hlater ih =>
      cases hother with
      | nothing hnone =>
          have hlt := hnone _ hspan
          omega
      | @next _ span' later' hspan' hplace' hfirst' hlater' =>
          have hstart : span.start = span'.start := by
            rcases Nat.lt_trichotomy span.start span'.start with hlt | heq | hgt
            · have hearly := hfirst' span hspan hlt
              omega
            · exact heq
            · have hearly := hfirst span' hspan' hgt
              omega
          obtain rfl := h.span_unique hspan hspan' hstart
          rw [ih hlater']

end FoundFrom

/-! ## Occurrences -/

/-- A span as the search for a pattern reports it. -/
def Span.located (span : Span α) : Located α :=
  ⟨span.start, span.value⟩

theorem foundFrom_occurrencesFrom (h : Recognizes pattern g) (front s : List Char) :
    ∃ found, FoundFrom g (front ++ s) front.length found ∧
      occurrencesFrom pattern front.length 0 s = found.map Span.located := by
  induction hn : s.length using Nat.strongRecOn generalizing front s with
  | ind n ih =>
  subst hn
  cases s with
  | nil =>
      refine ⟨[], .nothing fun span hspan => ?_, rfl⟩
      obtain ⟨hlt, hle⟩ := h.start_lt_stop hspan
      rw [List.append_nil] at hle
      omega
  | cons c s =>
      cases hmatch : pattern (c :: s) with
      | some result =>
          -- the search goes on behind what the pattern has read
          obtain ⟨value, rest⟩ := result
          obtain ⟨written, hwritten, hne, hspan⟩ := h.standsIn front hmatch
          have hlength : 0 < written.length := List.length_pos_iff.mpr hne
          rw [hwritten] at hmatch hspan ih ⊢
          obtain ⟨found, hfound, hlater⟩ :=
            ih rest.length (by rw [List.length_append]; omega) (front ++ written) rest rfl
          rw [List.append_assoc, List.length_append] at hfound
          rw [List.length_append] at hlater
          refine ⟨_, .next hspan (Nat.le_refl _) (fun _ _ hlt => hlt) hfound, ?_⟩
          rw [occurrencesFrom_match hne hmatch, hlater]
          rfl
      | none =>
          obtain ⟨found, hfound, hlater⟩ :=
            ih s.length (by simp) (front ++ [c]) s rfl
          rw [List.append_assoc, List.singleton_append, List.length_append] at hfound
          rw [List.length_append] at hlater
          refine ⟨found, hfound.of_succ fun span hspan hstart => ?_, ?_⟩
          · obtain ⟨rest, hread, -⟩ := h.pattern_of_standsIn hspan hstart
            rw [hmatch] at hread
            cases hread
          · rw [occurrencesFrom, hmatch]
            exact hlater

/-- The occurrences of a pattern are what is found from the left. -/
theorem foundFrom_occurrences (h : Recognizes pattern g) (text : List Char) :
    ∃ found, FoundFrom g text 0 found ∧ occurrences pattern text = found.map Span.located :=
  foundFrom_occurrencesFrom h [] text

end Folio.Text
