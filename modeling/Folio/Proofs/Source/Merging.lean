import Folio.Proofs.Source.BlockLines
import Folio.Proofs.Text.Distinct
import Folio.Proofs.Text.AnyCase

/-!
# What is read of relationships

A target is kept as it was written, trimmed.  It has one of the five keys and is not empty, with
two exceptions:

* a bare value of the block that is a pair of quotation marks around white space gives an empty
  target (`QuotesNothing`), while an item or a member of a list that is empty is left out;
* the key of a directive is found in any case and then put in lower case, which gives none of the
  five keys if an `i` of it was written as one of two letters beyond the basic alphabet
  (`HasOddKey`).

A text without a key of the second kind can be merged, and then each target that was read stands
once under its key, in the order in which the targets first appear (`relationshipRefs_sound`).
-/

namespace Folio.Source

open Text

variable {text s key value written : List Char} {ref : RelationshipRef}

/-! ## Keys -/

/-- One of the five keys. -/
def IsRelation (key : List Char) : Prop :=
  ∃ r : Relation, key = r.name.toList

theorem isRelation_iff : IsRelation key ↔ (Relation.ofName? key).isSome := by
  constructor
  · rintro ⟨r, rfl⟩
    cases r <;> rfl
  · intro h
    obtain ⟨r, hr⟩ := Option.isSome_iff_exists.mp h
    have hname := List.find?_some (p := fun r : Relation => r.name.toList = key) hr
    exact ⟨r, (of_decide_eq_true hname).symm⟩

theorem isPlainLetter_of_mem_name {r : Relation} {c : Char} (hc : c ∈ r.name.toList) :
    IsPlainLetter c := by
  have hall : r.name.toList.all (fun c =>
      decide (97 ≤ c.toNat ∧ c.toNat ≤ 122 ∧ c ≠ 's' ∧ c ≠ 'k')) = true := by
    cases r <;> decide +kernel
  have hletter := List.all_eq_true.mp hall c hc
  rwa [decide_eq_true_eq] at hletter

/-- A key as it was written is one of the five in lower case, unless it has an odd `i`. -/
theorem isRelation_lower_iff {r : Relation} (h : Spells r.name.toList written) :
    IsRelation (lower written) ↔ ∀ c ∈ written, ¬ IsOddI c := by
  constructor
  · rintro ⟨r', hr'⟩ c hc hodd
    obtain ⟨d, hd, hforeign⟩ := exists_foreign_of_oddI hc hodd
    have hplain : IsPlainLetter d := isPlainLetter_of_mem_name (hr' ▸ hd)
    exact absurd (hforeign.trans hplain.2.1) (by decide)
  · exact fun hodd => ⟨r, lower_eq_of_spells h (fun _ => isPlainLetter_of_mem_name) hodd⟩

theorem isRelation_of_keyLine (h : keyLine s = some (key, value)) :
    IsRelation key ∧ trim value = value := by
  obtain ⟨r, -, afterColon, hkey, -, -, rfl⟩ := exists_of_keyLine h
  exact ⟨⟨r, hkey⟩, trim_trim afterColon⟩

/-! ## Targets of the block -/

/-- A pair of quotation marks around white space, or around nothing. -/
def QuotesNothing (value : List Char) : Prop :=
  ∃ mark blanks, (mark = '\'' ∨ mark = '"') ∧ IsWhite blanks ∧ value = mark :: (blanks ++ [mark])

theorem isWhite_of_trim (h : trim s = []) : IsWhite s := by
  have hdrop : (s.dropWhile isBlank).reverse.dropWhile isBlank = [] := List.reverse_eq_nil_iff.mp h
  intro c hc
  rw [← List.takeWhile_append_dropWhile (l := s) (p := isBlank)] at hc
  rcases List.mem_append.mp hc with hc | hc
  · exact List.mem_takeWhile_imp hc
  · exact List.dropWhile_eq_nil_iff.mp hdrop c (List.mem_reverse.mpr hc)

theorem quotesNothing_of_unquote (hne : value ≠ []) (htrim : trim value = value)
    (h : unquote value = []) : QuotesNothing value := by
  unfold unquote at h
  rw [htrim] at h
  cases value with
  | nil => exact absurd rfl hne
  | cons mark body =>
      dsimp only at h
      split at h
      · rename_i hquoted
        rw [Bool.and_eq_true, Bool.or_eq_true, beq_iff_eq, beq_iff_eq, decide_eq_true_eq]
          at hquoted
        obtain ⟨hmark, hlast⟩ := hquoted
        have hbody : body = body.dropLast ++ [mark] := by
          obtain ⟨front, rfl⟩ := List.getLast?_eq_some_iff.mp hlast
          rw [List.dropLast_concat]
        exact ⟨mark, body.dropLast, hmark, isWhite_of_trim h, by rw [← hbody]⟩
      · cases h

/-- The block has a line with this key and nothing but quotation marks for its value. -/
def QuotedNothing (text : List Char) (ref : RelationshipRef) : Prop :=
  ∃ l ∈ blockLinesOf text, l.line = ref.line ∧
    ∃ value, keyLine l.content = some (ref.key, value) ∧ QuotesNothing value

theorem of_mem_lineRefs {l : BlockLine} {rest : List BlockLine} (h : ref ∈ lineRefs l rest) :
    IsRelation ref.key ∧ trim ref.target = ref.target ∧
      (ref.target = [] → l.line = ref.line ∧
        ∃ value, keyLine l.content = some (ref.key, value) ∧ QuotesNothing value) := by
  rcases lineRefs_cases l rest with hnone | ⟨key, value, hkey, hinline | hitems | ⟨hne, hbare⟩⟩
  · rw [hnone] at h
    cases h
  · rw [hinline] at h
    obtain ⟨v, hv, rfl⟩ := List.mem_map.mp h
    obtain ⟨-, htrim, hne⟩ := of_mem_commaValues hv
    exact ⟨(isRelation_of_keyLine hkey).1, htrim, fun hnil => absurd hnil hne⟩
  · rw [hitems] at h
    obtain ⟨item, -, rfl, hne⟩ := of_mem_followingItems h
    exact ⟨(isRelation_of_keyLine hkey).1, trim_unquote _, fun hnil => absurd hnil hne⟩
  · rw [hbare] at h
    obtain rfl := List.mem_singleton.mp h
    obtain ⟨hrelation, htrim⟩ := isRelation_of_keyLine hkey
    exact ⟨hrelation, trim_unquote value, fun hnil =>
      ⟨rfl, value, hkey, quotesNothing_of_unquote hne htrim hnil⟩⟩

theorem exists_of_mem_blockLineRefs {ls : List BlockLine} (h : ref ∈ blockLineRefs ls) :
    ∃ l ∈ ls, ∃ rest, ref ∈ lineRefs l rest := by
  induction ls with
  | nil => cases h
  | cons l rest ih =>
      rcases List.mem_append.mp h with h | h
      · exact ⟨l, List.mem_cons_self, rest, h⟩
      · obtain ⟨l', hl', hrest⟩ := ih h
        exact ⟨l', List.mem_cons_of_mem l hl', hrest⟩

theorem of_mem_blockRefs (h : ref ∈ blockRefs text) :
    IsRelation ref.key ∧ trim ref.target = ref.target ∧
      (ref.target = [] → QuotedNothing text ref) := by
  rw [blockRefs_eq] at h
  obtain ⟨l, hl, rest, href⟩ := exists_of_mem_blockLineRefs h
  obtain ⟨hrelation, htrim, hempty⟩ := of_mem_lineRefs href
  exact ⟨hrelation, htrim, fun hnil => ⟨l, hl, hempty hnil⟩⟩

/-! ## Targets of directives -/

/-- What is found was read at a place. -/
theorem exists_of_mem_occurrencesFrom {α : Type} {pattern : Pattern α} {offset skip : Nat}
    {found : Located α} (h : found ∈ occurrencesFrom pattern offset skip s) :
    ∃ t rest, pattern t = some (found.value, rest) := by
  fun_induction occurrencesFrom pattern offset skip s with
  | case1 => cases h
  | case2 offset skip c s ih => exact ih h
  | case3 offset c s value rest hmatch ih =>
      rcases List.mem_cons.mp h with rfl | hlater
      · exact ⟨c :: s, rest, hmatch⟩
      · exact ih hlater
  | case4 offset c s hmatch ih => exact ih h

theorem exists_of_directivePattern {after : List Char}
    (h : directivePattern s = some ((key, value), after)) :
    ∃ r : Relation, Spells r.name.toList key := by
  obtain ⟨_, -, h⟩ := Option.bind_eq_some_iff.mp h
  obtain ⟨_, -, h⟩ := Option.bind_eq_some_iff.mp h
  obtain ⟨rest, -, h⟩ := Option.bind_eq_some_iff.mp h
  obtain ⟨afterKey, hkey, h⟩ := Option.bind_eq_some_iff.mp h
  obtain ⟨_, -, h⟩ := Option.bind_eq_some_iff.mp h
  obtain ⟨_, -, h⟩ := Option.bind_eq_some_iff.mp h
  cases h
  obtain ⟨r, -, hdrop⟩ := List.exists_of_findSome?_eq_some hkey
  obtain ⟨written, rfl, hwritten⟩ := exists_of_dropWordAnyCase hdrop
  rw [List.length_append, Nat.add_sub_cancel, List.take_left]
  exact ⟨r, hwritten⟩

/-- The key of a directive is one of the five in any case. -/
theorem exists_of_mem_directives {found : Located (List Char × List Char)}
    (h : found ∈ occurrences directivePattern text) :
    ∃ r : Relation, Spells r.name.toList found.value.1 := by
  obtain ⟨t, rest, hmatch⟩ := exists_of_mem_occurrencesFrom h
  exact exists_of_directivePattern hmatch

/-- A directive has this key with an odd `i` for one of its letters. -/
def HasOddKey (text : List Char) (ref : RelationshipRef) : Prop :=
  ∃ found ∈ occurrences directivePattern text,
    ref.key = lower found.value.1 ∧ ∃ c ∈ found.value.1, IsOddI c

theorem not_isRelation_of_hasOddKey (h : HasOddKey text ref) : ¬ IsRelation ref.key := by
  obtain ⟨found, hfound, hkey, c, hc, hodd⟩ := h
  obtain ⟨r, hr⟩ := exists_of_mem_directives hfound
  rw [hkey, isRelation_lower_iff hr]
  exact fun hplain => hplain c hc hodd

theorem of_mem_directiveRefs (h : ref ∈ directiveRefs text) :
    trim ref.target = ref.target ∧ ref.target ≠ [] ∧ (IsRelation ref.key ∨ HasOddKey text ref) := by
  obtain ⟨found, hfound, h⟩ := List.mem_flatMap.mp h
  obtain ⟨v, hv, rfl⟩ := List.mem_map.mp h
  obtain ⟨-, htrim, hne⟩ := of_mem_commaValues hv
  refine ⟨htrim, hne, ?_⟩
  obtain ⟨r, hr⟩ := exists_of_mem_directives hfound
  rw [isRelation_lower_iff hr]
  by_cases hodd : ∃ c ∈ found.value.1, IsOddI c
  · exact Or.inr ⟨found, hfound, rfl, hodd⟩
  · exact Or.inl fun c hc hc' => hodd ⟨c, hc, hc'⟩

/-- What is read of a text, from its block or from a directive. -/
theorem of_mem_relationshipRefs (h : ref ∈ relationshipRefs text) :
    trim ref.target = ref.target ∧
      (ref.target = [] → ref ∈ blockRefs text ∧ QuotedNothing text ref) ∧
      (IsRelation ref.key ↔ ¬ HasOddKey text ref) := by
  rcases List.mem_append.mp h with hblock | hdirective
  · obtain ⟨hrelation, htrim, hempty⟩ := of_mem_blockRefs hblock
    refine ⟨htrim, fun hnil => ⟨hblock, hempty hnil⟩, fun _ hodd => ?_, fun _ => hrelation⟩
    exact not_isRelation_of_hasOddKey hodd hrelation
  · obtain ⟨htrim, hne, hkey⟩ := of_mem_directiveRefs hdirective
    exact ⟨htrim, fun hnil => absurd hnil hne,
      fun hrelation hodd => not_isRelation_of_hasOddKey hodd hrelation, hkey.resolve_right⟩

/-! ## Merging -/

/-- The targets that a text gives under a key, as often as it gives them. -/
def targetsGiven (text : List Char) (r : Relation) : List (List Char) :=
  ((relationshipRefs text).filter fun ref => ref.key = r.name.toList).map (·.target)

/-- A text can be merged unless it gives a target under a key that is none of the five. -/
theorem merged_cases (text : List Char) :
    (∃ ref ∈ relationshipRefs text, ¬ IsRelation ref.key ∧ merged text = .error ⟨ref.key⟩) ∨
      (∀ ref ∈ relationshipRefs text, IsRelation ref.key) ∧
        merged text = .ok (Relationships.ofFn fun r => distinct (targetsGiven text r)) := by
  unfold merged
  dsimp only
  split
  · rename_i ref hfound
    have hnone : (Relation.ofName? ref.key).isNone = true :=
      List.find?_some (p := fun ref : RelationshipRef => (Relation.ofName? ref.key).isNone) hfound
    have hunknown : ¬ IsRelation ref.key := by
      rw [isRelation_iff, Option.isNone_iff_eq_none.mp hnone]
      exact Bool.false_ne_true
    exact Or.inl ⟨ref, List.mem_of_find?_eq_some hfound, hunknown, rfl⟩
  · rename_i hnone
    refine Or.inr ⟨fun ref href => ?_, rfl⟩
    rw [isRelation_iff, Option.isSome_iff_ne_none]
    simpa using List.find?_eq_none.mp hnone ref href

@[simp] theorem Relationships.get_ofFn {α : Type} (f : Relation → List α) (r : Relation) :
    (Relationships.ofFn f).get r = f r := by
  cases r <;> rfl

theorem Relationships.ext_get {α : Type} {a b : Relationships α}
    (h : ∀ r, a.get r = b.get r) : a = b := by
  obtain ⟨_, _, _, _, _⟩ := a
  obtain ⟨_, _, _, _, _⟩ := b
  obtain rfl := h .next
  obtain rfl := h .prev
  obtain rfl := h .parent
  obtain rfl := h .children
  obtain rfl := h .related
  rfl

/-- **What is read of relationships.**  Every target is trimmed, it is empty only where the block
has a pair of quotation marks around nothing, and its key is one of the five exactly if no
directive has it with an odd `i`.  If no target has such a key the text can be merged, and then
the targets read under a key stand there once each, in the order of their first appearance. -/
theorem relationshipRefs_sound (text : List Char) :
    (∀ ref ∈ relationshipRefs text,
      trim ref.target = ref.target ∧
        (ref.target = [] → ref ∈ blockRefs text ∧ QuotedNothing text ref) ∧
        (IsRelation ref.key ↔ ¬ HasOddKey text ref)) ∧
      ((∃ ref ∈ relationshipRefs text, HasOddKey text ref ∧ merged text = .error ⟨ref.key⟩) ∨
        (∀ ref ∈ relationshipRefs text, ¬ HasOddKey text ref) ∧
          ∃ rels, merged text = .ok rels ∧ ∀ r,
            (∀ target, target ∈ rels.get r ↔ target ∈ targetsGiven text r) ∧
              (rels.get r).Nodup ∧
              (rels.get r).Pairwise fun a b =>
                (targetsGiven text r).idxOf a < (targetsGiven text r).idxOf b) := by
  refine ⟨fun ref href => of_mem_relationshipRefs href, ?_⟩
  rcases merged_cases text with ⟨ref, href, hunknown, herror⟩ | ⟨hall, hok⟩
  · have hodd : HasOddKey text ref := by
      by_contra hplain
      exact hunknown ((of_mem_relationshipRefs href).2.2.mpr hplain)
    exact Or.inl ⟨ref, href, hodd, herror⟩
  · refine Or.inr ⟨fun ref href => ?_, _, hok, fun r => ?_⟩
    · exact (of_mem_relationshipRefs href).2.2.mp (hall ref href)
    · rw [Relationships.get_ofFn]
      exact ⟨fun _ => mem_distinct, nodup_distinct _, pairwise_distinct _⟩

/-- A block with an empty target, and a directive with a key in capitals. -/
def sampleQuotes : List Char :=
  "\x7b#\nrelationships:\n next: '  '\n#\x7d\x7b# @rel CHILDREN: a, b, a #\x7d".toList

theorem relationshipRefs_sound_sampleQuotes :
    (⟨"next".toList, [], 3⟩ ∈ relationshipRefs sampleQuotes ∧
      QuotedNothing sampleQuotes ⟨"next".toList, [], 3⟩) ∧
      ⟨"children".toList, ['b'], 4⟩ ∈ relationshipRefs sampleQuotes ∧
        ¬ HasOddKey sampleQuotes ⟨"children".toList, ['b'], 4⟩ := by
  have hnext : ⟨"next".toList, [], 3⟩ ∈ relationshipRefs sampleQuotes := by decide +kernel
  have hchildren : ⟨"children".toList, ['b'], 4⟩ ∈ relationshipRefs sampleQuotes := by
    decide +kernel
  obtain ⟨hrefs, -⟩ := relationshipRefs_sound sampleQuotes
  exact ⟨⟨hnext, ((hrefs _ hnext).2.1 rfl).2⟩, hchildren,
    (hrefs _ hchildren).2.2.mp ⟨.children, rfl⟩⟩

end Folio.Source
