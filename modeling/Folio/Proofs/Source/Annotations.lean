import Folio.Proofs.Source.Block
import Folio.Proofs.Text.Distinct

/-!
# Annotations of relationships

A page can name its neighbours in a block at its top and in directives anywhere.
`Annotations` is a page with both, in every spelling that the two admit.

`merged_of_writes` says that the targets are read as they were written: under each key
first those of the block and then those of the directives, in order.  The search for
directives passes over all text without a number sign and over the block, whose only
number signs are at its ends.
-/

namespace Folio.Source

open Text

/-! ## Writing -/

/-- A directive, and the text up to the next one. -/
structure Directive where
  key : Relation
  items : List Written
  after : List Char
  hash_not_mem : '#' ∉ after := by decide

namespace Directive

/-- The directive as it is written. -/
def comment (d : Directive) : List Char :=
  "\x7b# @rel ".toList ++
    (d.key.name.toList ++ ':' :: ' ' :: (itemsText d.items ++ " #\x7d".toList))

/-- The targets of a directive. -/
def targets (d : Directive) : List (List Char) :=
  d.items.map Written.value

end Directive

/-- The annotations of a page: a block, if it has one, and directives in its text. -/
structure Annotations where
  block : Option (List BlockEntry)
  between : List Char
  directives : List Directive
  hash_not_mem : '#' ∉ between := by decide

namespace Annotations

/-- The text of the directives. -/
def directivesText (directives : List Directive) : List Char :=
  directives.flatMap fun d => d.comment ++ d.after

/-- The text of a page. -/
def text (a : Annotations) : List Char :=
  (a.block.map blockText).getD [] ++ (a.between ++ directivesText a.directives)

/-- The targets that are written under a key, those of the block first. -/
def targets (a : Annotations) (r : Relation) : List (List Char) :=
  ((a.block.getD []).flatMap fun e => if e.key = r then e.targets else []) ++
    a.directives.flatMap fun d => if d.key = r then d.targets else []

/-- The annotations give each key its targets in the table. -/
def Writes (a : Annotations) (m : Relation → List (List Char)) : Prop :=
  ∀ r, a.targets r = m r

end Annotations

/-! ## Directives -/

variable {s t : List Char}

theorem dropWordAnyCase_name (key : Relation) (t : List Char) :
    (Relation.all.findSome? fun r => dropWordAnyCase r.name.toList (key.name.toList ++ ':' :: t)) =
      some (':' :: t) := by
  cases key <;> rfl

theorem lower_name (key : Relation) : lower key.name.toList = key.name.toList := by
  cases key <;> decide +kernel

/-- A directive is read as it was written, a space aside. -/
theorem directivePattern_comment (d : Directive) (t : List Char) :
    ∃ after, (∀ c ∈ after, c = ' ') ∧ directivePattern (d.comment ++ t) =
      some ((d.key.name.toList, itemsText d.items ++ after), t) := by
  obtain ⟨after, hafter, hvalue⟩ := commentValue_itemsText d.items t
  have hopen : dropWord ['{', '#'] (d.comment ++ t) = some (" @rel ".toList ++
      (d.key.name.toList ++ ':' :: (' ' :: (itemsText d.items ++ " #\x7d".toList) ++ t))) := by
    unfold Directive.comment
    rw [List.append_assoc, List.append_assoc]
    rfl
  have hmark : dropWordAnyCase "@rel".toList (dropBlanks (dropOne ['-'] (" @rel ".toList ++
      (d.key.name.toList ++ ':' :: (' ' :: (itemsText d.items ++ " #\x7d".toList) ++ t))))) =
      some (' ' :: (d.key.name.toList ++
        ':' :: (' ' :: (itemsText d.items ++ " #\x7d".toList) ++ t))) := rfl
  have hspace : dropSomeBlanks (' ' :: (d.key.name.toList ++
      ':' :: (' ' :: (itemsText d.items ++ " #\x7d".toList) ++ t))) = some (d.key.name.toList ++
        ':' :: (' ' :: (itemsText d.items ++ " #\x7d".toList) ++ t)) := by
    cases d.key <;> rfl
  have hcolon : ∀ v, dropWord [':'] (dropBlanks (':' :: v)) = some v := fun _ => rfl
  refine ⟨after, hafter, ?_⟩
  unfold directivePattern
  simp only [hopen, hmark, hspace, dropWordAnyCase_name, hcolon, hvalue, Option.bind_eq_bind,
    Option.bind_some, List.length_append, Nat.add_sub_cancel, List.take_left]
  rfl

theorem dropWord_open_eq_none {c : Char} (h : c = '{' → s.head? ≠ some '#') :
    dropWord ['{', '#'] (c :: s) = none := by
  by_cases hc : c = '{'
  · subst hc
    cases s with
    | nil => rfl
    | cons d s =>
        have hd : '#' ≠ d := fun hd => h rfl (hd ▸ rfl)
        exact (if_pos rfl).trans (dropWord_cons_ne hd [] s)
  · exact dropWord_cons_ne (Ne.symm hc) _ s

/-- No comment begins in a text without a number sign. -/
theorem quiet_open (hs : '#' ∉ s) (hend : s.getLast? = some '{' → t.head? ≠ some '#') :
    Quiet (dropWord ['{', '#']) s t := by
  intro c v hv
  refine dropWord_open_eq_none fun hc => ?_
  cases v with
  | nil =>
      obtain ⟨front, rfl⟩ := hv
      exact hend (by rw [List.getLast?_concat, hc])
  | cons d v =>
      intro hd
      have hmem : d ∈ s := hv.subset (by simp)
      exact hs (Option.some.inj hd ▸ hmem)

theorem directivePattern_eq_none (h : dropWord ['{', '#'] s = none) :
    directivePattern s = none := by
  unfold directivePattern
  rw [h]
  rfl

theorem quiet_directivePattern (hs : '#' ∉ s)
    (hend : s.getLast? = some '{' → t.head? ≠ some '#') : Quiet directivePattern s t :=
  fun c v hv => directivePattern_eq_none (quiet_open hs hend c v hv)

theorem head?_directivesText (directives : List Directive) :
    (Annotations.directivesText directives).head? ≠ some '#' := by
  cases directives with
  | nil => exact fun h => nomatch h
  | cons d directives => exact fun h => absurd (Option.some.inj h) (by decide)

/-- No directive stands in a block. -/
theorem quiet_blockText (entries : List BlockEntry) (t : List Char) :
    Quiet directivePattern (blockText entries) t := by
  have hopen : Quiet directivePattern "\x7b#".toList
      ('\n' :: blockBody entries ++ ("#\x7d".toList ++ t)) :=
    quiet_cons.2 ⟨rfl, quiet_cons.2 ⟨rfl, quiet_nil _ _⟩⟩
  have hbody : Quiet directivePattern ('\n' :: blockBody entries) ("#\x7d".toList ++ t) := by
    refine quiet_directivePattern ?_ fun hlast => ?_
    · rw [List.mem_cons, not_or]
      exact ⟨by decide, hash_not_mem_blockBody entries⟩
    · rw [List.getLast?_cons, getLast?_blockBody] at hlast
      exact absurd (Option.some.inj hlast) (by decide)
  have hclose : Quiet directivePattern "#\x7d".toList t :=
    quiet_cons.2 ⟨rfl, quiet_cons.2
      ⟨directivePattern_eq_none (dropWord_cons_ne (by decide) _ _), quiet_nil _ _⟩⟩
  have hsplit : blockText entries =
      "\x7b#".toList ++ ('\n' :: blockBody entries) ++ "#\x7d".toList := rfl
  rw [hsplit]
  refine Quiet.append (Quiet.append ?_ hbody) hclose
  exact hopen

/-- The targets of directives are read one directive after the other. -/
theorem occurrences_directivesText (directives : List Directive) (offset : Nat) :
    ((occurrencesFrom directivePattern offset 0
        (Annotations.directivesText directives)).flatMap fun found =>
      (commaValues found.value.2).map fun v => (lower found.value.1, v)) =
      directives.flatMap fun d => d.targets.map fun v => (d.key.name.toList, v) := by
  induction directives generalizing offset with
  | nil => rfl
  | cons d directives ih =>
      have hsplit : Annotations.directivesText (d :: directives) =
          d.comment ++ (d.after ++ Annotations.directivesText directives) := by
        unfold Annotations.directivesText
        rw [List.flatMap_cons, List.append_assoc]
      obtain ⟨after, hafter, hmatch⟩ :=
        directivePattern_comment d (d.after ++ Annotations.directivesText directives)
      have hquiet : Quiet directivePattern d.after (Annotations.directivesText directives) :=
        quiet_directivePattern d.hash_not_mem fun _ => head?_directivesText directives
      have hne : d.comment ≠ [] := List.append_ne_nil_of_left_ne_nil (by decide) _
      rw [hsplit, occurrencesFrom_match hne hmatch,
        occurrencesFrom_append hquiet, List.flatMap_cons, ih, lower_name,
        commaValues_itemsText d.items hafter, List.flatMap_cons]
      rfl

theorem map_pair_directiveRefs (hs : Quiet directivePattern s t) :
    (directiveRefs (s ++ t)).map RelationshipRef.pair =
      (occurrencesFrom directivePattern s.length 0 t).flatMap fun found =>
        (commaValues found.value.2).map fun v => (lower found.value.1, v) := by
  unfold directiveRefs occurrences
  rw [occurrencesFrom_append hs, Nat.zero_add, List.map_flatMap]
  simp only [List.map_map]
  rfl

/-- What stands in a directive. -/
def Directive.content (d : Directive) : List Char :=
  " @rel ".toList ++ (d.key.name.toList ++ ':' :: ' ' :: (itemsText d.items ++ [' ']))

theorem Directive.isPlainLine_content (d : Directive) : IsPlainLine d.content := by
  have hmark : IsPlainLine " @rel ".toList := isPlainLine_of_all (by decide)
  have hcolon : IsPlainLine [':', ' '] := isPlainLine_of_all (by decide)
  have hspace : IsPlainLine [' '] := isPlainLine_of_all (by decide)
  exact hmark.append ((isPlainLine_name d.key).append
    (hcolon.append ((isPlainLine_itemsText d.items).append hspace)))

/-- A directive can stand at the top, where a block would. -/
theorem headerComment_comment (d : Directive) (hs : ∀ c ∈ s, isBlank c = true) (t : List Char) :
    ∃ offset, headerComment (s ++ (d.comment ++ t)) = some ⟨offset, d.content⟩ := by
  have hsplit : splitAtWord ['#', '}'] (d.content ++ (['#', '}'] ++ t)) = some (d.content, t) :=
    splitAtWord_append (by decide) fun c v hv => dropWord_cons_ne
      (fun h : '#' = c => (d.isPlainLine_content c (hv.subset List.mem_cons_self)).2 h.symm) _ _
  have hlast : d.content.getLast? ≠ some '-' := by
    have hspace : d.content = " @rel ".toList ++ (d.key.name.toList ++
        ([':', ' '] ++ itemsText d.items)) ++ [' '] := by
      rw [List.append_assoc, List.append_assoc, List.append_assoc]
      rfl
    rw [hspace, List.getLast?_concat]
    decide
  have hopen : dropWord ['{', '#'] (dropBlanks (s ++ (d.comment ++ t))) =
      some (d.content ++ (['#', '}'] ++ t)) := by
    have hmark : "\x7b# @rel ".toList = ['{', '#'] ++ " @rel ".toList := rfl
    have hclose : " #\x7d".toList = [' '] ++ ['#', '}'] := rfl
    have hcomment : d.comment ++ t = ['{', '#'] ++ (d.content ++ (['#', '}'] ++ t)) := by
      unfold Directive.comment Directive.content
      rw [hmark, hclose]
      simp only [List.append_assoc, List.cons_append]
    rw [dropBlanks_append hs, hcomment]
    rfl
  have hhyphen : dropOne ['-'] (d.content ++ (['#', '}'] ++ t)) =
      d.content ++ (['#', '}'] ++ t) := rfl
  refine ⟨(s ++ (d.comment ++ t)).length - (d.content ++ (['#', '}'] ++ t)).length, ?_⟩
  unfold headerComment
  rw [hopen, Option.bind_eq_bind, Option.bind_some]
  dsimp only
  rw [hhyphen, hsplit, Option.bind_eq_bind, Option.bind_some]
  dsimp only
  rw [if_neg hlast]
  rfl

/-! ## Pages -/

namespace Annotations

variable (a : Annotations)

/-- A page without a block has none in its directives. -/
theorem blockRefs_without_block : blockRefs (a.between ++ directivesText a.directives) = [] := by
  have hnone : ∀ {s}, dropWord ['{', '#'] (dropBlanks s) = none → blockRefs s = [] := by
    intro s hs
    unfold blockRefs headerComment
    rw [hs]
    rfl
  by_cases hblank : ∀ c ∈ a.between, isBlank c = true
  · cases hdirectives : a.directives with
    | nil =>
        refine hnone ?_
        rw [dropBlanks_append hblank]
        rfl
    | cons d directives =>
        obtain ⟨offset, hheader⟩ :=
          headerComment_comment d hblank (d.after ++ directivesText directives)
        have hsplit : a.between ++ directivesText (d :: directives) =
            a.between ++ (d.comment ++ (d.after ++ directivesText directives)) := by
          unfold directivesText
          rw [List.flatMap_cons, List.append_assoc]
        rw [hsplit]
        exact blockRefs_of_line hheader fun c hc => (d.isPlainLine_content c hc).1
  · obtain ⟨c, v, hrest⟩ : ∃ c v, a.between.dropWhile isBlank = c :: v :=
      List.exists_cons_of_ne_nil (by rwa [ne_eq, List.dropWhile_eq_nil_iff])
    have hdrop : dropBlanks (a.between ++ directivesText a.directives) =
        c :: v ++ directivesText a.directives := by
      unfold dropBlanks
      rw [List.dropWhile_append, hrest]
      rfl
    have hsuffix : c :: v <:+ a.between := hrest ▸ List.dropWhile_suffix _
    refine hnone ?_
    rw [hdrop]
    exact quiet_open a.hash_not_mem (fun _ => head?_directivesText a.directives) c v hsuffix

/-- What a page says, in the order in which it is read. -/
theorem map_pair_relationshipRefs :
    (relationshipRefs a.text).map RelationshipRef.pair =
      ((a.block.getD []).flatMap fun e => e.targets.map fun v => (e.key.name.toList, v)) ++
        a.directives.flatMap fun d => d.targets.map fun v => (d.key.name.toList, v) := by
  have hbetween : Quiet directivePattern a.between (directivesText a.directives) :=
    quiet_directivePattern a.hash_not_mem fun _ => head?_directivesText a.directives
  unfold relationshipRefs text
  rw [List.map_append]
  cases a.block with
  | none =>
      rw [Option.map_none, Option.getD_none, List.nil_append, a.blockRefs_without_block,
        map_pair_directiveRefs hbetween, occurrences_directivesText]
      rfl
  | some entries =>
      have hblock : Quiet directivePattern (blockText entries ++ a.between)
          (directivesText a.directives) := (quiet_blockText entries _).append hbetween
      rw [Option.map_some, Option.getD_some, map_pair_blockRefs, ← List.append_assoc,
        map_pair_directiveRefs hblock, occurrences_directivesText]
      rfl

end Annotations

theorem ofName?_name (key : Relation) : Relation.ofName? key.name.toList = some key := by
  cases key <;> rfl

theorem name_toList_inj {key r : Relation} : key.name.toList = r.name.toList ↔ key = r := by
  cases key <;> cases r <;> decide

/-- The targets under a key, from keys and targets in order. -/
theorem targetsOf_eq {refs : List RelationshipRef} {pairs : List (List Char × List Char)}
    (hpairs : refs.map RelationshipRef.pair = pairs) (r : Relation) :
    targetsOf refs r = distinct ((pairs.filter fun pair => pair.1 = r.name.toList).map (·.2)) := by
  subst hpairs
  unfold targetsOf
  rw [List.filter_map, List.map_map]
  rfl

/-- Targets that stand under keys, those under one key. -/
theorem filter_pairs {β : Type} (xs : List β) (key : β → Relation)
    (targets : β → List (List Char)) (r : Relation) :
    ((xs.flatMap fun x => (targets x).map fun v => ((key x).name.toList, v)).filter
      fun pair => pair.1 = r.name.toList).map (·.2) =
      xs.flatMap fun x => if key x = r then targets x else [] := by
  induction xs with
  | nil => rfl
  | cons x xs ih =>
      rw [List.flatMap_cons, List.filter_append, List.map_append, ih, List.flatMap_cons]
      congr 1
      by_cases h : key x = r
      · rw [if_pos h, List.filter_map, List.map_map]
        simp [h, Function.comp_def]
      · simp [h, name_toList_inj, List.filter_map, Function.comp_def]

/-- **Annotations are read as they were written.**  Whatever the shape of each key in the
block, and however the targets of a key are shared out between the block and the
directives, the page gives each key its targets in order. -/
theorem merged_of_writes {m : Relation → List (List Char)} (hdistinct : ∀ r, (m r).Nodup)
    {a : Annotations} (h : a.Writes m) : merged a.text = .ok (Relationships.ofFn m) := by
  have hpairs := a.map_pair_relationshipRefs
  have hknown : (relationshipRefs a.text).find? (fun ref => (Relation.ofName? ref.key).isNone) =
      none := by
    rw [List.find?_eq_none]
    intro ref href
    have hmem : ref.pair ∈ (relationshipRefs a.text).map RelationshipRef.pair :=
      List.mem_map_of_mem href
    obtain ⟨key, hkey⟩ : ∃ key : Relation, ref.key = key.name.toList := by
      rw [hpairs, List.mem_append, List.mem_flatMap, List.mem_flatMap] at hmem
      rcases hmem with ⟨e, -, hmem⟩ | ⟨d, -, hmem⟩
      · obtain ⟨v, -, hpair⟩ := List.mem_map.1 hmem
        exact ⟨e.key, (congrArg Prod.fst hpair).symm⟩
      · obtain ⟨v, -, hpair⟩ := List.mem_map.1 hmem
        exact ⟨d.key, (congrArg Prod.fst hpair).symm⟩
    rw [hkey, ofName?_name]
    exact Bool.false_ne_true
  have htargets : ∀ r, targetsOf (relationshipRefs a.text) r = m r := by
    intro r
    rw [targetsOf_eq hpairs, List.filter_append, List.map_append,
      filter_pairs _ BlockEntry.key BlockEntry.targets,
      filter_pairs _ Directive.key Directive.targets]
    calc distinct (a.targets r) = distinct (m r) := congrArg distinct (h r)
      _ = (m r).eraseDups := distinct_eq_eraseDups _
      _ = m r := eraseDups_of_nodup (hdistinct r)
  unfold merged
  dsimp only
  rw [hknown, funext htargets]

/-- Targets for a page with every shape of a key. -/
def sampleTargets : Relation → List (List Char)
  | .next => ["two.html".toList, "three".toList]
  | .prev => ["zero".toList]
  | .parent => ["index".toList]
  | .children => ["a".toList, "b".toList, "c".toList]
  | .related => []

/-- A page that gives the children in its block and in a directive. -/
def sampleAnnotations : Annotations where
  block := some
    [⟨2, .next, .inline
        [⟨.double, "two.html".toList, by decide, List.all_eq_true.1 (by decide +kernel)⟩,
          ⟨.bare, "three".toList, by decide, List.all_eq_true.1 (by decide +kernel)⟩]⟩,
      ⟨2, .children, .dashes 4
        ⟨.bare, "a".toList, by decide, List.all_eq_true.1 (by decide +kernel)⟩
        [⟨.single, "b".toList, by decide, List.all_eq_true.1 (by decide +kernel)⟩]⟩,
      ⟨2, .prev, .bare
        ⟨.bare, "zero".toList, by decide, List.all_eq_true.1 (by decide +kernel)⟩⟩,
      ⟨2, .related, .inline []⟩]
  between := "\n<p>".toList
  directives :=
    [⟨.children, [⟨.bare, "c".toList, by decide, List.all_eq_true.1 (by decide +kernel)⟩],
        "</p>".toList, by decide⟩,
      ⟨.parent, [⟨.single, "index".toList, by decide, List.all_eq_true.1 (by decide +kernel)⟩],
        [], by decide⟩]

theorem merged_sampleAnnotations :
    (∀ r, (sampleTargets r).Nodup) ∧ sampleAnnotations.Writes sampleTargets ∧
      merged sampleAnnotations.text = .ok (Relationships.ofFn sampleTargets) := by
  have hdistinct : ∀ r, (sampleTargets r).Nodup := by
    intro r
    cases r <;> decide +kernel
  have hwrites : sampleAnnotations.Writes sampleTargets := by
    intro r
    cases r <;> decide +kernel
  exact ⟨hdistinct, hwrites, merged_of_writes hdistinct hwrites⟩

example : sampleAnnotations.text =
    ("\x7b#\nrelationships:\n  next: [\"two.html\", three]\n  children:\n    - a\n    - 'b'\n" ++
      "  prev: zero\n  related: []\n#\x7d\n<p>\x7b# @rel children: c #\x7d</p>" ++
      "\x7b# @rel parent: 'index' #\x7d").toList := by
  decide +kernel

end Folio.Source
