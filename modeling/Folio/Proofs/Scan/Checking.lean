import Folio.Proofs.Output.Endpoints
import Folio.Proofs.Scan.Reports
import Folio.Proofs.Source.Pairing

/-!
# What the check of a template reports

The check lists the references of a template that lead nowhere, and those of the relationships of
a page.  A build finds out about both in other ways: a search drops the references when it comes
to the file, and the relationships are merged, so that a target counts once for its relation,
before they are resolved.

The check sorts its entries by line.  References are read from top to bottom, so their entries
keep their order, and they are those that a search drops, one for one.  The relationships of the
block and of the directives may be sorted among each other, and a target may be listed more than
once; what they have in common with the build are the pairs of a relation and a target
(`checkFile_agrees`).
-/

namespace Folio

open Text Source

variable {t : FileTree} {l : Layout} {p : Path} {text : List Char} {log : List Record}

/-! ## Collecting what leads nowhere -/

theorem mapM_eq_ok_map {α β ε : Type} {f : α → Except ε β} {g : α → β} {xs : List α}
    (h : ∀ x ∈ xs, f x = .ok (g x)) : xs.mapM f = .ok (xs.map g) := by
  induction xs with
  | nil => rfl
  | cons x rest ih =>
      obtain ⟨hx, hrest⟩ := List.forall_mem_cons.1 h
      rw [List.mapM_cons, hx, ih hrest]
      rfl

/-- If all members of a list can be looked up, those that lead nowhere are listed. -/
theorem collect_eq_ok {α : Type} {resolve : α → Except Cause (Option Path)}
    {entry : α → Diagnostic} {xs : List α} (hall : ∀ x ∈ xs, ∃ found, resolve x = .ok found) :
    (do
      let found ← xs.mapM fun x => do
        match ← resolve x with
        | some _ => return []
        | none => return [entry x]
      return found.flatten : Except Cause (List Diagnostic)) =
      .ok ((xs.filter fun x => resolve x = .ok none).map entry) := by
  have hone : ∀ x ∈ xs, (do
      match ← resolve x with
      | some _ => return []
      | none => return [entry x] : Except Cause (List Diagnostic)) =
        .ok (if resolve x = .ok none then [entry x] else []) := by
    intro x hx
    obtain ⟨found, hfound⟩ := hall x hx
    rw [hfound]
    cases found with
    | none => rfl
    | some file => rfl
  rw [mapM_eq_ok_map hone]
  refine congrArg Except.ok ?_
  clear hall hone
  induction xs with
  | nil => rfl
  | cons x rest ih =>
      rw [List.map_cons, List.flatten_cons, ih, List.filter_cons]
      split
      · rename_i hlost
        rw [if_pos (by simpa using hlost)]
        rfl
      · rename_i hfound
        rw [if_neg (by simpa using hfound)]
        rfl

/-! ## Entries -/

/-- The entry of a reference. -/
def referenceEntry (p : Path) (ref : Reference) : Diagnostic :=
  ⟨p, ref.line, ref.kind.keyword, ref.target⟩

/-- The kind of the entries of a relation. -/
def relationshipKind (key : List Char) : String :=
  "relationship " ++ String.ofList key

/-- The entry of a target of a relationship. -/
def relationshipEntry (p : Path) (ref : RelationshipRef) : Diagnostic :=
  ⟨p, ref.line, relationshipKind ref.key, ref.target⟩

/-- Whether an entry is one of a relationship. -/
def Diagnostic.isRelationship (d : Diagnostic) : Bool :=
  "relationship ".toList.isPrefixOf d.kind.toList

/-- The targets of relationships that lead nowhere. -/
def droppedRelationships (t : FileTree) (l : Layout) (p : Path) (refs : List RelationshipRef) :
    List RelationshipRef :=
  refs.filter fun ref => resolveRelationship t l p ref.target = .ok none

theorem isRelationship_referenceEntry (ref : Reference) :
    (referenceEntry p ref).isRelationship = false := by
  show "relationship ".toList.isPrefixOf ref.kind.keyword.toList = false
  cases ref.kind <;> decide

theorem isRelationship_relationshipEntry (ref : RelationshipRef) :
    (relationshipEntry p ref).isRelationship = true := by
  show "relationship ".toList.isPrefixOf (relationshipKind ref.key).toList = true
  rw [relationshipKind, String.toList_append, List.isPrefixOf_iff_prefix]
  exact List.prefix_append ..

theorem relationshipKind_injective {key key' : List Char}
    (h : relationshipKind key = relationshipKind key') : key = key' := by
  have hchars := congrArg String.toList h
  simp only [relationshipKind, String.toList_append, String.toList_ofList] at hchars
  exact List.append_cancel_left hchars

/-- The entries of a check before they are sorted. -/
def entriesOf (t : FileTree) (l : Layout) (p : Path) (text : List Char) : List Diagnostic :=
  (droppedReferences t l p (references text)).map (referenceEntry p) ++
    if l.kindOf p = some .page then
      (droppedRelationships t l p (relationshipRefs text)).map (relationshipEntry p)
    else []

/-- A check whose look-ups do not fail changes nothing and reports nothing but its entries. -/
theorem checkFile_run (hread : t.readText p = .ok text)
    (hrefs : Resolvable t l p (references text))
    (hrels : l.kindOf p = some .page → ∀ ref ∈ relationshipRefs text,
      ∃ found, resolveRelationship t l p ref.target = .ok found) :
    (checkFile l p).run.run ⟨t, log⟩ =
      (.ok ((entriesOf t l p text).mergeSort fun a b => a.line ≤ b.line), ⟨t, log⟩) := by
  have hbroken : brokenReferences t l p text =
      .ok ((droppedReferences t l p (references text)).map (referenceEntry p)) :=
    collect_eq_ok hrefs
  have hends : Ends (checkFile l p) ⟨t, log⟩
      (fun ds s => ds = (entriesOf t l p text).mergeSort (fun a b => a.line ≤ b.line) ∧
        s = ⟨t, log⟩) fun _ _ => False := by
    unfold checkFile readTemplate entriesOf
    simp only [ends_bind, Action.ends_files, hread, ends_pure, Action.ends_orRaise, hbroken]
    split
    · rename_i hpage
      have hlost : brokenRelationships t l p text =
          .ok ((droppedRelationships t l p (relationshipRefs text)).map (relationshipEntry p)) :=
        collect_eq_ok (hrels hpage)
      simp only [ends_bind, Action.ends_orRaise, hlost, ends_pure, and_self]
    · simp only [ends_bind, ends_pure, and_self]
  obtain ⟨ds, s, hrun, rfl, rfl⟩ := hends.exists_ok
  exact hrun

/-! ## Sorting -/

theorem pairwise_line_references (text : List Char) :
    (references text).Pairwise fun a b => a.line ≤ b.line :=
  List.pairwise_map.2 <| (pairwise_occurrencesFrom referencePattern 0 0 text).imp fun h =>
    lineOf_mono text (Nat.le_of_lt h)

theorem pairwise_line_mergeSort (ds : List Diagnostic) :
    (ds.mergeSort fun a b => a.line ≤ b.line).Pairwise fun a b => a.line ≤ b.line := by
  have hsorted : (ds.mergeSort fun a b => a.line ≤ b.line).Pairwise
      fun a b => decide (a.line ≤ b.line) = true :=
    List.pairwise_mergeSort
      (fun a b c hab hbc => by simp only [decide_eq_true_eq] at *; omega)
      (fun a b => by simp only [Bool.or_eq_true, decide_eq_true_eq]; omega) ds
  exact hsorted.imp fun h => of_decide_eq_true h

/-- Entries that are in order by line keep their order when others are sorted in. -/
theorem filter_mergeSort_append {keep : Diagnostic → Bool} {kept others : List Diagnostic}
    (hkept : ∀ d ∈ kept, keep d = true) (hothers : ∀ d ∈ others, keep d = false)
    (hsorted : kept.Pairwise fun a b => a.line ≤ b.line) :
    ((kept ++ others).mergeSort fun a b => a.line ≤ b.line).filter keep = kept := by
  have hself : kept.filter keep = kept := List.filter_eq_self.2 hkept
  have hsub : kept.Sublist ((kept ++ others).mergeSort fun a b => a.line ≤ b.line) :=
    List.sublist_mergeSort
      (fun a b c hab hbc => by simp only [decide_eq_true_eq] at *; omega)
      (fun a b => by simp only [Bool.or_eq_true, decide_eq_true_eq]; omega)
      (hsorted.imp fun h => decide_eq_true h) (List.sublist_append_left ..)
  have hboth : (kept ++ others).filter keep = kept := by
    rw [List.filter_append, hself, List.filter_eq_nil_iff.2 (by simpa using hothers),
      List.append_nil]
  -- What is kept of the sorted entries has `kept` as a sublist, and is no longer.
  have hlength := ((List.mergeSort_perm (kept ++ others)
    fun a b => decide (a.line ≤ b.line)).filter keep).length_eq
  rw [hboth] at hlength
  have hfiltered := hsub.filter keep
  rw [hself] at hfiltered
  exact (hfiltered.eq_of_length hlength.symm).symm

/-! ## The check and the search -/

/-- What the check lists of references is what a search drops: the search reports exactly these
when it looks at the file, and nothing else that it reports is about the file. -/
structure AgreesWithSearch (t : FileTree) (l : Layout) (p : Path) (ds : List Diagnostic)
    (dropped : List Reference) : Prop where
  entries : (ds.filter fun d => !d.isRelationship) = dropped.map (referenceEntry p)
  step : ∀ (search : Search) next pending log, next.resolved = .ok p → p ∉ search.seen →
    ∃ search', (searchStep l search next pending).run.run ⟨t, log⟩ =
      (.ok search', ⟨t, log ++ dropped.map (droppedRecord p)⟩)
  scan : ∀ entry d log last, (scan l entry).run.run ⟨t, log⟩ = (.ok d, last) → p ∈ d.visited →
    ∃ earlier later : List Path, p ∉ earlier ∧ p ∉ later ∧
      last = ⟨t, log ++ earlier.flatMap (visitRecords t l) ++ dropped.map (droppedRecord p) ++
        later.flatMap (visitRecords t l)⟩

theorem entries_agree (t : FileTree) (l : Layout) (p : Path) (text : List Char) :
    (((entriesOf t l p text).mergeSort fun a b => a.line ≤ b.line).filter
        fun d => !d.isRelationship) =
      (droppedReferences t l p (references text)).map (referenceEntry p) := by
  refine filter_mergeSort_append (fun d hd => ?_) (fun d hd => ?_) ?_
  · obtain ⟨ref, -, rfl⟩ := List.mem_map.1 hd
    rw [isRelationship_referenceEntry, Bool.not_false]
  · split at hd
    · obtain ⟨ref, -, rfl⟩ := List.mem_map.1 hd
      rw [isRelationship_relationshipEntry, Bool.not_true]
    · cases hd
  · exact List.pairwise_map.2 ((pairwise_line_references text).filter _)

theorem searchStep_drops (hread : t.readText p = .ok text)
    (hrefs : Resolvable t l p (references text)) {search : Search} {next : Path}
    {pending : List Path} (hnext : next.resolved = .ok p) (hseen : p ∉ search.seen) :
    ∃ search', (searchStep l search next pending).run.run ⟨t, log⟩ = (.ok search',
      ⟨t, log ++ (droppedReferences t l p (references text)).map (droppedRecord p)⟩) := by
  have hends : Ends (searchStep l search next pending) ⟨t, log⟩ _ fun _ _ => False :=
    (searchStep_log hnext).mono (fun _ _ h => h) fun _ _ h => h.elim hseen fun hnot =>
      hnot fun text' hread' => by
        obtain rfl := Except.ok.inj (hread.symm.trans hread')
        exact hrefs
  obtain ⟨search', s, hrun, rfl⟩ := hends.exists_ok
  rw [if_neg hseen, visitRecords_of_read hread] at hrun
  exact ⟨search', hrun⟩

theorem scan_drops (hread : t.readText p = .ok text) {entry : Path} {d : Dependencies}
    {last : Session} (hscan : (scan l entry).run.run ⟨t, log⟩ = (.ok d, last))
    (hvisited : p ∈ d.visited) :
    ∃ earlier later : List Path, p ∉ earlier ∧ p ∉ later ∧
      last = ⟨t, log ++ earlier.flatMap (visitRecords t l) ++
        (droppedReferences t l p (references text)).map (droppedRecord p) ++
        later.flatMap (visitRecords t l)⟩ := by
  obtain ⟨looked, hnodup, hmem, rfl⟩ := ends_of_eq_ok ends_scan hscan
  obtain ⟨earlier, later, rfl⟩ := List.append_of_mem ((hmem p).1 hvisited).1
  obtain ⟨-, hlater, hapart⟩ := List.nodup_append.1 hnodup
  refine ⟨earlier, later, fun h => hapart p h p (List.mem_cons_self ..) rfl,
    (List.nodup_cons.1 hlater).1, ?_⟩
  rw [List.flatMap_append, List.flatMap_cons, visitRecords_of_read hread]
  simp only [List.append_assoc]

/-! ## The check and the build -/

/-- What the check lists of relationships are the pairs of a relation and a target that the
build reports; every other target has a file, and its key is there if that is a page. -/
structure AgreesWithBuild (t : FileTree) (l : Layout) (p : Path) (ds : List Diagnostic)
    (targets : Relationships (List Char)) (rels : Relationships String)
    (reported : List Record) : Prop where
  reported_eq : reported = Relation.all.flatMap fun r =>
    (lostTargets t l p (targets.get r)).map (lostRecord p)
  entry_iff : ∀ key target, (∃ d ∈ ds, d.kind = relationshipKind key ∧ d.target = target) ↔
    ∃ r : Relation, key = r.name.toList ∧ target ∈ lostTargets t l p (targets.get r)
  found : ∀ r, ∀ target ∈ targets.get r, target ∉ lostTargets t l p (targets.get r) →
    ∃ file, resolveRelationship t l p target = .ok (some file) ∧
      (Path.isUnder l.pages file → ∃ key ∈ rels.get r, l.pageKey? file = some key)

/-- An entry of the kind of a relation comes from a target that leads nowhere. -/
theorem exists_entry_iff (hpage : l.kindOf p = some .page) {key target : List Char} :
    (∃ d ∈ (entriesOf t l p text).mergeSort fun a b => a.line ≤ b.line,
        d.kind = relationshipKind key ∧ d.target = target) ↔
      ∃ ref ∈ droppedRelationships t l p (relationshipRefs text),
        ref.key = key ∧ ref.target = target := by
  simp only [List.mem_mergeSort, entriesOf, if_pos hpage, List.mem_append, List.mem_map]
  constructor
  · rintro ⟨_, ⟨ref, -, rfl⟩ | ⟨ref, href, rfl⟩, hkind, rfl⟩
    · have hnone := isRelationship_referenceEntry (p := p) ref
      rw [Diagnostic.isRelationship, hkind, relationshipKind, String.toList_append,
        List.isPrefixOf_iff_prefix.2 (List.prefix_append ..)] at hnone
      cases hnone
    · exact ⟨ref, href, relationshipKind_injective hkind, rfl⟩
  · rintro ⟨ref, href, rfl, rfl⟩
    exact ⟨_, .inr ⟨ref, href, rfl⟩, rfl, rfl⟩

theorem exists_dropped_iff {targets : Relationships (List Char)}
    (hmerged : merged text = .ok targets) {key target : List Char} :
    (∃ ref ∈ droppedRelationships t l p (relationshipRefs text),
        ref.key = key ∧ ref.target = target) ↔
      ∃ r : Relation, key = r.name.toList ∧ target ∈ lostTargets t l p (targets.get r) := by
  rcases merged_cases text with ⟨_, -, -, herror⟩ | ⟨hall, hok⟩
  · rw [hmerged] at herror
    cases herror
  · obtain rfl := Except.ok.inj (hmerged.symm.trans hok)
    simp only [droppedRelationships, lostTargets, List.mem_filter, Relationships.get_ofFn,
      mem_distinct, targetsGiven, List.mem_map, decide_eq_true_eq]
    constructor
    · rintro ⟨ref, ⟨href, hlost⟩, rfl, rfl⟩
      obtain ⟨r, hr⟩ := hall ref href
      exact ⟨r, hr, ⟨ref, ⟨href, hr⟩, rfl⟩, hlost⟩
    · rintro ⟨r, rfl, ⟨ref, ⟨href, hkey⟩, rfl⟩, hlost⟩
      exact ⟨ref, ⟨href, hlost⟩, hkey, rfl⟩

theorem Layout.exists_pageKey {file : Path} (hunder : Path.isUnder l.pages file) :
    ∃ key, l.pageKey? file = some key := by
  obtain ⟨rel, hrel⟩ := Option.isSome_iff_exists.1 hunder
  exact ⟨_, by rw [Layout.pageKey?, hrel, Option.map_some]⟩

theorem agreesWithBuild (hpage : l.kindOf p = some .page) {rels : Relationships String}
    {last : Session}
    (hrun : (pageRelationships l p text).run.run ⟨t, log⟩ = (.ok rels, last)) :
    ∃ targets reported, merged text = .ok targets ∧ last = ⟨t, log ++ reported⟩ ∧
      AgreesWithBuild t l p ((entriesOf t l p text).mergeSort fun a b => a.line ≤ b.line)
        targets rels reported := by
  obtain ⟨targets, hmerged, hall, hkeys, hlast⟩ := ends_of_eq_ok ends_pageRelationships hrun
  refine ⟨targets, _, hmerged, hlast, rfl, fun key target => ?_, fun r target htarget hfound => ?_⟩
  · rw [exists_entry_iff hpage, exists_dropped_iff hmerged]
  · obtain ⟨found, hresolved⟩ := hall r target htarget
    cases found with
    | none => exact absurd (List.mem_filter.2 ⟨htarget, by simpa using hresolved⟩) hfound
    | some file =>
        refine ⟨file, hresolved, fun hunder => ?_⟩
        obtain ⟨key, hkey⟩ := Layout.exists_pageKey hunder
        refine ⟨key, ?_, hkey⟩
        rw [hkeys, mem_distinct]
        exact List.mem_flatMap.2
          ⟨file, mem_filesOf.2 ⟨target, htarget, hresolved⟩, Layout.mem_keysOf.2 ⟨hunder, hkey⟩⟩

/-- **The check reports what the build drops.**  Of a template that can be read, and whose
references and relationships can all be looked up, the check gives a list ordered by line.  Its
entries for references are those that a search drops at this file.  If the file is a page and its
relationships come to a result, the entries for these are the pairs that the build reports, and
every other target has become a key or leads to a file outside the pages.  A file that is no page
has no such entry. -/
theorem checkFile_agrees (hread : t.readText p = .ok text)
    (hrefs : Resolvable t l p (references text))
    (hrels : l.kindOf p = some .page → ∀ ref ∈ relationshipRefs text,
      ∃ found, resolveRelationship t l p ref.target = .ok found) (log : List Record) :
    ∃ ds, (checkFile l p).run.run ⟨t, log⟩ = (.ok ds, ⟨t, log⟩) ∧
      (ds.Pairwise fun a b => a.line ≤ b.line) ∧
      AgreesWithSearch t l p ds (droppedReferences t l p (references text)) ∧
      (l.kindOf p = some .page → ∀ rels log last,
        (pageRelationships l p text).run.run ⟨t, log⟩ = (.ok rels, last) →
        ∃ targets reported, merged text = .ok targets ∧ last = ⟨t, log ++ reported⟩ ∧
          AgreesWithBuild t l p ds targets rels reported) ∧
      (l.kindOf p ≠ some .page → ∀ d ∈ ds, d.isRelationship = false) := by
  refine ⟨_, checkFile_run hread hrefs hrels, pairwise_line_mergeSort _, ?_,
    fun hpage _ _ _ => agreesWithBuild hpage, fun hpage d hd => ?_⟩
  · exact
      { entries := entries_agree t l p text
        step := fun _ _ _ _ => searchStep_drops hread hrefs
        scan := fun _ _ _ _ => scan_drops hread }
  · rw [List.mem_mergeSort, entriesOf, if_neg hpage, List.append_nil] at hd
    obtain ⟨ref, -, rfl⟩ := List.mem_map.1 hd
    exact isRelationship_referenceEntry ref

/-- A page with a reference and a target that lead nowhere, and one that leads to a page. -/
def checkedText : List Char :=
  "\x7b% include 'gone.tmpl' %\x7d\x7b# @rel next: b, gone #\x7d".toList

/-- The page beside the one that its target leads to. -/
def checkedFiles : FileTree :=
  ⟨[(["t"], .directory), (["t", "pages"], .directory),
    (["t", "pages", "a.tmpl"], .file (String.ofList checkedText).toUTF8),
    (["t", "pages", "b.tmpl"], .file "b".toUTF8)]⟩

/-- The check lists both, and each is what the search or the build drops. -/
theorem checkFile_agrees_checked :
    ∃ ds rels last,
      (checkFile .small ⟨.root, ["t", "pages", "a.tmpl"]⟩).run.run ⟨checkedFiles, []⟩ =
          (.ok ds, ⟨checkedFiles, []⟩) ∧
        (pageRelationships .small ⟨.root, ["t", "pages", "a.tmpl"]⟩ checkedText).run.run
          ⟨checkedFiles, []⟩ = (.ok rels, last) ∧
        (ds.filter fun d => !d.isRelationship) =
          [⟨⟨.root, ["t", "pages", "a.tmpl"]⟩, 1, "include", "gone.tmpl".toList⟩] ∧
        last.log = [lostRecord ⟨.root, ["t", "pages", "a.tmpl"]⟩ "gone".toList] ∧
        ∃ d ∈ ds, d.kind = "relationship next" ∧ d.target = "gone".toList := by
  have hread : checkedFiles.readText ⟨.root, ["t", "pages", "a.tmpl"]⟩ = .ok checkedText := by
    decide +kernel
  have hrefs : ∀ ref ∈ references checkedText, resolveReference checkedFiles .small
      ⟨.root, ["t", "pages", "a.tmpl"]⟩ ref.target = .ok none := by decide +kernel
  have hrels : ∀ ref ∈ relationshipRefs checkedText,
      resolveRelationship checkedFiles .small ⟨.root, ["t", "pages", "a.tmpl"]⟩ ref.target =
          .ok none ∨
        resolveRelationship checkedFiles .small ⟨.root, ["t", "pages", "a.tmpl"]⟩ ref.target =
          .ok (some ⟨.root, ["t", "pages", "b.tmpl"]⟩) := by decide +kernel
  have hpage : Layout.small.kindOf ⟨.root, ["t", "pages", "a.tmpl"]⟩ = some .page := by decide
  have hmerged : merged checkedText = .ok ⟨["b".toList, "gone".toList], [], [], [], []⟩ := by
    decide +kernel
  have hlost : lostTargets checkedFiles .small ⟨.root, ["t", "pages", "a.tmpl"]⟩
      ["b".toList, "gone".toList] = ["gone".toList] := by decide +kernel
  have hdropped : droppedReferences checkedFiles .small ⟨.root, ["t", "pages", "a.tmpl"]⟩
      (references checkedText) = [⟨.include, "gone.tmpl".toList, 1⟩] := by decide +kernel
  obtain ⟨ds, hcheck, -, hsearch, hbuild, -⟩ := checkFile_agrees hread
    (fun ref href => ⟨_, hrefs ref href⟩)
    (fun _ ref href => (hrels ref href).elim (fun h => ⟨_, h⟩) fun h => ⟨_, h⟩) []
  obtain ⟨rels, last, hrun, -⟩ := Ends.exists_ok (show Ends
      (pageRelationships .small ⟨.root, ["t", "pages", "a.tmpl"]⟩ checkedText)
      ⟨checkedFiles, []⟩ (fun _ _ => True) fun _ _ => False by decide +kernel)
  obtain ⟨targets, reported, htargets, hlast, hagrees⟩ := hbuild hpage _ _ _ hrun
  obtain rfl := Except.ok.inj (hmerged.symm.trans htargets)
  refine ⟨ds, rels, last, hcheck, hrun, ?_, ?_, ?_⟩
  · rw [hsearch.entries, hdropped]
    rfl
  · rw [hlast, hagrees.reported_eq]
    decide +kernel
  · exact (hagrees.entry_iff "next".toList "gone".toList).2
      ⟨.next, rfl, by rw [Relationships.get, hlost]; simp⟩

end Folio
