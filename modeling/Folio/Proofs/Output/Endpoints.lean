import Folio.Proofs.Output.Relationships
import Folio.Proofs.Scan.Lookup
import Folio.Proofs.Source.Merging

/-!
# Where relationships end

A page names its neighbours by targets, and one neighbour may be named by several: with or
without an ending, from the workspace, from the templates or from the page.  A target comes to
a file first, and a file among the pages to a key.  So the keys of a relation depend on the files
alone that its targets lead to, and on each file only where it is met first.

This is `ends_pageRelationships`: the keys are those of the files, each once, and what is
reported are the targets without a file.  What a key looks like is read off the path of its file,
which has names that files can have (`resolution_ends`), all but the last of which the key keeps.
-/

namespace Folio

open Text FileTree Source

variable {t : FileTree} {l : Layout} {page file : Path} {targets : List (List Char)}
  {target text : List Char} {key : String} {log : List Record}

/-! ## Targets, files and keys -/

/-- The files that targets lead to, in the order of the targets. -/
def filesOf (t : FileTree) (l : Layout) (page : Path) (targets : List (List Char)) : List Path :=
  targets.filterMap fun target => (resolveRelationship t l page target).toOption.join

/-- The keys of files, of those that lie among the pages. -/
def Layout.pageKeys (l : Layout) (files : List Path) : List String :=
  files.flatMap fun file => l.keysOf (some file)

/-- The targets that lead to no file. -/
def lostTargets (t : FileTree) (l : Layout) (page : Path) (targets : List (List Char)) :
    List (List Char) :=
  targets.filter fun target => resolveRelationship t l page target = .ok none

/-- The report of a target that leads to no file. -/
def lostRecord (page : Path) (target : List Char) : Record :=
  ⟨.warning, "metadata",
    s!"Relationship target not resolved for {page}: " ++ String.ofList target⟩

theorem mem_filesOf :
    file ∈ filesOf t l page targets ↔
      ∃ target ∈ targets, resolveRelationship t l page target = .ok (some file) := by
  unfold filesOf
  rw [List.mem_filterMap]
  refine exists_congr fun target => and_congr_right fun _ => ?_
  cases resolveRelationship t l page target with
  | error cause => simp [Except.toOption]
  | ok found => simp [Except.toOption]

theorem Layout.mem_keysOf : key ∈ l.keysOf (some file) ↔
    Path.isUnder l.pages file ∧ l.pageKey? file = some key := by
  show key ∈ (if l.kindOf file = some .page then l.pageKey? file else none).toList ↔ _
  rw [Layout.pages, ← Layout.kindOf_eq_some_iff, Option.mem_toList]
  split
  · rename_i hpage
    simp [hpage]
  · rename_i hother
    simp [hother]

/-- Files that are met again give no other keys. -/
theorem Layout.distinct_pageKeys_congr {files files' : List Path}
    (h : distinct files = distinct files') :
    distinct (l.pageKeys files) = distinct (l.pageKeys files') := by
  unfold Layout.pageKeys
  rw [← distinct_flatMap_distinct, h, distinct_flatMap_distinct]

/-! ## The keys of one relation -/

/-- One target more: its keys come first, and it is reported if it has no file. -/
theorem ends_resolveTargets_cons {first : List Char} {rest : List (List Char)}
    {Q : List String → Session → Prop} :
    Ends (resolveTargets l page (first :: rest)) ⟨t, log⟩ Q (fun _ _ => True) ↔
      ∀ found, resolveRelationship t l page first = .ok found →
        Ends (resolveTargets l page rest)
          ⟨t, log ++ (lostTargets t l page [first]).map (lostRecord page)⟩
          (fun keys => Q (l.keysOf found ++ keys)) fun _ _ => True := by
  conv_lhs => unfold resolveTargets
  simp only [ends_bind, Action.ends_files, Action.ends_orRaise]
  cases hfirst : resolveRelationship t l page first with
  | error cause => simp
  | ok found =>
      simp only [Except.ok.injEq, forall_eq']
      cases found with
      | none =>
          have hlost : lostTargets t l page [first] = [first] := by simp [lostTargets, hfirst]
          simp only [ends_bind, Action.ends_warn, hlost]
          rfl
      | some file =>
          have hlost : lostTargets t l page [first] = [] := by simp [lostTargets, hfirst]
          simp only [ends_bind, ends_pure, hlost, List.map_nil, List.append_nil]
          rfl

/-- What the targets of a relation come to, if all of them can be looked up. -/
theorem ends_resolveTargets :
    Ends (resolveTargets l page targets) ⟨t, log⟩
      (fun keys s => (∀ target ∈ targets, ∃ found, resolveRelationship t l page target = .ok found) ∧
        keys = l.pageKeys (filesOf t l page targets) ∧
        s = ⟨t, log ++ (lostTargets t l page targets).map (lostRecord page)⟩)
      fun _ _ => True := by
  induction targets generalizing log with
  | nil => exact ends_pure.2 ⟨by simp, rfl, by simp [lostTargets]⟩
  | cons first rest ih =>
      rw [ends_resolveTargets_cons]
      intro found hfirst
      refine ih.mono (fun keys s h => ?_) fun _ _ => id
      obtain ⟨hall, rfl, rfl⟩ := h
      have hlost : lostTargets t l page (first :: rest) =
          lostTargets t l page [first] ++ lostTargets t l page rest := by
        unfold lostTargets
        rw [← List.filter_append, List.singleton_append]
      refine ⟨List.forall_mem_cons.2 ⟨⟨found, hfirst⟩, hall⟩, ?_, by simp [hlost]⟩
      unfold filesOf Layout.pageKeys
      rw [List.filterMap_cons, hfirst]
      cases found <;> rfl

/-! ## The keys of a page -/

/-- Goes on after the targets of a relation. -/
theorem ends_relation_bind {k : List String → Action (Relationships String)}
    {Q : Relationships String → Session → Prop}
    (hk : (∀ target ∈ targets, ∃ found, resolveRelationship t l page target = .ok found) →
      Ends (k (distinct (l.pageKeys (filesOf t l page targets))))
        ⟨t, log ++ (lostTargets t l page targets).map (lostRecord page)⟩ Q fun _ _ => True) :
    Ends ((do return distinct (← resolveTargets l page targets)) >>= k) ⟨t, log⟩ Q
      fun _ _ => True := by
  rw [ends_bind, ends_bind]
  refine ends_resolveTargets.mono (fun keys s h => ends_pure.2 ?_) fun _ _ => id
  obtain ⟨hall, rfl, rfl⟩ := h
  exact hk hall

/-- **What the relationships of a page come to**, if its text can be merged and its targets
looked up: for each relation the keys of the files, once each, and a report for every target
without a file. -/
theorem ends_pageRelationships :
    Ends (pageRelationships l page text) ⟨t, log⟩
      (fun rels s => ∃ targets, merged text = .ok targets ∧
        (∀ r, ∀ target ∈ targets.get r,
          ∃ found, resolveRelationship t l page target = .ok found) ∧
        (∀ r, rels.get r = distinct (l.pageKeys (filesOf t l page (targets.get r)))) ∧
        s = ⟨t, log ++ Relation.all.flatMap fun r =>
          (lostTargets t l page (targets.get r)).map (lostRecord page)⟩)
      fun _ _ => True := by
  unfold pageRelationships
  rw [ends_bind]
  simp only [Action.ends_orRaise]
  cases hmerged : merged text with
  | error e => trivial
  | ok targets =>
      simp only [Except.mapError]
      refine ends_relation_bind fun hnext => ends_relation_bind fun hprev => ?_
      refine ends_relation_bind fun hparent => ends_relation_bind fun hchildren => ?_
      refine ends_relation_bind fun hrelated => ends_pure.2 ⟨targets, rfl, ?_, ?_, ?_⟩
      · intro r
        cases r with
        | next => exact hnext
        | prev => exact hprev
        | parent => exact hparent
        | children => exact hchildren
        | related => exact hrelated
      · intro r
        cases r <;> rfl
      · simp [Relation.all, Relationships.get]

/-! ## What a key looks like -/

/-- The key of a page: names that files can have, below `pages`. -/
def IsPageKey (key : String) : Prop :=
  ∃ names, names ≠ [] ∧ (∀ name ∈ names, IsFileName name) ∧
    key = "pages/" ++ "/".intercalate names

/-- A look-up that fails in no way finds a path with names that files can have. -/
theorem isPlain_of_resolveRelationship (ht : t.WellFormed) (hl : l.WellFormed)
    (hw : l.workspace.IsPlain) (hpage : page.IsReadable)
    (hfound : resolveRelationship t l page target = .ok (some file)) :
    file.IsPlain ∧ t.IsFile file.parts := by
  obtain ⟨herror, hfinds⟩ := (resolveRelationship_looksUp ht hl hw hpage target)
  have hfault : ∀ cause, ¬ RelationshipFault t l page target cause := by
    intro cause hfault
    rw [(herror cause).2 hfault] at hfound
    cases hfound
  obtain ⟨found, hok, hfinds⟩ := hfinds hfault
  rw [hfound] at hok
  cases hok
  cases hfinds with
  | first _ _ hplain hfile => exact ⟨hplain, hfile⟩

theorem isPageKey_of_pageKey {init : List String} {last : String}
    (hplain : Path.IsPlain ⟨l.pages.anchor, l.pages.parts ++ (init ++ [last])⟩)
    (hkey : l.pageKey? ⟨l.pages.anchor, l.pages.parts ++ (init ++ [last])⟩ = some key) :
    IsPageKey key := by
  have hnames : ∀ name ∈ init ++ [last], IsFileName name := fun name hname =>
    hplain.names name (List.mem_append_right _ hname)
  obtain ⟨last', hlast', hwritten⟩ : ∃ last', IsFileName last' ∧
      withOutputSuffix ("/".intercalate (init ++ [last])).toList =
        ("/".intercalate (init ++ [last'])).toList :=
    withOutputSuffix_intercalate (hnames last (by simp))
  rw [pageKey_below (by simp), hwritten, String.ofList_toList] at hkey
  refine ⟨init ++ [last'], by simp, fun name hname => ?_, (Option.some.inj hkey).symm⟩
  rcases List.mem_append.1 hname with h | h
  · exact hnames name (List.mem_append_left _ h)
  · exact List.mem_singleton.1 h ▸ hlast'

/-! ## All of it -/

/-- The keys that some targets come to: those of the files among the pages that the targets
lead to, each once, in the order in which the files are met. -/
structure Endpoints (t : FileTree) (l : Layout) (page : Path) (targets : List (List Char))
    (keys : List String) : Prop where
  mem_iff : ∀ key, key ∈ keys ↔ ∃ target ∈ targets, ∃ file,
    resolveRelationship t l page target = .ok (some file) ∧ Path.isUnder l.pages file ∧
      l.pageKey? file = some key
  nodup : keys.Nodup
  ordered : keys.Pairwise fun a b =>
    (l.pageKeys (filesOf t l page targets)).idxOf a <
      (l.pageKeys (filesOf t l page targets)).idxOf b
  isPageKey : ∀ key ∈ keys, IsPageKey key

theorem endpoints_distinct (ht : t.WellFormed) (hl : l.WellFormed) (hw : l.workspace.IsPlain)
    (hpage : page.IsReadable) (targets : List (List Char)) :
    Endpoints t l page targets (distinct (l.pageKeys (filesOf t l page targets))) where
  mem_iff key := by
    rw [mem_distinct, Layout.pageKeys, List.mem_flatMap]
    simp only [mem_filesOf, Layout.mem_keysOf]
    constructor
    · rintro ⟨file, ⟨target, htarget, hfound⟩, hkey⟩
      exact ⟨target, htarget, file, hfound, hkey⟩
    · rintro ⟨target, htarget, file, hfound, hkey⟩
      exact ⟨file, ⟨target, htarget, hfound⟩, hkey⟩
  nodup := nodup_distinct _
  ordered := pairwise_distinct _
  isPageKey key hkey := by
    rw [mem_distinct, Layout.pageKeys, List.mem_flatMap] at hkey
    obtain ⟨file, hfile, hkey⟩ := hkey
    obtain ⟨target, -, hfound⟩ := mem_filesOf.1 hfile
    obtain ⟨hunder, hkey⟩ := Layout.mem_keysOf.1 hkey
    obtain ⟨hplain, -⟩ := isPlain_of_resolveRelationship ht hl hw hpage hfound
    obtain ⟨init, last, rfl⟩ := below_of_resolveRelationship hfound hunder
    exact isPageKey_of_pageKey hplain hkey

/-- **Nothing is lost and nothing doubled.**  Where the relationships of a page come to a result,
each relation has the keys of the files among the pages that its targets lead to, once each and
in the order in which they are met; every key has names that files can have, below `pages`; and
the targets that are reported are those without a file.  Targets that are written in other ways,
of this page or of another one, give the same result if they meet the same files in the same
order. -/
theorem pageRelationships_endpoints (ht : t.WellFormed) (hl : l.WellFormed)
    (hw : l.workspace.IsPlain) (hpage : page.IsReadable) {rels : Relationships String}
    {last : Session}
    (hrun : (pageRelationships l page text).run.run ⟨t, log⟩ = (.ok rels, last)) :
    ∃ targets, merged text = .ok targets ∧
      (∀ r, Endpoints t l page (targets.get r) (rels.get r)) ∧
      last = ⟨t, log ++ Relation.all.flatMap fun r =>
        (lostTargets t l page (targets.get r)).map (lostRecord page)⟩ ∧
      ∀ page' text' targets' log' rels' last', merged text' = .ok targets' →
        (pageRelationships l page' text').run.run ⟨t, log'⟩ = (.ok rels', last') →
        (∀ r, distinct (filesOf t l page' (targets'.get r)) =
          distinct (filesOf t l page (targets.get r))) →
        rels' = rels := by
  obtain ⟨targets, hmerged, -, hkeys, hlast⟩ := ends_of_eq_ok ends_pageRelationships hrun
  refine ⟨targets, hmerged, fun r => ?_, hlast, ?_⟩
  · rw [hkeys]
    exact endpoints_distinct ht hl hw hpage _
  · intro page' text' targets' log' rels' last' hmerged' hrun' hfiles
    obtain ⟨_, hmerged'', -, hkeys', -⟩ := ends_of_eq_ok ends_pageRelationships hrun'
    obtain rfl := Except.ok.inj (hmerged'.symm.trans hmerged'')
    refine Relationships.ext_get fun r => ?_
    rw [hkeys, hkeys', Layout.distinct_pageKeys_congr (hfiles r)]

/-- Two pages beside each other. -/
def neighbourFiles : FileTree :=
  ⟨[(["t"], .directory), (["t", "pages"], .directory),
    (["t", "pages", "a.tmpl"], .file "a".toUTF8), (["t", "pages", "b.tmpl"], .file "b".toUTF8)]⟩

/-- The one page names the other in three ways, and one that is not there. -/
def neighbourText : List Char :=
  "\x7b# @rel next: b, pages/b.tmpl, c, 'b' #\x7d".toList

/-- The page that is named is a key once, and is one by the shortest of its names as well. -/
theorem pageRelationships_endpoints_neighbour :
    ∃ rels last rels' last',
      (pageRelationships .small ⟨.root, ["t", "pages", "a.tmpl"]⟩ neighbourText).run.run
          ⟨neighbourFiles, []⟩ = (.ok rels, last) ∧
        (pageRelationships .small ⟨.root, ["t", "pages", "a.tmpl"]⟩
          "\x7b# @rel next: b #\x7d".toList).run.run ⟨neighbourFiles, []⟩ = (.ok rels', last') ∧
        (rels.get .next).Nodup ∧ "pages/b.html" ∈ rels.get .next ∧
        last.log = [lostRecord ⟨.root, ["t", "pages", "a.tmpl"]⟩ ['c']] ∧ rels' = rels := by
  have hfiles : neighbourFiles.WellFormed := by
    refine wellFormed_of_entries (by decide) fun e he => ?_
    simp only [neighbourFiles, List.mem_cons, List.not_mem_nil, or_false] at he
    rcases he with rfl | rfl | rfl | rfl <;> exact ⟨by decide, rfl⟩
  have hworkspace : Layout.small.workspace.IsPlain := ⟨rfl, by decide⟩
  have hpage : Path.IsReadable ⟨.root, ["t", "pages", "a.tmpl"]⟩ :=
    Path.IsPlain.isReadable ⟨rfl, by decide⟩
  have hmerged : merged neighbourText =
      .ok ⟨["b".toList, "pages/b.tmpl".toList, "c".toList], [], [], [], []⟩ := by
    decide +kernel
  have hmerged' : merged "\x7b# @rel next: b #\x7d".toList = .ok ⟨["b".toList], [], [], [], []⟩ := by
    decide +kernel
  obtain ⟨rels, last, hrun, hkey⟩ := Ends.exists_ok (show Ends
      (pageRelationships .small ⟨.root, ["t", "pages", "a.tmpl"]⟩ neighbourText)
      ⟨neighbourFiles, []⟩ (fun rels _ => "pages/b.html" ∈ rels.get .next) fun _ _ => False by
    decide +kernel)
  obtain ⟨rels', last', hrun', -⟩ := Ends.exists_ok (show Ends
      (pageRelationships .small ⟨.root, ["t", "pages", "a.tmpl"]⟩
        "\x7b# @rel next: b #\x7d".toList)
      ⟨neighbourFiles, []⟩ (fun _ _ => True) fun _ _ => False by decide +kernel)
  obtain ⟨targets, htargets, hends, hlast, hsame⟩ :=
    pageRelationships_endpoints hfiles Layout.wellFormed_small hworkspace hpage hrun
  obtain rfl := Except.ok.inj (hmerged.symm.trans htargets)
  refine ⟨rels, last, rels', last', hrun, hrun', (hends .next).nodup, hkey, ?_, ?_⟩
  · rw [hlast]
    decide +kernel
  · refine hsame _ _ _ _ _ _ hmerged' hrun' fun r => ?_
    cases r <;> decide +kernel

end Folio
