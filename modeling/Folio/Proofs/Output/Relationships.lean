import Folio.Proofs.Output.Accounts
import Folio.Proofs.Output.Neighbours
import Folio.Proofs.Scan.Agreement
import Folio.Proofs.Text.Distinct
import Folio.Proofs.Text.Finding

/-!
# What relationships lead to

A relationship of a page is recorded as the key of the file that its target leads to.  The
key is that of a page if the file is one: a template, or a page that is copied as it is.

A target with an ending is taken as it stands, so it may lead to a file among the pages
that is no page.  Its path is recorded all the same, and the build makes no such page.  And
a page that is copied keeps its ending as it is written, where the key has it in small
letters.  There is nothing else that a key can be: `keys_of_pageRelationships`.
-/

namespace Folio

open Text FileTree Source

variable {t : FileTree} {l : Layout} {page : Path}

/-! ## Keys of pages -/

/-- The path below the output that the build gives a file among the pages. -/
inductive IsPageOutput (t : FileTree) (l : Layout) : String → Prop
  | rendered {p : Path} (hsource : IsSource t l.pages templateSuffix p) :
      IsPageOutput t l ("pages/" ++ renderedName (p.textBelow l.pages))
  | copied {p : Path} (hsource : IsSource t l.pages outputSuffix p) :
      IsPageOutput t l ("pages/" ++ p.textBelow l.pages)

/-- The key of a page that is copied, with its ending in small letters. -/
def recasedKey (l : Layout) (p : Path) : String :=
  "pages/" ++ String.ofList (dropSuffix outputSuffix (p.textBelow l.pages).toList) ++ outputSuffix

/-- What a file among the pages is recorded as: as a page, as a page whose ending is not
in small letters, or as a file that is no page and has a path that no page gets. -/
inductive RecordedAs (t : FileTree) (l : Layout) (file : Path) (key : String) : Prop
  | page (houtput : IsPageOutput t l key)
  | recased (hsource : IsSource t l.pages outputSuffix file)
      (hwritten : ¬ outputSuffix.toList <:+ file.name.toList)
      (hkey : key = recasedKey l file)
  | other (hending : ∀ suffix ∈ pageSuffixes, ¬ hasSuffix suffix file.name.toList)
      (hnone : ¬ IsPageOutput t l key) (hkey : key = "pages/" ++ file.textBelow l.pages)

/-- A page has the ending of pages. -/
theorem IsPageOutput.hasSuffix {key : String} (h : IsPageOutput t l key) :
    ∃ text, key = "pages/" ++ text ∧ hasSuffix outputSuffix text.toList := by
  cases h with
  | rendered hsource => exact ⟨_, rfl, hasSuffix_renderedName _⟩
  | copied hsource =>
      obtain ⟨names, last, -, hsuffix, rfl⟩ := hsource
      refine ⟨_, rfl, ?_⟩
      rw [Path.textBelow_append (by simp)]
      exact hasSuffix_intercalate names hsuffix

theorem append_pages_injective {a b : String} (h : "pages/" ++ a = "pages/" ++ b) : a = b := by
  rw [← String.toList_inj, String.toList_append, String.toList_append] at h
  exact String.toList_inj.1 (List.append_cancel_left h)

/-- An ending that is written again changes nothing. -/
theorem dropSuffix_append_self {suffix : String} {text : List Char}
    (hwritten : suffix.toList <:+ text) : dropSuffix suffix text ++ suffix.toList = text := by
  obtain ⟨front, rfl⟩ := hwritten
  unfold dropSuffix
  rw [List.length_append, String.length_toList, Nat.add_sub_cancel, List.take_left]

section

variable {names : List String} {last key : String}

/-- A path ends as its last name does. -/
theorem suffix_intercalate_of_suffix {suffix : List Char} (hwritten : suffix <:+ last.toList) :
    suffix <:+ ("/".intercalate (names ++ [last])).toList := by
  rcases intercalate_eq_or names last with h | ⟨front, h⟩
  · rwa [h]
  · rw [h]
    exact (hwritten.trans (List.suffix_cons '/' _)).trans (List.suffix_append front _)

/-- The key of a page that is copied keeps the ending only if it is written as pages have it. -/
theorem recordedAs_of_output (hfile : t.IsFile (l.pages.parts ++ (names ++ [last])))
    (htemplate : hasSuffix templateSuffix ("/".intercalate (names ++ [last])).toList = false)
    (houtput : hasSuffix outputSuffix last.toList)
    (hkey : l.pageKey? ⟨l.pages.anchor, l.pages.parts ++ (names ++ [last])⟩ = some key) :
    RecordedAs t l ⟨l.pages.anchor, l.pages.parts ++ (names ++ [last])⟩ key := by
  have htext : Path.textBelow ⟨l.pages.anchor, l.pages.parts ++ (names ++ [last])⟩ l.pages = _ :=
    Path.textBelow_append (by simp)
  have hsource : IsSource t l.pages outputSuffix
      ⟨l.pages.anchor, l.pages.parts ++ (names ++ [last])⟩ :=
    ⟨names, last, hfile, houtput, rfl⟩
  rw [pageKey_below (by simp),
    withOutputSuffix_of_output htemplate (hasSuffix_intercalate names houtput)] at hkey
  cases hkey
  by_cases hwritten : outputSuffix.toList <:+ last.toList
  · refine .page ?_
    rw [dropSuffix_append_self (suffix_intercalate_of_suffix hwritten), String.ofList_toList,
      ← htext]
    exact .copied hsource
  · refine .recased hsource (by rwa [Path.name_append]) ?_
    unfold recasedKey
    rw [htext, String.ofList_append, String.ofList_toList, String.append_assoc]

/-- A file with an ending that no page has is recorded by its path, and no page has that. -/
theorem recordedAs_of_other
    (hending : ∀ suffix ∈ pageSuffixes, ¬ hasSuffix suffix last.toList)
    (hwhole : ∀ suffix ∈ pageSuffixes,
      hasSuffix suffix ("/".intercalate (names ++ [last])).toList = false)
    (hkey : l.pageKey? ⟨l.pages.anchor, l.pages.parts ++ (names ++ [last])⟩ = some key) :
    RecordedAs t l ⟨l.pages.anchor, l.pages.parts ++ (names ++ [last])⟩ key := by
  rw [pageKey_below (by simp), withOutputSuffix_of_other hwhole, String.ofList_toList] at hkey
  cases hkey
  refine .other (by rwa [Path.name_append]) (fun hpage => ?_)
    (by rw [Path.textBelow_append (by simp)])
  obtain ⟨text, hsame, hpage⟩ := hpage.hasSuffix
  rw [← append_pages_injective hsame, hwhole outputSuffix (by decide)] at hpage
  cases hpage

/-- The key of a file among the pages, by its ending. -/
theorem recordedAs_of_pageKey (hfile : t.IsFile (l.pages.parts ++ (names ++ [last])))
    (hkey : l.pageKey? ⟨l.pages.anchor, l.pages.parts ++ (names ++ [last])⟩ = some key) :
    RecordedAs t l ⟨l.pages.anchor, l.pages.parts ++ (names ++ [last])⟩ key := by
  have hwhole : ∀ {suffix : String}, '/' ∉ suffix.toList → ¬ hasSuffix suffix last.toList →
      hasSuffix suffix ("/".intercalate (names ++ [last])).toList = false := fun hslash hnot =>
    Bool.eq_false_iff.2 fun h => hnot (hasSuffix_of_intercalate hslash h)
  by_cases htemplate : hasSuffix templateSuffix last.toList = true
  · rw [pageKey_eq htemplate] at hkey
    cases hkey
    exact .page (.rendered ⟨names, last, hfile, htemplate, rfl⟩)
  have hnoTemplate := hwhole (by decide) htemplate
  by_cases houtput : hasSuffix outputSuffix last.toList = true
  · exact recordedAs_of_output hfile hnoTemplate houtput hkey
  · have hnoOutput := hwhole (by decide) houtput
    exact recordedAs_of_other
      (List.forall_mem_cons.2 ⟨htemplate, List.forall_mem_singleton.2 houtput⟩)
      (List.forall_mem_cons.2 ⟨hnoTemplate, List.forall_mem_singleton.2 hnoOutput⟩) hkey

end

/-! ## Files that targets lead to -/

/-- A target does not lead to the directory of the pages: the last name of what it leads to
has an ending. -/
theorem name_ne_of_withKnownSuffix {base file : Path} (hbase : base.IsCanonical)
    (hfound : withKnownSuffix t base = .ok (some file)) :
    file.name ≠ RootKind.page.directory := by
  unfold withKnownSuffix at hfound
  split at hfound
  · split at hfound
    · cases hfound
    · -- The target has no ending, and is completed by one that a page can have.
      rename_i hempty
      have hne : base.name ≠ "" := by simpa using hempty
      obtain ⟨c, hc, hresolved, -⟩ := mem_of_firstFile hfound
      obtain ⟨suffix, hsuffix, hcompleted⟩ := List.mem_filterMap.1 hc
      have hcanonical := isCanonical_withSuffix hbase hne hsuffix
      unfold Path.withName? at hcompleted
      rw [if_neg hempty, hbase.anchor_eq] at hcompleted
      cases hcompleted
      rw [hcanonical.resolved_eq] at hresolved
      cases hresolved
      have hname : Path.name ⟨.root, base.parts.dropLast ++ [base.name ++ suffix]⟩ =
          base.name ++ suffix := by simp [Path.name]
      rw [hname]
      intro hsame
      have hending : suffix.toList <:+ RootKind.page.directory.toList := by
        rw [← hsame, String.toList_append]
        exact List.suffix_append ..
      revert hending
      have hnone : ∀ suffix ∈ pageSuffixes,
          ¬ suffix.toList <:+ RootKind.page.directory.toList := by decide
      exact hnone suffix hsuffix
  · -- The target has an ending of its own.
    rename_i hsuffix
    obtain ⟨c, hc, hresolved, -⟩ := mem_of_firstFile hfound
    obtain rfl := List.mem_singleton.1 hc
    rw [hbase.resolved_eq] at hresolved
    cases hresolved
    intro hname
    refine hsuffix ?_
    unfold Path.suffix
    rw [hname]
    decide

theorem firstFile_of_withKnownSuffix {base file : Path}
    (hfound : withKnownSuffix t base = .ok (some file)) :
    ∃ paths, firstFile t paths = .ok (some file) := by
  unfold withKnownSuffix at hfound
  split at hfound
  · split at hfound
    · cases hfound
    · exact ⟨_, hfound⟩
  · exact ⟨_, hfound⟩

/-- What a target leads to is probed for from some canonical path. -/
theorem withKnownSuffix_of_resolveRelationship {target : List Char} {file : Path}
    (hfound : resolveRelationship t l page target = .ok (some file)) :
    ∃ base : Path, base.IsCanonical ∧ withKnownSuffix t base = .ok (some file) := by
  unfold resolveRelationship at hfound
  dsimp only at hfound
  split at hfound
  · cases hfound
  · split at hfound
    · cases hfound
    · rename_i base _
      cases hresolved : base.resolved with
      | error e =>
          rw [hresolved] at hfound
          cases hfound
      | ok q =>
          rw [hresolved] at hfound
          exact ⟨q, Path.isCanonical_of_resolved hresolved, hfound⟩

/-- What a target leads to among the pages has names below them, since it is not their
directory. -/
theorem below_of_resolveRelationship {target : List Char} {file : Path}
    (hfound : resolveRelationship t l page target = .ok (some file))
    (hpage : Path.isUnder l.pages file) :
    ∃ init last, file = ⟨l.pages.anchor, l.pages.parts ++ (init ++ [last])⟩ := by
  obtain ⟨base, hbase, hprobed⟩ := withKnownSuffix_of_resolveRelationship hfound
  obtain ⟨hanchor, names, hparts⟩ := Path.isUnder_iff.1 hpage
  have hne : names ≠ [] := by
    rintro rfl
    refine name_ne_of_withKnownSuffix hbase hprobed ?_
    rw [List.append_nil, Layout.pages, Layout.parts_rootOf] at hparts
    unfold Path.name
    rw [← hparts, List.getLast?_concat]
    rfl
  obtain ⟨init, last, rfl⟩ := List.eq_nil_or_concat names |>.resolve_left hne
  rw [List.concat_eq_append] at hparts
  obtain ⟨anchor, parts⟩ := file
  exact ⟨init, last, congrArg₂ Path.mk hanchor hparts.symm⟩

/-- What a target leads to is a file, and is recorded as one of three things if it lies
among the pages. -/
theorem recordedAs_of_resolveRelationship {target : List Char} {file : Path} {key : String}
    (hfound : resolveRelationship t l page target = .ok (some file))
    (hpage : l.kindOf file = some .page) (hkey : l.pageKey? file = some key) :
    t.IsFile file.parts ∧ RecordedAs t l file key := by
  obtain ⟨base, -, hprobed⟩ := withKnownSuffix_of_resolveRelationship hfound
  obtain ⟨paths, hfirst⟩ := firstFile_of_withKnownSuffix hprobed
  obtain ⟨-, -, -, hisFile⟩ := mem_of_firstFile hfirst
  have hcanonical := isCanonical_of_firstFile hfirst
  have hfile : t.IsFile file.parts := by
    have hstands := hasFile_of_isFile hisFile
    unfold hasFile at hstands
    split at hstands
    · rename_i content hstat
      exact ⟨content, stat_eq_ok hcanonical hstat⟩
    · cases hstands
  obtain ⟨init, last, rfl⟩ :=
    below_of_resolveRelationship hfound (Layout.kindOf_eq_some_iff.1 hpage)
  exact ⟨hfile, recordedAs_of_pageKey hfile hkey⟩

/-! ## Relationships of a page -/

/-- A target of a relationship leads to a file that is recorded under a key. -/
structure LeadsToKey (t : FileTree) (l : Layout) (page : Path) (target : List Char) (file : Path)
    (key : String) : Prop where
  found : resolveRelationship t l page target = .ok (some file)
  kind : l.kindOf file = some .page
  isFile : t.IsFile file.parts
  recorded : RecordedAs t l file key

/-- Each of some keys comes from one of the targets. -/
def KeysOf (t : FileTree) (l : Layout) (page : Path) (targets : List (List Char))
    (keys : List String) : Prop :=
  ∀ key ∈ keys, ∃ target ∈ targets, ∃ file, LeadsToKey t l page target file key

theorem KeysOf.of_rest {first : List Char} {rest : List (List Char)} {keys : List String}
    (h : KeysOf t l page rest keys) : KeysOf t l page (first :: rest) keys := by
  intro key hkey
  obtain ⟨target, hmem, hleads⟩ := h key hkey
  exact ⟨target, List.mem_cons_of_mem _ hmem, hleads⟩

theorem resolveTargets_keysOf {targets : List (List Char)} {log : List Record} :
    Ends (resolveTargets l page targets) ⟨t, log⟩
      (fun keys s => s.files = t ∧ KeysOf t l page targets keys) fun _ _ => True := by
  induction targets generalizing log with
  | nil => exact ends_pure.2 ⟨rfl, fun key hkey => absurd hkey List.not_mem_nil⟩
  | cons first rest ih =>
      unfold resolveTargets
      simp only [ends_bind, Action.ends_files, Action.ends_orRaise]
      cases hfound : resolveRelationship t l page first with
      | error cause => trivial
      | ok found =>
          cases found with
          | none =>
              simp only [ends_bind, Action.ends_warn]
              exact ih.mono (fun _ _ h => ⟨h.1, h.2.of_rest⟩) fun _ _ => id
          | some file =>
              dsimp only
              rw [ends_bind]
              refine ih.mono (fun keys s h => ends_pure.2 ⟨h.1, fun key hkey => ?_⟩) fun _ _ => id
              rcases List.mem_append.1 hkey with hfirst | hrest
              · refine ⟨first, List.mem_cons_self .., file, ?_⟩
                split at hfirst
                · rename_i hpage
                  have hsome := Option.mem_toList.1 hfirst
                  obtain ⟨hfile, hrecorded⟩ := recordedAs_of_resolveRelationship hfound hpage hsome
                  exact ⟨hfound, hpage, hfile, hrecorded⟩
                · cases hfirst
              · exact h.2.of_rest key hrest

/-- Going on after the targets of a relation, in the same files. -/
theorem ends_resolveRelation {targets : List (List Char)} {log : List Record}
    {k : List String → Action (Relationships String)}
    {Q : Relationships String → Session → Prop}
    (hk : ∀ keys log', KeysOf t l page targets keys → Ends (k keys) ⟨t, log'⟩ Q fun _ _ => True) :
    Ends ((do return distinct (← resolveTargets l page targets)) >>= k) ⟨t, log⟩ Q
      fun _ _ => True := by
  rw [ends_bind, ends_bind]
  refine resolveTargets_keysOf.mono (fun keys s h => ends_pure.2 ?_) fun _ _ => id
  obtain ⟨files, log'⟩ := s
  obtain ⟨rfl, hkeys⟩ := h
  exact hk _ _ fun key hkey => hkeys key (mem_distinct.1 hkey)

/-- The keys of a page come from its targets, relation by relation. -/
theorem keysOf_of_pageRelationships {text : List Char} {relationships : Relationships String}
    (houtcome : (pageRelationships l page text).outcome t = .ok relationships) :
    ∃ targets, merged text = .ok targets ∧
      ∀ r, KeysOf t l page (targets.get r) (relationships.get r) := by
  have hends : Ends (pageRelationships l page text) ⟨t, []⟩
      (fun relationships _ => ∃ targets, merged text = .ok targets ∧
        ∀ r, KeysOf t l page (targets.get r) (relationships.get r)) fun _ _ => True := by
    unfold pageRelationships
    rw [ends_bind]
    simp only [Action.ends_orRaise]
    cases hmerged : merged text with
    | error e => trivial
    | ok targets =>
        simp only [Except.mapError]
        refine ends_resolveRelation fun next _ hnext => ends_resolveRelation fun prev _ hprev => ?_
        refine ends_resolveRelation fun parent _ hparent => ?_
        refine ends_resolveRelation fun children _ hchildren => ?_
        refine ends_resolveRelation fun related _ hrelated => ends_pure.2 ⟨targets, rfl, ?_⟩
        intro r
        cases r with
        | next => exact hnext
        | prev => exact hprev
        | parent => exact hparent
        | children => exact hchildren
        | related => exact hrelated
  exact ends_of_eq_ok hends (Prod.ext houtcome rfl)

/-- A name that the build gives its own output: that of a template, or of a page with its
ending in small letters. -/
def IsPageName (name : String) : Prop :=
  hasSuffix templateSuffix name.toList ∨ outputSuffix.toList <:+ name.toList

/-- A key is the output of a page if the file is called as one. -/
theorem LeadsToKey.isPageOutput {target : List Char} {file : Path} {key : String}
    (h : LeadsToKey t l page target file key) (hname : IsPageName file.name) :
    IsPageOutput t l key := by
  cases h.recorded with
  | page houtput => exact houtput
  | recased hsource hwritten =>
      -- The ending of a page to be copied is not that of a template.
      obtain ⟨names, last, -, hsuffix, hfile⟩ := hsource
      have hlast : file.name = last := by
        rw [hfile]
        exact Path.name_append
      refine absurd hname fun hname => hname.elim (fun htemplate => ?_) hwritten
      rw [hlast] at htemplate
      have hsame := eq_of_hasSuffix htemplate hsuffix (by decide)
      exact absurd hsame (by decide)
  | other hending =>
      exact absurd hname fun hname => hname.elim (hending _ (by decide)) fun hwritten =>
        hending outputSuffix (by decide) (hasSuffix_of_suffix hwritten)

/-- **The keys of relationships are those of files among the pages.**  Each comes from a
target of its relation that leads to such a file.  It is the output of a page unless the
file has an ending that no page has, in which case no page has that output, or it is a
page to be copied whose ending is not in small letters.  So if the targets lead to no such
files, every key is the output of a page. -/
theorem keys_of_pageRelationships {text : List Char} {relationships : Relationships String}
    (houtcome : (pageRelationships l page text).outcome t = .ok relationships) :
    ∃ targets, merged text = .ok targets ∧
      (∀ r, ∀ key ∈ relationships.get r,
        ∃ target ∈ targets.get r, ∃ file, LeadsToKey t l page target file key) ∧
      ((∀ r, ∀ target ∈ targets.get r, ∀ file,
          resolveRelationship t l page target = .ok (some file) → l.kindOf file = some .page →
          IsPageName file.name) →
        ∀ r, ∀ key ∈ relationships.get r, IsPageOutput t l key) := by
  obtain ⟨targets, hmerged, hleads⟩ := keysOf_of_pageRelationships houtcome
  refine ⟨targets, hmerged, hleads, fun hnames r key hkey => ?_⟩
  obtain ⟨target, htarget, file, hfile⟩ := hleads r key hkey
  exact hfile.isPageOutput (hnames r target htarget file hfile.found hfile.kind)

/-- A page beside a file that is no page. -/
def dataFiles : FileTree :=
  ⟨[(["t"], .directory), (["t", "pages"], .directory),
    (["t", "pages", "a.tmpl"], .file "a".toUTF8),
    (["t", "pages", "data.json"], .file "[]".toUTF8)]⟩

/-- The text of the page, which names the file as the next page. -/
def dataText : List Char :=
  "\x7b# @rel next: data.json #\x7d".toList

/-- The file is recorded as the next page, and there is no such page. -/
theorem keys_of_pageRelationships_data :
    ∃ relationships, (pageRelationships Layout.small ⟨.root, ["t", "pages", "a.tmpl"]⟩
        dataText).outcome dataFiles = .ok relationships ∧
      ∃ key ∈ relationships.get .next, ∃ target file,
        LeadsToKey dataFiles Layout.small ⟨.root, ["t", "pages", "a.tmpl"]⟩ target file key ∧
        ¬ IsPageOutput dataFiles Layout.small key := by
  have houtcome : (pageRelationships Layout.small ⟨.root, ["t", "pages", "a.tmpl"]⟩
      dataText).outcome dataFiles = .ok ⟨["pages/data.json"], [], [], [], []⟩ := by
    decide +kernel
  obtain ⟨targets, -, hleads, -⟩ := keys_of_pageRelationships houtcome
  obtain ⟨target, -, file, hfile⟩ := hleads .next "pages/data.json" (List.mem_cons_self ..)
  refine ⟨_, houtcome, "pages/data.json", List.mem_cons_self .., target, file, hfile, ?_⟩
  intro hpage
  obtain ⟨text, hsame, hsuffix⟩ := hpage.hasSuffix
  rw [← append_pages_injective (show "pages/" ++ "data.json" = "pages/" ++ text from hsame)]
    at hsuffix
  revert hsuffix
  decide

end Folio
