import Folio.Metadata
import Folio.Proofs.FileTree.Making
import Folio.Proofs.Output.Templates
import Folio.Proofs.Session.Parallel

/-!
# Relationships in two trees

Whether a path leads to a file, or to nothing, is all that a build asks of places that
are not among its templates.  In a tree that holds together the answer is what stands
at the place, unless a name on the way is too long: that is a failure, and it is met
only in a directory.  So two trees that are `Matched`, with the same directories, fail
alike at every path, and give the same answer at a place where they agree.  If it may be
set aside that a name is too long, nothing needs to be said about directories.

A target of a relationship may be looked for anywhere in the workspace, in the output of
this space and of others as well.  What is found there is no page of the space and gives
no key, just as if nothing had been found.  So the keys of a page depend on its templates
alone, unless a name is too long.

The two paths that are tried for a target without an ending lie beside each other and are
too long together (`locate_tooLong_sibling`), so it does not matter which is found.
-/

namespace Folio

open Text FileTree Folio.Action

variable {lost : Lost Failure} {t t' : FileTree} {l : Layout} {page p q : Path}

/-! ## Probing -/

/-- The failure of a name that is too long. -/
def tooLong : Failure :=
  .raised (.file .nameTooLong)

/-- Two trees with the same directories, unless too long names are set aside. -/
def Matched (lost : Lost Failure) (t t' : FileTree) : Prop :=
  (∀ q, t.entry? q = some .directory ↔ t'.entry? q = some .directory) ∨
    lost.left tooLong ∧ lost.right tooLong

namespace Matched

theorem locate_tooLong_iff
    (h : ∀ q, t.entry? q = some .directory ↔ t'.entry? q = some .directory) (hp : p.IsCanonical) :
    t.locate p = .error .nameTooLong ↔ t'.locate p = .error .nameTooLong :=
  ⟨locate_tooLong_of hp.not_mem fun q _ _ => (h q).1,
    locate_tooLong_of hp.not_mem fun q _ _ => (h q).2⟩

theorem probe_alike (h : Matched lost t t') (ht : t.WellFormed) (ht' : t'.WellFormed)
    (hp : p.IsCanonical) (hsame : t.entry? p.parts = t'.entry? p.parts) :
    Alike lost.ofFaults (t.probe p) (t'.probe p) := by
  rcases h with hdirectories | ⟨hleft, hright⟩
  · have htooLong := locate_tooLong_iff hdirectories hp
    rw [← probe_eq_tooLong_iff, ← probe_eq_tooLong_iff] at htooLong
    refine .of_eq ?_
    rcases ht.probe_eq hp with hfirst | hfirst
    · rcases ht'.probe_eq hp with hsecond | hsecond
      · rw [hfirst, hsecond, hsame]
      · rw [htooLong.2 hsecond, hsecond]
    · rw [hfirst, htooLong.1 hfirst]
  · rcases ht.probe_eq hp with hfirst | hfirst
    · rcases ht'.probe_eq hp with hsecond | hsecond
      · exact .of_eq (by rw [hfirst, hsecond, hsame])
      · rw [hsecond]
        exact .right hright
    · rw [hfirst]
      exact .left hleft

theorem isFile_alike (h : Matched lost t t') (ht : t.WellFormed) (ht' : t'.WellFormed)
    (hp : p.IsCanonical) (hsame : t.entry? p.parts = t'.entry? p.parts) :
    Alike lost.ofFaults (t.isFile p) (t'.isFile p) :=
  (h.probe_alike ht ht' hp hsame).map

theorem isDirectory_alike (h : Matched lost t t') (ht : t.WellFormed) (ht' : t'.WellFormed)
    (hp : p.IsCanonical) (hsame : t.entry? p.parts = t'.entry? p.parts) :
    Alike lost.ofFaults (t.isDirectory p) (t'.isDirectory p) :=
  (h.probe_alike ht ht' hp hsame).map

/-- The first file among paths at whose places the trees agree. -/
theorem firstFile_alike (h : Matched lost t t') (ht : t.WellFormed) (ht' : t'.WellFormed)
    {paths : List Path} (hsame : ∀ c ∈ paths, ∀ q, c.resolved = .ok q →
      t.entry? q.parts = t'.entry? q.parts) :
    Alike lost.ofCauses (firstFile t paths) (firstFile t' paths) := by
  induction paths with
  | nil => exact .same _
  | cons c rest ih =>
      obtain ⟨hfirst, hrest⟩ := List.forall_mem_cons.1 hsame
      unfold firstFile
      cases hc : c.resolved with
      | error e => exact .same _
      | ok q =>
          simp only [Except.mapError, bind, Except.bind]
          refine (h.isFile_alike ht ht' (Path.isCanonical_of_resolved hc)
            (hfirst q hc)).mapError.bind fun found _ _ => ?_
          cases found with
          | true => exact .same _
          | false => exact ih hrest

/-- The same templates are listed. -/
theorem filesIn_alike (h : Matched lost t t') (ht : t.WellFormed) (ht' : t'.WellFormed)
    (hsource : ∀ q, l.templates.parts <+: q → t.entry? q = t'.entry? q) {kind : RootKind}
    (hroot : (l.rootOf kind).IsCanonical) (suffix : String) :
    Alike lost.ofCauses (filesIn t (l.rootOf kind) [suffix])
      (filesIn t' (l.rootOf kind) [suffix]) := by
  have hcovers : l.Covers (l.rootOf kind) := by
    refine ⟨hroot.not_mem, ?_⟩
    rw [Layout.parts_rootOf]
    exact List.prefix_append ..
  unfold filesIn
  refine (h.isDirectory_alike ht ht' hroot (hsource _ hcovers.isPrefix)).mapError.bind
    fun there hthere hthere' => ?_
  cases there with
  | false => exact .same _
  | true =>
      have hfirst : t.isDirectory (l.rootOf kind) = .ok true := by
        cases hthere : t.isDirectory (l.rootOf kind) <;> simp_all [Except.mapError]
      have hsecond : t'.isDirectory (l.rootOf kind) = .ok true := by
        cases hthere' : t'.isDirectory (l.rootOf kind) <;> simp_all [Except.mapError]
      exact .of_eq (congrArg Except.ok
        (filesWithSuffix_eq ht ht' hcovers suffix hsource hfirst hsecond))

end Matched

/-! ## What is found -/

namespace Layout

/-- The keys that a target gives, whether it is found or not. -/
def keysOf (l : Layout) : Option Path → List String
  | none => []
  | some found => (if l.kindOf found = some .page then l.pageKey? found else none).toList

theorem keysOf_of_ne (hp : l.kindOf p ≠ some .page) : l.keysOf (some p) = [] := by
  show (if l.kindOf p = some .page then l.pageKey? p else none).toList = []
  rw [if_neg hp]
  rfl

end Layout

/-- Where no page can be found and no name is too long, there are no keys. -/
theorem map_keysOf_firstFile {paths : List Path}
    (hpaths : ∀ c ∈ paths, c.IsCanonical ∧ l.kindOf c ≠ some .page ∧
      t.locate c ≠ .error .nameTooLong) :
    (firstFile t paths).map l.keysOf = .ok [] := by
  induction paths with
  | nil => rfl
  | cons c rest ih =>
      obtain ⟨⟨hcanonical, hkind, hshort⟩, hrest⟩ := List.forall_mem_cons.1 hpaths
      unfold firstFile
      rw [hcanonical.resolved_eq]
      simp only [Except.mapError, bind, Except.bind]
      have hfile : ∃ found, t.isFile c = .ok found := by
        rw [ne_eq, ← probe_eq_tooLong_iff] at hshort
        unfold isFile
        cases hprobe : t.probe c with
        | ok entry => exact ⟨_, rfl⟩
        | error fault =>
            unfold probe at hprobe hshort
            cases hstat : t.stat c with
            | ok entry => rw [hstat] at hprobe; cases hprobe
            | error fault =>
                rw [hstat] at hprobe hshort
                cases fault <;> simp_all
      obtain ⟨found, hfound⟩ := hfile
      rw [hfound]
      cases found with
      | true => exact congrArg Except.ok (Layout.keysOf_of_ne hkind)
      | false => exact ih hrest

theorem firstFile_of_tooLong {paths : List Path} (hp : p.IsCanonical)
    (hlong : t.locate p = .error .nameTooLong) :
    firstFile t (p :: paths) = .error (.file .nameTooLong) := by
  unfold firstFile
  rw [hp.resolved_eq]
  simp only [Except.mapError, bind, Except.bind, isFile, probe_eq_tooLong_iff.2 hlong]
  rfl

/-- Paths that are too long together, none of which is a page. -/
theorem firstFile_keys_alike (h : Matched lost t t') {paths : List Path}
    (hpaths : ∀ c ∈ p :: paths, c.IsCanonical ∧ l.kindOf c ≠ some .page ∧
      ∀ u : FileTree, u.locate c = .error .nameTooLong → u.locate p = .error .nameTooLong) :
    Alike lost.ofCauses ((firstFile t (p :: paths)).map l.keysOf)
      ((firstFile t' (p :: paths)).map l.keysOf) := by
  have hp := (hpaths p (List.mem_cons_self ..)).1
  have hshort : ∀ u : FileTree, u.locate p ≠ .error .nameTooLong →
      (firstFile u (p :: paths)).map l.keysOf = .ok [] := fun u hu =>
    map_keysOf_firstFile fun c hc =>
      ⟨(hpaths c hc).1, (hpaths c hc).2.1, fun hlong => hu ((hpaths c hc).2.2 u hlong)⟩
  by_cases hfirst : t.locate p = .error .nameTooLong
  · by_cases hsecond : t'.locate p = .error .nameTooLong
    · rw [firstFile_of_tooLong hp hfirst, firstFile_of_tooLong hp hsecond]
      exact .same _
    · rcases h with hdirectories | ⟨hleft, -⟩
      · exact absurd ((Matched.locate_tooLong_iff hdirectories hp).1 hfirst) hsecond
      · rw [firstFile_of_tooLong hp hfirst]
        exact .left hleft
  · by_cases hsecond : t'.locate p = .error .nameTooLong
    · rcases h with hdirectories | ⟨-, hright⟩
      · exact absurd ((Matched.locate_tooLong_iff hdirectories hp).2 hsecond) hfirst
      · rw [firstFile_of_tooLong hp hsecond]
        exact .right hright
    · rw [hshort t hfirst, hshort t' hsecond]
      exact .same _

/-! ## Targets -/

theorem name_of_ne_empty (hname : p.name ≠ "") : p.parts = p.parts.dropLast ++ [p.name] := by
  unfold Path.name at hname ⊢
  rcases List.eq_nil_or_concat p.parts with hnil | ⟨front, last, hparts⟩
  · rw [hnil] at hname
    exact absurd rfl hname
  · rw [List.concat_eq_append] at hparts
    rw [hparts, List.dropLast_concat, List.getLast?_concat]
    rfl

/-- A path stays canonical when its last name gets an ending. -/
theorem isCanonical_withSuffix (hp : p.IsCanonical) (hname : p.name ≠ "") {suffix : String}
    (hsuffix : suffix ∈ pageSuffixes) :
    Path.IsCanonical ⟨.root, p.parts.dropLast ++ [p.name ++ suffix]⟩ := by
  have hlength : suffix.toList.length = 5 := by
    rcases List.mem_cons.1 hsuffix with rfl | h
    · decide
    · obtain rfl := List.mem_singleton.1 h
      decide
  have hclean : '\x00' ∉ suffix.toList := by
    rcases List.mem_cons.1 hsuffix with rfl | h
    · decide
    · obtain rfl := List.mem_singleton.1 h
      decide
  have hmem : p.name ∈ p.parts := by
    have hlast := List.mem_append_right p.parts.dropLast (List.mem_singleton_self p.name)
    rwa [← name_of_ne_empty hname] at hlast
  refine ⟨rfl, fun hup => ?_, fun name hmem' => ?_⟩
  · rcases List.mem_append.1 hup with h | h
    · exact hp.not_mem (List.dropLast_subset _ h)
    · have hdots := congrArg (fun s : String => s.toList.length) (List.mem_singleton.1 h)
      simp only [String.toList_append, List.length_append, hlength] at hdots
      have htwo : "..".toList.length = 2 := by decide
      omega
  · rcases List.mem_append.1 hmem' with h | h
    · exact hp.usable name (List.dropLast_subset _ h)
    · obtain rfl := List.mem_singleton.1 h
      have husable := hp.usable _ hmem
      unfold Path.isUsable at husable ⊢
      simp only [Bool.not_eq_true', List.contains_eq_mem, decide_eq_false_iff_not,
        String.toList_append, List.mem_append] at husable ⊢
      exact fun h => h.elim husable hclean

/-- A path with an ending is a page only where its siblings lie among the templates. -/
theorem templates_isPrefix_of_page {front : List String} {last : String}
    (hpage : l.kindOf ⟨.root, front ++ [last]⟩ = some .page) : l.templates.parts <+: front := by
  have hstarts := (Path.isUnder_iff.1 (Layout.kindOf_eq_some_iff.1 hpage)).2
  rw [Layout.parts_rootOf] at hstarts
  rcases List.prefix_concat_iff.1 hstarts with h | h
  · rw [(List.append_inj' h rfl).1]
  · exact (List.prefix_append ..).trans h

theorem withKnownSuffix_alike (h : Matched lost t t') (ht : t.WellFormed) (ht' : t'.WellFormed)
    (hsource : ∀ q, l.templates.parts <+: q → t.entry? q = t'.entry? q) (hp : p.IsCanonical) :
    Alike lost.ofCauses ((withKnownSuffix t p).map l.keysOf)
      ((withKnownSuffix t' p).map l.keysOf) := by
  -- Among the templates the trees agree; elsewhere no page is found.
  unfold withKnownSuffix
  split
  · split
    · exact .same _
    · rename_i hname
      have hne : p.name ≠ "" := by simpa using hname
      have hcandidates : (pageSuffixes.filterMap fun suffix => p.withName? (p.name ++ suffix)) =
          [⟨.root, p.parts.dropLast ++ [p.name ++ templateSuffix]⟩,
            ⟨.root, p.parts.dropLast ++ [p.name ++ outputSuffix]⟩] := by
        unfold pageSuffixes Path.withName?
        simp [hname, hp.anchor_eq]
      have htemplate := isCanonical_withSuffix hp hne (List.mem_cons_self ..)
      have houtput := isCanonical_withSuffix hp hne
        (List.mem_cons_of_mem templateSuffix (List.mem_singleton.2 rfl))
      rw [hcandidates]
      by_cases hinside : l.templates.parts <+: p.parts.dropLast
      · refine (h.firstFile_alike ht ht' fun c hc q hq => hsource _ ?_).map
        rcases List.mem_cons.1 hc with rfl | hc
        · rw [htemplate.resolved_eq] at hq
          cases hq
          exact hinside.trans (List.prefix_append ..)
        · obtain rfl := List.mem_singleton.1 hc
          rw [houtput.resolved_eq] at hq
          cases hq
          exact hinside.trans (List.prefix_append ..)
      · refine firstFile_keys_alike h fun c hc => ?_
        rcases List.mem_cons.1 hc with rfl | hc
        · exact ⟨htemplate, fun hpage => hinside (templates_isPrefix_of_page hpage), fun _ => id⟩
        · obtain rfl := List.mem_singleton.1 hc
          refine ⟨houtput, fun hpage => hinside (templates_isPrefix_of_page hpage), fun u => ?_⟩
          refine locate_tooLong_sibling houtput htemplate ?_
          rw [String.utf8ByteSize_append, String.utf8ByteSize_append]
          rfl
  · by_cases hpage : l.kindOf p = some .page
    · have hstarts := (Path.isUnder_iff.1 (Layout.kindOf_eq_some_iff.1 hpage)).2
      rw [Layout.parts_rootOf] at hstarts
      refine (h.firstFile_alike ht ht' fun c hc q hq => hsource _ ?_).map
      obtain rfl := List.mem_singleton.1 hc
      rw [hp.resolved_eq] at hq
      cases hq
      exact (List.prefix_append ..).trans hstarts
    · refine firstFile_keys_alike h fun c hc => ?_
      obtain rfl := List.mem_singleton.1 hc
      exact ⟨hp, hpage, fun _ => id⟩

theorem resolveRelationship_alike (h : Matched lost t t') (ht : t.WellFormed)
    (ht' : t'.WellFormed) (hsource : ∀ q, l.templates.parts <+: q → t.entry? q = t'.entry? q)
    (page : Path) (target : List Char) :
    Alike lost.ofCauses ((resolveRelationship t l page target).map l.keysOf)
      ((resolveRelationship t' l page target).map l.keysOf) := by
  unfold resolveRelationship
  dsimp only
  split
  · exact .same _
  · split
    · exact .same _
    · rename_i base _
      cases hbase : base.resolved with
      | error e => exact .same _
      | ok q =>
          simp only [Except.mapError, bind, Except.bind]
          exact withKnownSuffix_alike h ht ht' hsource (Path.isCanonical_of_resolved hbase)

/-! ## Pages -/

section

variable {R : FileTree → FileTree → Prop}

/-- Values that differ only in what does not matter later on. -/
theorem together_orRaise_bind {α β γ : Type} {f : α → γ} {r r' : Except Cause α}
    (h : Alike lost.ofCauses (r.map f) (r'.map f)) {k : α → Action β}
    (hk : ∀ v v', f v = f v' → Together lost (OnFiles R) (k v) (k v')) :
    Together lost (OnFiles R) (orRaise r >>= k) (orRaise r' >>= k) := by
  intro s s' hs
  generalize hx : r.map f = x at h
  generalize hy : r'.map f = y at h
  cases h with
  | same =>
      rw [← hy] at hx
      cases r with
      | ok v =>
          cases r' with
          | ok v' => exact hk v v' (Except.ok.inj hx) s s' hs
          | error e' => cases hx
      | error e =>
          cases r' with
          | ok v' => cases hx
          | error e' =>
              obtain rfl := Except.error.inj hx
              exact .error rfl rfl hs
  | left hlost =>
      cases r with
      | ok v => cases hx
      | error e =>
          obtain rfl := Except.error.inj hx
          exact .left hlost rfl
  | right hlost =>
      cases r' with
      | ok v' => cases hy
      | error e' =>
          obtain rfl := Except.error.inj hy
          exact .right hlost rfl

/-- A report of one action alone. -/
theorem Together.warn_left {α : Type} {a b : Action α}
    (h : Together lost (OnFiles R) a b) (topic message : String) :
    Together lost (OnFiles R) (do warn topic message; a) b :=
  fun s s' hs => (h ⟨s.files, s.log ++ [⟨.warning, topic, message⟩]⟩ s' hs).of_run rfl rfl

theorem Together.warn_right {α : Type} {a b : Action α}
    (h : Together lost (OnFiles R) a b) (topic message : String) :
    Together lost (OnFiles R) a (do warn topic message; b) :=
  fun s s' hs => (h s ⟨s'.files, s'.log ++ [⟨.warning, topic, message⟩]⟩ hs).of_run rfl rfl

/-- The relationships of a page come to the same keys. -/
theorem together_resolveTargets
    (hR : ∀ t t', R t t' → ∀ target, Alike lost.ofCauses
      ((resolveRelationship t l page target).map l.keysOf)
      ((resolveRelationship t' l page target).map l.keysOf)) (targets : List (List Char)) :
    Together lost (OnFiles R) (resolveTargets l page targets) (resolveTargets l page targets) := by
  induction targets with
  | nil => exact together_pure _
  | cons target rest ih =>
      unfold resolveTargets
      refine together_files_bind fun t t' h => ?_
      refine together_orRaise_bind (hR t t' h target) fun found found' hkeys => ?_
      have hnone : (do return [] ++ (← resolveTargets l page rest)) =
          resolveTargets l page rest := bind_pure _
      have hboth : ∀ keys : List String, Together lost (OnFiles R)
          (do return keys ++ (← resolveTargets l page rest))
          (do return keys ++ (← resolveTargets l page rest)) := fun _ =>
        ih.bind fun _ => together_pure _
      cases found with
      | none =>
          cases found' with
          | none => exact (together_warn _ _).bind fun _ => ih
          | some q =>
              show Together lost (OnFiles R) _ (do
                return l.keysOf (some q) ++ (← resolveTargets l page rest))
              rw [← hkeys, show l.keysOf none = [] from rfl, hnone]
              exact ih.warn_left _ _
      | some p =>
          cases found' with
          | none =>
              show Together lost (OnFiles R) (do
                return l.keysOf (some p) ++ (← resolveTargets l page rest)) _
              rw [hkeys, show l.keysOf none = [] from rfl, hnone]
              exact ih.warn_right _ _
          | some q =>
              show Together lost (OnFiles R)
                (do return l.keysOf (some p) ++ (← resolveTargets l page rest))
                (do return l.keysOf (some q) ++ (← resolveTargets l page rest))
              rw [hkeys]
              exact hboth _

theorem together_pageRelationships
    (hR : ∀ t t', R t t' → ∀ target, Alike lost.ofCauses
      ((resolveRelationship t l page target).map l.keysOf)
      ((resolveRelationship t' l page target).map l.keysOf)) (text : List Char) :
    Together lost (OnFiles R) (pageRelationships l page text) (pageRelationships l page text) := by
  have hkeys : ∀ targets, Together lost (OnFiles R)
      (do return Text.distinct (← resolveTargets l page targets))
      (do return Text.distinct (← resolveTargets l page targets)) := fun targets =>
    (together_resolveTargets hR targets).bind fun _ => together_pure _
  unfold pageRelationships
  refine (together_orRaise _).bind fun targets => ?_
  exact (hkeys _).bind fun _ => (hkeys _).bind fun _ => (hkeys _).bind fun _ =>
    (hkeys _).bind fun _ => (hkeys _).bind fun _ => together_pure _

end

end Folio
