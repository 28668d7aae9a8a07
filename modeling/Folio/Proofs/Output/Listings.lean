import Folio.Proofs.Output.Accounts
import Folio.Proofs.Output.Canvas

/-!
# What an entry lists

An entry of the manifest lists the components and the elements of an output.  Each list is sorted
by path, so that it depends on the members alone: how a search came to them, and how often it met
them, does not show.  The preview of a component has the component first, which is then left out
of the rest, where a cycle of references would have put it.

The names of components are looked up once in a build, so an entry may have a name that was found
for an earlier one.  What is known of names is carried through all calls (`Knows`): each name was
found in the files of one of them, and as long as the file of a component stays as it is, that is
its name (`entries_listed`).
-/

namespace Folio

open FileTree

variable {t : FileTree} {l : Layout} {p : Path} {trees : List FileTree}

/-! ## Names of components -/

/-- The name of a component: that of the first macro of its file, or the stem of its path if
there is none or the file cannot be read. -/
inductive IsComponentName (t : FileTree) (p : Path) : String → Prop
  | firstMacro {text name : List Char} (hread : t.readText p = .ok text)
      (hfirst : Source.firstMacroName? text = some name) :
      IsComponentName t p (String.ofList name)
  | stem (hnone : ∀ text, t.readText p = .ok text → Source.firstMacroName? text = none) :
      IsComponentName t p p.stem

theorem isComponentName_congr {t' : FileTree} (hsame : t.readText p = t'.readText p)
    {name : String} (h : IsComponentName t p name) : IsComponentName t' p name := by
  cases h with
  | firstMacro hread hfirst => exact .firstMacro (hsame ▸ hread) hfirst
  | stem hnone => exact .stem (hsame ▸ hnone)

/-- Dependencies that are canonical paths. -/
structure Dependencies.IsCanonical (d : Dependencies) : Prop where
  components : ∀ p ∈ d.components, p.IsCanonical
  elements : ∀ p ∈ d.elements, p.IsCanonical

/-- Dependencies with the same members. -/
structure Dependencies.Same (d d' : Dependencies) : Prop where
  components : ∀ p, p ∈ d.components ↔ p ∈ d'.components
  elements : ∀ p, p ∈ d.elements ↔ p ∈ d'.elements

namespace Manifest

variable {m m' : Manifest} {key : String}

theorem isComponentName_of_nameOf {name : String} (h : nameOf t p = .ok name) :
    IsComponentName t p name := by
  unfold nameOf at h
  split at h
  · rename_i text hread
    cases h
    cases hfirst : Source.firstMacroName? text with
    | some name => exact .firstMacro hread hfirst
    | none =>
        refine .stem fun text' hread' => ?_
        obtain rfl := Except.ok.inj (hread.symm.trans hread')
        exact hfirst
  · rename_i cause hread
    split at h
    · cases h
      refine .stem fun text hread' => ?_
      rw [hread] at hread'
      cases hread'
    · cases h

/-- Every name that is known was found in the files of some tree. -/
def Knows (m : Manifest) (trees : List FileTree) : Prop :=
  ∀ p name, m.names.lookup p = some name → ∃ u ∈ trees, IsComponentName u p name

theorem knows_start (l : Layout) (trees : List FileTree) : (start l).Knows trees :=
  fun _ _ h => nomatch h

/-- One name, looked up or known. -/
theorem Knows.componentName (h : m.Knows trees) (ht : t ∈ trees) {name : String}
    (hname : m.componentName t p = .ok (name, m')) :
    (∃ u ∈ trees, IsComponentName u p name) ∧ m'.Knows trees := by
  unfold Manifest.componentName at hname
  split at hname
  · rename_i known hknown
    cases hname
    exact ⟨h p _ hknown, h⟩
  · cases hfound : nameOf t p with
    | error => rw [hfound] at hname; cases hname
    | ok found =>
        rw [hfound] at hname
        cases hname
        have hnew := isComponentName_of_nameOf hfound
        refine ⟨⟨t, ht, hnew⟩, fun q other hother => ?_⟩
        rw [List.lookup_append] at hother
        cases hknown : m.names.lookup q with
        | some known =>
            rw [hknown, Option.some_or] at hother
            exact Option.some.inj hother ▸ h q known hknown
        | none =>
            rw [hknown, Option.none_or, List.lookup_cons] at hother
            split at hother
            · rename_i hsame
              obtain rfl := eq_of_beq hsame
              exact Option.some.inj hother ▸ ⟨t, ht, hnew⟩
            · cases hother

theorem Knows.componentRefs (h : m.Knows trees) (ht : t ∈ trees) {paths : List Path}
    {refs : List SourceRef} (hrefs : m.componentRefs t paths = .ok (refs, m')) :
    (∀ r ∈ refs, ∃ u ∈ trees, IsComponentName u r.path r.name) ∧ m'.Knows trees := by
  induction paths generalizing m m' refs with
  | nil =>
      cases hrefs
      exact ⟨by simp, h⟩
  | cons p rest ih =>
      unfold Manifest.componentRefs at hrefs
      cases hname : m.componentName t p with
      | error => rw [hname] at hrefs; cases hrefs
      | ok first =>
          obtain ⟨name, m₁⟩ := first
          obtain ⟨hfirst, hknows⟩ := h.componentName ht hname
          rw [hname] at hrefs
          simp only [bind, Except.bind] at hrefs
          cases hrest : m₁.componentRefs t rest with
          | error => rw [hrest] at hrefs; cases hrefs
          | ok others =>
              obtain ⟨refs', m₂⟩ := others
              obtain ⟨hothers, hknows⟩ := ih hknows hrest
              rw [hrest] at hrefs
              cases hrefs
              exact ⟨List.forall_mem_cons.2 ⟨hfirst, hothers⟩, hknows⟩

theorem Knows.record (h : m.Knows trees) (key : String) (entry : ManifestEntry) :
    (m.record key entry).Knows trees := by
  unfold Manifest.record
  split <;> exact h

/-- **One call** keeps what is known of names, and the layout. -/
theorem Knows.perform (h : m.Knows trees) (ht : t ∈ trees) {call : Call}
    (hcall : call.perform m t = .ok (key, m')) : m'.Knows trees ∧ m'.layout = m.layout := by
  cases call with
  | page file d tags relationships related =>
      obtain ⟨-, refs, names, hrefs, rfl⟩ := exists_refs_of_addPage hcall
      exact ⟨(h.componentRefs ht hrefs).2.record _ _, (record_eq _ _ _).1⟩
  | state given component name d tags =>
      have hmap : (m.addState t given component name d tags).map (fun m' => (given, m')) =
          .ok (key, m') := hcall
      cases hadd : m.addState t given component name d tags with
      | error cause => rw [hadd] at hmap; cases hmap
      | ok next =>
          rw [hadd] at hmap
          cases hmap
          obtain ⟨place, refs, names, -, hrefs, rfl⟩ := exists_refs_of_addState hadd
          exact ⟨(h.componentRefs ht hrefs).2.record _ _, (record_eq _ _ _).1⟩

/-- **All calls** do so, those that fail included. -/
theorem Knows.afterCalls (h : m.Knows trees) {calls : List (FileTree × Call)}
    (hcalls : ∀ c ∈ calls, c.1 ∈ trees) :
    (m.afterCalls calls).Knows trees ∧ (m.afterCalls calls).layout = m.layout := by
  induction calls generalizing m with
  | nil => exact ⟨h, rfl⟩
  | cons first rest ih =>
      obtain ⟨t, call⟩ := first
      obtain ⟨ht, hrest⟩ := List.forall_mem_cons.1 hcalls
      unfold Manifest.afterCalls
      cases hcall : call.perform m t with
      | error cause => exact ih h hrest
      | ok found =>
          obtain ⟨key, next⟩ := found
          obtain ⟨hnext, hlayout⟩ := h.perform ht hcall
          obtain ⟨hafter, hsame⟩ := ih hnext hrest
          exact ⟨hafter, hsame.trans hlayout⟩

/-! ## Lists of an entry -/

/-- A list of an entry: one item for each of some paths, in the order of the paths, with names
that satisfy `named`. -/
structure Lists (refs : List SourceRef) (members : Path → Prop) (named : Path → String → Prop) :
    Prop where
  increasing : refs.Pairwise fun a b => a.path.parts < b.path.parts
  mem_iff : ∀ p, (∃ r ∈ refs, r.path = p) ↔ members p
  named : ∀ r ∈ refs, named r.path r.name

/-- The name of a component as it is known after calls with the files of some trees: one that it
had in one of them, and the one that it has if they all have the same file. -/
structure IsKnownName (t : FileTree) (trees : List FileTree) (p : Path) (name : String) : Prop where
  found : ∃ u ∈ t :: trees, IsComponentName u p name
  unchanged : (∀ u ∈ trees, u.readText p = t.readText p) → IsComponentName t p name

theorem isKnownName_of_found {name : String}
    (hfound : ∃ u ∈ t :: trees, IsComponentName u p name) : IsKnownName t trees p name where
  found := hfound
  unchanged hsame := by
    obtain ⟨u, hu, hname⟩ := hfound
    rcases List.mem_cons.1 hu with rfl | hu
    · exact hname
    · exact isComponentName_congr (hsame u hu) hname

/-- Whatever is known of names, sorted components are listed with names that are found. -/
theorem Knows.lists_componentRefs (h : m.Knows (t :: trees)) {paths : List Path}
    (hpaths : ∀ p ∈ paths, p.IsCanonical)
    (hsorted : paths.Pairwise fun p q => p.parts < q.parts) :
    ∃ refs names, m.componentRefs t paths = .ok (refs, ({ m with names := names } : Manifest)) ∧
      Lists refs (· ∈ paths) (IsKnownName t trees) := by
  obtain ⟨refs, m', hrefs, rfl⟩ := m.componentRefs_of_canonical (t := t) hpaths
  obtain ⟨names, rfl⟩ := componentRefs_eq_ok hrefs
  have hnamed := (h.componentRefs (List.mem_cons_self ..) hrefs).1
  rw [List.pairwise_map] at hsorted
  exact ⟨refs, names, hrefs, hsorted, fun p => List.mem_map.symm,
    fun r hr => isKnownName_of_found (hnamed r hr)⟩

/-- Elements are listed by their stems. -/
theorem lists_elementRefs {d : Dependencies} (hd : ∀ p ∈ d.elements, p.IsCanonical) :
    Lists (elementRefs d) (· ∈ d.elements) (fun p name => name = p.stem) where
  increasing := List.pairwise_map.2 (Path.pairwise_sortDistinct hd)
  mem_iff p := by
    simp only [elementRefs, List.mem_map, exists_exists_and_eq_and, exists_eq_right,
      Path.mem_sortDistinct]
  named r hr := by
    obtain ⟨p, -, rfl⟩ := List.mem_map.1 hr
    rfl

/-! ## Entries -/

/-- **What the calls list.**  After any calls, a page whose components and elements are canonical
paths is recorded with an item for each of them, in the order of the paths; a component in a state
comes first in its entry, before the others, once.  Components have the names that are found, and
elements their stems.  What is recorded depends on the members of the dependencies alone. -/
theorem entries_listed (l : Layout) (calls : List (FileTree × Call)) (t : FileTree)
    {d : Dependencies} (hd : d.IsCanonical) :
    (∀ page key tags relationships related, l.pageKey? page = some key →
      ∃ m' entry, ((start l).afterCalls calls).addPage t page d tags relationships related =
          .ok (key, m') ∧ m'.entries.lookup key = some entry ∧
        Lists entry.components (· ∈ d.components) (IsKnownName t (calls.map Prod.fst)) ∧
        Lists entry.elements (· ∈ d.elements) fun p name => name = p.stem) ∧
    (∀ key component place name tags, component.resolved = .ok place →
      ∃ m' entry others, ((start l).afterCalls calls).addState t key component name d tags =
          .ok m' ∧ m'.entries.lookup key = some entry ∧
        entry.components = ⟨name, place⟩ :: others ∧
        Lists others (fun p => p ∈ d.components ∧ p ≠ place)
          (IsKnownName t (calls.map Prod.fst)) ∧
        Lists entry.elements (· ∈ d.elements) fun p name => name = p.stem) ∧
    ∀ d' : Dependencies, d.Same d' →
      (∀ page tags relationships related,
        ((start l).afterCalls calls).addPage t page d' tags relationships related =
          ((start l).afterCalls calls).addPage t page d tags relationships related) ∧
      ∀ key component name tags,
        ((start l).afterCalls calls).addState t key component name d' tags =
          ((start l).afterCalls calls).addState t key component name d tags := by
  obtain ⟨hknows, hlayout⟩ := (knows_start l (t :: calls.map Prod.fst)).afterCalls
    fun c hc => List.mem_cons_of_mem _ (List.mem_map_of_mem hc)
  -- Of the calls before, only the names that they have found and the layout matter.
  generalize (start l).afterCalls calls = m at hknows hlayout
  have hsorted := Path.pairwise_sortDistinct hd.components
  have hcanonical : ∀ p ∈ Path.sortDistinct d.components, p.IsCanonical := fun p hp =>
    hd.components p (Path.mem_sortDistinct.1 hp)
  have hrecorded : ∀ (m : Manifest) key entry,
      (m.record key entry).entries.lookup key = some entry := fun m key entry => by
    rw [(record_eq m key entry).2, lookup_putKey_self]
  refine ⟨fun page key tags relationships related hkey => ?_,
    fun key component place name tags hplace => ?_, fun d' hsame => ?_⟩
  · obtain ⟨refs, names, hrefs, hlists⟩ := hknows.lists_componentRefs hcanonical hsorted
    simp only [Path.mem_sortDistinct] at hlists
    have hkey' : m.layout.pageKey? page = some key := hlayout ▸ hkey
    exact ⟨_, _, addPage_of_refs hkey' hrefs tags relationships related, hrecorded _ _ _, hlists,
      lists_elementRefs hd.elements⟩
  · obtain ⟨refs, names, hrefs, hlists⟩ := hknows.lists_componentRefs
      (fun p hp => hcanonical p (List.mem_filter.1 hp).1) (hsorted.filter (· ≠ place))
    simp only [List.mem_filter, Path.mem_sortDistinct, decide_eq_true_eq] at hlists
    exact ⟨_, _, refs, addState_of_refs hplace hrefs key name tags, hrecorded _ _ _, rfl, hlists,
      lists_elementRefs hd.elements⟩
  · have hcomponents := Path.sortDistinct_congr hd.components hsame.components
    have helements : elementRefs d' = elementRefs d := by
      rw [elementRefs, elementRefs, Path.sortDistinct_congr hd.elements hsame.elements]
    exact ⟨fun _ _ _ _ => by rw [addPage, addPage, hcomponents, helements],
      fun _ _ _ _ => by rw [addState, addState, hcomponents, helements]⟩

/-- A component that includes another one, which includes it. -/
def cyclicFiles : FileTree :=
  ⟨[(["t"], .directory), (["t", "components"], .directory),
    (["t", "components", "card.tmpl"], .file "\x7b% include 'side.tmpl' %\x7d".toUTF8),
    (["t", "components", "side.tmpl"], .file "\x7b% include 'card.tmpl' %\x7d".toUTF8)]⟩

/-- What such a component depends on, as a search may come to it. -/
def cyclicDependencies : Dependencies :=
  ⟨[⟨.root, ["t", "components", "side.tmpl"]⟩, ⟨.root, ["t", "components", "card.tmpl"]⟩,
    ⟨.root, ["t", "components", "side.tmpl"]⟩], [], []⟩

/-- The component that includes itself comes first and once, and the other one follows. -/
theorem entries_listed_cyclic :
    ∃ m' entry others, (start .small).addState cyclicFiles "components/card.html"
        ⟨.root, ["t", "components", "card.tmpl"]⟩ "deck" cyclicDependencies [] = .ok m' ∧
      m'.entries.lookup "components/card.html" = some entry ∧
      entry.components = ⟨"deck", ⟨.root, ["t", "components", "card.tmpl"]⟩⟩ :: others ∧
      ∃ r ∈ others, r.path = ⟨.root, ["t", "components", "side.tmpl"]⟩ ∧
        IsComponentName cyclicFiles r.path r.name := by
  have hd : cyclicDependencies.IsCanonical := by
    refine ⟨fun p hp => ?_, fun p hp => nomatch hp⟩
    have hparts : p.anchor = .root ∧ ".." ∉ p.parts ∧ ∀ name ∈ p.parts, Path.isUsable name := by
      revert p
      decide +kernel
    exact ⟨hparts.1, hparts.2.1, hparts.2.2⟩
  obtain ⟨-, hstate, -⟩ := entries_listed .small [] cyclicFiles hd
  obtain ⟨m', entry, others, hadd, hentry, hcomponents, hlists, -⟩ :=
    hstate "components/card.html" ⟨.root, ["t", "components", "card.tmpl"]⟩ _ "deck" [] rfl
  obtain ⟨r, hr, hpath⟩ := (hlists.mem_iff ⟨.root, ["t", "components", "side.tmpl"]⟩).2
    ⟨by decide, by decide⟩
  exact ⟨m', entry, others, hadd, hentry, hcomponents, r, hr, hpath,
    (hlists.named r hr).unchanged fun u hu => nomatch hu⟩

end Manifest

end Folio
