import Folio.Manifest
import Mathlib.Data.List.Basic

/-!
# What a manifest records

Looking up names of components leaves the layout and the entries of a manifest as they
are.  Recording an output puts one entry under its key, so the entries of a manifest
are among those that were recorded, and every key that was recorded has one.
-/

namespace Folio

section

variable {κ α : Type} [DecidableEq κ] {items : List (κ × α)} {key : κ} {value : α}

theorem mem_putKey {item : κ × α} (hitem : item ∈ putKey items key value) :
    item = (key, value) ∨ item ∈ items := by
  unfold putKey at hitem
  split at hitem
  · obtain ⟨old, hold, rfl⟩ := List.mem_map.1 hitem
    split
    · exact Or.inl rfl
    · exact Or.inr hold
  · exact (List.mem_append.1 hitem).symm.imp_left List.mem_singleton.1

/-- A value that is put under a key that is there leaves the keys as they are. -/
theorem keys_putKey : (putKey items key value).map Prod.fst =
    if key ∈ items.map Prod.fst then items.map Prod.fst else items.map Prod.fst ++ [key] := by
  have hthere : (items.any fun item => item.1 = key) = true ↔ key ∈ items.map Prod.fst := by
    simp
  unfold putKey
  by_cases hkey : key ∈ items.map Prod.fst
  · rw [if_pos (hthere.2 hkey), if_pos hkey, List.map_map]
    refine List.map_congr_left fun item _ => ?_
    simp only [Function.comp_apply]
    split
    · rename_i hsame
      exact hsame.symm
    · rfl
  · rw [if_neg (mt hthere.1 hkey), if_neg hkey, List.map_append, List.map_singleton]

theorem key_mem_putKey {k : κ} :
    k ∈ (putKey items key value).map Prod.fst ↔ k = key ∨ k ∈ items.map Prod.fst := by
  rw [keys_putKey]
  split
  · rename_i hthere
    exact ⟨Or.inr, fun h => h.elim (fun h => h ▸ hthere) id⟩
  · rw [List.mem_append, List.mem_singleton]
    exact or_comm

theorem nodup_putKey (hnodup : (items.map Prod.fst).Nodup) :
    ((putKey items key value).map Prod.fst).Nodup := by
  rw [keys_putKey]
  split
  · exact hnodup
  · rename_i hnew
    refine List.nodup_append.2 ⟨hnodup, by simp, fun k hk k' hk' hsame => hnew ?_⟩
    rw [← List.mem_singleton.1 hk', ← hsame]
    exact hk

end

namespace Manifest

variable {t : FileTree} {m m' : Manifest} {key : String}

/-! ## Names of components -/

/-- Looking a name up changes nothing but what is known of names. -/
theorem componentName_eq_ok {p : Path} {name : String}
    (h : m.componentName t p = .ok (name, m')) : ∃ names, m' = { m with names := names } := by
  unfold componentName at h
  split at h
  · cases h
    exact ⟨m.names, rfl⟩
  · cases hname : nameOf t p with
    | error => rw [hname] at h; cases h
    | ok found =>
        rw [hname] at h
        cases h
        exact ⟨_, rfl⟩

theorem componentRefs_eq_ok {paths : List Path} {refs : List SourceRef}
    (h : m.componentRefs t paths = .ok (refs, m')) : ∃ names, m' = { m with names := names } := by
  induction paths generalizing m m' refs with
  | nil =>
      cases h
      exact ⟨m.names, rfl⟩
  | cons p rest ih =>
      unfold componentRefs at h
      cases hname : m.componentName t p with
      | error => rw [hname] at h; cases h
      | ok first =>
          obtain ⟨name, m₁⟩ := first
          rw [hname] at h
          simp only [bind, Except.bind] at h
          cases hrest : m₁.componentRefs t rest with
          | error => rw [hrest] at h; cases h
          | ok others =>
              obtain ⟨refs', m₂⟩ := others
              rw [hrest] at h
              cases h
              obtain ⟨names₁, rfl⟩ := componentName_eq_ok hname
              obtain ⟨names, rfl⟩ := ih hrest
              exact ⟨names, rfl⟩

/-! ## Recording -/

theorem record_eq (m : Manifest) (key : String) (entry : ManifestEntry) :
    (m.record key entry).layout = m.layout ∧
      (m.record key entry).entries = putKey m.entries key entry := by
  unfold record
  split <;> exact ⟨rfl, rfl⟩

theorem canvas_record (m : Manifest) (key : String) (entry : ManifestEntry) :
    (m.record key entry).canvas =
      if entry.tags.isEmpty then m.canvas else putKey m.canvas key entry.tags := by
  unfold record
  split <;> rfl

/-- A page is recorded once the names of its components are found. -/
theorem addPage_of_refs {page : Path} {d : Dependencies} {refs : List SourceRef}
    (hkey : m.layout.pageKey? page = some key)
    (hrefs : m.componentRefs t (Path.sortDistinct d.components) = .ok (refs, m'))
    (tags : List String) (relationships : List (String × List String)) (related : Bool) :
    m.addPage t page d tags relationships related = .ok (key, m'.record key
      ⟨some ⟨page.stem, page⟩, refs, elementRefs d, if related then some relationships else none,
        tags⟩) := by
  unfold addPage
  rw [hkey]
  simp only [bind, Except.bind, hrefs]
  rfl

/-- What recording a page does: names of components are looked up, and an entry is put. -/
theorem exists_refs_of_addPage {page : Path} {d : Dependencies} {tags : List String}
    {relationships : List (String × List String)} {related : Bool}
    (h : m.addPage t page d tags relationships related = .ok (key, m')) :
    m.layout.pageKey? page = some key ∧ ∃ refs names,
      m.componentRefs t (Path.sortDistinct d.components) =
        .ok (refs, ({ m with names := names } : Manifest)) ∧
      m' = ({ m with names := names } : Manifest).record key
        ⟨some ⟨page.stem, page⟩, refs, elementRefs d,
          if related then some relationships else none, tags⟩ := by
  unfold addPage at h
  split at h
  · cases h
  · rename_i found hkey
    cases hrefs : m.componentRefs t (Path.sortDistinct d.components) with
    | error => rw [hrefs] at h; cases h
    | ok refs =>
        obtain ⟨refs, m₁⟩ := refs
        rw [hrefs] at h
        cases h
        obtain ⟨names, rfl⟩ := componentRefs_eq_ok hrefs
        exact ⟨hkey, refs, names, rfl, rfl⟩

/-- A page is recorded under its key, with an entry that names it. -/
theorem addPage_eq_ok {page : Path} {d : Dependencies} {tags : List String}
    {relationships : List (String × List String)} {related : Bool}
    (h : m.addPage t page d tags relationships related = .ok (key, m')) :
    m.layout.pageKey? page = some key ∧ m'.layout = m.layout ∧
      ∃ entry : ManifestEntry, entry.page = some ⟨page.stem, page⟩ ∧
        m'.entries = putKey m.entries key entry := by
  obtain ⟨hkey, refs, names, -, rfl⟩ := exists_refs_of_addPage h
  obtain ⟨hlayout, hentries⟩ := record_eq ({ m with names := names } : Manifest) key _
  exact ⟨hkey, hlayout, _, rfl, hentries⟩

/-- A component in a state is recorded once the names of the others are found. -/
theorem addState_of_refs {component place : Path} {d : Dependencies} {refs : List SourceRef}
    (hplace : component.resolved = .ok place)
    (hrefs : m.componentRefs t ((Path.sortDistinct d.components).filter (· ≠ place)) =
      .ok (refs, m')) (key name : String) (tags : List String) :
    m.addState t key component name d tags = .ok (m'.record key
      ⟨none, ⟨name, place⟩ :: refs, elementRefs d, none, tags⟩) := by
  unfold addState
  rw [hplace]
  simp only [Except.mapError, bind, Except.bind, hrefs]
  rfl

/-- What recording a component in a state does: the component comes first, and names of the
others are looked up. -/
theorem exists_refs_of_addState {name : String} {component : Path} {d : Dependencies}
    {tags : List String} (h : m.addState t key component name d tags = .ok m') :
    ∃ place refs names, component.resolved = .ok place ∧
      m.componentRefs t ((Path.sortDistinct d.components).filter (· ≠ place)) =
        .ok (refs, ({ m with names := names } : Manifest)) ∧
      m' = ({ m with names := names } : Manifest).record key
        ⟨none, ⟨name, place⟩ :: refs, elementRefs d, none, tags⟩ := by
  unfold addState at h
  cases hresolved : component.resolved with
  | error => rw [hresolved] at h; cases h
  | ok place =>
      rw [hresolved] at h
      simp only [Except.mapError, bind, Except.bind] at h
      split at h
      · cases h
      · rename_i refs hrefs
        obtain ⟨refs, m₁⟩ := refs
        cases h
        obtain ⟨names, rfl⟩ := componentRefs_eq_ok hrefs
        exact ⟨place, refs, names, rfl, hrefs, rfl⟩

/-- A component in a state is recorded under the key that is given, with an entry that has the
component first. -/
theorem addState_eq_ok {name : String} {component : Path} {d : Dependencies}
    {tags : List String} (h : m.addState t key component name d tags = .ok m') :
    m'.layout = m.layout ∧
      ∃ (entry : ManifestEntry) (place : Path), component.resolved = .ok place ∧
        entry.page = none ∧ entry.components.head? = some ⟨name, place⟩ ∧
        m'.entries = putKey m.entries key entry := by
  obtain ⟨place, refs, names, hplace, -, rfl⟩ := exists_refs_of_addState h
  obtain ⟨hlayout, hentries⟩ := record_eq ({ m with names := names } : Manifest) key _
  exact ⟨hlayout, _, place, hplace, rfl, rfl, hentries⟩

/-! ## What was recorded -/

/-- A manifest with the entries of some items that were recorded, later ones in place
of earlier ones with their key. -/
structure Records (m : Manifest) (items : List (String × ManifestEntry)) : Prop where
  mem_items : ∀ item ∈ m.entries, item ∈ items
  key_mem : ∀ item ∈ items, item.1 ∈ m.entries.map Prod.fst

theorem Records.put {items : List (String × ManifestEntry)} {entry : ManifestEntry}
    (h : m.Records items) (hentries : m'.entries = putKey m.entries key entry) :
    m'.Records (items ++ [(key, entry)]) where
  mem_items item hitem := by
    rw [hentries] at hitem
    rcases mem_putKey hitem with rfl | hitem
    · simp
    · exact List.mem_append_left _ (h.mem_items item hitem)
  key_mem item hitem := by
    rw [hentries, key_mem_putKey]
    rcases List.mem_append.1 hitem with hitem | hitem
    · exact Or.inr (h.key_mem item hitem)
    · exact Or.inl (congrArg Prod.fst (List.mem_singleton.1 hitem))

/-- The outputs that a manifest has entries for. -/
def keys (m : Manifest) : List String :=
  m.entries.map Prod.fst

theorem Records.mem_keys {items : List (String × ManifestEntry)} (h : m.Records items) :
    key ∈ m.keys ↔ ∃ item ∈ items, item.1 = key := by
  constructor
  · intro hkey
    obtain ⟨item, hitem, hsame⟩ := List.mem_map.1 hkey
    exact ⟨item, h.mem_items item hitem, hsame⟩
  · rintro ⟨item, hitem, rfl⟩
    exact h.key_mem item hitem

end Manifest

end Folio
