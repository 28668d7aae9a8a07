import Folio.Proofs.Output.Manifest
import Mathlib.Data.List.Induction

/-!
# What the canvas shows

The tags of outputs are kept twice: in the entries of a manifest, and by key for the canvas.
A recording puts its entry in the place of the one before, but its tags for the canvas only if
it has some; what the canvas has for the key stays otherwise.

So the entry of a key is that of its last recording, while the canvas has the tags of its last
recording with tags (`Accounts`, which every call keeps).  The two say the same of every key
that was not recorded with tags first and without any last (`canvas_of_afterCalls`).
-/

namespace Folio

section

variable {κ α : Type} [DecidableEq κ] {items : List (κ × α)} {key k : κ} {value : α}

theorem lookup_putKey_self : (putKey items key value).lookup key = some value := by
  unfold putKey
  split
  · rename_i hthere
    induction items with
    | nil => simp at hthere
    | cons item rest ih =>
        obtain ⟨first, old⟩ := item
        by_cases hfirst : first = key
        · simp [hfirst]
        · have hrest : (rest.any fun item => item.1 = key) = true := by simpa [hfirst] using hthere
          have hother : (key == first) = false := by simpa using Ne.symm hfirst
          simp [hfirst, List.lookup_cons, hother, ih hrest]
  · rename_i hnew
    have hnone : items.lookup key = none := by
      rw [List.lookup_eq_none_iff]
      intro item hitem
      simp only [List.any_eq_true, decide_eq_true_eq, not_exists, not_and] at hnew
      simpa using Ne.symm (hnew item hitem)
    simp [List.lookup_append, hnone]

theorem lookup_putKey_of_ne (hne : k ≠ key) :
    (putKey items key value).lookup k = items.lookup k := by
  have hother : (k == key) = false := by simpa using hne
  unfold putKey
  split
  · clear * - hother
    induction items with
    | nil => rfl
    | cons item rest ih =>
        rw [List.map_cons]
        split
        · rename_i hitem
          rw [List.lookup_cons, List.lookup_cons, hitem, hother, ih]
        · rw [List.lookup_cons, List.lookup_cons, ih]
  · rw [List.lookup_append, List.lookup_cons, hother]
    simp

end

namespace Manifest

variable {t : FileTree} {m m' : Manifest} {key : String}

/-! ## Calls -/

/-- A call that records an output: a rendered page, or a component in a state. -/
inductive Call
  | page (file : Path) (dependencies : Dependencies) (tags : List String)
      (relationships : List (String × List String)) (related : Bool)
  | state (key : String) (component : Path) (name : String) (dependencies : Dependencies)
      (tags : List String)

namespace Call

/-- The tags that a call gives its output. -/
def tags : Call → List String
  | page _ _ tags _ _ => tags
  | state _ _ _ _ tags => tags

/-- What a call makes of a manifest, and the key that it records its output under. -/
def perform (m : Manifest) (t : FileTree) : Call → Except Cause (String × Manifest)
  | page file d tags relationships related => m.addPage t file d tags relationships related
  | state key component name d tags =>
      (m.addState t key component name d tags).map fun m' => (key, m')

end Call

/-- A manifest after calls, each of which comes with the files as they are then.  A call that
fails leaves the manifest as it was. -/
def afterCalls (m : Manifest) : List (FileTree × Call) → Manifest
  | [] => m
  | (t, call) :: rest =>
      match call.perform m t with
      | .ok (_, m') => m'.afterCalls rest
      | .error _ => m.afterCalls rest

/-- The keys that calls record an output under, with the tags that they give it. -/
def recordings (m : Manifest) : List (FileTree × Call) → List (String × List String)
  | [] => []
  | (t, call) :: rest =>
      match call.perform m t with
      | .ok (key, m') => (key, call.tags) :: m'.recordings rest
      | .error _ => m.recordings rest

/-! ## Recordings -/

/-- The tags that a key was last recorded with. -/
def lastTags (done : List (String × List String)) (key : String) : Option (List String) :=
  done.reverse.lookup key

/-- The recordings that have tags. -/
def tagged (done : List (String × List String)) : List (String × List String) :=
  done.filter fun recording => !recording.2.isEmpty

/-- A key was recorded with tags, and without any later on. -/
def Untagged (done : List (String × List String)) (key : String) : Prop :=
  lastTags done key = some [] ∧ (lastTags (tagged done) key).isSome

/-- The tags that a manifest shows for a key: those of its entry, if it has some. -/
def shownTags (m : Manifest) (key : String) : Option (List String) :=
  (m.entries.lookup key).bind fun entry => if entry.tags.isEmpty then none else some entry.tags

section

variable {done : List (String × List String)} {k : String} {tags : List String}

theorem lastTags_concat :
    lastTags (done ++ [(key, tags)]) k = if k = key then some tags else lastTags done k := by
  unfold lastTags
  rw [List.reverse_append, List.reverse_singleton, List.singleton_append, List.lookup_cons]
  by_cases hkey : k = key
  · simp [hkey]
  · have hother : (k == key) = false := by simpa using hkey
    rw [hother, if_neg hkey]

theorem tagged_concat :
    tagged (done ++ [(key, tags)]) =
      if tags.isEmpty then tagged done else tagged done ++ [(key, tags)] := by
  unfold tagged
  rw [List.filter_append]
  cases tags <;> simp

/-- A recording that is the last of its key and has tags is the last one with tags, too. -/
theorem lastTags_tagged (hlast : lastTags done key = some tags) (htags : tags ≠ []) :
    lastTags (tagged done) key = some tags := by
  -- The last recording decides, so the induction takes recordings from the end.
  induction done using List.reverseRecOn with
  | nil => cases hlast
  | append_singleton done recording ih =>
      obtain ⟨other, otherTags⟩ := recording
      rw [lastTags_concat] at hlast
      rw [tagged_concat]
      split at hlast
      · rename_i hkey
        cases hlast
        rw [if_neg (by simpa using htags), lastTags_concat, if_pos hkey]
      · rename_i hkey
        split
        · exact ih hlast
        · rw [lastTags_concat, if_neg hkey]
          exact ih hlast

/-- A key that was never recorded was never recorded with tags. -/
theorem lastTags_tagged_eq_none (hlast : lastTags done key = none) :
    lastTags (tagged done) key = none := by
  unfold lastTags at hlast ⊢
  rw [List.lookup_eq_none_iff] at hlast ⊢
  intro recording hrecording
  rw [List.mem_reverse] at hrecording
  exact hlast recording (List.mem_reverse.2 (List.mem_of_mem_filter hrecording))

end

/-! ## What calls keep -/

/-- A manifest that was made by recordings: the entry of a key has the tags of its last
recording, and the canvas those of its last recording with tags; no key is there twice. -/
structure Accounts (done : List (String × List String)) (m : Manifest) : Prop where
  entries_nodup : (m.entries.map Prod.fst).Nodup
  canvas_nodup : (m.canvas.map Prod.fst).Nodup
  entries_eq : ∀ key, (m.entries.lookup key).map ManifestEntry.tags = lastTags done key
  canvas_eq : ∀ key, m.canvas.lookup key = lastTags (tagged done) key

theorem accounts_start (l : Layout) : Accounts [] (start l) :=
  ⟨List.nodup_nil, List.nodup_nil, fun _ => rfl, fun _ => rfl⟩

/-- Looking names up records nothing. -/
theorem Accounts.of_eq {done : List (String × List String)} (h : Accounts done m)
    (hentries : m'.entries = m.entries) (hcanvas : m'.canvas = m.canvas) : Accounts done m' :=
  ⟨hentries ▸ h.entries_nodup, hcanvas ▸ h.canvas_nodup, hentries ▸ h.entries_eq,
    hcanvas ▸ h.canvas_eq⟩

/-- A recording is the last of its key, and leaves the other keys as they are. -/
theorem Accounts.record {done : List (String × List String)} (h : Accounts done m)
    (entry : ManifestEntry) : Accounts (done ++ [(key, entry.tags)]) (m.record key entry) where
  entries_nodup := by
    rw [(record_eq m key entry).2]
    exact nodup_putKey h.entries_nodup
  canvas_nodup := by
    rw [canvas_record]
    split
    · exact h.canvas_nodup
    · exact nodup_putKey h.canvas_nodup
  entries_eq k := by
    rw [(record_eq m key entry).2, lastTags_concat]
    split
    · rename_i hkey
      rw [hkey, lookup_putKey_self]
      rfl
    · rename_i hkey
      rw [lookup_putKey_of_ne hkey, h.entries_eq]
  canvas_eq k := by
    rw [canvas_record, tagged_concat]
    split
    · exact h.canvas_eq k
    · rw [lastTags_concat]
      split
      · rename_i hkey
        rw [hkey, lookup_putKey_self]
      · rename_i hkey
        rw [lookup_putKey_of_ne hkey, h.canvas_eq]

/-- **One call.**  If it records an output, this is the last recording of its key. -/
theorem Accounts.perform {done : List (String × List String)} (h : Accounts done m) {call : Call}
    (hcall : call.perform m t = .ok (key, m')) : Accounts (done ++ [(key, call.tags)]) m' := by
  -- what names were looked up does not matter
  have hnames : ∀ names, Accounts done ({ m with names := names } : Manifest) :=
    fun _ => h.of_eq rfl rfl
  cases call with
  | page file d tags relationships related =>
      obtain ⟨-, refs, names, -, rfl⟩ := exists_refs_of_addPage hcall
      exact (hnames names).record ⟨some ⟨file.stem, file⟩, refs, elementRefs d,
        if related then some relationships else none, tags⟩
  | state given component name d tags =>
      have hmap : (m.addState t given component name d tags).map (fun m' => (given, m')) =
          .ok (key, m') := hcall
      cases hadd : m.addState t given component name d tags with
      | error cause => rw [hadd] at hmap; cases hmap
      | ok next =>
          rw [hadd] at hmap
          cases hmap
          obtain ⟨place, refs, names, -, -, rfl⟩ := exists_refs_of_addState hadd
          exact (hnames names).record ⟨none, ⟨name, place⟩ :: refs, elementRefs d, none, tags⟩

/-- **All calls.**  Calls that fail do not count. -/
theorem Accounts.afterCalls {done : List (String × List String)} (h : Accounts done m)
    (calls : List (FileTree × Call)) :
    Accounts (done ++ m.recordings calls) (m.afterCalls calls) := by
  induction calls generalizing m done with
  | nil => simpa [recordings, Manifest.afterCalls] using h
  | cons first rest ih =>
      obtain ⟨t, call⟩ := first
      unfold recordings Manifest.afterCalls
      cases hcall : call.perform m t with
      | error cause => exact ih h
      | ok found =>
          obtain ⟨key, next⟩ := found
          have hnext := ih (h.perform hcall)
          rwa [List.append_assoc, List.singleton_append] at hnext

theorem Accounts.shownTags_eq {done : List (String × List String)} (h : Accounts done m)
    (key : String) :
    m.shownTags key = (lastTags done key).bind fun tags => if tags.isEmpty then none else some tags := by
  rw [← h.entries_eq, shownTags, Option.bind_map]
  rfl

/-- A key of which the canvas and the entries do not say the same. -/
theorem Accounts.canvas_eq_shownTags_iff {done : List (String × List String)}
    (h : Accounts done m) (key : String) :
    m.canvas.lookup key = m.shownTags key ↔ ¬ Untagged done key := by
  rw [h.canvas_eq, h.shownTags_eq, Untagged]
  cases hlast : lastTags done key with
  | none => simp [lastTags_tagged_eq_none hlast]
  | some tags =>
      by_cases htags : tags = []
      · simp [htags]
      · simp [htags, lastTags_tagged hlast htags]

/-- **What the canvas shows after any calls.**  The entry of a key has the tags of its last
recording, and the canvas has those of its last recording with tags.  So the canvas shows for a
key what its entry has, exactly if the key was not recorded with tags and then without any.
Entries and canvas have each key once. -/
theorem canvas_of_afterCalls (l : Layout) (calls : List (FileTree × Call)) :
    (((start l).afterCalls calls).entries.map Prod.fst).Nodup ∧
      (((start l).afterCalls calls).canvas.map Prod.fst).Nodup ∧
      ∀ key, (((start l).afterCalls calls).entries.lookup key).map ManifestEntry.tags =
          lastTags ((start l).recordings calls) key ∧
        ((start l).afterCalls calls).canvas.lookup key =
          lastTags (tagged ((start l).recordings calls)) key ∧
        (((start l).afterCalls calls).canvas.lookup key =
            ((start l).afterCalls calls).shownTags key ↔
          ¬ Untagged ((start l).recordings calls) key) := by
  have haccounts := (accounts_start l).afterCalls calls
  rw [List.nil_append] at haccounts
  exact ⟨haccounts.entries_nodup, haccounts.canvas_nodup, fun key =>
    ⟨haccounts.entries_eq key, haccounts.canvas_eq key, haccounts.canvas_eq_shownTags_iff key⟩⟩

/-- Two recordings of one page, the second without the tags of the first. -/
def retaggedCalls : List (FileTree × Call) :=
  [(FileTree.empty, .page ⟨.root, ["t", "pages", "a.tmpl"]⟩ Dependencies.empty ["x"] [] false),
    (FileTree.empty, .page ⟨.root, ["t", "pages", "a.tmpl"]⟩ Dependencies.empty [] [] false)]

/-- The layout of that page. -/
def retaggedLayout : Layout :=
  ⟨⟨.root, ["w"]⟩, ⟨.root, ["t"]⟩, ⟨.root, ["d"]⟩⟩

/-- The canvas goes on showing the tags of the page, and the entry has none. -/
theorem canvas_of_afterCalls_retagged :
    ((start retaggedLayout).afterCalls retaggedCalls).canvas.lookup "pages/a.html" = some ["x"] ∧
      ((start retaggedLayout).afterCalls retaggedCalls).shownTags "pages/a.html" = none := by
  have hrecordings : (start retaggedLayout).recordings retaggedCalls =
      [("pages/a.html", ["x"]), ("pages/a.html", [])] := by
    decide +kernel
  obtain ⟨-, -, hall⟩ := canvas_of_afterCalls retaggedLayout retaggedCalls
  obtain ⟨hentries, hcanvas, -⟩ := hall "pages/a.html"
  rw [hrecordings] at hentries hcanvas
  refine ⟨hcanvas, ?_⟩
  obtain ⟨entry, hentry, htags⟩ := Option.map_eq_some_iff.1 hentries
  rw [shownTags, hentry]
  simp [htags]

end Manifest

end Folio
