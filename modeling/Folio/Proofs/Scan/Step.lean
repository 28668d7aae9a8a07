import Folio.Scan
import Folio.Proofs.FileTree.Reading
import Folio.Proofs.Session.Ends
import Mathlib

/-!
# Steps of the search for dependencies

A search takes one step for every path that was pending.  Reading a file makes at
most as many paths pending as the file has bytes, and every file is read once, so
the files of the tree pay for all steps but those for the entry: distinct places
together never spend more than `searchBound` allows.

`RefersTo t l p q` says that the text of `p` has a reference which leads to `q`;
what a reference leads to is a canonical path.  One step of a search looks at one
path.  `StepsTo` lists the ways in which the search can go on from there, and
`searchStep_spec` says that it goes on in one of them unless a reference of the file
cannot be resolved.
-/

namespace Folio

open Text Source

/-! ## References of a text -/

theorem Text.length_occurrencesFrom_le {α : Type} (pattern : Pattern α) (offset skip : Nat)
    (s : List Char) : (occurrencesFrom pattern offset skip s).length ≤ s.length := by
  induction s generalizing offset skip with
  | nil => simp [occurrencesFrom]
  | cons c rest ih =>
      cases skip with
      | succ skip => exact (ih (offset + 1) skip).trans (Nat.le_succ _)
      | zero =>
          unfold occurrencesFrom
          split
          · exact Nat.succ_le_succ (ih _ _)
          · exact (ih _ _).trans (Nat.le_succ _)

/-- A text has no more references than characters. -/
theorem Source.length_references_le (text : List Char) :
    (references text).length ≤ text.length := by
  unfold references
  rw [List.length_map]
  exact length_occurrencesFrom_le ..

/-! ## What the files of a tree pay for -/

/-- The steps that reading an entry pays for: one for each byte, and its own. -/
def Entry.steps : Entry → Nat
  | .file content => content.size + 1
  | .directory => 0

namespace FileTree

variable {t : FileTree}

/-- The steps that all entries pay for. -/
def allSteps (t : FileTree) : Nat :=
  (t.entries.map fun e => e.2.steps).sum

/-- The steps that the entry at a place pays for. -/
def stepsAt (t : FileTree) (place : Place) : Nat :=
  ((t.entries.lookup place).map Entry.steps).getD 0

theorem stepsAt_cons (place key : Place) (entry : Entry) (rest : List (Place × Entry)) :
    stepsAt ⟨(key, entry) :: rest⟩ place =
      if place = key then entry.steps else stepsAt ⟨rest⟩ place := by
  unfold stepsAt
  rw [List.lookup_cons]
  by_cases hkey : place = key
  · simp [hkey]
  · simp [hkey, beq_false_of_ne hkey]

/-- Distinct places do not pay for more than there is. -/
theorem sum_stepsAt_le {places : List Place} (hnodup : places.Nodup) :
    (places.map t.stepsAt).sum ≤ t.allSteps := by
  obtain ⟨entries⟩ := t
  induction entries generalizing places with
  | nil =>
      have hzero : places.map (stepsAt ⟨[]⟩) = List.replicate places.length 0 := by
        rw [List.map_eq_replicate_iff]
        intro place _
        rfl
      rw [hzero]
      simp
  | cons e rest ih =>
      obtain ⟨key, entry⟩ := e
      have hother : ∀ {others : List Place}, key ∉ others →
          others.map (stepsAt ⟨(key, entry) :: rest⟩) = others.map (stepsAt ⟨rest⟩) := by
        intro others hkey
        refine List.map_congr_left fun place hplace => ?_
        have hne : place ≠ key := fun h => hkey (h ▸ hplace)
        rw [stepsAt_cons, if_neg hne]
      have hall : allSteps ⟨(key, entry) :: rest⟩ = entry.steps + allSteps ⟨rest⟩ := rfl
      by_cases hkey : key ∈ places
      · have hperm := ((List.perm_cons_erase hkey).map (stepsAt ⟨(key, entry) :: rest⟩)).sum_nat
        have hfirst : stepsAt ⟨(key, entry) :: rest⟩ key = entry.steps := by
          rw [stepsAt_cons, if_pos rfl]
        rw [hperm, List.map_cons, List.sum_cons, hfirst, hother hnodup.not_mem_erase, hall]
        exact Nat.add_le_add_left (ih (hnodup.erase key)) _
      · rw [hother hkey, hall]
        exact (ih hnodup).trans (Nat.le_add_left ..)

/-- What is read pays for a step for each character and one more. -/
theorem length_lt_stepsAt {p : Path} (hp : p.IsCanonical) {text : List Char}
    (hread : t.readText p = .ok text) : text.length < t.stepsAt p.parts := by
  obtain ⟨content, hentry, htext⟩ := readText_eq_ok hp hread
  unfold entry? at hentry
  split at hentry
  · cases hentry
  · unfold stepsAt
    rw [hentry]
    exact Nat.lt_succ_of_le (length_le_of_textOf htext)

end FileTree

/-- Adding up what is found in each member of a list. -/
theorem foldl_eq_add_sum {α : Type} {f : Nat → α → Nat} {amount : α → Nat}
    (hf : ∀ n x, f n x = n + amount x) (xs : List α) (start : Nat) :
    xs.foldl f start = start + (xs.map amount).sum := by
  induction xs generalizing start with
  | nil => rfl
  | cons x rest ih =>
      rw [List.foldl_cons, ih, hf, List.map_cons, List.sum_cons]
      omega

theorem searchBound_eq (t : FileTree) : searchBound t = 2 + t.allSteps := by
  refine foldl_eq_add_sum (fun n e => ?_) t.entries 2
  obtain ⟨place, entry⟩ := e
  cases entry with
  | directory => rfl
  | file content => exact Nat.add_assoc ..

/-! ## The relation -/

/-- A file whose text refers to another. -/
def RefersTo (t : FileTree) (l : Layout) (p q : Path) : Prop :=
  ∃ text, t.readText p = .ok text ∧
    ∃ ref ∈ references text, resolveReference t l p ref.target = .ok (some q)

/-- A file that can be read as a text. -/
def FileTree.Readable (t : FileTree) (p : Path) : Prop :=
  ∃ text, t.readText p = .ok text

/-- The references of a text in the file `p` can all be resolved, whether they lead
anywhere or not. -/
def Resolvable (t : FileTree) (l : Layout) (p : Path) (refs : List Reference) : Prop :=
  ∀ ref ∈ refs, ∃ target, resolveReference t l p ref.target = .ok target

/-! ## Where references lead -/

section Targets

variable {t : FileTree} {l : Layout}

/-- What is found first is a file, and is one of the paths when resolved. -/
theorem mem_of_firstFile {paths : List Path} {q : Path}
    (hfound : firstFile t paths = .ok (some q)) :
    ∃ c ∈ paths, c.resolved = .ok q ∧ t.isFile q = .ok true := by
  induction paths with
  | nil => cases hfound
  | cons p rest ih =>
      unfold firstFile at hfound
      cases hresolved : p.resolved with
      | error => rw [hresolved] at hfound; cases hfound
      | ok resolved =>
          rw [hresolved] at hfound
          cases hfile : t.isFile resolved with
          | error => simp [Except.mapError, bind, Except.bind, hfile] at hfound
          | ok isFile =>
              simp only [Except.mapError, bind, Except.bind, hfile] at hfound
              cases isFile with
              | false =>
                  obtain ⟨c, hc, hq⟩ := ih hfound
                  exact ⟨c, List.mem_cons_of_mem _ hc, hq⟩
              | true =>
                  cases hfound
                  exact ⟨p, List.mem_cons_self .., hresolved, hfile⟩

theorem isCanonical_of_firstFile {paths : List Path} {q : Path}
    (hfound : firstFile t paths = .ok (some q)) : q.IsCanonical := by
  obtain ⟨c, -, hresolved, -⟩ := mem_of_firstFile hfound
  exact Path.isCanonical_of_resolved hresolved

theorem RefersTo.isCanonical {p q : Path} (hrefers : RefersTo t l p q) : q.IsCanonical := by
  obtain ⟨_, _, _, _, htarget⟩ := hrefers
  exact isCanonical_of_firstFile htarget

/-- The files that references in `p` lead to, in order. -/
def targets (t : FileTree) (l : Layout) (p : Path) (refs : List Reference) : List Path :=
  refs.filterMap fun ref =>
    match resolveReference t l p ref.target with
    | .ok target => target
    | .error _ => none

theorem mem_targets {p q : Path} {refs : List Reference} :
    q ∈ targets t l p refs ↔
      ∃ ref ∈ refs, resolveReference t l p ref.target = .ok (some q) := by
  unfold targets
  rw [List.mem_filterMap]
  refine exists_congr fun ref => and_congr_right fun _ => ?_
  split
  · rename_i target htarget
    simp [htarget]
  · rename_i htarget
    simp [htarget]

theorem length_targets_le {p : Path} {refs : List Reference} :
    (targets t l p refs).length ≤ refs.length :=
  List.length_filterMap_le ..

theorem mem_targets_references {p q : Path} {text : List Char} (hread : t.readText p = .ok text) :
    q ∈ targets t l p (references text) ↔ RefersTo t l p q := by
  rw [mem_targets]
  constructor
  · rintro ⟨ref, href, htarget⟩
    exact ⟨text, hread, ref, href, htarget⟩
  · rintro ⟨text', hread', ref, href, htarget⟩
    rw [hread] at hread'
    cases hread'
    exact ⟨ref, href, htarget⟩

end Targets

/-! ## Recording files -/

namespace Dependencies

variable {l : Layout} {d : Dependencies} {paths : List Path}

/-- The files recorded under a kind.  Pages are not recorded. -/
def ofKind (d : Dependencies) : RootKind → List Path
  | .page => []
  | .component => d.components
  | .element => d.elements

@[simp] theorem ofKind_with_visited (visited : List Path) (kind : RootKind) :
    { d with visited := visited }.ofKind kind = d.ofKind kind := by
  cases kind <;> rfl

/-- Records files, each under its kind. -/
def record (l : Layout) (d : Dependencies) (paths : List Path) : Dependencies :=
  paths.foldl (fun d p => d.add (l.kindOf p) p) d

@[simp] theorem visited_add {kind : Option RootKind} {p : Path} :
    (d.add kind p).visited = d.visited := by
  unfold add
  split
  · split <;> rfl
  · split <;> rfl
  · rfl

/-- Recording a file changes the list of its kind alone, and not if it is there. -/
theorem ofKind_add {found : Option RootKind} {kind : RootKind} {p : Path} (hkind : kind ≠ .page) :
    (d.add found p).ofKind kind =
      if found = some kind ∧ p ∉ d.ofKind kind then d.ofKind kind ++ [p] else d.ofKind kind := by
  unfold add
  split
  · by_cases hmem : p ∈ d.components <;> cases kind <;> simp_all [ofKind]
  · by_cases hmem : p ∈ d.elements <;> cases kind <;> simp_all [ofKind]
  · rename_i hcomponent helement
    have hfound : found ≠ some kind := by
      cases kind
      · exact absurd rfl hkind
      · exact hcomponent
      · exact helement
    rw [if_neg fun h => hfound h.1]

@[simp] theorem visited_record : (d.record l paths).visited = d.visited := by
  unfold record
  induction paths generalizing d with
  | nil => rfl
  | cons p rest ih => rw [List.foldl_cons, ih, visited_add]

theorem mem_ofKind_record {kind : RootKind} {q : Path} (hkind : kind ≠ .page) :
    q ∈ (d.record l paths).ofKind kind ↔
      q ∈ d.ofKind kind ∨ q ∈ paths ∧ Path.isUnder (l.rootOf kind) q := by
  unfold record
  induction paths generalizing d with
  | nil => simp
  | cons p rest ih =>
      have hadd : q ∈ (d.add (l.kindOf p) p).ofKind kind ↔
          q ∈ d.ofKind kind ∨ q = p ∧ Path.isUnder (l.rootOf kind) q := by
        rw [ofKind_add hkind]
        split
        · rename_i hp
          have hunder := Layout.kindOf_eq_some_iff.1 hp.1
          rw [List.mem_append, List.mem_singleton]
          exact or_congr_right ⟨fun h => ⟨h, h ▸ hunder⟩, And.left⟩
        · rename_i hp
          refine ⟨Or.inl, fun h => h.elim id fun h => ?_⟩
          obtain ⟨rfl, hunder⟩ := h
          exact not_not.1 fun hmem => hp ⟨Layout.kindOf_eq_some_iff.2 hunder, hmem⟩
      rw [List.foldl_cons, ih, hadd, List.mem_cons]
      tauto

theorem nodup_ofKind_record {kind : RootKind} (hkind : kind ≠ .page)
    (hnodup : (d.ofKind kind).Nodup) : ((d.record l paths).ofKind kind).Nodup := by
  unfold record
  induction paths generalizing d with
  | nil => exact hnodup
  | cons p rest ih =>
      rw [List.foldl_cons]
      refine ih ?_
      rw [ofKind_add hkind]
      split
      · rename_i hp
        rw [← List.concat_eq_append]
        exact hnodup.concat hp.2
      · exact hnodup

end Dependencies

/-! ## One step -/

section Steps

variable {t : FileTree} {l : Layout} {log : List Record}

/-- All targets are recorded and made pending, the last one on top, unless a reference
cannot be resolved. -/
theorem followReferences_spec {current : Path} {refs : List Reference} {search : Search} :
    Ends (followReferences l current refs search) ⟨t, log⟩
      (fun search' s => s.files = t ∧ search' =
        { search with
          pending := (targets t l current refs).reverse ++ search.pending
          found := search.found.record l (targets t l current refs) })
      fun _ _ => ¬ Resolvable t l current refs := by
  induction refs generalizing search log with
  | nil => exact ends_pure.2 ⟨rfl, rfl⟩
  | cons ref rest ih =>
      have hrest : ¬ Resolvable t l current rest → ¬ Resolvable t l current (ref :: rest) :=
        fun hnot hall => hnot fun r hr => hall r (List.mem_cons_of_mem _ hr)
      unfold followReferences
      simp only [ends_bind, Action.ends_files, Action.ends_orRaise]
      cases htarget : resolveReference t l current ref.target with
      | error cause =>
          intro hall
          obtain ⟨target, hresolved⟩ := hall ref (List.mem_cons_self ..)
          rw [htarget] at hresolved
          cases hresolved
      | ok target =>
          dsimp only
          cases target with
          | none =>
              have htargets : targets t l current (ref :: rest) = targets t l current rest := by
                simp [targets, htarget]
              rw [htargets]
              simp only [ends_bind, Action.ends_debug]
              exact ih.mono (fun _ _ h => h) fun _ _ => hrest
          | some q =>
              have htargets :
                  targets t l current (ref :: rest) = q :: targets t l current rest := by
                simp [targets, htarget]
              rw [htargets]
              refine ih.mono (fun search' s h => ⟨h.1, ?_⟩) fun _ _ => hrest
              rw [h.2]
              simp [Dependencies.record]

/-- How a search goes on when `current` is looked at: it was seen, or cannot be
read, or its targets become pending. -/
inductive StepsTo (t : FileTree) (l : Layout) (search : Search) (current : Path)
    (pending : List Path) : Search → Prop
  | known (hseen : current ∈ search.seen) :
      StepsTo t l search current pending { search with pending := pending }
  | unreadable (hseen : current ∉ search.seen) (hread : ¬ t.Readable current) :
      StepsTo t l search current pending
        { search with pending := pending, seen := current :: search.seen }
  | followed (hseen : current ∉ search.seen) {text : List Char}
      (hread : t.readText current = .ok text) :
      StepsTo t l search current pending
        { pending := (targets t l current (references text)).reverse ++ pending
          seen := current :: search.seen
          found := { search.found with visited := search.found.visited ++ [current] }.record l
            (targets t l current (references text)) }

theorem searchStep_spec {search : Search} {next current : Path} {pending : List Path}
    (hnext : next.resolved = .ok current) :
    Ends (searchStep l search next pending) ⟨t, log⟩
      (fun search' s => s.files = t ∧ StepsTo t l search current pending search')
      fun _ _ => ¬ ∀ text, t.readText current = .ok text →
        Resolvable t l current (references text) := by
  have hcanonical : current.IsCanonical := Path.isCanonical_of_resolved hnext
  unfold searchStep
  simp only [ends_bind, Action.ends_orRaise, hnext, Except.mapError]
  split
  · rename_i hseen
    exact ends_pure.2 ⟨rfl, .known hseen⟩
  · rename_i hseen
    simp only [ends_bind, Action.ends_files]
    split
    · rename_i cause hread
      rw [if_pos (FileTree.isReadFault_of_readText hcanonical hread)]
      simp only [ends_bind, Action.ends_debug, ends_pure]
      refine ⟨trivial, .unreadable hseen fun h => ?_⟩
      obtain ⟨text, htext⟩ := h
      rw [hread] at htext
      cases htext
    · rename_i text hread
      refine followReferences_spec.mono (fun search' s h => ⟨h.1, ?_⟩)
        fun _ _ hnot hall => hnot (hall text hread)
      rw [h.2]
      exact .followed hseen hread

end Steps

end Folio
