import Folio.Proofs.Scan.Step
import Mathlib.Logic.Relation

/-!
# The search for dependencies computes a closure

A search keeps paths that are pending and files that were seen.  Throughout,

* what is pending or seen is reachable from the entry,
* the files in the result are the readable ones among those seen,
* where such a file refers to is seen or pending, and is recorded under its kind.

When nothing is pending any more, the seen files are therefore those that are
reachable through readable files.  That this happens is a matter of counting: a
step takes one path away, and the paths that reading a file adds are paid for by
its bytes.

## Strategy

The invariant `Search.Sound` and the budget `Search.Affordable` are kept by every
step that `StepsTo` lists, and `runSearch_spec` carries both through the run.
-/

namespace Folio

open Text Source Relation

/-! ## The closure -/

/-- References lead from the file `root` to `p`, in any number of steps. -/
abbrev Reaches (t : FileTree) (l : Layout) (root p : Path) : Prop :=
  ReflTransGen (RefersTo t l) root p

theorem Reaches.isCanonical {t : FileTree} {l : Layout} {root p : Path}
    (hroot : root.IsCanonical) (hreaches : Reaches t l root p) : p.IsCanonical := by
  cases hreaches with
  | refl => exact hroot
  | tail _ hlast => exact hlast.isCanonical

/-- The dependencies are the closure of `root` under references: the readable files
that are reached, and whatever in the two roots these refer to. -/
structure Dependencies.IsClosure (t : FileTree) (l : Layout) (root : Path)
    (d : Dependencies) : Prop where
  visited_nodup : d.visited.Nodup
  mem_visited : ∀ p, p ∈ d.visited ↔ t.Readable p ∧ Reaches t l root p
  head_visited : t.Readable root → d.visited.head? = some root
  components_nodup : d.components.Nodup
  mem_components : ∀ p, p ∈ d.components ↔
    Path.isUnder l.components p ∧ ∃ q ∈ d.visited, RefersTo t l q p
  elements_nodup : d.elements.Nodup
  mem_elements : ∀ p, p ∈ d.elements ↔
    Path.isUnder l.elements p ∧ ∃ q ∈ d.visited, RefersTo t l q p

/-! ## The invariant -/

/-- A file that was seen, or will be. -/
def Search.Due (search : Search) (q : Path) : Prop :=
  q ∈ search.seen ∨ ∃ p ∈ search.pending, p.resolved = .ok q

/-- What holds of a search that began with `entry`, which leads to the file `root`. -/
structure Search.Sound (t : FileTree) (l : Layout) (entry root : Path) (search : Search) :
    Prop where
  pending_reached : ∀ p ∈ search.pending, ∃ q, p.resolved = .ok q ∧ Reaches t l root q
  seen_reached : ∀ p ∈ search.seen, Reaches t l root p
  visited_nodup : search.found.visited.Nodup
  mem_visited : ∀ p, p ∈ search.found.visited ↔ p ∈ search.seen ∧ t.Readable p
  root_due : search.Due root
  target_due : ∀ p ∈ search.found.visited, ∀ q, RefersTo t l p q → search.Due q
  start_or_head : search.seen = [] ∧ search.pending = [entry] ∨
    (t.Readable root → search.found.visited.head? = some root)
  kind_nodup : ∀ kind ≠ .page, (search.found.ofKind kind).Nodup
  mem_kind : ∀ kind ≠ .page, ∀ p, p ∈ search.found.ofKind kind ↔
    Path.isUnder (l.rootOf kind) p ∧ ∃ q ∈ search.found.visited, RefersTo t l q p

namespace Search

variable {t : FileTree} {l : Layout} {entry root : Path}

theorem sound_start (hentry : entry.resolved = .ok root) :
    Sound t l entry root ⟨[entry], [], Dependencies.empty⟩ where
  pending_reached p hp := by
    obtain rfl := List.mem_singleton.1 hp
    exact ⟨root, hentry, .refl⟩
  seen_reached p hp := absurd hp List.not_mem_nil
  visited_nodup := List.nodup_nil
  mem_visited p := by simp [Dependencies.empty]
  root_due := Or.inr ⟨entry, List.mem_singleton.2 rfl, hentry⟩
  target_due p hp := absurd hp List.not_mem_nil
  start_or_head := Or.inl ⟨rfl, rfl⟩
  kind_nodup kind _ := by cases kind <;> exact List.nodup_nil
  mem_kind kind _ p := by cases kind <;> simp [Dependencies.ofKind, Dependencies.empty]

variable {search search' : Search} {next current : Path} {pending : List Path}

/-- What was due before a step is due after it: the path looked at is seen, and all
else stays. -/
theorem Due.step (hpending : search.pending = next :: pending)
    (hnext : next.resolved = .ok current) (hstep : StepsTo t l search current pending search')
    {q : Path} (hdue : search.Due q) : search'.Due q := by
  have hcases : q ∈ search.seen ∨ q = current ∨ ∃ p ∈ pending, p.resolved = .ok q := by
    rcases hdue with hseen | ⟨p, hp, hresolved⟩
    · exact Or.inl hseen
    · rw [hpending] at hp
      rcases List.mem_cons.1 hp with rfl | hp
      · rw [hnext] at hresolved
        cases hresolved
        exact Or.inr (Or.inl rfl)
      · exact Or.inr (Or.inr ⟨p, hp, hresolved⟩)
  cases hstep with
  | known hseen =>
      rcases hcases with h | rfl | h
      · exact Or.inl h
      · exact Or.inl hseen
      · exact Or.inr h
  | unreadable =>
      rcases hcases with h | rfl | h
      · exact Or.inl (List.mem_cons_of_mem _ h)
      · exact Or.inl (List.mem_cons_self ..)
      · exact Or.inr h
  | followed =>
      rcases hcases with h | rfl | ⟨p, hp, hresolved⟩
      · exact Or.inl (List.mem_cons_of_mem _ h)
      · exact Or.inl (List.mem_cons_self ..)
      · exact Or.inr ⟨p, List.mem_append_right _ hp, hresolved⟩

/-- The path looked at leads to a file that is reached. -/
theorem Sound.current_reached (hsound : search.Sound t l entry root)
    (hpending : search.pending = next :: pending) (hnext : next.resolved = .ok current) :
    Reaches t l root current := by
  obtain ⟨q, hq, hreached⟩ := hsound.pending_reached next (by simp [hpending])
  rw [hnext] at hq
  cases hq
  exact hreached

/-- At the start of a search, the path looked at is the entry. -/
theorem Sound.start_or_head_of_not_mem (hsound : search.Sound t l entry root)
    (hentry : entry.resolved = .ok root) (hpending : search.pending = next :: pending)
    (hnext : next.resolved = .ok current) :
    search.found.visited = [] ∧ current = root ∨
      (t.Readable root → search.found.visited.head? = some root) := by
  rcases hsound.start_or_head with ⟨hseen, hstart⟩ | hhead
  · left
    constructor
    · refine List.eq_nil_iff_forall_not_mem.2 fun p hp => ?_
      have hpseen := ((hsound.mem_visited p).1 hp).1
      rw [hseen] at hpseen
      exact List.not_mem_nil hpseen
    · rw [hpending] at hstart
      cases hstart
      rw [hnext] at hentry
      cases hentry
      rfl
  · exact Or.inr hhead

/-- A step keeps the invariant. -/
theorem Sound.step (hsound : search.Sound t l entry root) (hentry : entry.resolved = .ok root)
    (hpending : search.pending = next :: pending) (hnext : next.resolved = .ok current)
    (hstep : StepsTo t l search current pending search') : search'.Sound t l entry root := by
  have hdue : ∀ {q}, search.Due q → search'.Due q := Due.step hpending hnext hstep
  have hrest : ∀ p ∈ pending, ∃ q, p.resolved = .ok q ∧ Reaches t l root q := fun p hp =>
    hsound.pending_reached p (by simp [hpending, hp])
  have hreached := hsound.current_reached hpending hnext
  have hhead := hsound.start_or_head_of_not_mem hentry hpending hnext
  cases hstep with
  | known hseen =>
      refine { hsound with
        pending_reached := hrest
        root_due := hdue hsound.root_due
        target_due := fun p hp q hrefers => hdue (hsound.target_due p hp q hrefers)
        start_or_head := Or.inr fun hreadable => ?_ }
      rcases hhead with ⟨hvisited, rfl⟩ | hhead
      · have hmem := (hsound.mem_visited current).2 ⟨hseen, hreadable⟩
        rw [hvisited] at hmem
        exact absurd hmem List.not_mem_nil
      · exact hhead hreadable
  | unreadable hseen hread =>
      refine { hsound with
        pending_reached := hrest
        seen_reached := fun p hp => ?_
        mem_visited := fun p => ?_
        root_due := hdue hsound.root_due
        target_due := fun p hp q hrefers => hdue (hsound.target_due p hp q hrefers)
        start_or_head := Or.inr fun hreadable => ?_ }
      · rcases List.mem_cons.1 hp with rfl | hp
        · exact hreached
        · exact hsound.seen_reached p hp
      · rw [hsound.mem_visited, List.mem_cons]
        refine and_congr_left fun hreadable => ⟨Or.inr, fun h => h.resolve_left ?_⟩
        rintro rfl
        exact hread hreadable
      · rcases hhead with ⟨-, rfl⟩ | hhead
        · exact absurd hreadable hread
        · exact hhead hreadable
  | @followed hseen text hread =>
      have hreadable : t.Readable current := ⟨text, hread⟩
      have hfresh : current ∉ search.found.visited := fun h =>
        hseen ((hsound.mem_visited current).1 h).1
      have hvisited : ∀ p, p ∈ search.found.visited ++ [current] ↔
          p ∈ search.found.visited ∨ p = current := by simp
      refine
        { pending_reached := fun p hp => ?_
          seen_reached := fun p hp => ?_
          visited_nodup := ?_
          mem_visited := fun p => ?_
          root_due := hdue hsound.root_due
          target_due := fun p hp q hrefers => ?_
          start_or_head := Or.inr fun hroot => ?_
          kind_nodup := fun kind hkind => ?_
          mem_kind := fun kind hkind p => ?_ }
      · rcases List.mem_append.1 hp with hp | hp
        · have hrefers := (mem_targets_references hread).1 (List.mem_reverse.1 hp)
          exact ⟨p, hrefers.isCanonical.resolved_eq, hreached.tail hrefers⟩
        · exact hrest p hp
      · rcases List.mem_cons.1 hp with rfl | hp
        · exact hreached
        · exact hsound.seen_reached p hp
      · rw [Dependencies.visited_record, ← List.concat_eq_append]
        exact hsound.visited_nodup.concat hfresh
      · rw [Dependencies.visited_record, hvisited, hsound.mem_visited, List.mem_cons]
        constructor
        · rintro (⟨hp, hpread⟩ | rfl)
          · exact ⟨Or.inr hp, hpread⟩
          · exact ⟨Or.inl rfl, hreadable⟩
        · rintro ⟨rfl | hp, hpread⟩
          · exact Or.inr rfl
          · exact Or.inl ⟨hp, hpread⟩
      · rw [Dependencies.visited_record, hvisited] at hp
        rcases hp with hp | rfl
        · exact hdue (hsound.target_due p hp q hrefers)
        · refine Or.inr ⟨q, List.mem_append_left _ (List.mem_reverse.2 ?_),
            hrefers.isCanonical.resolved_eq⟩
          exact (mem_targets_references hread).2 hrefers
      · rw [Dependencies.visited_record]
        rcases hhead with ⟨hnone, rfl⟩ | hhead
        · simp [hnone]
        · simp [hhead hroot]
      · refine Dependencies.nodup_ofKind_record hkind ?_
        rw [Dependencies.ofKind_with_visited]
        exact hsound.kind_nodup kind hkind
      · rw [Dependencies.mem_ofKind_record hkind, Dependencies.ofKind_with_visited,
          hsound.mem_kind kind hkind, Dependencies.visited_record,
          mem_targets_references hread]
        simp only [hvisited, or_and_right, exists_or, exists_eq_left]
        rw [and_or_left, @and_comm (RefersTo t l current p)]

/-! ## The budget -/

/-- What `fuel` must be for a search: a step for each pending path, and those that
the files not read yet may still ask for. -/
def Affordable (t : FileTree) (fuel : Nat) (search : Search) : Prop :=
  search.pending.length + t.allSteps <
    fuel + (search.found.visited.map fun p => t.stepsAt p.parts).sum

theorem affordable_start : Affordable t (searchBound t) ⟨[entry], [], Dependencies.empty⟩ := by
  rw [searchBound_eq]
  show 1 + t.allSteps < 2 + t.allSteps + 0
  omega

/-- Files read once do not ask for more than there is. -/
theorem Sound.sum_stepsAt_le (hsound : search.Sound t l entry root) (hroot : root.IsCanonical) :
    (search.found.visited.map fun p => t.stepsAt p.parts).sum ≤ t.allSteps := by
  have hcanonical : ∀ p ∈ search.found.visited, p.IsCanonical := fun p hp =>
    (hsound.seen_reached p ((hsound.mem_visited p).1 hp).1).isCanonical hroot
  have hnodup : (search.found.visited.map Path.parts).Nodup :=
    hsound.visited_nodup.map_on fun p hp q hq h => (hcanonical p hp).ext (hcanonical q hq) h
  simpa [List.map_map, Function.comp_def] using FileTree.sum_stepsAt_le hnodup

theorem Affordable.step {fuel : Nat} (haffordable : search.Affordable t (fuel + 1))
    (hpending : search.pending = next :: pending) (hnext : next.resolved = .ok current)
    (hstep : StepsTo t l search current pending search') : search'.Affordable t fuel := by
  unfold Affordable at haffordable ⊢
  rw [hpending, List.length_cons] at haffordable
  cases hstep with
  | known => dsimp only; omega
  | unreadable => dsimp only; omega
  | @followed hseen text hread =>
      have hpaid : (targets t l current (references text)).length < t.stepsAt current.parts :=
        calc (targets t l current (references text)).length
            ≤ (references text).length := length_targets_le
          _ ≤ text.length := length_references_le text
          _ < t.stepsAt current.parts :=
            FileTree.length_lt_stepsAt (Path.isCanonical_of_resolved hnext) hread
      rw [Dependencies.visited_record, List.map_append, List.sum_append, List.length_append,
        List.length_reverse, List.map_singleton, List.sum_singleton]
      omega

end Search

/-! ## The run -/

section

variable {t : FileTree} {l : Layout} {entry root : Path}

/-- A run that can afford its steps ends with nothing pending, unless it comes to a
reference that cannot be resolved. -/
theorem runSearch_spec (hentry : entry.resolved = .ok root) {fuel : Nat} {search : Search}
    {log : List Record} (hsound : search.Sound t l entry root)
    (haffordable : search.Affordable t fuel) :
    Ends (runSearch l fuel search) ⟨t, log⟩
      (fun search' s => s.files = t ∧ search'.Sound t l entry root ∧ search'.pending = [])
      fun _ _ => ¬ ∀ p text, Reaches t l root p → t.readText p = .ok text →
        Resolvable t l p (references text) := by
  induction fuel generalizing search log with
  | zero =>
      have hspent := hsound.sum_stepsAt_le (Path.isCanonical_of_resolved hentry)
      unfold Search.Affordable at haffordable
      omega
  | succ fuel ih =>
      unfold runSearch
      split
      · rename_i hpending
        exact ends_pure.2 ⟨rfl, hsound, hpending⟩
      · rename_i next pending hpending
        obtain ⟨current, hnext, hreached⟩ :=
          hsound.pending_reached next (hpending ▸ List.mem_cons_self ..)
        rw [ends_bind]
        refine (searchStep_spec hnext).mono (fun search' s h => ?_)
          fun _ _ hnot hall => hnot fun text => hall current text hreached
        obtain ⟨files, log'⟩ := s
        obtain ⟨rfl, hstep⟩ := h
        exact ih (hsound.step hentry hpending hnext hstep)
          (haffordable.step hpending hnext hstep)

/-- When nothing is pending, all that is reached was seen. -/
theorem Search.Sound.mem_seen {search : Search} (hsound : search.Sound t l entry root)
    (hpending : search.pending = []) {p : Path} (hreaches : Reaches t l root p) :
    p ∈ search.seen := by
  have hseen : ∀ {q}, search.Due q → q ∈ search.seen := by
    rintro q (hq | ⟨p, hp, -⟩)
    · exact hq
    · rw [hpending] at hp
      exact absurd hp List.not_mem_nil
  induction hreaches with
  | refl => exact hseen hsound.root_due
  | tail _ hlast ih =>
      have hreadable : t.Readable _ := hlast.imp fun _ h => h.1
      exact hseen (hsound.target_due _ ((hsound.mem_visited _).2 ⟨ih, hreadable⟩) _ hlast)

theorem Search.Sound.isClosure {search : Search} (hsound : search.Sound t l entry root)
    (hpending : search.pending = []) : search.found.IsClosure t l root where
  visited_nodup := hsound.visited_nodup
  mem_visited p := by
    rw [hsound.mem_visited, and_comm]
    exact and_congr_right fun _ => ⟨hsound.seen_reached p, hsound.mem_seen hpending⟩
  head_visited hreadable := by
    rcases hsound.start_or_head with ⟨-, hstart⟩ | hhead
    · rw [hpending] at hstart
      cases hstart
    · exact hhead hreadable
  components_nodup := hsound.kind_nodup .component (by decide)
  mem_components := hsound.mem_kind .component (by decide)
  elements_nodup := hsound.kind_nodup .element (by decide)
  mem_elements := hsound.mem_kind .element (by decide)

/-- If no reference in a file that is reached fails to be resolved, the search comes
to an end by itself, leaves the files as they are, and its result is the closure of
the entry under references. -/
theorem scan_eq_closure (log : List Record) (hentry : entry.resolved = .ok root)
    (hresolve : ∀ p text, Reaches t l root p → t.readText p = .ok text →
      Resolvable t l p (references text)) :
    ∃ search log',
      (runSearch l (searchBound t) ⟨[entry], [], Dependencies.empty⟩).run.run ⟨t, log⟩ =
        (.ok search, ⟨t, log'⟩) ∧
      search.pending = [] ∧
      (scan l entry).run.run ⟨t, log⟩ = (.ok search.found, ⟨t, log'⟩) ∧
      search.found.IsClosure t l root := by
  have hends : Ends (runSearch l _ ⟨[entry], [], Dependencies.empty⟩) ⟨t, log⟩ _ _ :=
    (runSearch_spec hentry (Search.sound_start hentry) Search.affordable_start).mono
      (fun _ _ h => h) fun _ _ hnot => hnot hresolve
  obtain ⟨search, ⟨files, log'⟩, hrun, rfl, hsound, hpending⟩ := hends.exists_ok
  refine ⟨search, log', hrun, hpending, ?_, hsound.isClosure hpending⟩
  have hscan : Ends (scan l entry) ⟨files, log⟩
      (fun d s => d = search.found ∧ s = ⟨files, log'⟩) fun _ _ => False := by
    unfold scan
    simp only [ends_bind, Action.ends_files, ends_pure]
    exact .ok hrun ⟨rfl, rfl⟩
  obtain ⟨d, s, hscanned, rfl, rfl⟩ := hscan.exists_ok
  exact hscanned

end

/-- A page that includes a component which includes itself and a file that is not there. -/
def selfIncluding : FileTree :=
  ⟨[(["pages"], .directory), (["pages", "p"], .file "\x7b% include \"a\" %\x7d".toUTF8),
    (["components"], .directory),
    (["components", "a"], .file "\x7b% include \"a\" %\x7d\x7b% include \"b\" %\x7d".toUTF8)]⟩

/-- A space whose templates lie in the root directory. -/
def topLayout : Layout :=
  ⟨Path.top, Path.top, ⟨.root, ["out"]⟩⟩

theorem scan_eq_closure_selfIncluding :
    ∃ search log',
      (runSearch topLayout (searchBound selfIncluding)
          ⟨[⟨.root, ["pages", "p"]⟩], [], Dependencies.empty⟩).run.run ⟨selfIncluding, []⟩ =
        (.ok search, ⟨selfIncluding, log'⟩) ∧
      search.pending = [] ∧
      (scan topLayout ⟨.root, ["pages", "p"]⟩).run.run ⟨selfIncluding, []⟩ =
        (.ok search.found, ⟨selfIncluding, log'⟩) ∧
      search.found.IsClosure selfIncluding topLayout ⟨.root, ["pages", "p"]⟩ := by
  let page : Path := ⟨.root, ["pages", "p"]⟩
  let component : Path := ⟨.root, ["components", "a"]⟩
  have hpage : selfIncluding.readText page = .ok "\x7b% include \"a\" %\x7d".toList := by
    decide +kernel
  have hcomponent : selfIncluding.readText component =
      .ok "\x7b% include \"a\" %\x7d\x7b% include \"b\" %\x7d".toList := by decide +kernel
  have hleads : ∀ p text, p = page ∨ p = component → selfIncluding.readText p = .ok text →
      ∀ ref ∈ references text,
        resolveReference selfIncluding topLayout p ref.target = .ok none ∨
          resolveReference selfIncluding topLayout p ref.target = .ok (some component) := by
    rintro p text (rfl | rfl) hread
    · cases hpage.symm.trans hread
      decide +kernel
    · cases hcomponent.symm.trans hread
      decide +kernel
  have hreached : ∀ {p}, Reaches selfIncluding topLayout page p → p = page ∨ p = component := by
    intro p hreaches
    induction hreaches with
    | refl => exact Or.inl rfl
    | tail _ hlast ih =>
        obtain ⟨text, hread, ref, href, htarget⟩ := hlast
        have hlead := hleads _ text ih hread ref href
        rw [htarget] at hlead
        exact Or.inr (by simpa using hlead)
  exact scan_eq_closure [] (by decide) fun p text hreaches hread ref href =>
    (hleads p text (hreached hreaches) hread ref href).elim (fun h => ⟨none, h⟩) fun h => ⟨_, h⟩

end Folio
