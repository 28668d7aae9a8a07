import Folio.Proofs.Scan.Provenance

/-!
# How looking a file up ends

The texts of references and of targets are whatever their authors have written: of any length,
with any characters in them and any number of steps up.  A reference is looked for at four
places, a target at one or two.  Looking comes to the first place with a file, or to nothing.

It fails in three ways.  A text with a null character is no path.  A target without an ending
that leads to the root directory has no name to be completed.  And the file system refuses to
say what is at a place if the path to it, or a name on the way, is too long; this ends the search
unless it has come to a file before (`Barred`).

For each way there is a condition on the text and on the files, and nothing else makes a look-up
fail (`resolution_ends`).
-/

namespace Folio

open Text FileTree

variable {t : FileTree} {l : Layout} {current base p : Path} {places : List Path}
  {target : List Char}

/-! ## Paths that are too long -/

namespace FileTree

/-- A path that the file system does not follow to its end: it is too long, or it has a name
that is too long and leads to a directory before that name. -/
def Refuses (t : FileTree) (p : Path) : Prop :=
  maxPathBytes ≤ p.toString.utf8ByteSize ∨
    ∃ front name rest, p.parts = front ++ name :: rest ∧
      t.entry? front = some .directory ∧ maxNameBytes < name.utf8ByteSize

/-- A way breaks off at a name that is too long if there is a directory to look for it in. -/
theorem walk_eq_tooLong_iff (ht : t.WellFormed) {start : Place} {names : List String}
    (hup : ".." ∉ names) :
    t.walk start names = .error .nameTooLong ↔
      ∃ front name rest, names = front ++ name :: rest ∧
        t.entry? (start ++ front) = some .directory ∧ maxNameBytes < name.utf8ByteSize := by
  induction names generalizing start with
  | nil => simp [walk]
  | cons first others ih =>
      have hfirst : first ≠ ".." := fun h => hup (by simp [h])
      have hothers := @ih (start ++ [first]) fun h => hup (List.mem_cons_of_mem _ h)
      by_cases hstart : t.entry? start = some .directory
      · unfold walk
        rw [hstart]
        dsimp only
        rw [if_neg hfirst]
        split
        · rename_i hlong
          exact ⟨fun _ => ⟨[], first, others, rfl, by simpa using hstart, hlong⟩, fun _ => rfl⟩
        · rename_i hshort
          rw [hothers]
          constructor
          · rintro ⟨front, name, rest, rfl, hdirectory, hlong⟩
            exact ⟨first :: front, name, rest, rfl, by simpa using hdirectory, hlong⟩
          · rintro ⟨front, name, rest, hnames, hdirectory, hlong⟩
            cases front with
            | nil =>
                obtain ⟨rfl, rfl⟩ := List.cons_eq_cons.1 hnames
                exact absurd hlong hshort
            | cons _ front =>
                obtain ⟨rfl, rfl⟩ := List.cons_eq_cons.1 hnames
                exact ⟨front, name, rest, rfl, by simpa using hdirectory, hlong⟩
      · -- Below a place that is no directory there is none.
        have hbelow : ∀ front, t.entry? (start ++ front) ≠ some .directory := by
          intro front hdirectory
          by_cases hfront : front = []
          · exact hstart (by simpa [hfront] using hdirectory)
          · exact hstart (ht.entry?_above hfront (by rw [hdirectory]; simp))
        have hother : t.walk start (first :: others) ≠ .error .nameTooLong := by
          unfold walk
          split
          · simp
          · simp
          · rename_i hdirectory
            exact absurd hdirectory hstart
        constructor
        · exact fun h => absurd h hother
        · rintro ⟨front, -, -, -, hdirectory, -⟩
          exact absurd hdirectory (hbelow front)

theorem locate_eq_tooLong_iff (ht : t.WellFormed) (hp : p.IsCanonical) :
    t.locate p = .error .nameTooLong ↔ t.Refuses p := by
  have husable : p.parts.all Path.isUsable = true := List.all_eq_true.2 hp.usable
  have hwalk : t.walk [] p.parts = .error .nameTooLong ↔ _ := walk_eq_tooLong_iff ht hp.not_mem
  unfold locate Refuses
  rw [husable]
  by_cases hlong : maxPathBytes ≤ p.toString.utf8ByteSize
  · simp [hlong]
  · simpa [hlong] using hwalk

/-- What the file system says of a path: nothing if it refuses it, else whether there is a file
at its place. -/
theorem isFile_cases (ht : t.WellFormed) (hp : p.IsCanonical) :
    t.Refuses p ∧ t.isFile p = .error .nameTooLong ∨
      ¬ t.Refuses p ∧ t.IsFile p.parts ∧ t.isFile p = .ok true ∨
      ¬ t.Refuses p ∧ ¬ t.IsFile p.parts ∧ t.isFile p = .ok false := by
  rw [← locate_eq_tooLong_iff ht hp, ← probe_eq_tooLong_iff]
  rcases ht.probe_eq hp with hprobe | hprobe
  · right
    simp only [isFile, hprobe, IsFile]
    cases t.entry? p.parts with
    | none => simp [Except.map]
    | some entry => cases entry <;> simp [Except.map]
  · exact .inl ⟨hprobe, by rw [isFile, hprobe]; rfl⟩

end FileTree

/-! ## Searching some places -/

/-- Among some places, one that the file system refuses comes before any that has a file. -/
def Barred (t : FileTree) (places : List Path) : Prop :=
  ∃ front p rest, places = front ++ p :: rest ∧
    (∀ q ∈ front, ¬ t.IsFile q.parts) ∧ t.Refuses p

/-- What a search comes to: the first of the places that has a file, as a path from the root
without dots in the place of names, or nothing if there is none. -/
inductive Finds (t : FileTree) (places : List Path) : Option Path → Prop
  | nothing (hnone : ∀ p ∈ places, ¬ t.IsFile p.parts) : Finds t places none
  | first {front rest : List Path} {p : Path} (hplaces : places = front ++ p :: rest)
      (hfront : ∀ q ∈ front, ¬ t.IsFile q.parts) (hplain : p.IsPlain)
      (hfile : t.IsFile p.parts) : Finds t places (some p)

theorem not_barred_nil : ¬ Barred t [] := by
  rintro ⟨front, p, rest, hnil, -⟩
  simp at hnil

theorem barred_cons : Barred t (p :: places) ↔ t.Refuses p ∨ ¬ t.IsFile p.parts ∧ Barred t places := by
  constructor
  · rintro ⟨front, q, rest, hplaces, hfront, hrefuses⟩
    cases front with
    | nil =>
        obtain ⟨rfl, rfl⟩ := List.cons_eq_cons.1 hplaces
        exact .inl hrefuses
    | cons _ front =>
        obtain ⟨rfl, rfl⟩ := List.cons_eq_cons.1 hplaces
        obtain ⟨hfirst, hfront⟩ := List.forall_mem_cons.1 hfront
        exact .inr ⟨hfirst, front, q, rest, rfl, hfront, hrefuses⟩
  · rintro (hrefuses | ⟨hfirst, front, q, rest, rfl, hfront, hrefuses⟩)
    · exact ⟨[], p, places, rfl, by simp, hrefuses⟩
    · exact ⟨p :: front, q, rest, rfl, List.forall_mem_cons.2 ⟨hfirst, hfront⟩, hrefuses⟩

theorem Finds.cons {found : Option Path} (hfirst : ¬ t.IsFile p.parts)
    (h : Finds t places found) : Finds t (p :: places) found := by
  cases h with
  | nothing hnone => exact .nothing (List.forall_mem_cons.2 ⟨hfirst, hnone⟩)
  | first hplaces hfront hplain hfile =>
      exact .first (congrArg (p :: ·) hplaces) (List.forall_mem_cons.2 ⟨hfirst, hfront⟩) hplain hfile

/-- **A search through places** fails if one that is refused bars it, and only then. -/
theorem firstFile_ends (ht : t.WellFormed) (hplaces : ∀ p ∈ places, p.IsPlain) :
    Barred t places ∧ firstFile t places = .error (.file .nameTooLong) ∨
      ¬ Barred t places ∧ ∃ found, firstFile t places = .ok found ∧ Finds t places found := by
  induction places with
  | nil =>
      exact .inr ⟨not_barred_nil, none, rfl, .nothing (by simp)⟩
  | cons p rest ih =>
      obtain ⟨hp, hrest⟩ := List.forall_mem_cons.1 hplaces
      rw [barred_cons]
      unfold firstFile
      rw [hp.isCanonical.resolved_eq]
      simp only [Except.mapError, bind, Except.bind]
      rcases isFile_cases ht hp.isCanonical with
        ⟨hrefuses, hfile⟩ | ⟨hopen, hthere, hfile⟩ | ⟨hopen, hnone, hfile⟩
      · rw [hfile]
        exact .inl ⟨.inl hrefuses, rfl⟩
      · rw [hfile]
        have hbefore : ∀ q ∈ ([] : List Path), ¬ t.IsFile q.parts := by simp
        refine .inr ⟨?_, some p, rfl, .first rfl hbefore hp hthere⟩
        exact fun h => h.elim hopen fun h => h.1 hthere
      · rw [hfile]
        dsimp only
        rcases ih hrest with ⟨hbarred, hsearch⟩ | ⟨hclear, found, hsearch, hfinds⟩
        · exact .inl ⟨.inr ⟨hnone, hbarred⟩, hsearch⟩
        · exact .inr ⟨fun h => h.elim hopen fun h => hclear h.2, found, hsearch, hfinds.cons hnone⟩

/-! ## Texts read as paths -/

namespace Path

/-- A path is joined from names of the two, or is the second one. -/
theorem mem_join {name : String} (hname : name ∈ (base.join p).parts) :
    name ∈ base.parts ∨ name ∈ p.parts := by
  unfold join at hname
  split at hname
  · exact List.mem_append.1 hname
  · exact .inr hname

/-- A path can be used if it is read from a text without null characters. -/
theorem usable_join (hbase : ∀ name ∈ base.parts, isUsable name) (hnull : '\x00' ∉ target) :
    ∀ name ∈ (base.join (ofChars target)).parts, isUsable name :=
  fun name hname => (mem_join hname).elim (hbase name) (usable_ofChars hnull name)

theorem isRead_join (hbase : base.IsRead) : (base.join (ofChars target)).IsRead := by
  have htarget : (ofString (String.ofList target)).IsRead := isRead_ofString _
  rw [ofString, String.toList_ofList] at htarget
  exact fun name hname => (mem_join hname).elim (hbase name) (htarget name)

theorem isPlain_fromTop (hread : p.IsRead) (husable : ∀ name ∈ p.parts, isUsable name) :
    p.fromTop.IsPlain :=
  isPlain_of_resolve (fun _ h => absurd h List.not_mem_nil) hread (resolved_of_usable husable)

end Path

/-- Where paths lead does not depend on how they are spelled. -/
theorem firstFile_fromTop (husable : ∀ p ∈ places, ∀ name ∈ p.parts, Path.isUsable name) :
    firstFile t places = firstFile t (places.map Path.fromTop) := by
  induction places with
  | nil => rfl
  | cons p rest ih =>
      obtain ⟨hp, hrest⟩ := List.forall_mem_cons.1 husable
      have hresolved := Path.resolved_of_usable hp
      have hcanonical := Path.isCanonical_of_resolved hresolved
      rw [List.map_cons, firstFile, firstFile, hresolved, hcanonical.resolved_eq, ih hrest]

/-! ## How a look-up ends -/

/-- A look-up fails for the causes that it should fail for, and comes to what it should find
otherwise. -/
structure LooksUp (t : FileTree) (fault : Cause → Prop) (places : List Path)
    (outcome : Except Cause (Option Path)) : Prop where
  error_iff : ∀ cause, outcome = .error cause ↔ fault cause
  finds : (∀ cause, ¬ fault cause) → ∃ found, outcome = .ok found ∧ Finds t places found

namespace LooksUp

variable {fault : Cause → Prop} {outcome : Except Cause (Option Path)}

theorem of_error {cause : Cause} (houtcome : outcome = .error cause)
    (hfault : ∀ other, fault other ↔ other = cause) : LooksUp t fault places outcome where
  error_iff other := by
    rw [houtcome, hfault, Except.error.injEq, eq_comm]
  finds hnone := absurd ((hfault cause).2 rfl) (hnone cause)

theorem of_ok {found : Option Path} (houtcome : outcome = .ok found)
    (hfinds : Finds t places found) (hfault : ∀ cause, ¬ fault cause) :
    LooksUp t fault places outcome where
  error_iff cause := by
    rw [houtcome]
    exact ⟨fun h => (nomatch h), fun h => absurd h (hfault cause)⟩
  finds _ := ⟨found, houtcome, hfinds⟩

/-- A search that only a place can end that is refused. -/
theorem of_firstFile (ht : t.WellFormed) (hplaces : ∀ p ∈ places, p.IsPlain)
    (hfault : ∀ cause, fault cause ↔ cause = .file .nameTooLong ∧ Barred t places) :
    LooksUp t fault places (firstFile t places) := by
  rcases firstFile_ends ht hplaces with ⟨hbarred, hsearch⟩ | ⟨hclear, found, hsearch, hfinds⟩
  · refine of_error hsearch fun cause => ?_
    rw [hfault]
    exact and_iff_left hbarred
  · exact of_ok hsearch hfinds fun cause h => hclear ((hfault cause).1 h).2

end LooksUp

/-! ## References -/

/-- The places where a reference is looked for. -/
def Layout.referencePlaces (l : Layout) (current : Path) (target : List Char) : List Path :=
  (l.tried current target).map Path.fromTop

/-- What a reference cannot be resolved for. -/
inductive ReferenceFault (t : FileTree) (l : Layout) (current : Path) (target : List Char) :
    Cause → Prop
  | null (hnull : '\x00' ∈ target) : ReferenceFault t l current target .unusablePath
  | refused (hnull : '\x00' ∉ target) (hbarred : Barred t (l.referencePlaces current target)) :
      ReferenceFault t l current target (.file .nameTooLong)

/-- A file of which the path was read, and has no null character. -/
structure Path.IsReadable (p : Path) : Prop where
  isRead : p.IsRead
  usable : ∀ name ∈ p.parts, Path.isUsable name

theorem Path.IsPlain.isReadable (hp : p.IsPlain) : p.IsReadable :=
  ⟨hp.isRead, hp.isCanonical.usable⟩

theorem Path.IsReadable.parent (hp : p.IsReadable) : p.parent.IsReadable :=
  ⟨fun name hname => hp.isRead name (List.dropLast_subset _ hname),
    fun name hname => hp.usable name (List.dropLast_subset _ hname)⟩

/-- Every place that is tried for a reference is below a directory. -/
theorem Layout.exists_of_mem_tried (hl : l.WellFormed) (hcurrent : current.IsReadable)
    (hp : p ∈ l.tried current target) :
    ∃ directory : Path, directory.IsReadable ∧ p = directory.join (Path.ofChars target) := by
  obtain ⟨directory, hdirectory, rfl⟩ := List.mem_map.1 hp
  rcases List.mem_cons.1 hdirectory with rfl | hroot
  · exact ⟨_, hcurrent.parent, rfl⟩
  · exact ⟨directory, (isPlain_of_mem_searchRoots hl hroot).isReadable, rfl⟩

theorem resolveReference_looksUp (ht : t.WellFormed) (hl : l.WellFormed)
    (hcurrent : current.IsReadable) (target : List Char) :
    LooksUp t (ReferenceFault t l current target) (l.referencePlaces current target)
      (resolveReference t l current target) := by
  by_cases hnull : '\x00' ∈ target
  · refine .of_error (resolveReference_of_null hnull)
      fun cause => ⟨fun h => ?_, fun h => h ▸ .null hnull⟩
    cases h with
    | null => rfl
    | refused hfree => exact absurd hnull hfree
  · have husable : ∀ p ∈ l.tried current target, ∀ name ∈ p.parts, Path.isUsable name := by
      intro p hp
      obtain ⟨directory, hdirectory, rfl⟩ := Layout.exists_of_mem_tried hl hcurrent hp
      exact Path.usable_join hdirectory.usable hnull
    have hplain : ∀ p ∈ l.referencePlaces current target, p.IsPlain := by
      intro p hp
      obtain ⟨c, hc, rfl⟩ := List.mem_map.1 hp
      obtain ⟨directory, hdirectory, rfl⟩ := Layout.exists_of_mem_tried hl hcurrent hc
      exact Path.isPlain_fromTop (Path.isRead_join hdirectory.isRead) (husable _ hc)
    have houtcome : resolveReference t l current target =
        firstFile t (l.referencePlaces current target) := firstFile_fromTop husable
    rw [houtcome]
    refine .of_firstFile ht hplain fun cause => ⟨fun h => ?_, ?_⟩
    · cases h with
      | null h => exact absurd h hnull
      | refused _ hbarred => exact ⟨rfl, hbarred⟩
    · rintro ⟨rfl, hbarred⟩
      exact .refused hnull hbarred

/-! ## Targets of relationships -/

/-- A place with a name, or without an ending the places that its name is completed to. -/
def completions (base : Path) : List Path :=
  if base.suffix.isEmpty then
    pageSuffixes.filterMap fun suffix => base.withName? (base.name ++ suffix)
  else [base]

theorem Path.name_mem (hname : ¬ p.name.isEmpty) : p.name ∈ p.parts := by
  unfold name at hname ⊢
  cases hlast : p.parts.getLast? with
  | none =>
      rw [hlast] at hname
      exact absurd rfl hname
  | some last => exact List.mem_of_getLast? hlast

theorem isPlain_of_mem_completions (hbase : base.IsPlain) (hp : p ∈ completions base) :
    p.IsPlain := by
  unfold completions at hp
  split at hp
  · obtain ⟨suffix, hsuffix, hcompleted⟩ := List.mem_filterMap.1 hp
    unfold Path.withName? at hcompleted
    split at hcompleted
    · cases hcompleted
    · rename_i hname
      cases hcompleted
      obtain ⟨-, -, -, hslash, husable⟩ := hbase.names _ (Path.name_mem hname)
      refine ⟨hbase.anchor_eq, fun name h => ?_⟩
      rcases List.mem_append.1 h with h | h
      · exact hbase.names name (List.dropLast_subset _ h)
      · exact List.mem_singleton.1 h ▸ isFileName_append_suffix hslash husable hsuffix
  · exact List.mem_singleton.1 hp ▸ hbase

/-- The root directory has no name to be completed; every other place has one. -/
theorem withKnownSuffix_cases (t : FileTree) (hbase : base.IsPlain) :
    base = Path.top ∧ withKnownSuffix t base = .error .namelessPath ∨
      base ≠ Path.top ∧ withKnownSuffix t base = firstFile t (completions base) := by
  by_cases htop : base = Path.top
  · subst htop
    exact .inl ⟨rfl, rfl⟩
  · have hname : ¬ base.name.isEmpty := by
      intro hempty
      rcases List.eq_nil_or_concat base.parts with hparts | ⟨front, last, hparts⟩
      · exact htop (hbase.isCanonical.ext ⟨rfl, List.not_mem_nil, by simp [Path.top]⟩ hparts)
      · rw [List.concat_eq_append] at hparts
        rw [Path.name, hparts, List.getLast?_concat] at hempty
        exact (hbase.names last (by simp [hparts])).1 (by simpa using hempty)
    refine .inr ⟨htop, ?_⟩
    unfold withKnownSuffix completions
    rw [if_neg hname]
    split <;> rfl

/-- The path that a target is looked for from; none if it is empty, has an asterisk, or begins
at the root directory. -/
def Layout.targetStart? (l : Layout) (current : Path) (target : List Char) : Option Path :=
  if (unquote target).isEmpty || (unquote target).contains '*' then none
  else relationshipBase l current (unquote target)

/-- The places where a target is looked for. -/
def Layout.targetPlaces (l : Layout) (current : Path) (target : List Char) : List Path :=
  (l.targetStart? current target).elim [] fun start => completions start.fromTop

/-- What a target of a relationship cannot be resolved for. -/
inductive RelationshipFault (t : FileTree) (l : Layout) (current : Path) (target : List Char) :
    Cause → Prop
  | null (hstart : l.targetStart? current target ≠ none) (hnull : '\x00' ∈ unquote target) :
      RelationshipFault t l current target .unusablePath
  | nameless {start : Path} (hstart : l.targetStart? current target = some start)
      (hnull : '\x00' ∉ unquote target) (htop : start.fromTop = Path.top) :
      RelationshipFault t l current target .namelessPath
  | refused (hnull : '\x00' ∉ unquote target)
      (hbarred : Barred t (l.targetPlaces current target)) :
      RelationshipFault t l current target (.file .nameTooLong)

/-- A target is taken from a directory: the workspace, the templates or that of the page. -/
theorem Layout.exists_of_targetStart? (hl : l.WellFormed) (hw : l.workspace.IsPlain)
    (hcurrent : current.IsReadable) {start : Path}
    (hstart : l.targetStart? current target = some start) :
    ∃ directory : Path, directory.IsReadable ∧
      start = directory.join (Path.ofChars (unquote target)) := by
  unfold targetStart? at hstart
  split at hstart
  · cases hstart
  · unfold relationshipBase at hstart
    dsimp only at hstart
    split at hstart
    · cases hstart
      exact ⟨_, hw.isReadable, rfl⟩
    · split at hstart
      · cases hstart
        exact ⟨_, hl.templates.isReadable, rfl⟩
      · split at hstart
        · cases hstart
        · cases hstart
          exact ⟨_, hcurrent.parent, rfl⟩

theorem resolveRelationship_of_none (hstart : l.targetStart? current target = none) :
    resolveRelationship t l current target = .ok none := by
  unfold Layout.targetStart? at hstart
  unfold resolveRelationship
  dsimp only
  split
  · rfl
  · rename_i hwritten
    rw [if_neg hwritten] at hstart
    rw [hstart]

theorem resolveRelationship_of_some {start : Path}
    (hstart : l.targetStart? current target = some start) :
    resolveRelationship t l current target =
      (start.resolved.mapError Cause.ofUnusable).bind (withKnownSuffix t) := by
  unfold Layout.targetStart? at hstart
  unfold resolveRelationship
  dsimp only
  split
  · rename_i hempty
    rw [if_pos hempty] at hstart
    cases hstart
  · rename_i hwritten
    rw [if_neg hwritten] at hstart
    rw [hstart]
    rfl

theorem resolveRelationship_looksUp (ht : t.WellFormed) (hl : l.WellFormed)
    (hw : l.workspace.IsPlain) (hcurrent : current.IsReadable) (target : List Char) :
    LooksUp t (RelationshipFault t l current target) (l.targetPlaces current target)
      (resolveRelationship t l current target) := by
  cases hstart : l.targetStart? current target with
  | none =>
      have hplaces : l.targetPlaces current target = [] := by
        rw [Layout.targetPlaces, hstart, Option.elim_none]
      rw [resolveRelationship_of_none hstart, hplaces]
      refine .of_ok rfl (.nothing (by simp)) fun cause h => ?_
      cases h with
      | null hsome => exact hsome hstart
      | nameless hsome =>
          rw [hstart] at hsome
          cases hsome
      | refused _ hbarred =>
          rw [hplaces] at hbarred
          exact not_barred_nil hbarred
  | some start =>
      have hplaces : l.targetPlaces current target = completions start.fromTop := by
        rw [Layout.targetPlaces, hstart, Option.elim_some]
      obtain ⟨directory, hdirectory, hjoin⟩ := Layout.exists_of_targetStart? hl hw hcurrent hstart
      rw [resolveRelationship_of_some hstart, hplaces]
      by_cases hnull : '\x00' ∈ unquote target
      · have hresolved : start.resolved = .error .nullCharacter :=
          hjoin ▸ Path.resolved_join_of_null hnull
        rw [hresolved]
        refine .of_error rfl fun cause => ⟨fun h => ?_, ?_⟩
        · cases h with
          | null => rfl
          | nameless _ hfree => exact absurd hnull hfree
          | refused hfree => exact absurd hnull hfree
        · rintro rfl
          exact .null (by simp [hstart]) hnull
      · have husable : ∀ name ∈ start.parts, Path.isUsable name :=
          hjoin ▸ Path.usable_join hdirectory.usable hnull
        have hplain : start.fromTop.IsPlain :=
          Path.isPlain_fromTop (hjoin ▸ Path.isRead_join hdirectory.isRead) husable
        rw [Path.resolved_of_usable husable]
        simp only [Except.mapError, Except.bind]
        rcases withKnownSuffix_cases t hplain with ⟨htop, hsearch⟩ | ⟨hbelow, hsearch⟩
        · refine .of_error hsearch fun cause => ⟨fun h => ?_, ?_⟩
          · cases h with
            | null _ h => exact absurd h hnull
            | nameless => rfl
            | refused _ hbarred =>
                rw [hplaces, htop] at hbarred
                exact absurd hbarred not_barred_nil
          · rintro rfl
            exact .nameless hstart hnull htop
        · rw [hsearch]
          refine .of_firstFile ht (fun p => isPlain_of_mem_completions hplain)
            fun cause => ⟨fun h => ?_, ?_⟩
          · cases h with
            | null _ h => exact absurd h hnull
            | nameless hsome _ htop =>
                obtain rfl := Option.some.inj (hstart.symm.trans hsome)
                exact absurd htop hbelow
            | refused _ hbarred => exact ⟨rfl, hplaces ▸ hbarred⟩
          · rintro ⟨rfl, hbarred⟩
            exact .refused hnull (hplaces ▸ hbarred)

/-! ## Both -/

/-- **How looking up ends.**  Whatever a reference or a target says, looking it up fails for its
faults and for nothing else: a null character makes it no path, a target may come to the root
directory, which has no name to complete, and a place that is looked at may be refused before
a file is found.  Without such a fault it comes to the first of its places that has a file, a
path from the root with names that files can have, or to nothing. -/
theorem resolution_ends (ht : t.WellFormed) (hl : l.WellFormed) (hw : l.workspace.IsPlain)
    (hcurrent : current.IsReadable) (target : List Char) :
    LooksUp t (ReferenceFault t l current target) (l.referencePlaces current target)
        (resolveReference t l current target) ∧
      LooksUp t (RelationshipFault t l current target) (l.targetPlaces current target)
        (resolveRelationship t l current target) :=
  ⟨resolveReference_looksUp ht hl hcurrent target,
    resolveRelationship_looksUp ht hl hw hcurrent target⟩

/-- A page with another one beside it. -/
def besideFiles : FileTree :=
  ⟨[(["t"], .directory), (["t", "pages"], .directory),
    (["t", "pages", "about.html"], .file "about".toUTF8),
    (["t", "pages", "home.html"], .file "home".toUTF8)]⟩

/-- A look-up for each fault, and one for the page beside. -/
theorem resolution_ends_beside :
    resolveReference besideFiles .small ⟨.root, ["t", "pages", "home.html"]⟩ ['\x00'] =
        .error .unusablePath ∧
      resolveReference besideFiles .small ⟨.root, ["t", "pages", "home.html"]⟩
        (List.replicate 256 'a') = .error (.file .nameTooLong) ∧
      resolveRelationship besideFiles .small ⟨.root, ["t", "pages", "home.html"]⟩
        "../../../..".toList = .error .namelessPath ∧
      ∃ found, resolveRelationship besideFiles .small ⟨.root, ["t", "pages", "home.html"]⟩
          "about".toList = .ok found ∧
        Finds besideFiles [⟨.root, ["t", "pages", "about.tmpl"]⟩,
          ⟨.root, ["t", "pages", "about.html"]⟩] found := by
  have hfiles : besideFiles.WellFormed := by
    refine wellFormed_of_entries (by decide) fun e he => ?_
    simp only [besideFiles, List.mem_cons, List.not_mem_nil, or_false] at he
    rcases he with rfl | rfl | rfl | rfl <;> exact ⟨by decide, rfl⟩
  have hworkspace : Layout.small.workspace.IsPlain := ⟨rfl, by decide⟩
  have hpage : Path.IsReadable ⟨.root, ["t", "pages", "home.html"]⟩ :=
    Path.IsPlain.isReadable ⟨rfl, by decide⟩
  have hends := resolution_ends hfiles Layout.wellFormed_small hworkspace hpage
  refine ⟨?_, ?_, ?_, ?_⟩
  · exact ((hends ['\x00']).1.error_iff _).2 (.null (by decide))
  · refine ((hends (List.replicate 256 'a')).1.error_iff _).2 (.refused ?_ ?_)
    · exact fun h => absurd (List.eq_of_mem_replicate h) (by decide)
    · have hlong : maxNameBytes < (String.ofList (List.replicate 256 'a')).utf8ByteSize := by
        rw [String.utf8ByteSize_ofList]
        decide +kernel
      have hup : String.ofList (List.replicate 256 'a') ≠ ".." := fun h =>
        absurd (congrArg String.length h) (by
          rw [String.length_ofList, List.length_replicate]
          decide)
      have hread : Path.ofChars (List.replicate 256 'a') =
          ⟨.relative, [String.ofList (List.replicate 256 'a')]⟩ :=
        Path.ofChars_name (by decide) (by decide)
          fun h => absurd (List.eq_of_mem_replicate h) (by decide)
      -- Nothing else is asked of the name, which is slow to compare.
      generalize String.ofList (List.replicate 256 'a') = name at hlong hup hread
      have hnames : ".." ∉ ["t", "pages", name] := by simpa using hup.symm
      unfold Layout.referencePlaces Layout.tried
      rw [hread]
      exact ⟨[], _, _, rfl, by simp, .inr ⟨["t", "pages"], name, [],
        Path.normalParts_of_not_mem hnames [], rfl, hlong⟩⟩
  · exact ((hends "../../../..".toList).2.error_iff _).2 (.nameless rfl (by decide) rfl)
  · have hplaces : Layout.small.targetPlaces ⟨.root, ["t", "pages", "home.html"]⟩
        "about".toList = [⟨.root, ["t", "pages", "about.tmpl"]⟩,
          ⟨.root, ["t", "pages", "about.html"]⟩] := by decide +kernel
    rw [← hplaces]
    refine (hends "about".toList).2.finds fun cause h => ?_
    cases h with
    | null _ hnull => exact absurd hnull (by decide)
    | nameless hstart _ htop =>
        obtain rfl := Option.some.inj hstart
        exact absurd htop (by decide)
    | refused _ hbarred =>
        obtain ⟨front, p, rest, hsplit, -, hrefuses⟩ := hbarred
        have hmem : p ∈ front ++ p :: rest := by simp
        rw [← hsplit, hplaces, List.mem_pair] at hmem
        revert hrefuses
        rcases hmem with rfl | rfl <;>
          · rw [← locate_eq_tooLong_iff hfiles ⟨rfl, by decide, by decide⟩]
            decide +kernel

end Folio
