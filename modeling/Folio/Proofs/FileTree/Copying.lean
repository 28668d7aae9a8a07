import Folio.Proofs.FileTree.Listing
import Folio.Proofs.FileTree.Making

/-!
# Copying directories and files

What is below a directory is put below another one, entry by entry, in the order in which
the tree has them.  On the way the tree need not hold together, since an entry can come
before the directory that it is in; once all are there it does (`WellFormed.putAll`).
-/

namespace Folio

namespace FileTree

variable {t t' : FileTree} {place q : Place} {names : List String} {entry : Entry}

/-! ## Putting entries below a place -/

/-- The tree with entries put below a place. -/
def putAll (t : FileTree) (place : Place) (entries : List (List String × Entry)) : FileTree :=
  entries.foldl (fun acc (names, entry) => acc.put (place ++ names) entry) t

section

variable {entries : List (List String × Entry)}

theorem named_putAll (ht : t.Named)
    (hnames : ∀ e ∈ entries, ∀ name ∈ place ++ e.1, IsFileName name) :
    (t.putAll place entries).Named := by
  induction entries generalizing t with
  | nil => exact ht
  | cons e rest ih =>
      obtain ⟨hfirst, hrest⟩ := List.forall_mem_cons.1 hnames
      exact ih (named_put ht hfirst) hrest

theorem nodup_putAll (ht : (t.entries.map Prod.fst).Nodup) :
    ((t.putAll place entries).entries.map Prod.fst).Nodup := by
  induction entries generalizing t with
  | nil => exact ht
  | cons e rest ih => exact ih (nodup_put ht)

theorem entry?_putAll_of_ne (hne : ∀ e ∈ entries, q ≠ place ++ e.1) :
    entry? (t.putAll place entries) q = t.entry? q := by
  induction entries generalizing t with
  | nil => rfl
  | cons e rest ih =>
      obtain ⟨hfirst, hrest⟩ := List.forall_mem_cons.1 hne
      exact (ih hrest).trans (entry?_put_of_ne hfirst)

theorem entry?_putAll_of_mem (hnodup : (entries.map Prod.fst).Nodup)
    (hmem : (names, entry) ∈ entries) (hplace : place ++ names ≠ []) :
    entry? (t.putAll place entries) (place ++ names) = some entry := by
  induction entries generalizing t with
  | nil => cases hmem
  | cons e rest ih =>
      obtain ⟨hfirst, hrest⟩ := List.nodup_cons.1 hnodup
      rcases List.mem_cons.1 hmem with rfl | hmem
      · have hlater : ∀ e ∈ rest, place ++ names ≠ place ++ e.1 := fun e he hsame =>
          hfirst (List.mem_map.2 ⟨e, he, (List.append_cancel_left hsame).symm⟩)
        refine (entry?_putAll_of_ne hlater).trans ?_
        rw [entry?_put, if_neg hplace, if_pos rfl]
      · exact ih hrest hmem

/-- Entries that stand in directories among them, put into an empty directory. -/
theorem WellFormed.putAll (ht : t.WellFormed) (hplace : place ≠ [])
    (hdirectory : t.entry? place = some .directory)
    (hempty : ∀ names, names ≠ [] → t.entry? (place ++ names) = none)
    (hnodup : (entries.map Prod.fst).Nodup)
    (hnames : ∀ e ∈ entries, e.1 ≠ [] ∧ ∀ name ∈ place ++ e.1, IsFileName name)
    (hclosed : ∀ e ∈ entries, e.1.dropLast = [] ∨ (e.1.dropLast, .directory) ∈ entries) :
    (t.putAll place entries).WellFormed := by
  refine ⟨named_putAll ht.named fun e he => (hnames e he).2, nodup_putAll ht.nodup,
    fun above name hthere => ?_⟩
  by_cases hput : ∃ e ∈ entries, above ++ [name] = place ++ e.1
  · obtain ⟨e, he, hsame⟩ := hput
    obtain rfl : above = place ++ e.1.dropLast := by
      rw [← List.dropLast_append_of_ne_nil (hnames e he).1, ← hsame, List.dropLast_concat]
    rcases hclosed e he with hlast | hmem
    · rw [hlast, List.append_nil, entry?_putAll_of_ne fun e he hsame => ?_, hdirectory]
      exact (hnames e he).1 (List.append_right_eq_self.1 hsame.symm)
    · exact entry?_putAll_of_mem hnodup hmem (by simp [hplace])
  · simp only [not_exists, not_and] at hput
    rw [entry?_putAll_of_ne hput] at hthere
    have habove := ht.above above name hthere
    rwa [entry?_putAll_of_ne fun e he hsame => ?_]
    rw [hsame, hempty e.1 (hnames e he).1] at habove
    cases habove

end

/-! ## Copying -/

/-- What is below a place and can be copied: its path is not too long, here or there. -/
def copied (t : FileTree) (origin : Place) (source target : Path) : List (List String × Entry) :=
  (t.below origin).filter fun e => reaches source e.1 && reaches target e.1

/-- A path can be gone along as long as one that goes on from there. -/
theorem reaches_of_concat {p : Path} {last : String} (h : reaches p (names ++ [last])) :
    reaches p names := by
  simp only [reaches, Path.toString, Bool.and_eq_true, decide_eq_true_eq,
    List.isEmpty_iff] at h ⊢
  split
  · decide
  · obtain ⟨rest, hrest⟩ := exists_intercalate_concat (p.parts ++ names) last
    rw [← List.append_assoc, if_neg (by simp), hrest] at h
    simp only [String.utf8ByteSize_append] at h ⊢
    omega

section

variable {source target : Path} {origin : Place}

theorem mem_copied {e : List String × Entry} :
    e ∈ t.copied origin source target ↔
      e ∈ t.below origin ∧ reaches source e.1 ∧ reaches target e.1 := by
  rw [copied, List.mem_filter, Bool.and_eq_true]

/-- A directory is not copied at all, perhaps after directories were made above the copy,
or with everything that is below it and can be copied. -/
theorem copyDirectory_cases (t : FileTree) (source : Path) (htarget : target.IsCanonical) :
    (∃ fault, t.copyDirectory source target = (t, some fault)) ∨
      (∃ fault, t.copyDirectory source target =
        ((t.makeDirectories target.parent).1, some fault)) ∨
      ∃ t₁ origin fault, t₁ = (t.makeDirectories target.parent).1 ∧
        t₁.locate target = .ok target.parts ∧ t₁.entry? target.parts = none ∧
        t.copyDirectory source target =
          ((t₁.put target.parts .directory).putAll target.parts
            (t.copied origin source target), fault) ∧
        (fault = none → t.stat source = .ok .directory ∧ t.locate source = .ok origin ∧
          t.copied origin source target = t.below origin) := by
  unfold copyDirectory
  split
  · exact .inl ⟨_, rfl⟩
  · exact .inl ⟨_, rfl⟩
  · rename_i hstat
    split
    · rename_i t₁ fault hmake
      exact .inr (.inl ⟨fault, by rw [hmake]⟩)
    · rename_i t₁ hmake
      split
      · exact .inr (.inl ⟨_, by rw [hmake]⟩)
      · rename_i t₂ origin goal hlast horigin hgoal
        obtain ⟨spot, hspot, hnone, rfl⟩ := makeDirectory_eq_ok hlast
        obtain rfl := locate_eq htarget.not_mem hspot
        obtain rfl := locate_eq htarget.not_mem hgoal
        rw [List.partition_eq_filter_filter]
        refine .inr (.inr ⟨t₁, origin, _, by rw [hmake], hspot, hnone, rfl, fun hfault => ?_⟩)
        refine ⟨hstat, horigin, List.filter_eq_self.2 fun e he => ?_⟩
        split at hfault
        · rename_i hempty
          simpa using List.filter_eq_nil_iff.1 (List.isEmpty_iff.1 hempty) e he
        · cases hfault
      · exact .inr (.inl ⟨_, by rw [hmake]⟩)
      · exact .inr (.inl ⟨_, by rw [hmake]⟩)

theorem named_copyDirectory (ht : t.Named) (htarget : target.IsPlain) :
    (t.copyDirectory source target).1.Named := by
  have hparent : ∀ name ∈ target.parent.parts, IsFileName name := fun name hname =>
    htarget.names name (List.dropLast_subset _ hname)
  have hmade : (t.makeDirectories target.parent).1.Named :=
    (makeDirectories_adds (.of_not_mem fun hup => (hparent _ hup).2.2.1 rfl)).keeps ht
      fun ht hstarts _ => named_put ht fun name hname => hparent name (hstarts.subset hname)
  rcases copyDirectory_cases t source htarget.isCanonical with
    ⟨fault, h⟩ | ⟨fault, h⟩ | ⟨t₁, origin, fault, rfl, -, -, h, -⟩
  · rwa [h]
  · rwa [h]
  · rw [h]
    refine named_putAll (named_put hmade htarget.names) fun e he name hname => ?_
    rcases List.mem_append.1 hname with hname | hname
    · exact htarget.names name hname
    · exact ht _ (mem_below.1 (mem_copied.1 he).1).2 name (List.mem_append_right _ hname)

/-- Where the copy is not, there are as many directories more as are above it. -/
theorem entry?_copyDirectory (t : FileTree) (source : Path) (htarget : target.IsCanonical)
    (hq : ¬ target.parts <+: q) :
    entry? (t.copyDirectory source target).1 q = t.entry? q ∨
      q <+: target.parts ∧ t.entry? q = none ∧
        entry? (t.copyDirectory source target).1 q = some .directory := by
  have hparent : ".." ∉ target.parent.parts := fun hup =>
    htarget.not_mem (List.dropLast_subset _ hup)
  have hmade := (makeDirectories_adds (t := t) (.of_not_mem hparent)).entry?_eq q
  have hways : entry? (t.makeDirectories target.parent).1 q = t.entry? q ∨
      q <+: target.parts ∧ t.entry? q = none ∧
        entry? (t.makeDirectories target.parent).1 q = some .directory :=
    hmade.imp_right fun h => ⟨h.1.trans (List.dropLast_prefix _), h.2⟩
  rcases copyDirectory_cases t source htarget with
    ⟨fault, h⟩ | ⟨fault, h⟩ | ⟨t₁, origin, fault, rfl, -, -, h, -⟩
  · exact .inl (by rw [h])
  · rwa [h]
  · have hcopied : ∀ e ∈ t.copied origin source target, q ≠ target.parts ++ e.1 := by
      rintro e - rfl
      exact hq (List.prefix_append ..)
    have hgoal : q ≠ target.parts := by
      rintro rfl
      exact hq List.prefix_rfl
    rw [h, entry?_putAll_of_ne hcopied, entry?_put_of_ne hgoal]
    exact hways

theorem WellFormed.copyDirectory (ht : t.WellFormed) (htarget : target.IsPlain)
    (hroot : target.parts ≠ []) : (t.copyDirectory source target).1.WellFormed := by
  have hparent : ∀ name ∈ target.parent.parts, IsFileName name := fun name hname =>
    htarget.names name (List.dropLast_subset _ hname)
  have hmade : (t.makeDirectories target.parent).1.WellFormed :=
    ht.makeLevels (.of_not_mem fun hup => (hparent _ hup).2.2.1 rfl) hparent _
  rcases copyDirectory_cases t source htarget.isCanonical with
    ⟨fault, h⟩ | ⟨fault, h⟩ | ⟨t₁, origin, fault, rfl, hlocate, hnone, h, -⟩
  · rwa [h]
  · rwa [h]
  · rw [h]
    have habove := entry?_parent_of_locate htarget.isCanonical.not_mem hroot hlocate
    have hnodup : ((t.copied origin source target).map Prod.fst).Nodup :=
      (nodup_below ht.nodup origin).sublist (List.filter_sublist.map _)
    refine (hmade.put htarget.names habove (.inl rfl)).putAll hroot ?_ (fun names hnames => ?_)
      hnodup (fun e he => ?_) fun e he => ?_
    · rw [entry?_put, if_neg hroot, if_pos rfl]
    · rw [entry?_put_of_ne (by simpa using hnames)]
      by_contra hthere
      rw [hmade.entry?_above hnames hthere] at hnone
      cases hnone
    · obtain ⟨hne, hmem⟩ := mem_below.1 (mem_copied.1 he).1
      refine ⟨hne, fun name hname => ?_⟩
      rcases List.mem_append.1 hname with hname | hname
      · exact htarget.names name hname
      · exact ht.named _ hmem name (List.mem_append_right _ hname)
    · obtain ⟨hbelow, hreached, hreached'⟩ := mem_copied.1 he
      obtain ⟨hne, hmem⟩ := mem_below.1 hbelow
      refine or_iff_not_imp_left.2 fun hlast => ?_
      rw [← List.dropLast_append_getLast hne] at hreached hreached'
      have hthere := (mem_entries_iff ht.nodup (by simp [hne])).1 hmem
      rw [← List.dropLast_append_getLast hne, ← List.append_assoc] at hthere
      have hdirectory := ht.above _ _ (by rw [hthere]; simp)
      refine mem_copied.2 ⟨mem_below.2 ⟨hlast, ?_⟩, reaches_of_concat hreached,
        reaches_of_concat hreached'⟩
      exact (mem_entries_iff ht.nodup (by simp [hlast])).2 hdirectory

/-- **A directory that was copied** is there twice, and if the directories above the copy
were there, nothing else has changed. -/
theorem WellFormed.entry?_of_copyDirectory (ht : t.WellFormed) (hsource : source.IsCanonical)
    (htarget : target.IsCanonical) (hbeside : target.parts.dropLast <+: source.parts)
    (hcopy : t.copyDirectory source target = (t', none)) :
    t.entry? source.parts = some .directory ∧ isTooLong target = false ∧
      (∀ names, t'.entry? (target.parts ++ names) = t.entry? (source.parts ++ names)) ∧
      ∀ q, ¬ target.parts <+: q → t'.entry? q = t.entry? q := by
  rcases copyDirectory_cases t source htarget with
    ⟨fault, h⟩ | ⟨fault, h⟩ | ⟨t₁, origin, fault, ht₁, hlocate, hnone, h, hdone⟩
  · cases hcopy.symm.trans h
  · cases hcopy.symm.trans h
  · obtain ⟨rfl, rfl⟩ := Prod.mk.inj (h.symm.trans hcopy)
    obtain ⟨hstat, horigin, hall⟩ := hdone rfl
    obtain rfl := locate_eq hsource.not_mem horigin
    have hdirectory := stat_eq_ok hsource hstat
    rw [hall]
    have hroot : target.parts ≠ [] := fun hnil => by
      rw [hnil] at hnone
      cases hnone
    -- The directories above the copy are those above the source, so none was missing.
    have hthere : ∀ q, q <+: target.parent.parts → t.entry? q = some .directory := by
      intro q hq
      by_cases hsame : q = source.parts
      · rw [hsame, hdirectory]
      · exact ht.directoriesAbove (by rw [hdirectory]; simp) q (hq.trans hbeside) hsame
    have hup : ".." ∉ target.parent.parts := fun hup =>
      htarget.not_mem (List.dropLast_subset _ hup)
    have hmade : ∀ q, t₁.entry? q = t.entry? q := by
      intro q
      rcases (makeDirectories_adds (t := t) (.of_not_mem hup)).entry?_eq q with h | ⟨hq, hmissing, -⟩
      · rw [ht₁, h]
      · rw [hthere q hq] at hmissing
        cases hmissing
    rw [hmade] at hnone
    refine ⟨hdirectory, isTooLong_of_locate htarget hlocate, fun names => ?_, fun q hq => ?_⟩
    · by_cases hnames : names = []
      · have hbelow : ∀ e ∈ t.below source.parts, target.parts ≠ target.parts ++ e.1 :=
          fun e he h => (mem_below.1 he).1 (List.append_right_eq_self.1 h.symm)
        rw [hnames, List.append_nil, List.append_nil, entry?_putAll_of_ne hbelow, entry?_put,
          if_neg hroot, if_pos rfl, hdirectory]
      · cases hentry : t.entry? (source.parts ++ names) with
        | some entry =>
            have hmem := mem_below.2 ⟨hnames, mem_entries_of_eq_some (by simp [hnames]) hentry⟩
            exact entry?_putAll_of_mem (nodup_below ht.nodup source.parts) hmem (by simp [hroot])
        | none =>
            have hbelow : ∀ e ∈ t.below source.parts, target.parts ++ names ≠ target.parts ++ e.1 := by
              rintro ⟨found, entry⟩ he hsame
              obtain rfl := List.append_cancel_left hsame
              have hmem := (mem_entries_iff ht.nodup (by simp [hnames])).1 (mem_below.1 he).2
              cases hentry.symm.trans hmem
            rw [entry?_putAll_of_ne hbelow, entry?_put_of_ne (by simp [hnames]), hmade]
            by_contra hother
            rw [ht.entry?_above hnames hother] at hnone
            cases hnone
    · have hbelow : ∀ e ∈ t.below source.parts, q ≠ target.parts ++ e.1 := by
        rintro e - rfl
        exact hq (List.prefix_append ..)
      have hgoal : q ≠ target.parts := fun h => hq (h ▸ List.prefix_rfl)
      rw [entry?_putAll_of_ne hbelow, entry?_put_of_ne hgoal, hmade]

/-- A file can be copied to a place where no directory is, if it is not copied onto itself. -/
theorem copyFile_of_read {content : ByteArray} (hread : t.read source = .ok content)
    (hlocate : t.locate target = .ok place) (hother : t.locate source ≠ .ok place)
    (hfree : t.entry? place ≠ some .directory) :
    t.copyFile source target = .ok (t.put place (.file content)) := by
  have hne : ¬ (t.locate source).toOption = some place := by
    cases hsource : t.locate source with
    | error fault => simp [Except.toOption]
    | ok origin =>
        rintro ⟨⟩
        exact hother hsource
  unfold copyFile write
  rw [hread, hlocate]
  simp only [bind, Except.bind]
  rw [if_neg hne]
  cases hentry : t.entry? place with
  | none => rfl
  | some entry =>
      cases entry with
      | directory => exact absurd hentry hfree
      | file => rfl

end

end FileTree

end Folio
