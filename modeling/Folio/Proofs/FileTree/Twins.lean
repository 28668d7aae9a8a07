import Folio.Proofs.FileTree.Making

/-!
# Trees that are edited alike

`Twins D F u u' t t'` says that `t` was made from `u` by the edits that made `t'` from
`u'`: at each place the two trees have what they began with, or the place is in `D` or `F`
and they have the same entry.  Directories are made in `D` alone, and none goes away.
Both trees hold together as trees of a file system.

Putting the same entry into both keeps this.  So a path along which `u` and `u'` agree
can be made or written in both trees with the same outcome, and nothing has to be said
about where the two differ but that no directory of one of them is in the way.
-/

namespace Folio

namespace FileTree

/-- A tree that was made from another by putting directories in `D` and files anywhere. -/
structure Grown (D : Place → Prop) (u t : FileTree) : Prop where
  wellFormed : t.WellFormed
  directory : ∀ q, u.entry? q = some .directory → t.entry? q = some .directory
  made : ∀ q, t.entry? q = some .directory → u.entry? q = some .directory ∨ D q

/-- Two trees that were made from two others by the same edits. -/
structure Twins (D F : Place → Prop) (u u' t t' : FileTree) : Prop where
  left : Grown D u t
  right : Grown D u' t'
  entry?_or : ∀ q, t.entry? q = u.entry? q ∧ t'.entry? q = u'.entry? q ∨
    (D q ∨ F q) ∧ t.entry? q = t'.entry? q

/-- A way on which two trees agree, whose places are directories or may be made such. -/
structure Way (D : Place → Prop) (u u' : FileTree) (names : Place) : Prop where
  isFileName : ∀ name ∈ names, IsFileName name
  entry?_eq : ∀ q, q <+: names → u.entry? q = u'.entry? q
  open_or : ∀ q, q <+: names → D q ∨ u.entry? q = some .directory

/-- A path to a file that can be written alike in trees made from `u` and `u'`: they
agree on the way, and a directory stands at the place in both or in neither. -/
structure Target (D F : Place → Prop) (u u' : FileTree) (p : Path) (names place : Place) :
    Prop where
  leads : LeadsTo p names place
  last_ne : ∃ front last, p.parts = front ++ [last] ∧ last ≠ ".."
  way : Way D u u' names
  isFileName_place : (∀ name ∈ place, Path.isUsable name) → ∀ name ∈ place, IsFileName name
  edited : D place ∨ F place
  directory_iff : u.entry? place = some .directory ↔ u'.entry? place = some .directory

namespace Grown

variable {D : Place → Prop} {u t : FileTree} {place q : Place}

theorem refl (hu : u.WellFormed) : Grown D u u :=
  ⟨hu, fun _ => id, fun _ => .inl⟩

theorem directory_iff (h : Grown D u t) (hq : ¬ D q) :
    t.entry? q = some .directory ↔ u.entry? q = some .directory :=
  ⟨fun hthere => (h.made q hthere).resolve_right hq, h.directory q⟩

theorem put (h : Grown D u t) {entry : Entry} (hnames : ∀ name ∈ place, IsFileName name)
    (habove : t.entry? place.dropLast = some .directory)
    (hentry : entry = .directory ∧ D place ∨
      entry ≠ .directory ∧ t.entry? place ≠ some .directory) :
    Grown D u (t.put place entry) where
  wellFormed := h.wellFormed.put hnames habove (hentry.imp And.left And.right)
  directory q hq := by
    have hthere := h.directory q hq
    by_cases hplace : q = place
    · rcases hentry with ⟨rfl, -⟩ | ⟨-, hfree⟩
      · rw [entry?_put, if_pos hplace]
        split <;> rfl
      · exact absurd (hplace ▸ hthere) hfree
    · rwa [entry?_put_of_ne hplace]
  made q hq := by
    by_cases hplace : q = place
    · rw [entry?_put, if_pos hplace] at hq
      split at hq
      · rename_i hroot
        exact .inl (by rw [hroot]; rfl)
      · exact .inr (hplace ▸ (hentry.resolve_right fun h => h.1 (Option.some.inj hq)).2)
    · rw [entry?_put_of_ne hplace] at hq
      exact h.made q hq

end Grown

namespace Twins

variable {D F F' : Place → Prop} {u u' t t' : FileTree} {p : Path} {names place q : Place}

theorem refl (hu : u.WellFormed) (hu' : u'.WellFormed) : Twins D F u u' u u' :=
  ⟨.refl hu, .refl hu', fun _ => .inl ⟨rfl, rfl⟩⟩

theorem symm (h : Twins D F u u' t t') : Twins D F u' u t' t :=
  ⟨h.right, h.left, fun q => (h.entry?_or q).imp And.symm (And.imp_right Eq.symm)⟩

theorem mono (h : Twins D F u u' t t') (hF : ∀ q, F q → F' q) : Twins D F' u u' t t' :=
  ⟨h.left, h.right, fun q => (h.entry?_or q).imp_right (And.imp_left (Or.imp_right (hF q)))⟩

/-! ## Entries -/

theorem entry?_eq (h : Twins D F u u' t t') (hq : u.entry? q = u'.entry? q) :
    t.entry? q = t'.entry? q := by
  rcases h.entry?_or q with ⟨hleft, hright⟩ | ⟨-, h⟩
  · rw [hleft, hq, hright]
  · exact h

/-- Where no edits are made, nothing changes. -/
theorem entry?_left (h : Twins D F u u' t t') (hD : ¬ D q) (hF : ¬ F q) :
    t.entry? q = u.entry? q :=
  ((h.entry?_or q).resolve_right fun h => h.1.elim hD hF).1

/-- Directories of the second tree are those of the first, where they were to begin
with. -/
theorem directory_of (h : Twins D F u u' t t')
    (hq : u'.entry? q = some .directory → u.entry? q = some .directory)
    (hdirectory : t'.entry? q = some .directory) : t.entry? q = some .directory := by
  rcases h.entry?_or q with ⟨hleft, hright⟩ | ⟨-, h⟩
  · rw [hleft]
    exact hq (hright ▸ hdirectory)
  · rw [h, hdirectory]

theorem directory_iff (h : Twins D F u u' t t')
    (hq : u.entry? q = some .directory ↔ u'.entry? q = some .directory) :
    t.entry? q = some .directory ↔ t'.entry? q = some .directory :=
  ⟨h.symm.directory_of hq.1, h.directory_of hq.2⟩

/-! ## Edits -/

theorem put (h : Twins D F u u' t t') {entry : Entry} (hnames : ∀ name ∈ place, IsFileName name)
    (habove : t.entry? place.dropLast = some .directory)
    (habove' : t'.entry? place.dropLast = some .directory)
    (hentry : entry = .directory ∧ D place ∨ entry ≠ .directory ∧ (D place ∨ F place) ∧
      t.entry? place ≠ some .directory ∧ t'.entry? place ≠ some .directory) :
    Twins D F u u' (t.put place entry) (t'.put place entry) where
  left := h.left.put hnames habove (hentry.imp_right fun h => ⟨h.1, h.2.2.1⟩)
  right := h.right.put hnames habove' (hentry.imp_right fun h => ⟨h.1, h.2.2.2⟩)
  entry?_or q := by
    by_cases hq : q = place
    · subst hq
      refine .inr ⟨hentry.elim (fun h => .inl h.2) fun h => h.2.1, ?_⟩
      rw [entry?_put, entry?_put]
      split <;> simp
    · rw [entry?_put_of_ne hq, entry?_put_of_ne hq]
      exact h.entry?_or q

theorem makeDirectories (h : Twins D F u u' t t') (hp : LeadsDown p names)
    (hway : Way D u u' names) :
    (t.makeDirectories p).2 = (t'.makeDirectories p).2 ∧
      Twins D F u u' (t.makeDirectories p).1 (t'.makeDirectories p).1 := by
  refine makeDirectories_together (fun h q hq => h.entry?_eq (hway.entry?_eq q hq)) ?_ hp h
  intro t t' q h hq hnone habove
  have hsame := h.entry?_eq (hway.entry?_eq _ ((List.dropLast_prefix q).trans hq))
  have hmade : D q := (hway.open_or q hq).resolve_right fun hdirectory => by
    rw [h.left.directory q hdirectory] at hnone
    cases hnone
  exact h.put (fun name hname => hway.isFileName name (hq.subset hname)) habove
    (hsame ▸ habove) (.inl ⟨rfl, hmade⟩)

theorem locate_eq (h : Twins D F u u' t t') (hp : Target D F u u' p names place) :
    t.locate p = t'.locate p :=
  locate_congr_of_parent hp.leads.parent fun q hq => h.entry?_eq (hp.way.entry?_eq q hq)

/-- A file is read alike in both trees, if they agree at its place. -/
theorem read_eq (h : Twins D F u u' t t') (hp : Target D F u u' p names place)
    (hplace : t.entry? place = t'.entry? place ∨ ∃ fault, t.locate p = .error fault) :
    t.read p = t'.read p := by
  have hstat : t.stat p = t'.stat p := by
    unfold stat
    rw [← h.locate_eq hp]
    cases hthere : t.locate p with
    | error fault => rfl
    | ok here =>
        obtain rfl := hp.leads.locate_eq hthere
        have hsame := hplace.resolve_right fun ⟨fault, hfault⟩ => by
          rw [hthere] at hfault
          cases hfault
        simp only [bind, Except.bind, hsame]
  unfold read
  rw [hstat]

/-- A file is written into both trees or into neither; then the path leads nowhere in
either of them, or the place is a directory in both. -/
theorem write (h : Twins D F u u' t t') (hp : Target D F u u' p names place)
    (content : ByteArray) :
    (t.write p content = .ok (t.put place (.file content)) ∧
      t'.write p content = .ok (t'.put place (.file content)) ∧
        Twins D F u u' (t.put place (.file content)) (t'.put place (.file content))) ∨
    ∃ fault, t.write p content = .error fault ∧ t'.write p content = .error fault ∧
      (t.entry? place = t'.entry? place ∨ ∃ fault, t.locate p = .error fault) := by
  have hlocate := h.locate_eq hp
  unfold FileTree.write
  cases hthere : t.locate p with
  | error fault =>
      rw [hthere] at hlocate
      rw [← hlocate]
      exact .inr ⟨fault, rfl, rfl, .inr ⟨fault, rfl⟩⟩
  | ok here =>
      obtain rfl := hp.leads.locate_eq hthere
      have hdirectory := h.directory_iff hp.directory_iff
      obtain ⟨front, last, hparts, hlast⟩ := hp.last_ne
      obtain ⟨above, hplace, habove⟩ := exists_parent_of_locate hparts hlast hthere
      obtain ⟨above', hplace', habove'⟩ :=
        exists_parent_of_locate hparts hlast (hlocate ▸ hthere)
      have hnames : ∀ name ∈ here, IsFileName name :=
        hp.isFileName_place fun name hname =>
          (walk_of_locate hthere).2 name (hp.leads.subset hname)
      rw [← hlocate, hthere]
      simp only [bind, Except.bind]
      by_cases hleaf : t.entry? here = some .directory
      · rw [hleaf, hdirectory.1 hleaf]
        exact .inr ⟨_, rfl, rfl, .inl rfl⟩
      · have hleaf' : t'.entry? here ≠ some .directory := fun h => hleaf (hdirectory.2 h)
        have hput : Twins D F u u' (t.put here (.file content))
            (t'.put here (.file content)) := by
          refine h.put hnames ?_ ?_ (.inr ⟨by simp, hp.edited, hleaf, hleaf'⟩)
          · rw [hplace, List.dropLast_concat]
            exact habove
          · rw [hplace', List.dropLast_concat]
            exact habove'
        refine .inl ⟨?_, ?_, hput⟩
        · split
          · exact absurd (by assumption) hleaf
          · rfl
        · split
          · exact absurd (by assumption) hleaf'
          · rfl

/-- A file that both trees have is copied in both or in neither. -/
theorem copyFile (h : Twins D F u u' t t') {source : Path} {content : ByteArray}
    (hp : Target D F u u' p names place) (hsource : t.stat source = .ok (.file content))
    (hsource' : t'.stat source = .ok (.file content))
    (hplace : t.locate source = t'.locate source) :
    (∃ w w', t.copyFile source p = .ok w ∧ t'.copyFile source p = .ok w' ∧
      Twins D F u u' w w') ∨
    ∃ fault, t.copyFile source p = .error fault ∧ t'.copyFile source p = .error fault := by
  have hread : t.read source = .ok content := by
    unfold read
    rw [hsource]
    rfl
  have hread' : t'.read source = .ok content := by
    unfold read
    rw [hsource']
    rfl
  unfold FileTree.copyFile
  rw [hread, hread', ← hplace, ← h.locate_eq hp]
  simp only [bind, Except.bind]
  cases t.locate p with
  | error fault => exact .inr ⟨fault, rfl, rfl⟩
  | ok here =>
      dsimp only
      split
      · exact .inr ⟨_, rfl, rfl⟩
      · rcases h.write hp content with ⟨hleft, hright, hkeep⟩ | ⟨fault, hleft, hright, -⟩
        · exact .inl ⟨_, _, hleft, hright, hkeep⟩
        · exact .inr ⟨fault, hleft, hright⟩

end Twins

end FileTree

end Folio
