import Folio.Proofs.FileTree.Making
import Folio.Proofs.Output.Writes

/-!
# What is written

A page is printed, the directories above its place are made, and the printed text becomes
the file at that place.  `writePage_prints` says which bytes come to stand there, and why
there may be none: a directory cannot be made, the text cannot be printed, or the path is
too long or taken by a directory.

A tree that is written over and over is described by its first state and the list of what
was written since: at every place the last bytes count (`Overwritten`).
-/

namespace Folio

open Text FileTree

variable {s : Session} {t₀ t t' : FileTree} {p : Path} {names place q : Place}

/-- The bytes that a text in HTML is written as, if it can be printed. -/
def printed (html : List Char) : Option ByteArray :=
  match Markup.prettify Markup.defaultWidth html with
  | .ok text => some (String.ofList text).toUTF8
  | .error _ => none

theorem printed_of_ok {html text : List Char}
    (hprint : Markup.prettify Markup.defaultWidth html = .ok text) :
    printed html = some (String.ofList text).toUTF8 := by
  unfold printed
  rw [hprint]

theorem exists_of_printed {html : List Char} {content : ByteArray}
    (hprint : printed html = some content) : ∃ text : String, content = text.toUTF8 := by
  unfold printed at hprint
  split at hprint
  · rename_i text _
    exact ⟨String.ofList text, (Option.some.inj hprint).symm⟩
  · cases hprint

namespace FileTree

deriving instance DecidableEq for Entry

/-- The bytes of the file at a place. -/
def bytesAt (t : FileTree) (place : Place) : Option ByteArray :=
  match t.entry? place with
  | some (.file content) => some content
  | _ => none

theorem bytesAt_eq_some_iff {content : ByteArray} :
    t.bytesAt place = some content ↔ t.entry? place = some (.file content) := by
  unfold bytesAt
  split
  · rename_i found hfound
    rw [hfound]
    simp
  · rename_i hother
    exact ⟨fun h => (nomatch h), fun h => absurd h (hother content)⟩

theorem bytesAt_eq_none_iff : t.bytesAt place = none ↔ ¬ t.IsFile place := by
  rw [Option.eq_none_iff_forall_ne_some, IsFile, not_exists]
  exact forall_congr' fun content => not_congr bytesAt_eq_some_iff

theorem bytesAt_put {content : ByteArray} (hplace : place ≠ []) :
    (t.put place (.file content)).bytesAt q = if q = place then some content else t.bytesAt q := by
  by_cases hq : q = place
  · subst hq
    unfold bytesAt
    rw [entry?_put, if_neg hplace, if_pos rfl, if_pos rfl]
  · unfold bytesAt
    rw [entry?_put_of_ne hq, if_neg hq]

theorem AddsDirectories.bytesAt_eq (hadds : AddsDirectories names t t') :
    t'.bytesAt q = t.bytesAt q := by
  ext content
  exact bytesAt_eq_some_iff.trans (hadds.entry?_eq_file_iff.trans bytesAt_eq_some_iff.symm)

/-! ## Opening a way -/

/-- `t'` is `t` with some directories made that were missing on the way to a place. -/
structure Opened (names : Place) (t t' : FileTree) : Prop where
  wellFormed : t'.WellFormed
  adds : AddsDirectories names t t'

/-- Directories stay directories, and files stay files. -/
structure Grows (t t' : FileTree) : Prop where
  directory : ∀ q, t.entry? q = some .directory → t'.entry? q = some .directory
  isFile : ∀ q, t.IsFile q → t'.IsFile q

theorem Grows.refl (t : FileTree) : Grows t t :=
  ⟨fun _ h => h, fun _ h => h⟩

theorem Grows.trans {t'' : FileTree} (h : Grows t t') (h' : Grows t' t'') : Grows t t'' :=
  ⟨fun q hq => h'.directory q (h.directory q hq), fun q hq => h'.isFile q (h.isFile q hq)⟩

theorem Grows.entry?_ne_none (h : Grows t t') (hq : t.entry? q ≠ none) : t'.entry? q ≠ none := by
  obtain ⟨entry, hentry⟩ := Option.ne_none_iff_exists'.1 hq
  cases entry with
  | directory => simp [h.directory q hentry]
  | file content =>
      obtain ⟨content', hentry'⟩ := h.isFile q ⟨content, hentry⟩
      simp [hentry']

/-- What is there stays a directory, or stays none. -/
theorem Grows.directory_iff (h : Grows t t') (hq : t.entry? q ≠ none) :
    t'.entry? q = some .directory ↔ t.entry? q = some .directory := by
  obtain ⟨entry, hentry⟩ := Option.ne_none_iff_exists'.1 hq
  cases entry with
  | directory => exact ⟨fun _ => hentry, fun _ => h.directory q hentry⟩
  | file content =>
      obtain ⟨content', hentry'⟩ := h.isFile q ⟨content, hentry⟩
      simp [hentry, hentry']

theorem Opened.grows (h : Opened names t t') : Grows t t' where
  directory q hq := by
    rcases h.adds.entry?_eq q with heq | ⟨-, hnone, -⟩
    · rw [heq, hq]
    · rw [hq] at hnone
      cases hnone
  isFile _ hq := h.adds.isFile_iff.2 hq

/-- Making what is above a place leaves the place as it is. -/
theorem Opened.entry?_eq (h : Opened p.parent.parts t t') (hne : p.parts ≠ []) :
    t'.entry? p.parts = t.entry? p.parts := by
  refine (h.adds.entry?_eq p.parts).resolve_right ?_
  rintro ⟨hstarts, -⟩
  have hlength := hstarts.length_le
  have hpos := List.length_pos_iff.2 hne
  rw [Path.parent, List.length_dropLast] at hlength
  omega

theorem ensureDirectory_ne_nullCharacter (hp : p.IsCanonical) :
    t.ensureDirectory p ≠ .error .nullCharacter := by
  intro hmake
  unfold FileTree.ensureDirectory at hmake
  split at hmake
  · cases hmake
  · rename_i fault hfault
    split at hmake
    · cases hmake
    · cases hmake
      cases hlocate : t.locate p with
      | error cause =>
          rw [makeDirectory_of_error hlocate] at hfault
          cases hfault
          exact locate_ne_nullCharacter hp hlocate
      | ok here =>
          rw [makeDirectory_of_locate hlocate] at hfault
          split at hfault <;> cases hfault

theorem makeDirectories_ne_nullCharacter (hp : p.IsPlain) :
    (t.makeDirectories p).2 ≠ some .nullCharacter := by
  have hlevels : ∀ (count : Nat) (p : Path) (t : FileTree), p.IsPlain →
      (t.makeLevels count p).2 ≠ some .nullCharacter := by
    intro count
    induction count with
    | zero =>
        intro p t hp
        unfold makeLevels
        split
        · simp
        · rename_i fault hfault
          rintro ⟨⟩
          exact ensureDirectory_ne_nullCharacter hp.isCanonical hfault
    | succ count ih =>
        intro p t hp
        have hparent : p.parent.IsPlain :=
          ⟨hp.anchor_eq, fun name hname => hp.names name (List.dropLast_subset _ hname)⟩
        unfold makeLevels
        split
        · simp
        · split
          · split
            · simp
            · rename_i fault hfault
              rintro ⟨⟩
              exact ensureDirectory_ne_nullCharacter hp.isCanonical hfault
          · exact ih p.parent t hparent
        · rename_i fault _ hfault
          rintro ⟨⟩
          exact ensureDirectory_ne_nullCharacter hp.isCanonical hfault
  exact hlevels _ p t hp

theorem WellFormed.opened (ht : t.WellFormed) (hp : p.IsPlain) :
    Opened p.parts t (t.makeDirectories p).1 := by
  have hdown : LeadsDown p p.parts := .of_not_mem hp.isCanonical.not_mem
  exact ⟨ht.makeLevels hdown hp.names p.parts.length, makeDirectories_adds hdown⟩

/-- Below directories, a text is written unless the path is too long or a directory is in
its place. -/
theorem writeText_of_directories (hp : p.IsCanonical) (habove : t.DirectoriesAbove p.parts)
    (text : List Char) :
    isTooLong p = true ∧ t.writeText p text = .error (.file .nameTooLong) ∨
      t.entry? p.parts = some .directory ∧ t.writeText p text = .error (.file .isDirectory) ∨
      isTooLong p = false ∧ t.entry? p.parts ≠ some .directory ∧
        t.writeText p text = .ok (t.put p.parts (.file (String.ofList text).toUTF8)) := by
  have hlocate := locate_of_directories hp habove
  unfold writeText write
  rw [hlocate]
  by_cases hlong : isTooLong p = true
  · rw [if_pos hlong]
    exact .inl ⟨hlong, rfl⟩
  · rw [if_neg hlong]
    right
    by_cases htaken : t.entry? p.parts = some .directory
    · refine .inl ⟨htaken, ?_⟩
      simp only [bind, Except.bind, htaken]
      rfl
    · refine .inr ⟨by simpa using hlong, htaken, ?_⟩
      simp only [bind, Except.bind]
      rfl

/-! ## Texts -/

/-- A file of a tree that holds together can be read unless its path is too long or its
bytes are no text. -/
theorem WellFormed.readText_eq (ht : t.WellFormed) (hp : p.IsCanonical) {content : ByteArray}
    (hentry : t.entry? p.parts = some (.file content)) :
    t.readText p =
      if isTooLong p then .error (.file .nameTooLong)
      else match textOf content with
        | some text => .ok text
        | none => .error .notText := by
  have habove := ht.directoriesAbove (ne_of_eq_of_ne hentry (by simp))
  have hlocate := locate_of_directories hp habove
  unfold readText read stat
  rw [hlocate]
  by_cases hlong : isTooLong p = true
  · rw [if_pos hlong, if_pos hlong]
    rfl
  · rw [if_neg hlong, if_neg hlong]
    simp only [bind, Except.bind, hentry, pure, Except.pure]
    unfold textOf
    cases String.fromUTF8? content <;> rfl

/-- What was printed is a text. -/
theorem textOf_toUTF8 (s : String) : textOf s.toUTF8 = some (normalizeLineEnds s.toList) := by
  have hread : String.fromUTF8? s.toUTF8 = some s := by
    have hvalid : s.toUTF8.IsValidUTF8 := s.isValidUTF8
    unfold String.fromUTF8?
    rw [dif_pos hvalid]
    rfl
  unfold textOf
  rw [hread]
  rfl

end FileTree

/-! ## Writing a page -/

/-- Why a page is not written. -/
inductive Unwritten (t : FileTree) (p : Path) (html : List Char) (e : Failure) : Prop
  | uncreatable {fault : FileFault} (hfault : (t.makeDirectories p.parent).2 = some fault)
      (he : e = .build s!"Cannot create output directory {p.parent}" (.file fault))
  | unprintable {error : Markup.MarkupError}
      (herror : Markup.prettify Markup.defaultWidth html = .error error)
      (he : e = .raised (.markup error))
  | unwritable {cause : Cause} (hcause : cause.isReadFault)
      (hblocked : isTooLong p = true ∨ t.entry? p.parts = some .directory)
      (he : e = .raised cause)

/-- What a tree becomes when bytes are written at a place: the directories above are made,
and the file is put. -/
def Prints (p : Path) (content : ByteArray) (t t' : FileTree) : Prop :=
  ∃ t₁, Opened p.parent.parts t t₁ ∧ t₁.entry? p.parent.parts = some .directory ∧
    t' = t₁.put p.parts (.file content)

theorem writePage_prints (hs : s.files.WellFormed) (hp : p.IsPlain) (hne : p.parts ≠ [])
    {html : List Char} :
    Ends (writePage p html) s
      (fun _ s' => ∃ content, printed html = some content ∧ isTooLong p = false ∧
        s.files.entry? p.parts ≠ some .directory ∧ Prints p content s.files s'.files)
      fun e s' => Opened p.parent.parts s.files s'.files ∧ Unwritten s.files p html e := by
  have hparent : p.parent.IsPlain :=
    ⟨hp.anchor_eq, fun name hname => hp.names name (List.dropLast_subset _ hname)⟩
  have hopened := hs.opened hparent
  unfold writePage ensureDirectory
  rcases hmake : s.files.makeDirectories p.parent with ⟨t₁, fault⟩
  rw [hmake] at hopened
  simp only [ends_bind, Action.ends_files, hmake, Action.ends_setFiles]
  cases fault with
  | some fault =>
      have hfault : fault ≠ .nullCharacter := by
        rintro rfl
        exact makeDirectories_ne_nullCharacter hparent (congrArg Prod.snd hmake)
      have hcause : (Cause.file fault).isFileFault = true := by
        cases fault <;> first | rfl | exact absurd rfl hfault
      unfold failBuild
      refine ends_throw.2 ⟨hopened, .uncreatable (congrArg Prod.snd hmake) ?_⟩
      exact if_pos hcause
  | none =>
      -- The directory stands, and what is at the place was there before.
      have hsame : t₁.entry? p.parts = s.files.entry? p.parts := hopened.entry?_eq hne
      obtain ⟨ht₁, hentries⟩ := hs.entry?_of_makeDirectories hparent hmake
      have habove : t₁.DirectoriesAbove p.parts := by
        intro q hq hqne
        rw [hentries, if_pos]
        rw [← List.dropLast_append_getLast hne] at hq hqne
        exact (List.prefix_concat_iff.1 hq).resolve_left hqne
      have hdirectory : t₁.entry? p.parent.parts = some .directory := by
        rw [hentries, if_pos List.prefix_rfl]
      simp only [ends_pure, Action.ends_orRaise]
      cases hprint : Markup.prettify Markup.defaultWidth html with
      | error error => exact ⟨hopened, .unprintable hprint rfl⟩
      | ok text =>
          dsimp only [Except.mapError]
          rcases writeText_of_directories hp.isCanonical habove text with
            ⟨hlong, hwrite⟩ | ⟨htaken, hwrite⟩ | ⟨hshort, hfree, hwrite⟩
          · rw [hwrite]
            exact ⟨hopened, .unwritable rfl (.inl hlong) rfl⟩
          · rw [hwrite]
            exact ⟨hopened, .unwritable rfl (.inr (hsame ▸ htaken)) rfl⟩
          · rw [hwrite]
            rw [hsame] at hfree
            dsimp only
            exact ⟨_, printed_of_ok hprint, hshort, hfree, t₁, hopened, hdirectory, rfl⟩

theorem Prints.grows {content : ByteArray} (h : Prints p content t t') (hne : p.parts ≠ [])
    (hfree : t.entry? p.parts ≠ some .directory) : Grows t t' := by
  obtain ⟨t₁, hopened, -, rfl⟩ := h
  refine hopened.grows.trans ⟨fun q hq => ?_, fun q hq => (isFile_put_file hne).2 (.inr hq)⟩
  have hother : q ≠ p.parts := by
    rintro rfl
    rw [hopened.entry?_eq hne] at hq
    exact hfree hq
  rwa [entry?_put_of_ne hother]

/-! ## Written over and over -/

/-- Nothing is the last that was written at a place exactly if nothing was written there. -/
theorem lookup_reverse_eq_none_iff {outs : List (Place × ByteArray)} :
    outs.reverse.lookup q = none ↔ q ∉ outs.map Prod.fst := by
  rw [List.lookup_eq_none_iff, List.mem_map]
  constructor
  · rintro hnone ⟨out, hout, rfl⟩
    exact bne_iff_ne.1 (hnone out (List.mem_reverse.2 hout)) rfl
  · rintro hfree out hout
    exact bne_iff_ne.2 fun hsame => hfree ⟨out, List.mem_reverse.1 hout, hsame.symm⟩

/-- The tree `t₀` after some bytes have been written, one after the other: at each place the
last bytes count. -/
structure Overwritten (t₀ : FileTree) (outs : List (Place × ByteArray)) (t : FileTree) : Prop where
  wellFormed : t.WellFormed
  bytesAt_eq : ∀ q, t.bytesAt q = (outs.reverse.lookup q).or (t₀.bytesAt q)

namespace Overwritten

variable {outs : List (Place × ByteArray)} {content : ByteArray}

theorem refl (ht₀ : t₀.WellFormed) : Overwritten t₀ [] t₀ :=
  ⟨ht₀, fun _ => rfl⟩

theorem opened (h : Overwritten t₀ outs t) (hopened : Opened names t t') :
    Overwritten t₀ outs t' :=
  ⟨hopened.wellFormed, fun q => hopened.adds.bytesAt_eq.trans (h.bytesAt_eq q)⟩

theorem prints (h : Overwritten t₀ outs t) (hp : p.IsPlain) (hne : p.parts ≠ [])
    (hfree : t.entry? p.parts ≠ some .directory) (hprints : Prints p content t t') :
    Overwritten t₀ (outs ++ [(p.parts, content)]) t' := by
  obtain ⟨t₁, hopened, hdirectory, rfl⟩ := hprints
  rw [← hopened.entry?_eq hne] at hfree
  refine ⟨hopened.wellFormed.put hp.names hdirectory (.inr hfree), fun q => ?_⟩
  rw [bytesAt_put hne, List.reverse_append, (h.opened hopened).bytesAt_eq q]
  by_cases hq : q = p.parts
  · subst hq
    simp
  · rw [if_neg hq]
    simp [List.lookup_cons, beq_false_of_ne hq]

/-- What stands at a place was written there, or was there before. -/
theorem mem_or_bytesAt_eq (h : Overwritten t₀ outs t) (hq : t.bytesAt q = some content) :
    (q, content) ∈ outs ∨ t₀.bytesAt q = some content := by
  rw [h.bytesAt_eq q] at hq
  rcases Option.or_eq_some_iff.1 hq with hlast | ⟨-, hfirst⟩
  · obtain ⟨before, after, hsplit, -⟩ := List.lookup_eq_some_iff.1 hlast
    left
    rw [← List.mem_reverse, hsplit]
    simp
  · exact .inr hfirst

/-- Where something was written once only, it still stands. -/
theorem bytesAt_of_mem (h : Overwritten t₀ outs t) (hnodup : (outs.map Prod.fst).Nodup)
    (hmem : (q, content) ∈ outs) : t.bytesAt q = some content := by
  have hlast : outs.reverse.lookup q = some content := by
    obtain ⟨before, after, rfl⟩ := List.append_of_mem hmem
    rw [List.map_append, List.map_cons, List.nodup_append, List.nodup_cons] at hnodup
    refine List.lookup_eq_some_iff.2 ⟨after.reverse, before.reverse, by simp, fun e he => ?_⟩
    have hne : q ≠ e.1 := by
      rintro rfl
      exact hnodup.2.1.1 (List.mem_map.2 ⟨e, List.mem_reverse.1 he, rfl⟩)
    simpa using hne
  rw [h.bytesAt_eq q, hlast, Option.some_or]

end Overwritten

end Folio
