import Folio.Proofs.Path.Canonical
import Folio.Proofs.Text.Cutting
import Folio.Proofs.Text.AnyCase
import Folio.Output.Page

/-!
# Names and the texts that they make

A build takes a file's names from a directory on, writes them as one text, changes
the end of that text and reads it as a path again.  With names that a file can have,
the text has each of them between slashes, and reading gives them back; only the
last is another one.
-/

namespace Folio

open Text

/-! ## Names -/

/-- A name that a file can have. -/
def IsFileName (name : String) : Prop :=
  name ≠ "" ∧ name ≠ "." ∧ name ≠ ".." ∧ '/' ∉ name.toList ∧ Path.isUsable name

instance (name : String) : Decidable (IsFileName name) :=
  inferInstanceAs (Decidable (_ ∧ _))

/-- A path from the root with names that files can have. -/
structure Path.IsPlain (p : Path) : Prop where
  anchor_eq : p.anchor = .root
  names : ∀ name ∈ p.parts, IsFileName name

theorem Path.IsPlain.isCanonical {p : Path} (hp : p.IsPlain) : p.IsCanonical where
  anchor_eq := hp.anchor_eq
  not_mem h := (hp.names _ h).2.2.1 rfl
  usable name h := (hp.names name h).2.2.2.2

theorem Path.IsPlain.below {p : Path} (hp : p.IsPlain) {names : List String}
    (hnames : ∀ name ∈ names, IsFileName name) : Path.IsPlain ⟨p.anchor, p.parts ++ names⟩ where
  anchor_eq := hp.anchor_eq
  names name h := (List.mem_append.1 h).elim (hp.names name) (hnames name)

/-! ## Joining and cutting at slashes -/

theorem joinWith_concat (mark : List Char) (init : List (List Char)) (last : List Char) :
    joinWith mark (init ++ [last]) = (init.flatMap fun piece => piece ++ mark) ++ last := by
  unfold joinWith
  induction init with
  | nil => simp
  | cons piece rest ih =>
      cases rest with
      | nil => simp
      | cons next more =>
          rw [List.cons_append, List.cons_append, List.intersperse_cons_cons, List.flatten_cons,
            List.flatten_cons, ← List.cons_append, ih]
          simp

theorem toList_intercalate_slash (names : List String) :
    ("/".intercalate names).toList = joinWith ['/'] (names.map String.toList) :=
  String.toList_intercalate

namespace Path

/-- Reading gives the names between the slashes, `..` among them, the last one dropped if it
is empty or a dot. -/
theorem ofChars_joinWith_of_read {init : List String} {last : List Char}
    (hinit : ∀ name ∈ init, name ≠ "" ∧ name ≠ "." ∧ '/' ∉ name.toList) (hlast : '/' ∉ last) :
    ofChars (joinWith ['/'] (init.map String.toList ++ [last])) =
      ⟨.relative, init ++
        ([last].filter fun piece => !piece.isEmpty && piece ≠ ['.']).map String.ofList⟩ := by
  have hpieces : splitAt '/' (joinWith ['/'] (init.map String.toList ++ [last])) =
      init.map String.toList ++ [last] := by
    refine splitAt_joinWith (by simp) fun piece hpiece => ?_
    rcases List.mem_append.1 hpiece with h | h
    · obtain ⟨name, hname, rfl⟩ := List.mem_map.1 h
      exact (hinit name hname).2.2
    · exact List.mem_singleton.1 h ▸ hlast
  have hkept : (init.map String.toList).filter (fun piece => !piece.isEmpty && piece ≠ ['.']) =
      init.map String.toList := by
    refine List.filter_eq_self.2 fun piece hpiece => ?_
    obtain ⟨name, hname, rfl⟩ := List.mem_map.1 hpiece
    have hempty : name.toList ≠ [] := fun h =>
      (hinit name hname).1 (String.toList_inj.1 (by simpa using h))
    have hdot : name.toList ≠ ['.'] := fun h =>
      (hinit name hname).2.1 (String.toList_inj.1 (by simpa using h))
    simp [hempty, hdot]
  have hanchor : anchorOf (joinWith ['/'] (init.map String.toList ++ [last])) = .relative := by
    have hfirst : ∀ s, joinWith ['/'] (init.map String.toList ++ [last]) ≠ '/' :: s := by
      rw [joinWith_concat]
      intro s hs
      cases init with
      | nil => exact hlast (by simp [show last = '/' :: s from hs])
      | cons name rest =>
          have hname := hinit name (List.mem_cons_self ..)
          rw [List.map_cons, List.flatMap_cons] at hs
          cases hchars : name.toList with
          | nil => exact hname.1 (String.toList_inj.1 (by simpa using hchars))
          | cons c chars =>
              rw [hchars] at hs
              have hc : c = '/' := by simpa using congrArg List.head? hs
              exact hname.2.2 (by simp [hchars, hc])
    unfold anchorOf
    split
    · rename_i h
      exact absurd h (hfirst _)
    · rename_i h
      exact absurd h (hfirst _)
    · rename_i h
      exact absurd h (hfirst _)
    · rfl
  unfold ofChars
  rw [hanchor, hpieces]
  dsimp only
  rw [List.filter_append, hkept, List.map_append, List.map_map]
  simp [Function.comp_def]

/-- With names that files can have. -/
theorem ofChars_joinWith {init : List String} {last : List Char}
    (hinit : ∀ name ∈ init, IsFileName name) (hlast : '/' ∉ last) :
    ofChars (joinWith ['/'] (init.map String.toList ++ [last])) =
      ⟨.relative, init ++
        ([last].filter fun piece => !piece.isEmpty && piece ≠ ['.']).map String.ofList⟩ :=
  ofChars_joinWith_of_read (fun name hname => ⟨(hinit name hname).1, (hinit name hname).2.1,
    (hinit name hname).2.2.2.1⟩) hlast

/-- A text without slashes that is no dot is read as the path of that name. -/
theorem ofChars_name {name : List Char} (hname : name ≠ []) (hdot : name ≠ ['.'])
    (hslash : '/' ∉ name) : ofChars name = ⟨.relative, [String.ofList name]⟩ := by
  have hinit : ∀ first ∈ ([] : List String), IsFileName first := by simp
  have hread := ofChars_joinWith hinit hslash
  rw [List.map_nil, List.nil_append, List.nil_append, joinWith_singleton] at hread
  rw [hread]
  simp [hname, hdot]

theorem ofString_intercalate_of_read {names : List String}
    (hnames : ∀ name ∈ names, name ≠ "" ∧ name ≠ "." ∧ '/' ∉ name.toList) :
    ofString ("/".intercalate names) = ⟨.relative, names⟩ := by
  unfold ofString
  rw [toList_intercalate_slash]
  rcases List.eq_nil_or_concat names with rfl | ⟨init, last, rfl⟩
  · rfl
  · have hlast := hnames last (by simp)
    have hempty : last.toList ≠ [] := fun h => hlast.1 (String.toList_inj.1 (by simpa using h))
    have hdot : last.toList ≠ ['.'] := fun h =>
      hlast.2.1 (String.toList_inj.1 (by simpa using h))
    rw [List.concat_eq_append, List.map_append, List.map_singleton,
      ofChars_joinWith_of_read (fun name hname => hnames name (by simp [hname])) hlast.2.2]
    simp [hempty, hdot]

theorem ofString_intercalate {names : List String} (hnames : ∀ name ∈ names, IsFileName name) :
    ofString ("/".intercalate names) = ⟨.relative, names⟩ :=
  ofString_intercalate_of_read fun name hname =>
    ⟨(hnames name hname).1, (hnames name hname).2.1, (hnames name hname).2.2.2.1⟩

/-- What reading gives: no name is empty or a dot, and none has a slash in it. -/
def IsRead (p : Path) : Prop :=
  ∀ name ∈ p.parts, name ≠ "" ∧ name ≠ "." ∧ '/' ∉ name.toList

theorem isRead_ofString (s : String) : (ofString s).IsRead := by
  intro name hname
  obtain ⟨piece, hpiece, rfl⟩ := List.mem_map.1 hname
  obtain ⟨hmem, hkept⟩ := List.mem_filter.1 hpiece
  simp only [Bool.and_eq_true, Bool.not_eq_true', List.isEmpty_eq_false_iff,
    decide_eq_true_eq] at hkept
  refine ⟨fun h => hkept.1 ?_, fun h => hkept.2 ?_, ?_⟩
  · simpa using congrArg String.toList h
  · simpa using congrArg String.toList h
  · rw [String.toList_ofList]
    exact not_mem_of_mem_splitAt hmem

theorem IsPlain.isRead {p : Path} (hp : p.IsPlain) : p.IsRead := fun name hname =>
  ⟨(hp.names name hname).1, (hp.names name hname).2.1, (hp.names name hname).2.2.2.1⟩

/-- Resolving a path that was read leaves names that files can have. -/
theorem isPlain_of_resolve {here p q : Path} (hhere : here.IsRead) (hp : p.IsRead)
    (hresolve : resolve here p = .ok q) : q.IsPlain := by
  have hjoin : (here.join p).IsRead := by
    intro name hname
    unfold join at hname
    split at hname
    · exact (List.mem_append.1 hname).elim (hhere name) (hp name)
    · exact hp name hname
  have hcanonical := isCanonical_of_resolve hresolve
  refine ⟨hcanonical.anchor_eq, fun name hname => ?_⟩
  have hmem : name ∈ (here.join p).parts := by
    unfold resolve at hresolve
    split at hresolve
    · cases hresolve
      exact (mem_of_mem_normalParts hname).resolve_left List.not_mem_nil |>.1
    · cases hresolve
  obtain ⟨hempty, hdot, hslash⟩ := hjoin name hmem
  exact ⟨hempty, hdot, fun h => hcanonical.not_mem (h ▸ hname), hslash,
    hcanonical.usable name hname⟩

theorem div_text (base : Path) (text : String) : base / text = base.join (ofString text) := rfl

theorem joinText_intercalate {base : Path} {names : List String}
    (hnames : ∀ name ∈ names, IsFileName name) :
    base / "/".intercalate names = ⟨base.anchor, base.parts ++ names⟩ := by
  rw [div_text, ofString_intercalate hnames]
  rfl

theorem joinText_name {base : Path} {name : String} (hname : IsFileName name) :
    base / name = ⟨base.anchor, base.parts ++ [name]⟩ := by
  have hnames : ∀ n ∈ [name], IsFileName n := fun n hn => List.mem_singleton.1 hn ▸ hname
  have hjoin : base / "/".intercalate [name] = _ := joinText_intercalate hnames
  rwa [String.intercalate_singleton] at hjoin

theorem parent_append {directory : Path} {names : List String} {last : String} :
    Path.parent ⟨directory.anchor, directory.parts ++ (names ++ [last])⟩ =
      ⟨directory.anchor, directory.parts ++ names⟩ := by
  rw [parent, ← List.append_assoc, List.dropLast_concat]

theorem name_append {directory : Path} {names : List String} {last : String} :
    Path.name ⟨directory.anchor, directory.parts ++ (names ++ [last])⟩ = last := by
  simp [name]

/-- The text of a path below a directory has the names that lead there. -/
theorem textBelow_append {directory : Path} {names : List String} (hnames : names ≠ []) :
    Path.textBelow ⟨directory.anchor, directory.parts ++ names⟩ directory =
      "/".intercalate names := by
  have hstarts : directory.parts.isPrefixOf (directory.parts ++ names) := by simp
  unfold textBelow relativeTo?
  simp [hstarts, toString, hnames, anchorText]

end Path

end Folio
