import Folio.Proofs.Path.Canonical
import Folio.Session
import Mathlib.Data.String.Basic

/-!
# Reading files by canonical paths

Following a canonical path only goes down, so it leads to the place with the names
of the path or fails.  What is read there stands in the tree, and a text has no
more characters than its file has bytes.
-/

namespace Folio

open Text

namespace FileTree

variable {t : FileTree} {p : Path} {place : Place}

/-! ## Following canonical paths -/

theorem walk_eq_of_not_mem {names : List String} {start : Place}
    (hwalk : t.walk start names = .ok place) (hup : ".." ∉ names) : place = start ++ names := by
  induction names generalizing start with
  | nil =>
      cases hwalk
      simp
  | cons name rest ih =>
      have hname : name ≠ ".." := fun h => hup (by simp [h])
      unfold walk at hwalk
      split at hwalk
      · cases hwalk
      · cases hwalk
      · rw [if_neg hname] at hwalk
        split at hwalk
        · cases hwalk
        · rw [ih hwalk fun h => hup (List.mem_cons_of_mem _ h)]
          simp

/-- Where a path leads can be followed by names that can be used. -/
theorem walk_of_locate (hlocate : t.locate p = .ok place) :
    t.walk [] p.parts = .ok place ∧ ∀ name ∈ p.parts, Path.isUsable name := by
  unfold locate at hlocate
  split at hlocate
  · cases hlocate
  · rename_i husable
    split at hlocate
    · cases hlocate
    · exact ⟨hlocate, List.all_eq_true.1 (by simpa using husable)⟩

theorem locate_eq (hup : ".." ∉ p.parts) (hlocate : t.locate p = .ok place) :
    place = p.parts := by
  simpa using walk_eq_of_not_mem (walk_of_locate hlocate).1 hup

/-- The failure of a path without null characters is another one. -/
theorem walk_ne_nullCharacter {names : List String} {start : Place} :
    t.walk start names ≠ .error .nullCharacter := by
  induction names generalizing start with
  | nil =>
      intro h
      cases h
  | cons name rest ih =>
      unfold walk
      split
      · simp
      · simp
      · split
        · exact ih
        · split
          · simp
          · exact ih

theorem locate_ne_nullCharacter (hp : p.IsCanonical) :
    t.locate p ≠ .error .nullCharacter := by
  have husable : p.parts.all Path.isUsable = true := List.all_eq_true.2 hp.usable
  unfold locate
  rw [husable]
  simp only [Bool.not_true, Bool.false_eq_true, if_false]
  split
  · simp
  · exact walk_ne_nullCharacter

theorem stat_eq_ok (hp : p.IsCanonical) {entry : Entry} (hstat : t.stat p = .ok entry) :
    t.entry? p.parts = some entry := by
  unfold stat at hstat
  cases hlocate : t.locate p with
  | error fault =>
      rw [hlocate] at hstat
      cases hstat
  | ok place =>
      obtain rfl := locate_eq hp.not_mem hlocate
      rw [hlocate] at hstat
      cases hentry : t.entry? p.parts with
      | none => simp [bind, Except.bind, hentry] at hstat
      | some found =>
          simp only [bind, Except.bind, hentry] at hstat
          cases hstat
          rfl

/-- A path that leads to a file is followed to its place. -/
theorem stat_of_isFile {p : Path} (hp : p.IsCanonical) (hfile : t.isFile p = .ok true) :
    ∃ content, t.entry? p.parts = some (.file content) ∧ t.stat p = .ok (.file content) ∧
      t.locate p = .ok p.parts := by
  unfold isFile probe at hfile
  cases hstat : t.stat p with
  | error fault => rw [hstat] at hfile; cases fault <;> cases hfile
  | ok entry =>
      rw [hstat] at hfile
      cases entry with
      | directory => cases hfile
      | file content =>
          refine ⟨content, stat_eq_ok hp hstat, rfl, ?_⟩
          unfold stat at hstat
          cases hlocate : t.locate p with
          | error fault => rw [hlocate] at hstat; cases hstat
          | ok place => rw [locate_eq hp.not_mem hlocate]

theorem stat_ne_nullCharacter (hp : p.IsCanonical) : t.stat p ≠ .error .nullCharacter := by
  unfold stat
  cases hlocate : t.locate p with
  | error fault =>
      intro h
      cases h
      exact locate_ne_nullCharacter hp hlocate
  | ok place =>
      cases hentry : t.entry? place <;>
        simp [bind, Except.bind, pure, Except.pure, throw, throwThe, MonadExceptOf.throw, hentry]

/-! ## Reading -/

theorem read_eq_ok (hp : p.IsCanonical) {content : ByteArray} (hread : t.read p = .ok content) :
    t.entry? p.parts = some (.file content) := by
  unfold read at hread
  cases hstat : t.stat p with
  | error fault =>
      rw [hstat] at hread
      cases hread
  | ok entry =>
      rw [hstat] at hread
      cases entry with
      | directory => cases hread
      | file found =>
          cases hread
          exact stat_eq_ok hp hstat

theorem read_ne_nullCharacter (hp : p.IsCanonical) : t.read p ≠ .error .nullCharacter := by
  unfold read
  cases hstat : t.stat p with
  | error fault =>
      intro h
      cases h
      exact stat_ne_nullCharacter hp hstat
  | ok entry =>
      cases entry with
      | directory =>
          intro h
          cases h
      | file content =>
          intro h
          cases h

/-- A canonical path that gives no text could not be read. -/
theorem isReadFault_of_readText (hp : p.IsCanonical) {cause : Cause}
    (hread : t.readText p = .error cause) : cause.isReadFault := by
  unfold readText at hread
  split at hread
  · rename_i fault hfault
    cases hread
    have hnull : fault ≠ .nullCharacter := fun h => read_ne_nullCharacter hp (h ▸ hfault)
    cases fault <;> first | rfl | exact absurd rfl hnull
  · split at hread
    · cases hread
    · cases hread
      rfl

/-! ## Lengths -/

theorem length_normalizeLineEnds_le (s : List Char) : (normalizeLineEnds s).length ≤ s.length := by
  induction s using normalizeLineEnds.induct with
  | case1 => exact Nat.le_refl _
  | case2 rest ih =>
      rw [normalizeLineEnds, List.length_cons, List.length_cons, List.length_cons]
      omega
  | case3 rest hrest ih =>
      rw [normalizeLineEnds, List.length_cons, List.length_cons]
      · omega
      · exact hrest
  | case4 c rest h h' ih =>
      rw [normalizeLineEnds, List.length_cons, List.length_cons]
      · omega
      · exact h
      · exact h'

theorem length_le_utf8Len (s : List Char) : s.length ≤ String.utf8Len s := by
  induction s with
  | nil => exact Nat.zero_le _
  | cons c rest ih =>
      have hsize := Char.utf8Size_pos c
      rw [String.utf8Len_cons, List.length_cons]
      omega

/-- The text of a file with some bytes, if they are one. -/
def textOf (content : ByteArray) : Option (List Char) :=
  (String.fromUTF8? content).map fun s => normalizeLineEnds s.toList

/-- A text that was read is that of a file. -/
theorem readText_eq_ok (hp : p.IsCanonical) {text : List Char} (hread : t.readText p = .ok text) :
    ∃ content, t.entry? p.parts = some (.file content) ∧ textOf content = some text := by
  unfold readText at hread
  split at hread
  · cases hread
  · rename_i content hcontent
    refine ⟨content, read_eq_ok hp hcontent, ?_⟩
    unfold textOf
    split at hread
    · rename_i s hs
      cases hread
      rw [hs]
      rfl
    · cases hread

/-- A text has no more characters than bytes. -/
theorem length_le_of_textOf {content : ByteArray} {text : List Char}
    (htext : textOf content = some text) : text.length ≤ content.size := by
  obtain ⟨s, hs, rfl⟩ := Option.map_eq_some_iff.1 htext
  have hbytes : s.toByteArray = content := by
    unfold String.fromUTF8? at hs
    split at hs
    · cases hs
      rfl
    · cases hs
  calc (normalizeLineEnds s.toList).length
      ≤ s.toList.length := length_normalizeLineEnds_le _
    _ ≤ String.utf8Len s.toList := length_le_utf8Len _
    _ = content.size := by rw [String.utf8Len_toList, ← hbytes]; rfl

end FileTree

end Folio
