import Folio.Proofs.Text.Cutting
import Folio.Proofs.Text.Finding
import Folio.Source.Relationship
import Mathlib.Data.List.Basic

/-!
# Lists as they are written

The values of an annotation are written bare or in quotation marks, and separated by
commas.  A value that has no character with a meaning of its own in such lists is read
back from any of these spellings: `unquote_text` says so for one value, and
`listValues_itemsText` for a list.
-/

namespace Folio

namespace Text

variable {p : Char → Bool} {s t : List Char}

/-! ## Trimming -/

theorem dropWhile_of_head (h : ∀ c ∈ s.head?, p c = false) : s.dropWhile p = s := by
  cases s with
  | nil => rfl
  | cons c s => exact List.dropWhile_cons_of_neg (by simp [h c rfl])

theorem trim_of_blank (hs : ∀ c ∈ s, isBlank c = true) : trim s = [] := by
  unfold trim trimBy trimLeft
  rw [List.dropWhile_eq_nil_iff.2 hs]
  rfl

theorem trim_append_left (hs : ∀ c ∈ s, isBlank c = true) (t : List Char) :
    trim (s ++ t) = trim t := by
  unfold trim trimBy trimLeft
  rw [List.dropWhile_append_of_pos hs]

theorem trim_append_right (s : List Char) (ht : ∀ c ∈ t, isBlank c = true) :
    trim (s ++ t) = trim s := by
  by_cases hs : ∀ c ∈ s, isBlank c = true
  · rw [trim_append_left hs, trim_of_blank hs, trim_of_blank ht]
  · have hink : ¬ (s.dropWhile isBlank).isEmpty := by
      rwa [List.isEmpty_iff, List.dropWhile_eq_nil_iff]
    unfold trim trimBy trimLeft trimRight
    rw [List.dropWhile_append, if_neg hink, List.reverse_append,
      List.dropWhile_append_of_pos fun c hc => ht c (List.mem_reverse.1 hc)]

/-- A text that begins and ends with ink has nothing to trim. -/
theorem trim_eq_self (hhead : ∀ c ∈ s.head?, isBlank c = false)
    (hlast : ∀ c ∈ s.getLast?, isBlank c = false) : trim s = s := by
  unfold trim trimBy trimLeft trimRight
  rw [dropWhile_of_head hhead, dropWhile_of_head (by simpa using hlast), List.reverse_reverse]

/-! ## Values of a list -/

theorem unquote_append_left (hs : ∀ c ∈ s, isBlank c = true) (t : List Char) :
    unquote (s ++ t) = unquote t := by
  unfold unquote
  rw [trim_append_left hs]

theorem unquote_append_right (s : List Char) (ht : ∀ c ∈ t, isBlank c = true) :
    unquote (s ++ t) = unquote s := by
  unfold unquote
  rw [trim_append_right s ht]

theorem listValues_append_cons (s : List Char) {c : Char} (hc : p c = true) (t : List Char) :
    listValues p (s ++ c :: t) = listValues p s ++ listValues p t := by
  unfold listValues
  rw [splitBy_append_cons s hc, List.map_append, List.filter_append]

theorem listValues_of_not (hs : ∀ c ∈ s, p c = false) :
    listValues p s = if (unquote s).isEmpty then [] else [unquote s] := by
  unfold listValues
  rw [splitBy_of_not hs, List.map_singleton]
  cases unquote s <;> rfl

end Text

namespace Source

open Text

/-! ## Written values -/

/-- A character that has no meaning of its own in any list of values. -/
def isValueChar (c : Char) : Bool :=
  !isBlank c && !"#,'\"[]".toList.contains c

/-- How a value is written. -/
inductive Quoting
  | bare
  | single
  | double
  deriving Repr, DecidableEq

/-- A value, and how it is written. -/
structure Written where
  quoting : Quoting
  value : List Char
  ne_nil : value ≠ [] := by decide
  isValueChar_of_mem : ∀ c ∈ value, isValueChar c

namespace Written

/-- A value as it is written. -/
def text (w : Written) : List Char :=
  match w.quoting with
  | .bare => w.value
  | .single => '\'' :: (w.value ++ ['\''])
  | .double => '"' :: (w.value ++ ['"'])

variable {w : Written} {c : Char}

theorem isBlank_of_mem (hc : c ∈ w.value) : isBlank c = false := by
  have hchar := w.isValueChar_of_mem c hc
  unfold isValueChar at hchar
  rw [Bool.and_eq_true, Bool.not_eq_true'] at hchar
  exact hchar.1

theorem ne_of_mem (hc : c ∈ w.value) :
    c ≠ '#' ∧ c ≠ ',' ∧ c ≠ '\'' ∧ c ≠ '"' ∧ c ≠ '[' ∧ c ≠ ']' := by
  have hchar := w.isValueChar_of_mem c hc
  unfold isValueChar at hchar
  have hlist : "#,'\"[]".toList = ['#', ',', '\'', '"', '[', ']'] := rfl
  rw [hlist] at hchar
  simpa [List.contains_eq_mem] using (Bool.and_eq_true_iff.1 hchar).2

/-- A written value has the characters of the value and quotation marks. -/
theorem mem_of_mem_text (hc : c ∈ w.text) : c ∈ w.value ∨ c = '\'' ∨ c = '"' := by
  have hmarked : ∀ mark, c ∈ mark :: (w.value ++ [mark]) → c ∈ w.value ∨ c = mark := by
    intro mark hc
    rw [List.mem_cons, List.mem_append, List.mem_singleton] at hc
    exact hc.elim .inr id
  unfold text at hc
  split at hc
  · exact .inl hc
  · exact (hmarked _ hc).imp_right .inl
  · exact (hmarked _ hc).imp_right .inr

/-- A written value has no white space and nothing that ends a value. -/
theorem of_mem_text (hc : c ∈ w.text) :
    isBlank c = false ∧ c ≠ '#' ∧ c ≠ ',' ∧ c ≠ '[' ∧ c ≠ ']' := by
  rcases mem_of_mem_text hc with hc | rfl | rfl
  · obtain ⟨hhash, hcomma, -, -, hopen, hclose⟩ := ne_of_mem hc
    exact ⟨isBlank_of_mem hc, hhash, hcomma, hopen, hclose⟩
  · decide
  · decide

theorem text_ne_nil (w : Written) : w.text ≠ [] := by
  unfold text
  split
  · exact w.ne_nil
  · simp
  · simp

theorem trim_value (w : Written) : trim w.value = w.value :=
  trim_eq_self (fun _ hc => isBlank_of_mem (List.mem_of_mem_head? hc)) fun _ hc =>
    isBlank_of_mem (List.mem_of_mem_getLast? hc)

theorem trim_text (w : Written) : trim w.text = w.text :=
  trim_eq_self (fun _ hc => (of_mem_text (List.mem_of_mem_head? hc)).1) fun _ hc =>
    (of_mem_text (List.mem_of_mem_getLast? hc)).1

/-- A value is read back however it is written. -/
theorem unquote_text (w : Written) : unquote w.text = w.value := by
  unfold unquote
  rw [trim_text]
  unfold text
  cases hquoting : w.quoting with
  | bare =>
      obtain ⟨c, rest, hvalue⟩ := List.exists_cons_of_ne_nil w.ne_nil
      obtain ⟨-, -, hsingle, hdouble, -⟩ := ne_of_mem (w := w) (c := c) (by simp [hvalue])
      simp [hvalue, hsingle, hdouble]
  | single => simp [trim_value]
  | double => simp [trim_value]

end Written

/-! ## Written lists -/

/-- Values as they are written, separated by a comma and a space. -/
def itemsText (ws : List Written) : List Char :=
  joinWith [',', ' '] (ws.map Written.text)

@[simp] theorem itemsText_nil : itemsText [] = [] := rfl

@[simp] theorem itemsText_singleton (w : Written) : itemsText [w] = w.text :=
  joinWith_singleton _ _

theorem itemsText_cons (w : Written) {ws : List Written} (hne : ws ≠ []) :
    itemsText (w :: ws) = w.text ++ ',' :: ' ' :: itemsText ws := by
  unfold itemsText
  rw [List.map_cons, joinWith_cons _ _ (by simpa using hne)]
  rfl

/-- A written list has the characters of its values, commas and spaces. -/
theorem mem_itemsText {ws : List Written} {c : Char} (hc : c ∈ itemsText ws) :
    c = ',' ∨ c = ' ' ∨ ∃ w ∈ ws, c ∈ w.text := by
  induction ws with
  | nil => simp at hc
  | cons w ws ih =>
      by_cases hne : ws = []
      · subst hne
        rw [itemsText_singleton] at hc
        exact .inr (.inr ⟨w, by simp, hc⟩)
      · rw [itemsText_cons w hne, List.mem_append, List.mem_cons, List.mem_cons] at hc
        rcases hc with hc | rfl | rfl | hc
        · exact .inr (.inr ⟨w, by simp, hc⟩)
        · exact .inl rfl
        · exact .inr (.inl rfl)
        · rcases ih hc with h | h | ⟨w', hw', hc⟩
          · exact .inl h
          · exact .inr (.inl h)
          · exact .inr (.inr ⟨w', by simp [hw'], hc⟩)

theorem not_blank_of_mem_head_itemsText {ws : List Written} {c : Char}
    (hc : c ∈ (itemsText ws).head?) : isBlank c = false := by
  cases ws with
  | nil => cases hc
  | cons w ws =>
      obtain ⟨d, rest, htext⟩ := List.exists_cons_of_ne_nil w.text_ne_nil
      have hd : isBlank d = false := (Written.of_mem_text (w := w) (by simp [htext])).1
      by_cases hne : ws = []
      · subst hne
        rw [itemsText_singleton, htext] at hc
        exact Option.some.inj hc ▸ hd
      · rw [itemsText_cons w hne, htext] at hc
        exact Option.some.inj hc ▸ hd

theorem not_blank_of_mem_last_itemsText {ws : List Written} {c : Char}
    (hc : c ∈ (itemsText ws).getLast?) : isBlank c = false := by
  rcases List.eq_nil_or_concat ws with rfl | ⟨front, w, rfl⟩
  · cases hc
  · have htext : ∃ before, itemsText (front ++ [w]) = before ++ w.text := by
      by_cases hne : front = []
      · exact ⟨[], by rw [hne]; simp⟩
      · refine ⟨itemsText front ++ [',', ' '], ?_⟩
        unfold itemsText
        rw [List.map_append, joinWith_append _ (by simpa using hne) (by simp)]
        simp
    obtain ⟨before, htext⟩ := htext
    rw [List.concat_eq_append, htext, List.getLast?_append_of_ne_nil _ w.text_ne_nil] at hc
    exact (Written.of_mem_text (List.mem_of_mem_getLast? hc)).1

theorem trim_itemsText (ws : List Written) : trim (itemsText ws) = itemsText ws :=
  trim_eq_self (fun _ => not_blank_of_mem_head_itemsText) fun _ => not_blank_of_mem_last_itemsText

/-- The values of a written list are read back, white space around it aside. -/
theorem listValues_itemsText {p : Char → Bool} (hcomma : p ',' = true) (hspace : p ' ' = false)
    {ws : List Written} (hws : ∀ w ∈ ws, ∀ c ∈ w.text, p c = false) (before after : List Char)
    (hbefore : ∀ c ∈ before, c = ' ') (hafter : ∀ c ∈ after, c = ' ') :
    listValues p (before ++ itemsText ws ++ after) = ws.map Written.value := by
  have hblank : ∀ {s : List Char}, (∀ c ∈ s, c = ' ') → ∀ c ∈ s, isBlank c = true :=
    fun hs c hc => hs c hc ▸ by decide
  have hkept : ∀ {s : List Char}, (∀ c ∈ s, c = ' ') → ∀ c ∈ s, p c = false :=
    fun hs c hc => hs c hc ▸ hspace
  induction ws generalizing before with
  | nil =>
      have hall : ∀ c ∈ before ++ itemsText [] ++ after, c = ' ' := by
        simpa [or_imp, forall_and] using ⟨hbefore, hafter⟩
      have hempty : unquote (before ++ itemsText [] ++ after) = [] := by
        unfold unquote
        rw [trim_of_blank (hblank hall)]
      rw [listValues_of_not (hkept hall), hempty]
      rfl
  | cons w ws ih =>
      obtain ⟨hw, hrest⟩ := List.forall_mem_cons.1 hws
      have hfirst : ∀ {s : List Char}, (∀ c ∈ s, c = ' ') →
          listValues p (before ++ w.text ++ s) = [w.value] := by
        intro s hs
        have hall : ∀ c ∈ before ++ w.text ++ s, p c = false := by
          intro c hc
          rw [List.mem_append, List.mem_append] at hc
          rcases hc with (hc | hc) | hc
          · exact hkept hbefore c hc
          · exact hw c hc
          · exact hkept hs c hc
        have hvalue : unquote (before ++ w.text ++ s) = w.value := by
          rw [unquote_append_right _ (hblank hs), unquote_append_left (hblank hbefore),
            w.unquote_text]
        rw [listValues_of_not hall, hvalue, if_neg (by simpa using w.ne_nil)]
      by_cases hne : ws = []
      · subst hne
        rw [itemsText_singleton, hfirst hafter]
        rfl
      · have hsplit : before ++ itemsText (w :: ws) ++ after =
            (before ++ w.text) ++ ',' :: ([' '] ++ itemsText ws ++ after) := by
          simp [itemsText_cons w hne]
        have hnone := hfirst (s := []) (by simp)
        rw [List.append_nil] at hnone
        rw [hsplit, listValues_append_cons _ hcomma, hnone, ih hrest _ (by simp)]
        rfl

/-! ## Lists with dashes -/

/-- A line of a list with dashes. -/
def dashLine (indent : Nat) (w : Written) : List Char :=
  List.replicate indent ' ' ++ '-' :: ' ' :: w.text

/-- Characters that were checked one by one. -/
theorem not_boundary_of_all {s : List Char} (hs : (s.all fun c => !isLineBoundary c) = true) :
    ∀ c ∈ s, isLineBoundary c = false := fun c hc => by
  simpa using List.all_eq_true.1 hs c hc

theorem isLineBoundary_of_not_blank {c : Char} (hc : isBlank c = false) :
    isLineBoundary c = false := by
  unfold isBlank at hc
  unfold isLineBoundary
  simp only [Bool.or_eq_false_iff, Bool.and_eq_false_iff, decide_eq_false_iff_not,
    beq_eq_false_iff_ne] at hc ⊢
  omega

theorem not_boundary_of_mem_itemsText {ws : List Written} {c : Char} (hc : c ∈ itemsText ws) :
    isLineBoundary c = false := by
  rcases mem_itemsText hc with rfl | rfl | ⟨w, -, hc⟩
  · decide
  · decide
  · exact isLineBoundary_of_not_blank (Written.of_mem_text hc).1

theorem mem_dashLine {indent : Nat} {w : Written} {c : Char} (hc : c ∈ dashLine indent w) :
    c = ' ' ∨ c = '-' ∨ c ∈ w.text := by
  unfold dashLine at hc
  rw [List.mem_append, List.mem_cons, List.mem_cons] at hc
  rcases hc with hc | hc | hc | hc
  · exact .inl (List.eq_of_mem_replicate hc)
  · exact .inr (.inl hc)
  · exact .inl hc
  · exact .inr (.inr hc)

theorem not_boundary_of_mem_dashLine {indent : Nat} {w : Written} {c : Char}
    (hc : c ∈ dashLine indent w) : isLineBoundary c = false := by
  rcases mem_dashLine hc with rfl | rfl | hc
  · decide
  · decide
  · exact isLineBoundary_of_not_blank (Written.of_mem_text hc).1

theorem trim_dashLine (indent : Nat) (w : Written) :
    trim (dashLine indent w) = '-' :: ' ' :: w.text := by
  have hspace : ∀ c ∈ List.replicate indent ' ', isBlank c = true := fun c hc =>
    List.eq_of_mem_replicate hc ▸ by decide
  unfold dashLine
  rw [trim_append_left hspace]
  refine trim_eq_self (fun c hc => ?_) fun c hc => ?_
  · exact Option.some.inj hc ▸ by decide
  · have htext : '-' :: ' ' :: w.text = ['-', ' '] ++ w.text := rfl
    rw [htext, List.getLast?_append_of_ne_nil _ w.text_ne_nil] at hc
    exact (Written.of_mem_text (List.mem_of_mem_getLast? hc)).1

/-- What a line with a dash gives. -/
theorem unquote_dashLine (indent : Nat) (w : Written) :
    unquote (trim (dashLine indent w)).tail = w.value := by
  rw [trim_dashLine, List.tail_cons]
  exact (unquote_append_left (s := [' ']) (List.all_eq_true.1 (by decide)) w.text).trans
    w.unquote_text

/-! ## Lists in comments -/

/-- A mark is found where it first stands. -/
theorem splitAtWord_append {s t mark : List Char} (hne : mark ≠ [])
    (hs : Quiet (dropWord mark) s (mark ++ t)) :
    splitAtWord mark (s ++ (mark ++ t)) = some (s, t) := by
  induction s with
  | nil =>
      obtain ⟨c, mark, rfl⟩ := List.exists_cons_of_ne_nil hne
      have hdrop := dropWord_append (c :: mark) t
      rw [List.nil_append, List.cons_append] at *
      rw [splitAtWord, hdrop]
  | cons c s ih =>
      obtain ⟨hfirst, hrest⟩ := quiet_cons.1 hs
      rw [List.cons_append] at hfirst ⊢
      rw [splitAtWord, hfirst]
      dsimp only
      rw [ih hrest]
      rfl

theorem hash_not_mem_itemsText (ws : List Written) : '#' ∉ itemsText ws := by
  intro hc
  rcases mem_itemsText hc with h | h | ⟨w, -, hc⟩
  · exact absurd h (by decide)
  · exact absurd h (by decide)
  · exact (Written.of_mem_text hc).2.1 rfl

theorem dropClosingHyphen_itemsText (ws : List Written) :
    ∃ after, (∀ c ∈ after, c = ' ') ∧
      dropClosingHyphen (dropBlanks (' ' :: (itemsText ws ++ [' ']))) = itemsText ws ++ after := by
  have hspace : dropBlanks (' ' :: (itemsText ws ++ [' '])) = dropBlanks (itemsText ws ++ [' ']) :=
    List.dropWhile_cons_of_pos (by decide)
  rw [hspace]
  cases hitems : itemsText ws with
  | nil => exact ⟨[], by simp, rfl⟩
  | cons c rest =>
      have hc : isBlank c = false := not_blank_of_mem_head_itemsText (by rw [hitems]; rfl)
      have hdrop : dropBlanks (c :: rest ++ [' ']) = c :: rest ++ [' '] :=
        List.dropWhile_cons_of_neg (by simp [hc])
      refine ⟨[' '], by simp, ?_⟩
      unfold dropClosingHyphen
      rw [hdrop, List.getLast?_concat, if_neg (by simp)]

/-- The content of a comment with a list is the list, and perhaps a space. -/
theorem commentValue_itemsText (ws : List Written) (t : List Char) :
    ∃ after, (∀ c ∈ after, c = ' ') ∧
      commentValue (' ' :: (itemsText ws ++ " #\x7d".toList) ++ t) =
        some (itemsText ws ++ after, t) := by
  have hall : ∀ c ∈ ' ' :: (itemsText ws ++ [' ']), (c != '#') = true := by
    intro c hc
    have hne : c ≠ '#' := by
      rintro rfl
      simp [hash_not_mem_itemsText] at hc
    simpa using hne
  have hsplit : ' ' :: (itemsText ws ++ " #\x7d".toList) ++ t =
      (' ' :: (itemsText ws ++ [' '])) ++ '#' :: '}' :: t := by simp
  obtain ⟨after, hafter, hvalue⟩ := dropClosingHyphen_itemsText ws
  refine ⟨after, hafter, ?_⟩
  unfold commentValue
  dsimp only
  rw [hsplit, List.takeWhile_append_of_pos hall, List.dropWhile_append_of_pos hall,
    List.takeWhile_cons_of_neg (by decide), List.dropWhile_cons_of_neg (by decide), List.append_nil,
    hvalue]
  rfl

end Source

end Folio
