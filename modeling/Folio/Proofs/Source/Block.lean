import Folio.Proofs.Source.Written
import Folio.Proofs.Text.Finding

/-!
# The block of relationships

A page can name its neighbours in a comment at its top.  Each key has a line, and its
targets stand there as an inline list, below as a list with dashes, or there as a bare
value.  `map_pair_blockRefs` says that a block is read as it was written.

Only keys and targets matter, not the lines that they are on, so everything is said about
`RelationshipRef.pair`.  The block is followed line by line: the lines of one key end where
another key stands.
-/

namespace Folio.Source

open Text

/-! ## Writing -/

/-- The ways to write the targets of a key in a block. -/
inductive BlockValue
  | inline (targets : List Written)
  | dashes (indent : Nat) (first : Written) (rest : List Written)
  | bare (target : Written)

namespace BlockValue

/-- The targets that are written. -/
def targets : BlockValue → List Written
  | .inline ws => ws
  | .dashes _ first rest => first :: rest
  | .bare w => [w]

/-- What stands on the line of the key. -/
def onLine : BlockValue → List Char
  | .inline ws => " [".toList ++ itemsText ws ++ "]".toList
  | .dashes _ _ _ => []
  | .bare w => ' ' :: w.text

/-- The lines that follow the line of the key. -/
def below : BlockValue → List (List Char)
  | .inline _ => []
  | .dashes indent first rest => (first :: rest).map (dashLine indent)
  | .bare _ => []

end BlockValue

/-- A key of a block with its targets. -/
structure BlockEntry where
  indent : Nat
  key : Relation
  value : BlockValue

namespace BlockEntry

/-- The lines of a key. -/
def lines (e : BlockEntry) : List (List Char) :=
  (List.replicate e.indent ' ' ++ (e.key.name.toList ++ ':' :: e.value.onLine)) :: e.value.below

/-- The targets of a key. -/
def targets (e : BlockEntry) : List (List Char) :=
  e.value.targets.map Written.value

end BlockEntry

/-- The lines of a block, the one that marks it first. -/
def blockLines (entries : List BlockEntry) : List (List Char) :=
  "relationships:".toList :: entries.flatMap BlockEntry.lines

/-- What a block holds below its opening mark. -/
def blockBody (entries : List BlockEntry) : List Char :=
  (blockLines entries).flatMap (· ++ ['\n'])

/-- A block at the top of a page. -/
def blockText (entries : List BlockEntry) : List Char :=
  "\x7b#\n".toList ++ blockBody entries ++ "#\x7d".toList

/-! ## Lines of a block -/

/-- A key and a target, wherever they stand. -/
def RelationshipRef.pair (ref : RelationshipRef) : List Char × List Char :=
  (ref.key, ref.target)

variable {s t : List Char}

theorem keyLine_key (indent : Nat) (key : Relation) (v : List Char) :
    keyLine (List.replicate indent ' ' ++ (key.name.toList ++ ':' :: v)) =
      some (key.name.toList, trim v) := by
  have hspace : ∀ c ∈ List.replicate indent ' ', isBlank c = true := fun c hc =>
    List.eq_of_mem_replicate hc ▸ by decide
  have hstart : dropBlanks (key.name.toList ++ ':' :: v) = key.name.toList ++ ':' :: v := by
    cases key <;> rfl
  have hkey : dropAnyOf (Relation.all.map Relation.name) (key.name.toList ++ ':' :: v) =
      some (key.name, ':' :: v) := by
    cases key <;> rfl
  unfold keyLine
  rw [dropBlanks_append hspace, hstart, hkey]
  rfl

theorem keyLine_dashLine (indent : Nat) (w : Written) : keyLine (dashLine indent w) = none := by
  have hspace : ∀ c ∈ List.replicate indent ' ', isBlank c = true := fun c hc =>
    List.eq_of_mem_replicate hc ▸ by decide
  unfold keyLine dashLine
  rw [dropBlanks_append hspace]
  rfl

theorem keyLine_below {value : BlockValue} (hs : s ∈ value.below) : keyLine s = none := by
  cases value with
  | inline ws => cases hs
  | dashes indent first rest =>
      obtain ⟨w, -, rfl⟩ := List.mem_map.1 hs
      exact keyLine_dashLine indent w
  | bare w => cases hs

theorem keyLine_mark (s : List Char) : keyLine ("relationships".toList ++ s) = none := rfl

theorem lineRefs_of_no_key {l : BlockLine} (h : keyLine l.content = none) (rest : List BlockLine) :
    lineRefs l rest = [] := by
  unfold lineRefs
  rw [h]

theorem blockLineRefs_append {items : List BlockLine}
    (hitems : ∀ l ∈ items, keyLine l.content = none) (rest : List BlockLine) :
    blockLineRefs (items ++ rest) = blockLineRefs rest := by
  induction items with
  | nil => rfl
  | cons l items ih =>
      obtain ⟨hl, hothers⟩ := List.forall_mem_cons.1 hitems
      rw [List.cons_append, blockLineRefs, lineRefs_of_no_key hl, ih hothers]
      rfl

/-- Another key, or the end of the block, ends the items of a key. -/
theorem followingItems_stop (key : List Char) {rest : List BlockLine}
    (hrest : ∀ l ∈ rest.head?, (keyLine l.content).isSome) : followingItems key rest = [] := by
  cases rest with
  | nil => rfl
  | cons l rest =>
      have hstop : (keyLine l.content).isNone = false := by
        rw [Option.isNone_eq_false_iff]
        exact hrest l rfl
      unfold followingItems
      dsimp only
      rw [List.takeWhile_cons, hstop]
      rfl

theorem followingItems_cons (key : List Char) {indent : Nat} {w : Written} {l : BlockLine}
    (hl : l.content = dashLine indent w) (rest : List BlockLine) :
    followingItems key (l :: rest) = ⟨key, w.value, l.line⟩ :: followingItems key rest := by
  have htake : ((keyLine l.content).isNone && decide ((trim l.content).head? = some '-')) =
      true := by
    rw [hl, keyLine_dashLine, trim_dashLine]
    rfl
  have hvalue : unquote (trim l.content).tail = w.value := hl ▸ unquote_dashLine indent w
  unfold followingItems
  dsimp only
  rw [List.takeWhile_cons, if_pos htake, List.filterMap_cons, hvalue,
    if_neg (by simpa using w.ne_nil)]

/-- The items below a key are those up to the next key. -/
theorem map_pair_followingItems (key : List Char) {indent : Nat} {ws : List Written}
    {items rest : List BlockLine} (hitems : items.map (·.content) = ws.map (dashLine indent))
    (hrest : ∀ l ∈ rest.head?, (keyLine l.content).isSome) :
    (followingItems key (items ++ rest)).map RelationshipRef.pair =
      ws.map fun w => (key, w.value) := by
  induction ws generalizing items with
  | nil =>
      obtain rfl : items = [] := by simpa using hitems
      rw [List.nil_append, followingItems_stop key hrest]
      rfl
  | cons w ws ih =>
      cases items with
      | nil => simp at hitems
      | cons l items =>
          obtain ⟨hl, hothers⟩ := List.cons.inj hitems
          rw [List.cons_append, followingItems_cons key hl, List.map_cons, ih hothers]
          rfl

theorem commaValues_itemsText (ws : List Written) {after : List Char}
    (hafter : ∀ c ∈ after, c = ' ') :
    commaValues (itemsText ws ++ after) = ws.map Written.value :=
  listValues_itemsText (p := (· == ',')) (by decide) (by decide)
    (fun _ _ _ hc => by simpa using (Written.of_mem_text hc).2.2.1) [] after (by simp) hafter

theorem lineRefs_inline {l : BlockLine} {key : List Char} {ws : List Written}
    (hl : keyLine l.content = some (key, '[' :: (itemsText ws ++ [']']))) (rest : List BlockLine) :
    lineRefs l rest = (ws.map Written.value).map fun v => ⟨key, v, l.line⟩ := by
  have hclose : ∀ c ∈ itemsText ws, (c != ']') = true := by
    intro c hc
    rcases mem_itemsText hc with rfl | rfl | ⟨w, -, hc⟩
    · decide
    · decide
    · simpa using (Written.of_mem_text hc).2.2.2.2
  have hinner : (itemsText ws ++ [']']).takeWhile (· != ']') = itemsText ws ++ [] := by
    rw [List.takeWhile_append_of_pos hclose]
    rfl
  unfold lineRefs
  rw [hl]
  dsimp only
  rw [if_pos (by simp), List.tail_cons, hinner, commaValues_itemsText ws (by simp)]

theorem lineRefs_dashes {l : BlockLine} {key : List Char} {rest : List BlockLine}
    (hl : keyLine l.content = some (key, [])) (hne : followingItems key rest ≠ []) :
    lineRefs l rest = followingItems key rest := by
  unfold lineRefs
  rw [hl]
  dsimp only
  rw [if_neg (by simp)]
  split
  · contradiction
  · rfl

theorem lineRefs_bare {l : BlockLine} {key : List Char} {w : Written} {rest : List BlockLine}
    (hl : keyLine l.content = some (key, w.text)) (hnone : followingItems key rest = []) :
    lineRefs l rest = [⟨key, w.value, l.line⟩] := by
  have hopen : w.text.head? ≠ some '[' := fun h =>
    (Written.of_mem_text (List.mem_of_mem_head? h)).2.2.2.1 rfl
  unfold lineRefs
  rw [hl]
  dsimp only
  rw [if_neg (by simp [hopen]), hnone]
  dsimp only
  rw [if_neg (by simpa using w.text_ne_nil), w.unquote_text]

theorem trim_onLine_inline (ws : List Written) :
    trim (BlockValue.onLine (.inline ws)) = '[' :: (itemsText ws ++ [']']) := by
  have hsplit : BlockValue.onLine (.inline ws) = [' '] ++ ('[' :: (itemsText ws ++ [']'])) := by
    show " [".toList ++ itemsText ws ++ "]".toList = _
    rw [List.append_assoc]
    rfl
  rw [hsplit, trim_append_left (List.all_eq_true.1 (by decide))]
  refine trim_eq_self (fun c hc => Option.some.inj hc ▸ by decide) fun c hc => ?_
  rw [← List.cons_append, List.getLast?_concat] at hc
  exact Option.some.inj hc ▸ by decide

/-- What the line of a key gives, the lines below it being those of its targets. -/
theorem map_pair_lineRefs {e : BlockEntry} {l : BlockLine} {items rest : List BlockLine}
    (hl : l.content = List.replicate e.indent ' ' ++ (e.key.name.toList ++ ':' :: e.value.onLine))
    (hitems : items.map (·.content) = e.value.below)
    (hrest : ∀ l ∈ rest.head?, (keyLine l.content).isSome) :
    (lineRefs l (items ++ rest)).map RelationshipRef.pair =
      e.targets.map fun v => (e.key.name.toList, v) := by
  obtain ⟨indent, key, value⟩ := e
  have hkey : keyLine l.content = some (key.name.toList, trim value.onLine) :=
    hl ▸ keyLine_key indent key value.onLine
  cases value with
  | inline ws =>
      rw [trim_onLine_inline] at hkey
      rw [lineRefs_inline hkey, List.map_map]
      rfl
  | dashes itemIndent first others =>
      have hfollowing := map_pair_followingItems key.name.toList hitems hrest
      have hne : followingItems key.name.toList (items ++ rest) ≠ [] := by
        intro h
        rw [h] at hfollowing
        cases hfollowing
      rw [lineRefs_dashes hkey hne, hfollowing]
      simp [BlockEntry.targets, BlockValue.targets]
  | bare w =>
      have hvalue : trim (BlockValue.onLine (.bare w)) = w.text :=
        (trim_append_left (s := [' ']) (List.all_eq_true.1 (by decide)) w.text).trans w.trim_text
      obtain rfl : items = [] := by simpa [BlockValue.below] using hitems
      rw [hvalue] at hkey
      rw [List.nil_append, lineRefs_bare hkey (followingItems_stop _ hrest)]
      rfl

/-! ## The block -/

/-- The lines of a block give its targets in order. -/
theorem map_pair_blockLineRefs {entries : List BlockEntry} {ls : List BlockLine}
    (hls : ls.map (·.content) = entries.flatMap BlockEntry.lines) :
    (blockLineRefs ls).map RelationshipRef.pair =
      entries.flatMap fun e => e.targets.map fun v => (e.key.name.toList, v) := by
  induction entries generalizing ls with
  | nil =>
      obtain rfl : ls = [] := by simpa using hls
      rfl
  | cons e entries ih =>
      rw [List.flatMap_cons] at hls
      obtain ⟨own, rest, rfl, hown, hrest⟩ := List.map_eq_append_iff.1 hls
      cases own with
      | nil => cases hown
      | cons l items =>
          obtain ⟨hl, hitems⟩ := List.cons.inj hown
          have hnext : ∀ l ∈ rest.head?, (keyLine l.content).isSome := by
            intro l hl
            cases entries with
            | nil => simp [show rest = [] by simpa using hrest] at hl
            | cons e' entries =>
                cases rest with
                | nil => cases hl
                | cons l' rest =>
                    obtain rfl := Option.some.inj hl
                    rw [List.flatMap_cons] at hrest
                    have hcontent : l'.content = List.replicate e'.indent ' ' ++
                        (e'.key.name.toList ++ ':' :: e'.value.onLine) := (List.cons.inj hrest).1
                    rw [hcontent, keyLine_key]
                    rfl
          have hnone : ∀ l ∈ items, keyLine l.content = none := by
            intro l hl
            have hmem : l.content ∈ items.map (·.content) := List.mem_map_of_mem hl
            exact keyLine_below (hitems ▸ hmem)
          rw [List.cons_append, blockLineRefs, blockLineRefs_append hnone, List.map_append,
            map_pair_lineRefs hl hitems hnext, ih hrest, List.flatMap_cons]

theorem trimRight_of_not_boundary {p : Char → Bool} (hp : ∀ c, p c = true → isLineBoundary c = true)
    (hs : ∀ c ∈ s, isLineBoundary c = false) : trimRight p s = s := by
  have hkept : ∀ c ∈ s.reverse.head?, p c = false := by
    intro c hc
    have hmem : c ∈ s := List.mem_reverse.1 (List.mem_of_mem_head? hc)
    by_contra h
    have hboundary := hp c (by simpa using h)
    rw [hs c hmem] at hboundary
    cases hboundary
  rw [trimRight, dropWhile_of_head hkept, List.reverse_reverse]

theorem isLineBoundary_of_lineEnd {c : Char} (h : (c == '\r' || c == '\n') = true) :
    isLineBoundary c = true := by
  rcases Bool.or_eq_true_iff.1 h with h | h
  · rw [beq_iff_eq.1 h]
    decide
  · rw [beq_iff_eq.1 h]
    decide

/-- Lines that have no boundary in them are numbered as they are. -/
theorem map_content_numberLines {lines : List (List Char)}
    (hlines : ∀ l ∈ lines, ∀ c ∈ l, isLineBoundary c = false) (text : List Char) (offset : Nat) :
    (numberLines text offset (lines.map (· ++ ['\n']))).map (·.content) = lines := by
  induction lines generalizing offset with
  | nil => rfl
  | cons l lines ih =>
      obtain ⟨hl, hrest⟩ := List.forall_mem_cons.1 hlines
      have htrim : trimRight (fun c => c == '\r' || c == '\n') (l ++ ['\n']) = l := by
        rw [trimRight_append_of_pos _ (by decide)]
        exact trimRight_of_not_boundary (fun _ => isLineBoundary_of_lineEnd) hl
      rw [List.map_cons, numberLines, List.map_cons, ih hrest, htrim]

/-- Text that stays on its line and ends no comment. -/
def IsPlainLine (s : List Char) : Prop :=
  ∀ c ∈ s, isLineBoundary c = false ∧ c ≠ '#'

theorem IsPlainLine.append (hs : IsPlainLine s) (ht : IsPlainLine t) : IsPlainLine (s ++ t) :=
  List.forall_mem_append.2 ⟨hs, ht⟩

theorem isPlainLine_of_all (hs : (s.all fun c => !isLineBoundary c && c != '#') = true) :
    IsPlainLine s := fun c hc => by
  simpa using List.all_eq_true.1 hs c hc

theorem isPlainLine_text (w : Written) : IsPlainLine w.text := fun _ hc =>
  ⟨isLineBoundary_of_not_blank (Written.of_mem_text hc).1, (Written.of_mem_text hc).2.1⟩

theorem isPlainLine_itemsText (ws : List Written) : IsPlainLine (itemsText ws) := fun _ hc =>
  ⟨not_boundary_of_mem_itemsText hc, fun h => hash_not_mem_itemsText ws (h ▸ hc)⟩

theorem isPlainLine_spaces (n : Nat) : IsPlainLine (List.replicate n ' ') := fun _ hc =>
  List.eq_of_mem_replicate hc ▸ by decide

theorem isPlainLine_name (key : Relation) : IsPlainLine key.name.toList :=
  isPlainLine_of_all (by cases key <;> decide)

theorem isPlainLine_onLine (value : BlockValue) : IsPlainLine value.onLine := by
  have hspace : IsPlainLine [' '] := isPlainLine_of_all (by decide)
  have hopen : IsPlainLine " [".toList := isPlainLine_of_all (by decide)
  have hclose : IsPlainLine "]".toList := isPlainLine_of_all (by decide)
  cases value with
  | inline ws => exact (hopen.append (isPlainLine_itemsText ws)).append hclose
  | dashes indent first rest => exact fun _ hc => absurd hc List.not_mem_nil
  | bare w => exact hspace.append (isPlainLine_text w)

theorem isPlainLine_of_mem_lines {e : BlockEntry} (hs : s ∈ e.lines) : IsPlainLine s := by
  have hcolon : IsPlainLine [':'] := isPlainLine_of_all (by decide)
  have hdash : IsPlainLine ['-', ' '] := isPlainLine_of_all (by decide)
  rcases List.mem_cons.1 hs with rfl | hs
  · exact (isPlainLine_spaces _).append
      ((isPlainLine_name _).append (hcolon.append (isPlainLine_onLine _)))
  · cases hvalue : e.value with
    | inline ws => simp [hvalue, BlockValue.below] at hs
    | dashes indent first rest =>
        rw [hvalue] at hs
        obtain ⟨w, -, rfl⟩ := List.mem_map.1 hs
        exact (isPlainLine_spaces _).append (hdash.append (isPlainLine_text w))
    | bare w => simp [hvalue, BlockValue.below] at hs

theorem isPlainLine_of_mem_blockLines {entries : List BlockEntry} (hs : s ∈ blockLines entries) :
    IsPlainLine s := by
  rcases List.mem_cons.1 hs with rfl | hs
  · exact isPlainLine_of_all (by decide)
  · obtain ⟨e, -, hs⟩ := List.mem_flatMap.1 hs
    exact isPlainLine_of_mem_lines hs

theorem hash_not_mem_blockBody (entries : List BlockEntry) : '#' ∉ blockBody entries := by
  intro hmem
  obtain ⟨l, hl, hmem⟩ := List.mem_flatMap.1 hmem
  rcases List.mem_append.1 hmem with hmem | hmem
  · exact (isPlainLine_of_mem_blockLines hl _ hmem).2 rfl
  · exact absurd hmem (by decide)

theorem getLast?_blockBody (entries : List BlockEntry) :
    (blockBody entries).getLast? = some '\n' := by
  unfold blockBody
  rcases List.eq_nil_or_concat (blockLines entries) with h | ⟨front, last, h⟩
  · cases h
  · rw [h, List.concat_eq_append, List.flatMap_append, List.flatMap_singleton, ← List.append_assoc,
      List.getLast?_concat]

theorem headerComment_blockText (entries : List BlockEntry) (t : List Char) :
    ∃ offset, headerComment (blockText entries ++ t) =
      some ⟨offset, '\n' :: blockBody entries⟩ := by
  have hhash : '#' ∉ '\n' :: blockBody entries := by
    rw [List.mem_cons, not_or]
    exact ⟨by decide, hash_not_mem_blockBody entries⟩
  have hsplit : splitAtWord ['#', '}'] ('\n' :: blockBody entries ++ (['#', '}'] ++ t)) =
      some ('\n' :: blockBody entries, t) :=
    splitAtWord_append (by decide) fun c v hv => dropWord_cons_ne
      (fun h : '#' = c => hhash (hv.subset (h ▸ List.mem_cons_self))) _ _
  have hlast : ('\n' :: blockBody entries).getLast? ≠ some '-' := by
    rw [List.getLast?_cons, getLast?_blockBody]
    decide
  have hopen : dropWord ['{', '#'] (dropBlanks (blockText entries ++ t)) =
      some ('\n' :: blockBody entries ++ (['#', '}'] ++ t)) := by
    unfold blockText
    rw [List.append_assoc, List.append_assoc]
    rfl
  have hhyphen : dropOne ['-'] ('\n' :: blockBody entries ++ (['#', '}'] ++ t)) =
      '\n' :: blockBody entries ++ (['#', '}'] ++ t) := rfl
  refine ⟨(blockText entries ++ t).length -
    ('\n' :: blockBody entries ++ (['#', '}'] ++ t)).length, ?_⟩
  unfold headerComment
  rw [hopen, Option.bind_eq_bind, Option.bind_some]
  dsimp only
  rw [hhyphen, hsplit, Option.bind_eq_bind, Option.bind_some]
  dsimp only
  rw [if_neg hlast]
  rfl

/-- The mark of a block is found on its first line. -/
theorem firstMatch_blockBody (entries : List BlockEntry) :
    firstMatch blockMarkPattern ('\n' :: blockBody entries) = some ⟨1, ()⟩ := by
  have hmark : blockMarkPattern (some '\n') (blockBody entries) =
      some ((), '\n' :: (entries.flatMap BlockEntry.lines).flatMap (· ++ ['\n'])) := by
    have hword : wordMayBegin (some '\n') = true := by decide +kernel
    unfold blockMarkPattern
    rw [if_pos hword]
    rfl
  have hnone : blockMarkPattern none ('\n' :: blockBody entries) = none := rfl
  obtain ⟨c, rest, hbody⟩ : ∃ c rest, blockBody entries = c :: rest := ⟨_, _, rfl⟩
  rw [hbody] at hmark hnone ⊢
  unfold firstMatch firstMatchAfter
  rw [hnone]
  dsimp only
  unfold firstMatchAfter
  rw [hmark]

/-- A block is read as it was written, whatever follows it. -/
theorem map_pair_blockRefs (entries : List BlockEntry) (t : List Char) :
    (blockRefs (blockText entries ++ t)).map RelationshipRef.pair =
      entries.flatMap fun e => e.targets.map fun v => (e.key.name.toList, v) := by
  obtain ⟨offset, hheader⟩ := headerComment_blockText entries t
  have hkept : ∀ l ∈ blockLines entries, ∀ c ∈ l, isLineBoundary c = false := fun l hl c hc =>
    (isPlainLine_of_mem_blockLines hl c hc).1
  have hlines : linesWithEnds (blockBody entries) = (blockLines entries).map (· ++ ['\n']) := by
    have hflat := linesWithEnds_flatMap hkept []
    rwa [List.append_nil, linesWithEnds, List.append_nil] at hflat
  unfold blockRefs
  rw [hheader]
  dsimp only
  rw [firstMatch_blockBody]
  dsimp only
  rw [List.drop_succ_cons, List.drop_zero, hlines]
  have hcontent := map_content_numberLines hkept (blockText entries ++ t) (offset + 1)
  -- the line of the mark gives nothing
  obtain ⟨mark, ls, hnumbered, hmark, hls⟩ := List.map_eq_cons_iff.1 hcontent
  rw [hnumbered, blockLineRefs, lineRefs_of_no_key (hmark ▸ keyLine_mark [':']), List.nil_append]
  exact map_pair_blockLineRefs hls

/-- A comment at the top that keeps to one line has no block. -/
theorem blockRefs_of_line {text : List Char} {offset : Nat}
    (hheader : headerComment text = some ⟨offset, s⟩) (hs : ∀ c ∈ s, isLineBoundary c = false) :
    blockRefs text = [] := by
  unfold blockRefs
  rw [hheader]
  dsimp only
  split
  · rfl
  · rename_i mark hfound
    obtain ⟨before, rest, hmatch⟩ := exists_of_firstMatch hfound
    obtain ⟨after, hafter⟩ : ∃ after, s.drop mark.offset = "relationships".toList ++ after := by
      unfold blockMarkPattern at hmatch
      split at hmatch
      · obtain ⟨after, hdrop, -⟩ := Option.bind_eq_some_iff.1 hmatch
        exact ⟨after, eq_append_of_dropWord hdrop⟩
      · cases hmatch
    have hline : ∀ c ∈ "relationships".toList ++ after, isLineBoundary c = false := fun c hc =>
      hs c (List.mem_of_mem_drop (hafter ▸ hc))
    rw [hafter, linesWithEnds_of_not hline (by simp), numberLines, numberLines, blockLineRefs,
      trimRight_of_not_boundary (fun _ => isLineBoundary_of_lineEnd) hline,
      lineRefs_of_no_key (keyLine_mark after)]
    rfl

end Folio.Source
