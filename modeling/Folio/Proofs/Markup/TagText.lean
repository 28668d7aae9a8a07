import Folio.Proofs.Markup.RawText
import Folio.Proofs.Markup.Tags

/-!
# Tokens as they are written

The reader hands a tag on with its text, and that text goes from the angle bracket where the tag
begins to the one where it ends; the name of an entity and the digits of a character code are
read within one line.  `tidy_tokens` says so of all tokens of a text; there is one lemma for each
function of the reader that gives tokens, and most of them give neither a start tag nor a
reference.

That a start tag ends in an angle bracket is not seen where it is made: the reader looks for its
end with one function and checks what it found with another.  `exists_of_tagEnd` follows both.
-/

namespace Folio.Markup

open Text

/-- The text of a start tag begins with an angle bracket. -/
def Token.Bracketed : Token → Prop
  | .startTag _ source => ∃ rest, source = '<' :: rest
  | _ => True

/-- All start tags among tokens begin with an angle bracket. -/
def Bracketed (ts : List Token) : Prop :=
  ∀ token ∈ ts, token.Bracketed

/-- The text of a start tag is enclosed in angle brackets, and a reference has no line end. -/
def Token.Tidy : Token → Prop
  | .startTag _ source => ∃ inner, source = '<' :: inner ++ ['>']
  | .emptyTag _ source => ∃ inner, source = '<' :: inner ++ ['>']
  | .entity name => '\n' ∉ name
  | .charCode digits => '\n' ∉ digits
  | _ => True

def Tidy (ts : List Token) : Prop :=
  ∀ token ∈ ts, token.Tidy

theorem Tidy.nil : Tidy [] := by
  simp [Tidy]

theorem Tidy.singleton {token : Token} (h : token.Tidy) : Tidy [token] := by
  simpa [Tidy] using h

theorem Tidy.append {ts us : List Token} (hts : Tidy ts) (hus : Tidy us) : Tidy (ts ++ us) := by
  intro token htoken
  rcases List.mem_append.mp htoken with h | h
  · exact hts token h
  · exact hus token h

theorem Token.Tidy.bracketed {token : Token} (h : token.Tidy) : token.Bracketed := by
  cases token with
  | startTag name source =>
      obtain ⟨inner, rfl⟩ := h
      exact ⟨inner ++ ['>'], rfl⟩
  | _ => trivial

theorem tidy_dataTokens (text : List Char) : Tidy (dataTokens text) := by
  unfold dataTokens
  split
  · exact .nil
  · exact .singleton trivial

/-! ## The end of a start tag -/

section

variable {s rest : List Char}

theorem suffix_skipSeparators (s : List Char) : skipSeparators s <:+ s := by
  fun_induction skipSeparators s with
  | case1 => exact List.suffix_rfl
  | case2 c rest _ ih => exact ih.trans (List.suffix_cons c rest)
  | case3 c rest _ _ ih => exact ih.trans (List.suffix_cons c rest)
  | case4 => exact List.suffix_rfl

theorem suffix_of_afterFirst {mark : Char} (h : afterFirst mark s = some rest) : rest <:+ s := by
  induction s with
  | nil => cases h
  | cons c s ih =>
      rw [afterFirst] at h
      split at h
      · rw [← Option.some.inj h]
        exact List.suffix_cons c s
      · exact (ih h).trans (List.suffix_cons c s)

theorem suffix_of_value? (h : value? s = some rest) : rest <:+ s := by
  unfold value? at h
  dsimp only at h
  have hstart := (List.dropWhile_suffix isBlank).trans
    ((List.dropWhile_suffix (l := s.dropWhile isBlank) (· == '=')).trans
      (List.dropWhile_suffix (l := s) isBlank))
  split at h
  · cases h
  · split at h
    · rw [← Option.some.inj h]
      exact List.nil_suffix
    · rename_i q body hbody
      split at h
      · split at h
        · rename_i after hafter
          rw [hbody] at hstart
          rw [← Option.some.inj h]
          exact (suffix_of_afterFirst hafter).trans ((List.suffix_cons q body).trans hstart)
        · split at h
          · rw [← Option.some.inj h]
            exact hstart
          · split at h
            · rw [← Option.some.inj h]
              exact (List.dropWhile_suffix _).trans hstart
            · cases h
      · rw [← Option.some.inj h]
        exact (List.dropWhile_suffix _).trans hstart

theorem suffix_of_attribute? {prev : Char} (h : attribute? prev s = some rest) : rest <:+ s := by
  unfold attribute? at h
  split at h
  · cases h
  · rename_i c s
    split at h
    · have hname := List.dropWhile_suffix (l := s)
        fun d => !(isBlank d || d == '/' || d == '=' || d == '>')
      dsimp only at h
      generalize s.dropWhile _ = afterName at h hname
      rw [← Option.some.inj h]
      refine (suffix_skipSeparators _).trans (.trans ?_ (hname.trans (List.suffix_cons c s)))
      cases hvalue : value? afterName with
      | none => exact List.suffix_rfl
      | some after => exact suffix_of_value? hvalue
    · cases h

theorem suffix_skipAttributes (fuel : Nat) (prev : Char) (s : List Char) :
    skipAttributes fuel prev s <:+ s := by
  induction fuel generalizing prev s with
  | zero => exact List.suffix_rfl
  | succ fuel ih =>
      rw [skipAttributes]
      split
      · exact List.suffix_rfl
      · rename_i rest hattribute
        exact (ih _ _).trans (suffix_of_attribute? hattribute)

/-- Where no tag is closed, all slashes are skipped like blanks. -/
theorem skipSeparators_eq (s : List Char) :
    skipSeparators s = s.dropWhile (fun c => isBlank c || c == '/') ∨
      ∃ rest, s.dropWhile (fun c => isBlank c || c == '/') = '>' :: rest := by
  fun_induction skipSeparators s with
  | case1 => exact .inl rfl
  | case2 c rest hblank ih => simpa [hblank] using ih
  | case3 c rest hblank hslash ih =>
      have hc : c = '/' := by simpa using (Bool.and_eq_true_iff.mp hslash).1
      simpa [hc] using ih
  | case4 c rest hblank hslash =>
      by_cases hc : c = '/'
      · -- a slash that is kept closes the tag
        obtain ⟨after, rfl⟩ : ∃ after, rest = '>' :: after := by
          cases rest with
          | nil => simp [hc] at hslash
          | cons d after =>
              have hd : d = '>' := by simpa [hc] using hslash
              exact ⟨after, by rw [hd]⟩
        exact .inr ⟨after, by simp [hc, show isBlank '>' = false from rfl]⟩
      · exact .inl (by simp [hblank, hc])

theorem trim_blank (hs : ∀ c ∈ s, isBlank c = true) : trim s = [] := by
  have hleft : s.dropWhile isBlank = [] := List.dropWhile_eq_nil_iff.mpr hs
  rw [trim, trimBy, trimLeft, hleft]
  rfl

theorem consumed_dropWhile (p : Char → Bool) (s : List Char) :
    consumed s (s.dropWhile p) = s.takeWhile p :=
  calc consumed s (s.dropWhile p)
      = consumed (s.takeWhile p ++ s.dropWhile p) (s.dropWhile p) := by
        rw [List.takeWhile_append_dropWhile]
    _ = s.takeWhile p := consumed_append _ _

/-- A start tag that is checked ends in an angle bracket. -/
theorem exists_of_tagEnd (h : tagEnd s = .found rest)
    (htail : tagTail s rest = ['/', '>'] ∨ tagTail s rest = ['>']) :
    ∃ inner, consumed s rest = inner ++ ['>'] := by
  unfold tagEnd at h
  unfold tagTail at htail
  dsimp only at h htail
  have hname := List.dropWhile_suffix (l := s) isTagNameChar
  generalize s.dropWhile isTagNameChar = afterName at h htail hname
  generalize hbody : (afterName.dropWhile fun c => isBlank c || c == '/') = body at h
  have hsuffix : (skipAttributes body.length ((consumed s body).getLastD ' ') body).dropWhile
      isBlank <:+ s := by
    refine (List.dropWhile_suffix _).trans ((suffix_skipAttributes _ _ _).trans ?_)
    rw [← hbody]
    exact (List.dropWhile_suffix _).trans hname
  split at h
  · cases h
  · rename_i after heq
    obtain rfl := TagEnd.found.inj h
    rw [heq] at hsuffix
    obtain ⟨front, rfl⟩ := hsuffix
    exact ⟨front, by rw [← consumed_append (front ++ ['>']) after]; simp⟩
  · rename_i after heq
    obtain rfl := TagEnd.found.inj h
    rw [heq] at hsuffix
    obtain ⟨front, rfl⟩ := hsuffix
    exact ⟨front ++ ['/'], by rw [← consumed_append (front ++ ['/'] ++ ['>']) after]; simp⟩
  · rename_i c after hclose _ heq
    split at h
    · cases h
    obtain rfl := TagEnd.found.inj h
    -- The tag has run into another character, and the check finds only blanks before it.
    exfalso
    rcases skipSeparators_eq afterName with hsame | ⟨more, hmore⟩
    · rw [hsame, hbody, ← heq, consumed_dropWhile,
        trim_blank fun d hd => List.mem_takeWhile_imp hd] at htail
      rcases htail with h | h <;> cases h
    · rw [hbody] at hmore
      have hnone : ∀ prev, attribute? prev ('>' :: more) = none := by simp [attribute?]
      rw [hmore, List.length_cons, skipAttributes, hnone] at heq
      exact hclose (List.cons.inj heq).1.symm

end

/-! ## References -/

theorem subset_of_cutName {name front : List Char} (h : cutName name = some front) :
    front ⊆ name := by
  have hsuffix := List.dropWhile_suffix (l := name.reverse) Char.isAlphanum
  unfold cutName at h
  split at h
  · cases h
  · rename_i c before hbefore
    split at h
    · cases h
    · rw [hbefore] at hsuffix
      rw [← Option.some.inj h]
      intro d hd
      exact List.mem_reverse.mp
        (hsuffix.subset (List.mem_cons_of_mem c (List.mem_reverse.mp hd)))

theorem newline_not_mem_of_entityName? {s name rest : List Char}
    (h : entityName? s = some (name, rest)) : '\n' ∉ name := by
  have hchars : ∀ t : List Char,
      '\n' ∉ t.takeWhile fun c => c.isAlphanum || c == '-' || c == '.' := by
    intro t hmem
    exact absurd (List.mem_takeWhile_imp hmem) (by decide)
  unfold entityName? at h
  dsimp only at h
  split at h
  · rename_i c t
    split at h
    · split at h
      · obtain ⟨front, hfront, heq⟩ := Option.map_eq_some_iff.mp h
        obtain ⟨rfl, -⟩ := Prod.mk.inj heq
        exact fun hmem => hchars (c :: t) (subset_of_cutName hfront hmem)
      · obtain ⟨rfl, -⟩ := Prod.mk.inj (Option.some.inj h)
        exact hchars (c :: t)
    · cases h
  · cases h

theorem newline_not_mem_of_charCode? {s digits rest : List Char}
    (h : charCode? s = some (digits, rest)) : '\n' ∉ digits := by
  unfold charCode? at h
  extract_lets digitsOf at h
  have hread : ∀ (p : Char → Bool) (lead t : List Char), p '\n' = false → '\n' ∉ lead →
      digitsOf p lead t = some (digits, rest) → '\n' ∉ digits := by
    intro p lead t hp hlead hsome
    dsimp only [digitsOf] at hsome
    split at hsome
    · cases hsome
    · cases hsome
    · split at hsome
      · cases hsome
      · obtain ⟨rfl, -⟩ := Prod.mk.inj (Option.some.inj hsome)
        intro hmem
        rcases List.mem_append.mp hmem with hmem | hmem
        · exact hlead hmem
        · rw [List.mem_takeWhile_imp hmem] at hp
          cases hp
  split at h
  · exact hread isHex ['x'] _ (by decide) (by decide) h
  · exact hread isHex ['X'] _ (by decide) (by decide) h
  · exact hread Char.isDigit [] _ (by decide) (by decide) h

/-! ## Constructs -/

variable {s rest : List Char} {ts : List Token} {c c' : Context}

theorem tidy_readStartTag (h : readStartTag c s = .read ts c' rest) : Tidy ts := by
  unfold readStartTag at h
  split at h
  · cases h
  · rename_i after hend
    dsimp only at h
    split at h
    · rename_i htail
      obtain ⟨inner, hinner⟩ := exists_of_tagEnd hend (.inl htail)
      cases h
      exact .singleton ⟨inner, by rw [hinner]; rfl⟩
    · split at h
      · rename_i htail
        obtain ⟨inner, hinner⟩ := exists_of_tagEnd hend (.inr htail)
        cases h
        exact .singleton ⟨inner, by rw [hinner]; rfl⟩
      · cases h
        exact .singleton trivial

theorem tidy_readEndTag (h : readEndTag c s = .read ts c' rest) : Tidy ts := by
  unfold readEndTag at h
  split at h
  · cases h
  · dsimp only at h
    split at h
    · cases h
      exact .singleton trivial
    · split at h
      · cases h
        exact .singleton trivial
      · cases h
        exact .singleton trivial
    · cases h
      exact .singleton trivial
    · split at h
      · split at h
        · cases h
          exact .singleton trivial
        · split at h
          · cases h
            exact .nil
          · cases h
            exact .singleton trivial
      · cases h

theorem tidy_readUntil {close? : List Char → Option (List Char)} {make : List Char → Token}
    (h : readUntil close? make c s = .read ts c' rest) (hmake : ∀ body, (make body).Tidy) :
    Tidy ts := by
  unfold readUntil at h
  split at h
  · cases h
  · cases h
    exact .singleton (hmake _)

theorem tidy_readSection (h : readSection c s = .ok (.read ts c' rest)) : Tidy ts := by
  unfold readSection at h
  split at h
  · cases h
  · split at h
    · dsimp only at h
      split at h
      · cases h
      · split at h
        · exact tidy_readUntil (Except.ok.inj h) fun _ => trivial
        · split at h
          · exact tidy_readUntil (Except.ok.inj h) fun _ => trivial
          · cases h
    · cases h

theorem tidy_readDeclaration (h : readDeclaration c s = .ok (.read ts c' rest)) :
    Tidy ts := by
  unfold readDeclaration at h
  split at h
  · exact tidy_readUntil (Except.ok.inj h) fun _ => trivial
  · exact tidy_readSection h
  · split at h
    · split at h
      · cases h
      · cases h
        exact .singleton trivial
    · exact tidy_readUntil (Except.ok.inj h) fun _ => trivial

theorem tidy_readMarkup (h : readMarkup c s = .ok (some (.read ts c' rest))) :
    Tidy ts := by
  unfold readMarkup at h
  split at h
  · cases h
  · exact tidy_readEndTag (Option.some.inj (Except.ok.inj h))
  · rename_i s
    cases hdecl : readDeclaration c s with
    | error e => rw [hdecl] at h; cases h
    | ok construct =>
        rw [hdecl] at h
        have hread : construct = .read ts c' rest := Option.some.inj (Except.ok.inj h)
        rw [hread] at hdecl
        exact tidy_readDeclaration hdecl
  · exact tidy_readUntil (Option.some.inj (Except.ok.inj h)) fun _ => trivial
  · split at h
    · exact tidy_readStartTag (Option.some.inj (Except.ok.inj h))
    · cases h
      exact .singleton trivial

theorem tidy_readBroken (c : Context) (s : List Char) : Tidy (readBroken c s).1 := by
  unfold readBroken
  split
  · exact .singleton trivial
  · split <;> exact .singleton trivial

theorem tidy_readReference (final : Bool) (s : List Char) :
    Tidy (readReference final s).tokens := by
  unfold readReference
  split
  · split
    · rename_i hcode
      exact .singleton (newline_not_mem_of_charCode? hcode)
    · split
      · exact .singleton trivial
      · exact .nil
  · split
    · rename_i hname
      exact .singleton (newline_not_mem_of_entityName? hname)
    · exact .nil
    · split
      · split <;> exact .nil
      · exact .singleton trivial

/-! ## Texts -/

theorem readingLaw_tidy : ReadingLaw fun _ ts _ => Tidy ts where
  append := Tidy.append
  data _ := tidy_dataTokens
  construct _ := tidy_readMarkup
  broken := tidy_readBroken
  reference := tidy_readReference

theorem tidy_tokens {text : List Char} (h : tokens text = .ok ts) : Tidy ts :=
  (readingLaw_tidy.tokens h).elim fun _ hts => hts

theorem bracketed_tokens {text : List Char} (h : tokens text = .ok ts) : Bracketed ts :=
  fun token htoken => (tidy_tokens h token htoken).bracketed

end Folio.Markup
