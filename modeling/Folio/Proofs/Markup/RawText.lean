import Folio.Markup.Reader

/-!
# Tokens in the body of a raw text element

In the body of a `script` or `style` element the reader gives nothing but data
until the end tag of that very element.  `Context.after?` says which context a
token leads to, and gives none for a token that cannot come in a context;
`Follows` runs it along a list of tokens.

`follows_tokens` is the statement for whole texts.  It rests on one lemma for
each function of the reader that gives tokens, and in raw text on
`splitData_rawText`: what comes after a piece of data there begins with `</`, so
only `readEndTag` is ever reached.
-/

namespace Folio.Markup

/-- The context after a token; none if the reader gives no such token there. -/
def Context.after? : Context → Token → Option Context
  | .markup, .startTag name _ =>
      some (if rawTextElements.contains name then .rawText name else .markup)
  | .markup, _ => some .markup
  | .rawText element, .data _ => some (.rawText element)
  | .rawText element, .endTag name => if name = element then some .markup else none
  | .rawText _, _ => none

/-- Tokens that can come one after another from the context `c` on, and lead to
the context `c'`. -/
def Follows (c : Context) (ts : List Token) (c' : Context) : Prop :=
  ts.foldlM Context.after? c = some c'

theorem Follows.nil (c : Context) : Follows c [] c := rfl

theorem Follows.singleton {c c' : Context} {token : Token} (h : c.after? token = some c') :
    Follows c [token] c' := by
  simp [Follows, h]

theorem Follows.append {c c' c'' : Context} {ts us : List Token} (hts : Follows c ts c')
    (hus : Follows c' us c'') : Follows c (ts ++ us) c'' := by
  unfold Follows at hts hus ⊢
  rw [List.foldlM_append, hts]
  exact hus

theorem follows_append {c c'' : Context} {ts us : List Token} :
    Follows c (ts ++ us) c'' ↔ ∃ c', Follows c ts c' ∧ Follows c' us c'' := by
  simp [Follows, List.foldlM_append, Option.bind_eq_some_iff]

theorem follows_cons {c c'' : Context} {token : Token} {ts : List Token} :
    Follows c (token :: ts) c'' ↔ ∃ c', c.after? token = some c' ∧ Follows c' ts c'' := by
  simp [Follows, Option.bind_eq_some_iff]

theorem after?_data (c : Context) (text : List Char) : c.after? (.data text) = some c := by
  cases c <;> rfl

/-- In raw text the only end tag is that of the element. -/
theorem eq_of_after?_endTag {element name : String} {c : Context}
    (h : (Context.rawText element).after? (.endTag name) = some c) : name = element := by
  rw [Context.after?] at h
  by_cases hname : name = element
  · exact hname
  · rw [if_neg hname] at h
    cases h

theorem follows_data (c : Context) (text : List Char) : Follows c [.data text] c :=
  .singleton (after?_data c text)

theorem follows_dataTokens (c : Context) (text : List Char) : Follows c (dataTokens text) c := by
  unfold dataTokens
  split
  · exact .nil c
  · exact follows_data c text

/-! ## Constructs -/

theorem follows_readStartTag {s rest : List Char} {ts : List Token} {c : Context}
    (h : readStartTag .markup s = .read ts c rest) : Follows .markup ts c := by
  unfold readStartTag at h
  split at h
  · cases h
  · dsimp only at h
    split at h
    · cases h
      exact .singleton rfl
    · split at h
      · cases h
        exact .singleton rfl
      · cases h
        exact follows_data _ _

theorem follows_readEndTag {s rest : List Char} {ts : List Token} {c c' : Context}
    (h : readEndTag c s = .read ts c' rest) : Follows c ts c' := by
  unfold readEndTag at h
  split at h
  · cases h
  · dsimp only at h
    split at h
    · cases h
      exact .singleton rfl
    · split at h
      · cases h
        exact .singleton (by simp [Context.after?])
      · cases h
        exact follows_data _ _
    · cases h
      exact follows_data _ _
    · split at h
      · split at h
        · cases h
          exact .singleton rfl
        · split at h
          · cases h
            exact .nil _
          · cases h
            exact .singleton rfl
      · cases h

theorem follows_readUntil {close? : List Char → Option (List Char)} {make : List Char → Token}
    {s rest : List Char} {ts : List Token} {c c' : Context}
    (hmake : ∀ body, c.after? (make body) = some c)
    (h : readUntil close? make c s = .read ts c' rest) : Follows c ts c' := by
  unfold readUntil at h
  split at h
  · cases h
  · cases h
    exact .singleton (hmake _)

theorem follows_readSection {s rest : List Char} {ts : List Token} {c : Context}
    (h : readSection .markup s = .ok (.read ts c rest)) : Follows .markup ts c := by
  unfold readSection at h
  split at h
  · cases h
  · split at h
    · dsimp only at h
      split at h
      · cases h
      · split at h
        · exact follows_readUntil (fun _ => rfl) (Except.ok.inj h)
        · split at h
          · exact follows_readUntil (fun _ => rfl) (Except.ok.inj h)
          · cases h
    · cases h

theorem follows_readDeclaration {s rest : List Char} {ts : List Token} {c : Context}
    (h : readDeclaration .markup s = .ok (.read ts c rest)) : Follows .markup ts c := by
  unfold readDeclaration at h
  split at h
  · exact follows_readUntil (fun _ => rfl) (Except.ok.inj h)
  · exact follows_readSection h
  · split at h
    · split at h
      · cases h
      · cases h
        exact .singleton rfl
    · exact follows_readUntil (fun _ => rfl) (Except.ok.inj h)

theorem follows_readMarkup {s rest : List Char} {ts : List Token} {c : Context}
    (h : readMarkup .markup s = .ok (some (.read ts c rest))) : Follows .markup ts c := by
  unfold readMarkup at h
  split at h
  · cases h
  · exact follows_readEndTag (Option.some.inj (Except.ok.inj h))
  · rename_i s
    cases hdecl : readDeclaration .markup s with
    | error e => rw [hdecl] at h; cases h
    | ok construct =>
        rw [hdecl] at h
        have hread : construct = .read ts c rest := Option.some.inj (Except.ok.inj h)
        rw [hread] at hdecl
        exact follows_readDeclaration hdecl
  · exact follows_readUntil (fun _ => rfl) (Option.some.inj (Except.ok.inj h))
  · split at h
    · exact follows_readStartTag (Option.some.inj (Except.ok.inj h))
    · cases h
      exact follows_data _ _

theorem follows_readBroken (c : Context) (s : List Char) :
    Follows c (readBroken c s).1 (readBroken c s).2.1 := by
  unfold readBroken
  split
  · exact follows_data _ _
  · split <;> exact follows_data _ _

/-- The tokens that come of reading at `&`. -/
def Reference.tokens : Reference → List Token
  | .read ts _ => ts
  | .stop ts _ => ts

/-- A reference is read in ordinary markup only, and leaves it as it is. -/
theorem follows_readReference (final : Bool) (s : List Char) :
    Follows .markup (readReference final s).tokens .markup := by
  unfold readReference
  split
  · split
    · exact .singleton rfl
    · split
      · exact follows_data _ _
      · exact .nil _
  · split
    · exact .singleton rfl
    · exact .nil _
    · split
      · split <;> exact .nil _
      · exact follows_data _ _

/-! ## Raw text -/

theorem splitAtMark_eq_some {close? : List Char → Option (List Char)} {s body rest : List Char}
    (h : splitAtMark close? s = some (body, rest)) :
    ∃ tail, s = body ++ tail ∧ close? tail = some rest := by
  induction s generalizing body with
  | nil => cases h
  | cons c s ih =>
      unfold splitAtMark at h
      split at h
      · rename_i hclose
        cases h
        exact ⟨c :: s, rfl, hclose⟩
      · simp only [Option.map_eq_some_iff, Prod.exists, Prod.mk.injEq] at h
        obtain ⟨front, after, hsplit, rfl, rfl⟩ := h
        obtain ⟨tail, rfl, hclose⟩ := ih hsplit
        exact ⟨tail, rfl, hclose⟩

/-- In raw text, data ends in front of an end tag. -/
theorem splitData_rawText {element : String} {s text rest : List Char}
    (h : splitData (.rawText element) s = some (text, rest)) : ∃ tail, rest = '<' :: '/' :: tail := by
  simp only [splitData, Option.map_eq_some_iff, Prod.exists, Prod.mk.injEq] at h
  obtain ⟨body, after, hsplit, rfl, rfl⟩ := h
  obtain ⟨tail, rfl, hclose⟩ := splitAtMark_eq_some hsplit
  rw [List.drop_left]
  unfold rawTextClose at hclose
  split at hclose
  · exact ⟨_, rfl⟩
  · cases hclose

/-- What is read at `<` follows in the context in which data has ended there. -/
theorem follows_construct {c c' : Context} {s text body rest : List Char} {ts : List Token}
    (hdata : splitData c s = some (text, '<' :: body))
    (h : readMarkup c body = .ok (some (.read ts c' rest))) : Follows c ts c' := by
  cases c with
  | markup => exact follows_readMarkup h
  | rawText element =>
      obtain ⟨tail, htail⟩ := splitData_rawText hdata
      cases htail
      exact follows_readEndTag (Option.some.inj (Except.ok.inj h))

/-! ## Passes -/

/-- A relation between tokens and the contexts before and after them that holds of whatever
the reader gives at one place, and of tokens put together. -/
structure ReadingLaw (R : Context → List Token → Context → Prop) : Prop where
  append {c c' c'' : Context} {ts us : List Token} (hts : R c ts c') (hus : R c' us c'') :
    R c (ts ++ us) c''
  data (c : Context) (text : List Char) : R c (dataTokens text) c
  construct {c c' : Context} {s text body rest : List Char} {ts : List Token}
    (hdata : splitData c s = some (text, '<' :: body))
    (hread : readMarkup c body = .ok (some (.read ts c' rest))) : R c ts c'
  broken (c : Context) (s : List Char) : R c (readBroken c s).1 (readBroken c s).2.1
  reference (final : Bool) (s : List Char) : R .markup (readReference final s).tokens .markup

namespace ReadingLaw

variable {R : Context → List Token → Context → Prop}

theorem nil (law : ReadingLaw R) (c : Context) : R c [] c :=
  law.data c []

/-- Such a relation holds of all tokens that a pass reads. -/
theorem pass (law : ReadingLaw R) (final : Bool) (fuel : Nat) (c : Context) (s : List Char)
    {stopped : Stopped} (h : pass final fuel c s = .ok stopped) :
    R c stopped.tokens stopped.context := by
  induction fuel generalizing c s stopped with
  | zero =>
      cases h
      exact law.nil c
  | succ fuel ih =>
      unfold Markup.pass at h
      split at h
      · cases h
        exact law.nil c
      · rename_i text rest hdata
        have htext := law.data c text
        split at h
        · -- markup, or a character that only looks like its beginning
          rename_i body
          cases hread : readMarkup c body with
          | error e => rw [hread] at h; cases h
          | ok outcome =>
              rw [hread] at h
              rcases outcome with _ | (_ | ⟨ts, inside, rest'⟩)
              · cases h
                exact htext
              · cases final with
                | false =>
                    cases h
                    exact htext
                | true =>
                    have hbroken := law.broken c body
                    simp only [bind, Except.bind, if_true] at h
                    split at h
                    · cases h
                    · rename_i next hnext
                      cases h
                      exact law.append (law.append htext hbroken) (ih _ _ hnext)
              · simp only [bind, Except.bind] at h
                split at h
                · cases h
                · rename_i next hnext
                  cases h
                  exact law.append (law.append htext (law.construct hdata hread)) (ih _ _ hnext)
        · -- a reference: the context is markup, since data in raw text ends at `</`
          rename_i body
          have hmarkup : c = .markup := by
            cases c with
            | markup => rfl
            | rawText element =>
                obtain ⟨tail, htail⟩ := splitData_rawText hdata
                cases htail
          subst hmarkup
          have href := law.reference final body
          split at h
          · rename_i ts rest' hread
            rw [hread] at href
            simp only [bind, Except.bind] at h
            split at h
            · cases h
            · rename_i next hnext
              cases h
              exact law.append (law.append htext href) (ih _ _ hnext)
          · rename_i ts rest' hread
            rw [hread] at href
            cases h
            exact law.append htext href
        · cases h
          exact htext

/-- It holds of all tokens of a text. -/
theorem tokens (law : ReadingLaw R) {text : List Char} {ts : List Token}
    (h : tokens text = .ok ts) : ∃ c, R .markup ts c := by
  unfold Markup.tokens at h
  simp only [bind, Except.bind] at h
  split at h
  · cases h
  · rename_i first hfirst
    split at h
    · cases h
    · rename_i second hsecond
      cases h
      have hboth := law.append (law.pass _ _ _ _ hfirst) (law.pass _ _ _ _ hsecond)
      refine ⟨second.context, law.append hboth ?_⟩
      split
      · exact law.data _ _
      · exact law.nil _

end ReadingLaw

theorem readingLaw_follows : ReadingLaw Follows where
  append := Follows.append
  data := follows_dataTokens
  construct := follows_construct
  broken := follows_readBroken
  reference := follows_readReference

/-- The tokens of a text follow from ordinary markup on. -/
theorem follows_tokens {text : List Char} {ts : List Token} (h : tokens text = .ok ts) :
    ∃ c, Follows .markup ts c :=
  readingLaw_follows.tokens h

end Folio.Markup
