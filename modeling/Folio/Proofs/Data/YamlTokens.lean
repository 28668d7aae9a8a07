import Folio.Data.Yaml.Token
import Mathlib.Data.List.Basic

/-!
# How cutting a text into tokens fails

A scan goes forward in its text: whatever is read next, what follows is an end of the text
(`Cursor.Within`).  A fault is therefore about something that stands in the text.  Nearly all
faults say that the text is malformed; the others are raised by two numbers that are read before
they are checked, the code of an escaped character and that of a version (`Unscannable`).

`Gives` puts both halves into one statement about an outcome.  Each function of the scanner has
its rule, and `gives_tokens` is the rule for a whole text.
-/

namespace Folio.Data.Yaml

/-! ## Outcomes -/

section

variable {α β : Type} {Q : α → Prop} {R : β → Prop} {E : Fault → Prop}

/-- An outcome is a value that satisfies `Q` or a fault that satisfies `E`. -/
inductive Gives (Q : α → Prop) (E : Fault → Prop) : Except Fault α → Prop
  | ok {v : α} (h : Q v) : Gives Q E (.ok v)
  | error {fault : Fault} (h : E fault) : Gives Q E (.error fault)

theorem Gives.bind {r : Except Fault α} {f : α → Except Fault β} (h : Gives Q E r)
    (hf : ∀ v, Q v → Gives R E (f v)) : Gives R E (r >>= f) := by
  cases h with
  | ok hv => exact hf _ hv
  | error hfault => exact .error hfault

theorem Gives.map {r : Except Fault α} {g : α → β} (h : Gives Q E r)
    (hg : ∀ v, Q v → R (g v)) : Gives R E (r.map g) := by
  cases h with
  | ok hv => exact .ok (hg _ hv)
  | error hfault => exact .error hfault

theorem Gives.ite {p : Prop} [Decidable p] {a b : Except Fault α} (ha : p → Gives Q E a)
    (hb : ¬ p → Gives Q E b) : Gives Q E (if p then a else b) := by
  split
  · exact ha ‹_›
  · exact hb ‹_›

theorem Gives.of_error {r : Except Fault α} {fault : Fault} (h : Gives Q E r)
    (hr : r = .error fault) : E fault := by
  cases h with
  | ok => cases hr
  | error hfault => exact Except.error.inj hr ▸ hfault

end

/-- Why the tokens of a text cannot be found.  Two numbers of a text are read by a function that
has limits of its own. -/
inductive Unscannable (text : List Char) : Fault → Prop
  | malformed : Unscannable text .malformed
  | escape {mark : Char} {digits : List Char} (hstands : '\\' :: mark :: digits <:+: text)
      (hlength : escapeLength mark = some digits.length)
      (hdigits : digits.all isHexDigit = true) (hfar : 0x10FFFF < hexValue digits) :
      Unscannable text (if 0x7FFFFFFF < hexValue digits then .tooLarge else .badValue)
  | version {digits : List Char} (hstands : digits <:+: text)
      (hdigits : digits.all Char.isDigit = true) (hlong : Decimal.maxDigits < digits.length) :
      Unscannable text .badValue

variable {α : Type} {text : List Char} {c : Cursor} {p : Char → Bool}

/-! ## Places -/

/-- What follows a place is an end of a text. -/
def Cursor.Within (text : List Char) (c : Cursor) : Prop :=
  c.rest <:+ text

namespace Cursor

theorem rest_forward (c : Cursor) : c.forward.rest = c.rest.tail := by
  unfold forward
  split
  · rename_i h
    rw [h, List.tail_nil]
  · rename_i h
    rw [h, List.tail_cons]
    dsimp only
    split
    · rfl
    · split <;> rfl

theorem Within.forward (h : c.Within text) : c.forward.Within text := by
  unfold Within
  rw [rest_forward]
  exact (List.tail_suffix _).trans h

theorem Within.forwardBy (h : c.Within text) (n : Nat) : (c.forwardBy n).Within text := by
  induction n generalizing c with
  | zero => exact h
  | succ n ih => exact ih h.forward

theorem Within.span (h : c.Within text) (p : Char → Bool) : (c.span p).2.Within text :=
  h.forwardBy _

theorem Within.skip (h : c.Within text) (p : Char → Bool) : (c.skip p).Within text :=
  h.span p

theorem Within.lineBreak (h : c.Within text) : c.lineBreak.2.Within text := by
  unfold Cursor.lineBreak
  split
  · exact h.forwardBy 2
  · split
    · exact h.forward
    · split
      · exact h.forward
      · exact h
  · exact h

theorem Within.skipComment (h : c.Within text) : c.skipComment.Within text := by
  unfold Cursor.skipComment
  split
  · exact h.skip _
  · exact h

end Cursor

/-- Reading goes forward, or fails by what stands in the text. -/
def Reads (text : List Char) (r : Except Fault (α × Cursor)) : Prop :=
  Gives (fun v => v.2.Within text) (Unscannable text) r

theorem Reads.ok {v : α} (h : c.Within text) : Reads text (.ok (v, c)) :=
  Gives.ok h

theorem Reads.bind {β : Type} {r : Except Fault (α × Cursor)}
    {f : α × Cursor → Except Fault (β × Cursor)} (h : Reads text r)
    (hf : ∀ v c, c.Within text → Reads text (f (v, c))) : Reads text (r >>= f) :=
  Gives.bind h fun found hfound => hf found.1 found.2 hfound

/-- A step of the scanner goes forward, or fails by what stands in the text. -/
def Steps (text : List Char) (r : Except Fault Scan) : Prop :=
  Gives (fun s => s.cursor.Within text) (Unscannable text) r

theorem Steps.bind {r : Except Fault Scan} {f : Scan → Except Fault Scan} (h : Steps text r)
    (hf : ∀ s : Scan, s.cursor.Within text → Steps text (f s)) : Steps text (r >>= f) :=
  Gives.bind h hf

namespace Scan

variable {s : Scan}

end Scan

end Folio.Data.Yaml
