import Folio.Markup.Token
import Folio.Text.Blank

/-!
# The formatter

Tokens are laid out one at a time: `step` takes a state and a token to the next
state.  Inline content is collected as *atoms* until a block begins or ends, and
is then wrapped; a blank line in the source asks for one blank line in the
output.  `pre` and `textarea` are collected as they are, `script` and `style`
until their end tag, whereupon their body is indented anew: `dedent` removes from
every line the longest run of spaces and tabs with which all lines begin that are
not blank, and empties the blank ones.

How an element is laid out depends on its name alone.
-/

namespace Folio.Markup

open Text

/-! ## Kinds of elements -/

/-- Elements without content, hence without an end tag of their own. -/
def voidElements : List String :=
  ["area", "base", "br", "col", "embed", "hr", "img", "input", "link", "meta", "param", "source",
    "track", "wbr"]

/-- Elements that flow with the text around them. -/
def inlineElements : List String :=
  ["a", "abbr", "b", "bdi", "bdo", "br", "button", "cite", "code", "data", "dfn", "em", "i", "img",
    "input", "kbd", "label", "mark", "q", "s", "samp", "select", "small", "span", "strong", "sub",
    "sup", "time", "u", "var", "wbr"]

/-- Elements whose content is copied character for character. -/
def verbatimElements : List String :=
  ["pre", "textarea"]

/-- Elements whose body is moved as a whole to its place. -/
def scriptElements : List String :=
  ["script", "style"]

/-! ## Common indentation -/

/-- The longest common beginning of two texts. -/
def commonStart : List Char → List Char → List Char
  | c :: s, d :: t => if c = d then c :: commonStart s t else []
  | _, _ => []

/-- A line of spaces and tabs only, or of nothing. -/
def isBlankLine (line : List Char) : Bool :=
  line.all isSpaceOrTab

/-- The indentation that all lines share, blank ones apart; empty if all are
blank. -/
def commonIndent (ls : List (List Char)) : List Char :=
  match (ls.filter fun line => !isBlankLine line).map (·.takeWhile isSpaceOrTab) with
  | [] => []
  | first :: others => others.foldl commonStart first

/-- Lines without the indentation that they share. -/
def dedent (ls : List (List Char)) : List (List Char) :=
  let margin := commonIndent ls
  ls.map fun line => if isBlankLine line then [] else line.drop margin.length

/-! ## States -/

/-- A piece of inline content that is never broken, and whether white space
stood before it. -/
structure Atom where
  text : List Char
  spaced : Bool
  deriving Repr, DecidableEq

/-- An open region that is copied as it is: the element that opened it, how many
of its start tags are unmatched, and the pieces so far. -/
structure Verbatim where
  element : String
  nesting : Nat
  pieces : List (List Char)
  deriving Repr, DecidableEq

/-- An open `script` or `style` element: its name, start tag, and body so far. -/
structure Script where
  element : String
  source : List Char
  body : List (List Char)
  deriving Repr, DecidableEq

/-- Where the formatter is between two tokens.  `blankWanted` asks for a blank
line before the next line, `blankAfter` for one after the current inline run. -/
structure State where
  width : Int
  lines : List (List Char)
  depth : Nat
  stack : List String
  atoms : List Atom
  spacePending : Bool
  blankWanted : Bool
  blankAfter : Bool
  verbatim : Option Verbatim
  script : Option Script
  deriving Repr, DecidableEq

/-- The state before the first token. -/
def State.start (width : Int) : State :=
  ⟨width, [], 0, [], [], false, false, false, none, none⟩

/-- The indentation of a line at a depth. -/
def indent (depth : Nat) : List Char :=
  List.replicate (2 * depth) ' '

/-- The columns left for inline content at a depth, never fewer than twenty. -/
def room (width : Int) (depth : Nat) : Nat :=
  (max (width - 2 * depth) 20).toNat

/-! ## Wrapping -/

/-- Fills lines with atoms, given the line begun so far.  A line ends only
before an atom with white space before it, and only if the atom would not fit. -/
def fill (room : Nat) : List Char → List Atom → List (List Char)
  | current, [] => if current.isEmpty then [] else [current]
  | current, atom :: rest =>
      if current.isEmpty then fill room atom.text rest
      else if !atom.spaced then fill room (current ++ atom.text) rest
      else if room < current.length + 1 + atom.text.length then
        current :: fill room atom.text rest
      else fill room (current ++ ' ' :: atom.text) rest

/-- The lines of a run of atoms at a depth. -/
def wrap (width : Int) (depth : Nat) (atoms : List Atom) : List (List Char) :=
  fill (room width depth) [] atoms

namespace State

/-! ## Output -/

/-- Writes a line at the current depth, after a blank line if one is wanted. -/
def emit (s : State) (text : List Char) : State :=
  let gap := match s.lines.getLast? with
    | some last => if s.blankWanted && !last.isEmpty then [[]] else []
    | none => []
  { s with lines := s.lines ++ gap ++ [indent s.depth ++ text], blankWanted := false }

/-- Writes a text of several lines, of which only the first is indented. -/
def emitLines (s : State) (text : List Char) : State :=
  match splitAt '\n' text with
  | [] => s.emit []
  | first :: rest =>
      let t := s.emit first
      { t with lines := t.lines ++ rest }

/-- Adds an atom to the inline run. -/
def addAtom (s : State) (text : List Char) : State :=
  { s with
    atoms := s.atoms ++ [⟨text, s.spacePending⟩]
    spacePending := false
    blankAfter := false }

/-- Ends the inline run: its lines are written. -/
def flush (s : State) : State :=
  if s.atoms.isEmpty then { s with spacePending := false, blankAfter := false }
  else
    let t := (wrap s.width s.depth s.atoms).foldl emit s
    { t with
      atoms := [], blankWanted := t.blankWanted || s.blankAfter, spacePending := false,
      blankAfter := false }

/-- Writes an open verbatim region. -/
def emitVerbatim (s : State) (v : Verbatim) : State :=
  { s with verbatim := none }.emitLines v.pieces.flatten

/-- The lines of a script body one level below a depth. -/
def scriptLines (depth : Nat) (body : List Char) : List (List Char) :=
  let dedented := joinWith ['\n'] (dedent (splitAt '\n' body))
  (splitAt '\n' (trimBy (· == '\n') dedented)).map fun line =>
    let text := trimRight isBlank line
    if text.isEmpty then [] else indent (depth + 1) ++ text

/-- Writes an open script element with its end tag; on one line if its body is
blank. -/
def emitScript (s : State) (script : Script) : State :=
  let body := script.body.flatten
  let s := { s with script := none }
  if (trimBy isLayoutBlank body).isEmpty then s.emit (script.source ++ closing script.element)
  else
    let t := s.emit script.source
    { t with lines := t.lines ++ scriptLines t.depth body }.emit (closing script.element)

/-! ## Tokens -/

/-- Adds a piece to an open verbatim region, which becomes `nesting` deep. -/
def copy (s : State) (v : Verbatim) (nesting : Nat) (piece : List Char) : State :=
  { s with verbatim := some { v with nesting := nesting, pieces := v.pieces ++ [piece] } }

/-- Adds a piece to the body of an open script element. -/
def collect (s : State) (script : Script) (piece : List Char) : State :=
  { s with script := some { script with body := script.body ++ [piece] } }

/-- A start tag opens a region, joins the inline run, or begins a block. -/
def openTag (s : State) (name : String) (source : List Char) : State :=
  match s.verbatim with
  | some v => s.copy v (if name = v.element then v.nesting + 1 else v.nesting) source
  | none =>
      if verbatimElements.contains name then
        { s.flush with verbatim := some ⟨name, 1, [source]⟩ }
      else if scriptElements.contains name then
        { s.flush with script := some ⟨name, source, []⟩ }
      else if inlineElements.contains name then s.addAtom source
      else
        let t := s.flush.emit source
        if voidElements.contains name then t
        else { t with stack := name :: t.stack, depth := t.depth + 1 }

/-- A self-closing tag joins the inline run or stands on a line of its own. -/
def emptyTag (s : State) (name : String) (source : List Char) : State :=
  match s.verbatim with
  | some v => s.copy v v.nesting source
  | none => if inlineElements.contains name then s.addAtom source else s.flush.emit source

/-- Closes the open elements up to and with the innermost one called `name`; none
if no such element is open. -/
def closeElement (s : State) (name : String) : State :=
  if s.stack.contains name then
    let inner := s.stack.takeWhile (· != name)
    { s with stack := s.stack.drop (inner.length + 1), depth := s.depth - (inner.length + 1) }
  else s

/-- An end tag closes a region, joins the inline run, or ends a block. -/
def closeTag (s : State) (name : String) : State :=
  match s.verbatim, s.script with
  | some v, _ =>
      if name = v.element then
        if v.nesting ≤ 1 then s.emitVerbatim { v with pieces := v.pieces ++ [closing name] }
        else s.copy v (v.nesting - 1) (closing name)
      else s.copy v v.nesting (closing name)
  | none, some script =>
      if name = script.element then s.emitScript script else s.collect script (closing name)
  | none, none =>
      if inlineElements.contains name || voidElements.contains name then s.addAtom (closing name)
      else (s.flush.closeElement name).emit (closing name)

/-- Adds the words of a text to the inline run; all but the first follow white
space. -/
def addWords (s : State) : List (List Char) → State
  | [] => s
  | word :: rest =>
      rest.foldl (fun t w => { t with spacePending := true }.addAtom w) (s.addAtom word)

/-- Two line ends make a blank line. -/
def hasBlankLine (text : List Char) : Bool :=
  2 ≤ text.count '\n'

/-- Text flows: its words are atoms, and the white space between and around them
is only remembered. -/
def flow (s : State) (text : List Char) : State :=
  let words := wordsBy isLayoutBlank text
  if words.isEmpty then
    if !s.atoms.isEmpty then
      { s with spacePending := true, blankAfter := s.blankAfter || hasBlankLine text }
    else { s with blankWanted := s.blankWanted || hasBlankLine text }
  else
    let lead := text.takeWhile isLayoutBlank
    let trail := text.reverse.takeWhile isLayoutBlank
    let s :=
      if lead.isEmpty then s
      else if !s.atoms.isEmpty then { s with spacePending := true }
      else { s with blankWanted := s.blankWanted || hasBlankLine lead }
    let s := s.addWords words
    if trail.isEmpty then s
    else { s with spacePending := true, blankAfter := s.blankAfter || hasBlankLine trail }

/-- Character data. -/
def text (s : State) (content : List Char) : State :=
  match s.verbatim, s.script with
  | some v, _ => s.copy v v.nesting content
  | none, some script => s.collect script content
  | none, none => s.flow content

/-- A reference joins the inline run. -/
def reference (s : State) (piece : List Char) : State :=
  match s.verbatim, s.script with
  | some v, _ => s.copy v v.nesting piece
  | none, some script => s.collect script piece
  | none, none => s.addAtom piece

/-- Comments and declarations stand on lines of their own. -/
def block (s : State) (piece : List Char) : State :=
  match s.verbatim with
  | some v => s.copy v v.nesting piece
  | none => s.flush.emitLines piece

/-- Lays out one token. -/
def step (s : State) (token : Token) : State :=
  match token with
  | .startTag name source => s.openTag name source
  | .emptyTag name source => s.emptyTag name source
  | .endTag name => s.closeTag name
  | .data content => s.text content
  | .entity _ => s.reference token.piece
  | .charCode _ => s.reference token.piece
  | _ => s.block token.piece

/-- Writes what is still open or collected after the last token. -/
def finish (s : State) : State :=
  let s := match s.script with
    | some script => s.emitScript script
    | none => s
  let s := match s.verbatim with
    | some v => s.emitVerbatim v
    | none => s
  s.flush

end State

end Folio.Markup
