import Folio.Decimal.Number
import Folio.Text.Blank

/-!
# Tokens of YAML

A text in YAML is cut into tokens.  Indentation is made explicit: the start and
the end of a block are tokens of their own.  Whether a scalar is the key of a
mapping is known only when the colon after it is met; the tokens that mark the
key are then put in front of it.

`tokens` cuts a whole text.
-/

namespace Folio.Data.Yaml

/-- Why a text cannot be loaded: it is no YAML, or a value is not what its type
demands. -/
inductive Fault
  | malformed
  | badValue
  | tooLarge
  | noKey
  | noIndex
  | noMatch
  deriving Repr, DecidableEq

/-- A token. -/
inductive Token
  | versionDirective (major minor : Nat)
  | tagDirective (handle leading : List Char)
  | otherDirective
  | documentStart
  | documentEnd
  | blockSequenceStart
  | blockMappingStart
  | blockEnd
  | flowSequenceStart
  | flowSequenceEnd
  | flowMappingStart
  | flowMappingEnd
  | blockEntry
  | flowEntry
  | key
  | value
  | alias (name : List Char)
  | anchor (name : List Char)
  | tag (handle : Option (List Char)) (suffix : List Char)
  | scalar (content : List Char) (plain : Bool)
  deriving Repr, DecidableEq

/-! ## Characters -/

/-- The character that stands for the end of the text. -/
def endMark : Char := '\x00'

/-- A character that may stand in a text. -/
def isAllowed (c : Char) : Bool :=
  let n := c.toNat
  n == 9 || n == 10 || n == 13 || (0x20 ≤ n && n ≤ 0x7E) || n == 0x85 ||
    (0xA0 ≤ n && n ≤ 0xD7FF) || (0xE000 ≤ n && n ≤ 0xFFFD) || 0x10000 ≤ n

/-- A character that ends a line. -/
def isBreak (c : Char) : Bool :=
  c == '\n' || c == '\r' || c.toNat == 0x85 || c.toNat == 0x2028 || c.toNat == 0x2029

/-- The end of a line or of the text. -/
def isBreakOrEnd (c : Char) : Bool :=
  c == endMark || isBreak c

/-- A space, or the end of a line or of the text. -/
def isSpaceOrEnd (c : Char) : Bool :=
  c == ' ' || isBreakOrEnd c

/-- A space or tab, or the end of a line or of the text. -/
def isBlankOrEnd (c : Char) : Bool :=
  c == '\t' || isSpaceOrEnd c

/-- A character of the names of anchors and directives. -/
def isNameChar (c : Char) : Bool :=
  c.isAlphanum || c == '-' || c == '_'

/-- A character of a tag. -/
def isTagChar (c : Char) : Bool :=
  c.isAlphanum || "-;/?:@&=+$,_.!~*'()[]%".toList.contains c

/-- A hexadecimal digit. -/
def isHexDigit (c : Char) : Bool :=
  c.isDigit || ('a' ≤ c && c ≤ 'f') || ('A' ≤ c && c ≤ 'F')

/-- The value of hexadecimal digits. -/
def hexValue (digits : List Char) : Nat :=
  digits.foldl (fun n c =>
    n * 16 + (if c.isDigit then c.toNat - 48 else c.toLower.toNat - 87)) 0

/-! ## Places -/

/-- A place in a text: what follows, how many characters, lines and columns stand
before. -/
structure Cursor where
  rest : List Char
  index : Nat
  line : Nat
  column : Nat
  deriving Repr

namespace Cursor

/-- The next character. -/
def peek (c : Cursor) : Char :=
  c.rest.headD endMark

/-- The character after `n` others. -/
def peekAt (c : Cursor) (n : Nat) : Char :=
  (c.rest.drop n).headD endMark

/-- Steps over one character. -/
def forward (c : Cursor) : Cursor :=
  match c.rest with
  | [] => c
  | ch :: rest =>
      let ends := isBreak ch && (ch != '\r' || rest.head? != some '\n')
      if ends then ⟨rest, c.index + 1, c.line + 1, 0⟩
      else if ch.toNat == 0xFEFF then ⟨rest, c.index + 1, c.line, c.column⟩
      else ⟨rest, c.index + 1, c.line, c.column + 1⟩

/-- Steps over several characters. -/
def forwardBy (c : Cursor) : Nat → Cursor
  | 0 => c
  | n + 1 => c.forward.forwardBy n

/-- The longest run of characters that satisfy `p`, and the place after it. -/
def span (c : Cursor) (p : Char → Bool) : List Char × Cursor :=
  let run := c.rest.takeWhile p
  (run, c.forwardBy run.length)

/-- Steps over characters that satisfy `p`. -/
def skip (c : Cursor) (p : Char → Bool) : Cursor :=
  (c.span p).2

/-- Steps over a line end; what it counts for in a scalar. -/
def lineBreak (c : Cursor) : List Char × Cursor :=
  match c.rest with
  | '\r' :: '\n' :: _ => (['\n'], c.forwardBy 2)
  | ch :: _ =>
      if ch == '\n' || ch == '\r' || ch.toNat == 0x85 then (['\n'], c.forward)
      else if isBreak ch then ([ch], c.forward)
      else ([], c)
  | [] => ([], c)

/-- Whether a document begins or ends here. -/
def atSeparator (c : Cursor) : Bool :=
  let three := c.rest.take 3
  (three == ['-', '-', '-'] || three == ['.', '.', '.']) && isBlankOrEnd (c.peekAt 3)

/-- Steps over a comment. -/
def skipComment (c : Cursor) : Cursor :=
  if c.peek == '#' then c.skip fun ch => !isBreakOrEnd ch else c

/-- Steps over spaces, a comment and the end of the line; anything else there is
an error. -/
def endLine (c : Cursor) : Except Fault Cursor :=
  let c := (c.skip (· == ' ')).skipComment
  if isBreakOrEnd c.peek then .ok c.lineBreak.2 else .error .malformed

end Cursor

/-! ## Scalars in quotation marks -/

/-- The characters that a backslash and one character stand for. -/
def escapes : List (Char × Nat) :=
  [('0', 0), ('a', 7), ('b', 8), ('t', 9), ('\t', 9), ('n', 10), ('v', 11), ('f', 12), ('r', 13),
    ('e', 27), (' ', 32), ('"', 34), ('\\', 92), ('/', 47), ('N', 0x85), ('_', 0xA0),
    ('L', 0x2028), ('P', 0x2029)]

/-- How many digits follow the mark of a character given by its code. -/
def escapeLength (c : Char) : Option Nat :=
  if c == 'x' then some 2 else if c == 'u' then some 4 else if c == 'U' then some 8 else none

/-- Steps over blank lines inside a quoted scalar; each counts as a line end. -/
def quotedBreaks : Nat → Cursor → Except Fault (List Char × Cursor)
  | 0, _ => .error .malformed
  | fuel + 1, c =>
      if c.atSeparator then .error .malformed
      else
        let c := c.skip fun ch => ch == ' ' || ch == '\t'
        if isBreak c.peek then do
          let (mark, c) := c.lineBreak
          let (more, c) ← quotedBreaks fuel c
          return (mark ++ more, c)
        else .ok ([], c)

/-- Reads characters other than white space inside a quoted scalar. -/
def quotedText (double : Bool) : Nat → Cursor → Except Fault (List Char × Cursor)
  | 0, _ => .error .malformed
  | fuel + 1, c => do
      let (run, c) := c.span fun ch =>
        !(ch == '\'' || ch == '"' || ch == '\\' || isBlankOrEnd ch)
      let continueWith := fun (chars : List Char) (c : Cursor) => do
        let (more, c) ← quotedText double fuel c
        return (run ++ chars ++ more, c)
      let ch := c.peek
      if !double && ch == '\'' && c.peekAt 1 == '\'' then continueWith ['\''] (c.forwardBy 2)
      else if (double && ch == '\'') || (!double && (ch == '"' || ch == '\\')) then
        continueWith [ch] c.forward
      else if double && ch == '\\' then
        let c := c.forward
        let e := c.peek
        match escapes.lookup e, escapeLength e with
        | some code, _ => continueWith [Char.ofNat code] c.forward
        | none, some n =>
            let digits := c.forward.rest.take n
            if digits.length = n && digits.all isHexDigit then
              let code := hexValue digits
              if 0x7FFFFFFF < code then throw .tooLarge
              else if 0x10FFFF < code then throw .badValue
              else
                let char := if 0xD800 ≤ code && code < 0xE000 then Char.ofNat 0xFFFD
                  else Char.ofNat code
                continueWith [char] (c.forward.forwardBy n)
            else throw .malformed
        | none, none =>
            if isBreak e then
              let (more, c) ← quotedBreaks (c.rest.length + 1) c.lineBreak.2
              continueWith more c
            else throw .malformed
      else return (run, c)

/-- Reads white space inside a quoted scalar: a line end counts as a space, and
blank lines count for themselves. -/
def quotedSpace (c : Cursor) : Except Fault (List Char × Cursor) := do
  let (blanks, c) := c.span fun ch => ch == ' ' || ch == '\t'
  if c.rest.isEmpty then throw .malformed
  else if isBreak c.peek then
    let (mark, c) := c.lineBreak
    let (more, c) ← quotedBreaks (c.rest.length + 1) c
    if mark ≠ ['\n'] then return (mark ++ more, c)
    else if more.isEmpty then return ([' '], c)
    else return (more, c)
  else return (blanks, c)

/-- Reads on to the closing mark of a quoted scalar. -/
def quotedRest (mark : Char) : Nat → Cursor → Except Fault (List Char × Cursor)
  | 0, _ => .error .malformed
  | fuel + 1, c =>
      if c.peek == mark then .ok ([], c.forward)
      else do
        let (space, c) ← quotedSpace c
        let (run, c) ← quotedText (mark == '"') (c.rest.length + 1) c
        let (more, c) ← quotedRest mark fuel c
        return (space ++ run ++ more, c)

/-- Reads a quoted scalar from its opening mark on. -/
def quotedScalar (c : Cursor) : Except Fault (List Char × Cursor) := do
  let mark := c.peek
  let c := c.forward
  let (run, c) ← quotedText (mark == '"') (c.rest.length + 1) c
  let (more, c) ← quotedRest mark (c.rest.length + 1) c
  return (run ++ more, c)

/-! ## Block scalars -/

/-- What becomes of the line ends after a block scalar. -/
inductive Chomping
  | strip
  | clip
  | keep
  deriving DecidableEq

/-- The chomping that a sign asks for. -/
def chompingOf (c : Char) : Option Chomping :=
  if c == '+' then some .keep else if c == '-' then some .strip else none

/-- Reads the indentation that a digit asks for, not zero. -/
def indentationOf (c : Char) : Except Fault (Option Nat) :=
  if c == '0' then .error .malformed
  else if c.isDigit then .ok (some (c.toNat - 48))
  else .ok none

/-- Reads the sign and digit after the mark of a block scalar, in either order. -/
def blockHeader (c : Cursor) : Except Fault (Chomping × Option Nat × Cursor) := do
  let finish := fun (chomping : Chomping) (indentation : Option Nat) (c : Cursor) =>
    if isSpaceOrEnd c.peek then Except.ok (chomping, indentation, c) else .error Fault.malformed
  match chompingOf c.peek with
  | some chomping =>
      let c := c.forward
      match ← indentationOf c.peek with
      | some n => finish chomping (some n) c.forward
      | none => finish chomping none c
  | none =>
      match ← indentationOf c.peek with
      | some n =>
          let c := c.forward
          match chompingOf c.peek with
          | some chomping => finish chomping (some n) c.forward
          | none => finish .clip (some n) c
      | none => finish .clip none c

/-- Steps over the blank lines that begin a block scalar, and finds how deep the
deepest of them and the first other line are indented. -/
def blockIndentation : Nat → Nat → Cursor → List Char × Nat × Cursor
  | 0, deepest, c => ([], deepest, c)
  | fuel + 1, deepest, c =>
      if c.peek == ' ' then
        let c := c.forward
        blockIndentation fuel (max deepest c.column) c
      else if isBreak c.peek then
        let (mark, c) := c.lineBreak
        let (more, deepest, c) := blockIndentation fuel deepest c
        (mark ++ more, deepest, c)
      else ([], deepest, c)

/-- Steps over spaces up to a column. -/
def skipTo (column : Nat) : Nat → Cursor → Cursor
  | 0, c => c
  | fuel + 1, c =>
      if c.column < column && c.peek == ' ' then skipTo column fuel c.forward else c

/-- Steps over blank lines in a block scalar, to the indentation of the next. -/
def blockBreaks (column : Nat) : Nat → Cursor → List Char × Cursor
  | 0, c => ([], c)
  | fuel + 1, c =>
      let c := skipTo column c.rest.length c
      if isBreak c.peek then
        let (mark, c) := c.lineBreak
        let (more, c) := blockBreaks column fuel c
        (mark ++ more, c)
      else ([], c)

/-- Reads the lines of a block scalar.  `breaks` are the line ends before the
next line.  Gives the content, the line end after the last line, and the line
ends of the blank lines after that. -/
def blockLines (folded : Bool) (column : Nat) :
    Nat → List Char → Cursor → List Char × List Char × List Char × Cursor
  | 0, breaks, c => ([], [], breaks, c)
  | fuel + 1, breaks, c =>
      if c.column = column && !c.rest.isEmpty then
        let indented := c.peek == ' ' || c.peek == '\t'
        let (line, c) := c.span fun ch => !isBreakOrEnd ch
        let (mark, c) := c.lineBreak
        let (next, c) := blockBreaks column (c.rest.length + 1) c
        if c.column = column && !c.rest.isEmpty then
          let joint :=
            if folded && mark = ['\n'] && !indented && !(c.peek == ' ' || c.peek == '\t') then
              if next.isEmpty then [' '] else []
            else mark
          let (more, last, after, c) := blockLines folded column fuel next c
          (breaks ++ line ++ joint ++ more, last, after, c)
        else (breaks ++ line, mark, next, c)
      else ([], [], breaks, c)

/-- Reads a block scalar from its mark on; `outer` is the indentation around it. -/
def blockScalar (outer : Int) (c : Cursor) : Except Fault (List Char × Cursor) := do
  let folded := c.peek == '>'
  let (chomping, indentation, c) ← blockHeader c.forward
  let c ← c.endLine
  let least := (max (outer + 1) 1).toNat
  let (column, breaks, c) := match indentation with
    | some n =>
        let column := least + n - 1
        let (breaks, c) := blockBreaks column (c.rest.length + 1) c
        (column, breaks, c)
    | none =>
        let (breaks, deepest, c) := blockIndentation (c.rest.length + 1) 0 c
        (max least deepest, breaks, c)
  let (content, last, after, c) := blockLines folded column (c.rest.length + 1) breaks c
  return (content ++ (if chomping = .strip then [] else last) ++
    (if chomping = .keep then after else []), c)

/-! ## Plain scalars -/

/-- Whether a plain scalar stops at a place. -/
def plainStops (flow : Bool) : List Char → Bool
  | [] => true
  | ch :: rest =>
      let next := rest.headD endMark
      isBlankOrEnd ch ||
        (ch == ':' && (isBlankOrEnd next || (flow && ",[]\x7b\x7d".toList.contains next))) ||
        (flow && ",?[]\x7b\x7d".toList.contains ch)

/-- The length of the run of characters at the start of a plain scalar. -/
def plainLength (flow : Bool) : List Char → Nat
  | [] => 0
  | ch :: rest => if plainStops flow (ch :: rest) then 0 else plainLength flow rest + 1

/-- Steps over blank lines after a line of a plain scalar; none if a document
ends there. -/
def plainBreaks : Nat → Cursor → Option (List Char) × Cursor
  | 0, c => (some [], c)
  | fuel + 1, c =>
      if c.peek == ' ' then plainBreaks fuel c.forward
      else if isBreak c.peek then
        let (mark, c) := c.lineBreak
        if c.atSeparator then (none, c)
        else
          let (more, c) := plainBreaks fuel c
          (more.map (mark ++ ·), c)
      else (some [], c)

/-- Reads the white space after a run of a plain scalar, and whether a line ended
in it; empty if the scalar ends there. -/
def plainSpace (c : Cursor) : List Char × Bool × Cursor :=
  let (blanks, c) := c.span (· == ' ')
  if isBreak c.peek then
    let (mark, c) := c.lineBreak
    if c.atSeparator then ([], true, c)
    else
      match plainBreaks (c.rest.length + 1) c with
      | (none, c) => ([], true, c)
      | (some breaks, c) =>
          if mark ≠ ['\n'] then (mark ++ breaks, true, c)
          else if breaks.isEmpty then ([' '], true, c)
          else (breaks, true, c)
  else (blanks, false, c)

/-- Reads the runs of a plain scalar, `space` standing before the next; also
gives whether a line ended after the last run. -/
def plainRuns (flow : Bool) (least : Int) :
    Nat → List Char → Bool → Cursor → List Char × Bool × Cursor
  | 0, _, ended, c => ([], ended, c)
  | fuel + 1, space, ended, c =>
      let length := plainLength flow c.rest
      if c.peek == '#' || length = 0 then ([], ended, c)
      else
        let run := c.rest.take length
        let (next, ended, c) := plainSpace (c.forwardBy length)
        if next.isEmpty || c.peek == '#' || (!flow && (c.column : Int) < least) then
          (space ++ run, ended, c)
        else
          let (more, ended, c) := plainRuns flow least fuel next ended c
          (space ++ run ++ more, ended, c)

/-! ## Tags, anchors, directives -/

/-- Reads escaped bytes of a tag. -/
def tagBytes : Nat → Cursor → Except Fault (List UInt8 × Cursor)
  | 0, c => .ok ([], c)
  | fuel + 1, c =>
      if c.peek == '%' then
        let digits := c.forward.rest.take 2
        if digits.length = 2 && digits.all isHexDigit then do
          let (more, c') ← tagBytes fuel (c.forwardBy 3)
          return (UInt8.ofNat (hexValue digits) :: more, c')
        else .error .malformed
      else .ok ([], c)

/-- Reads characters of a tag. -/
def tagChars : Nat → Cursor → Except Fault (List Char × Cursor)
  | 0, c => .ok ([], c)
  | fuel + 1, c => do
      let (run, c) := c.span fun ch => isTagChar ch && ch != '%'
      if c.peek == '%' then
        let (bytes, c) ← tagBytes (c.rest.length + 1) c
        match String.fromUTF8? ⟨bytes.toArray⟩ with
        | none => throw .malformed
        | some s =>
            let (more, c) ← tagChars fuel c
            return (run ++ s.toList ++ more, c)
      else return (run, c)

/-- Reads the suffix of a tag, which must not be empty. -/
def tagSuffix (c : Cursor) : Except Fault (List Char × Cursor) := do
  if !isTagChar c.peek then throw .malformed
  tagChars (c.rest.length + 1) c

/-- Reads the handle of a tag: an exclamation mark, or a name between two. -/
def tagHandle (c : Cursor) : Except Fault (List Char × Cursor) := do
  if c.peek != '!' then throw .malformed
  let after := c.forward
  if after.peek == ' ' then return (['!'], after)
  let (name, c) := after.span isNameChar
  if c.peek == '!' then return ('!' :: name ++ ['!'], c.forward)
  else throw .malformed

/-- Whether a tag has a handle with a name: an exclamation mark follows later in
the word. -/
def hasHandle (c : Cursor) : Bool :=
  (c.forward.rest.takeWhile fun ch => !isSpaceOrEnd ch).contains '!'

/-- Reads a tag. -/
def readTag (c : Cursor) : Except Fault (Token × Cursor) := do
  let next := c.peekAt 1
  let (token, c) ←
    if next == '<' then do
      let (suffix, c) ← tagSuffix (c.forwardBy 2)
      if c.peek != '>' then throw .malformed
      pure (Token.tag none suffix, c.forward)
    else if isBlankOrEnd next then pure (Token.tag none ['!'], c.forward)
    else do
      let (handle, c) ← if hasHandle c then tagHandle c else pure (['!'], c.forward)
      let (suffix, c) ← tagSuffix c
      pure (Token.tag (some handle) suffix, c)
  if isSpaceOrEnd c.peek then return (token, c) else throw .malformed

/-- Reads the name of an anchor or alias after its mark. -/
def anchorName (c : Cursor) : Except Fault (List Char × Cursor) :=
  let (name, c) := c.forward.span isNameChar
  if name.isEmpty then .error .malformed
  else if isBlankOrEnd c.peek || "?:,]\x7d%@\x60".toList.contains c.peek then .ok (name, c)
  else .error .malformed

/-- Reads a number of a version. -/
def versionNumber (c : Cursor) : Except Fault (Nat × Cursor) :=
  let (digits, c) := c.span Char.isDigit
  if digits.isEmpty then .error .malformed
  else if Decimal.maxDigits < digits.length then .error .badValue
  else .ok (digits.foldl (fun n d => n * 10 + (d.toNat - 48)) 0, c)

/-- Reads a directive. -/
def readDirective (c : Cursor) : Except Fault (Token × Cursor) := do
  let (name, c) := c.forward.span isNameChar
  if name.isEmpty || !isSpaceOrEnd c.peek then throw .malformed
  let (token, c) ←
    if name = "YAML".toList then do
      let (major, c) ← versionNumber (c.skip (· == ' '))
      if c.peek != '.' then throw .malformed
      let (minor, c) ← versionNumber c.forward
      if !isSpaceOrEnd c.peek then throw .malformed
      pure (Token.versionDirective major minor, c)
    else if name = "TAG".toList then do
      let (handle, c) ← tagHandle (c.skip (· == ' '))
      if c.peek != ' ' then throw .malformed
      let (leading, c) ← tagSuffix (c.skip (· == ' '))
      if !isSpaceOrEnd c.peek then throw .malformed
      pure (Token.tagDirective handle leading, c)
    else pure (Token.otherDirective, c.skip fun ch => !isBreakOrEnd ch)
  return (token, ← c.endLine)

/-! ## The scanner -/

/-- A place where a key may have begun: the number of tokens before it, whether
it has to be a key, and where it is. -/
structure PossibleKey where
  token : Nat
  required : Bool
  index : Nat
  line : Nat
  column : Nat

/-- A scan in progress.  `keys` holds the possible key of each level of brackets,
innermost first. -/
structure Scan where
  cursor : Cursor
  tokens : Array Token
  indent : Int
  indents : List Int
  flow : Nat
  keyAllowed : Bool
  keys : List (Nat × PossibleKey)

namespace Scan

/-- A scan before its first token. -/
def start (text : List Char) : Scan :=
  ⟨⟨text, 0, 0, 0⟩, #[], -1, [], 0, true, []⟩

/-- Adds a token. -/
def push (s : Scan) (token : Token) : Scan :=
  { s with tokens := s.tokens.push token }

/-- Adds a token of `n` characters. -/
def pushOver (s : Scan) (n : Nat) (token : Token) : Scan :=
  { s with tokens := s.tokens.push token, cursor := s.cursor.forwardBy n }

/-- Drops possible keys that can be keys no more: a key stands on one line and
within 1024 characters of its colon. -/
def dropStaleKeys (s : Scan) : Except Fault Scan :=
  let isStale := fun (k : PossibleKey) =>
    k.line != s.cursor.line || 1024 < s.cursor.index - k.index
  if s.keys.any fun (_, k) => isStale k && k.required then .error .malformed
  else .ok { s with keys := s.keys.filter fun (_, k) => !isStale k }

/-- Forgets the possible key of the current level, which must not be required. -/
def forgetKey (s : Scan) : Except Fault Scan :=
  match s.keys.lookup s.flow with
  | some k =>
      if k.required then .error .malformed
      else .ok { s with keys := s.keys.filter fun (level, _) => level != s.flow }
  | none => .ok s

/-- Remembers that a key may begin here. -/
def rememberKey (s : Scan) : Except Fault Scan := do
  if s.keyAllowed then
    let required := s.flow = 0 && s.indent = s.cursor.column
    let s ← s.forgetKey
    let key : PossibleKey :=
      ⟨s.tokens.size, required, s.cursor.index, s.cursor.line, s.cursor.column⟩
    return { s with keys := (s.flow, key) :: s.keys }
  else return s

/-- Ends the blocks that are indented deeper than a column. -/
def unwindFrom (column : Int) : List Int → Int → Array Token → List Int × Int × Array Token
  | [], indent, tokens => ([], indent, tokens)
  | outer :: rest, indent, tokens =>
      if column < indent then unwindFrom column rest outer (tokens.push .blockEnd)
      else (outer :: rest, indent, tokens)

/-- Ends the blocks that are indented deeper than a column, outside brackets. -/
def unwind (s : Scan) (column : Int) : Scan :=
  if s.flow ≠ 0 then s
  else
    let (indents, indent, tokens) := unwindFrom column s.indents s.indent s.tokens
    { s with indents := indents, indent := indent, tokens := tokens }

/-- Whether a column begins a deeper block. -/
def deepens (s : Scan) (column : Nat) : Bool :=
  s.indent < column

/-- Begins a deeper block at a column. -/
def deepen (s : Scan) (column : Nat) : Scan :=
  { s with indents := s.indent :: s.indents, indent := column }

/-- Steps over white space and comments to the next token; after a line end a
key may begin. -/
def skipToToken : Nat → Scan → Scan
  | 0, s => s
  | fuel + 1, s =>
      let c := (s.cursor.skip (· == ' ')).skipComment
      if isBreak c.peek then
        skipToToken fuel
          { s with cursor := c.lineBreak.2, keyAllowed := s.keyAllowed || s.flow == 0 }
      else { s with cursor := c }

/-- Begins or goes on with a block at the current column, with the token that
starts such a block; keys must be allowed here. -/
def blockAt (s : Scan) (start : Token) : Except Fault Scan :=
  if s.flow ≠ 0 then .ok s
  else if !s.keyAllowed then .error .malformed
  else if s.deepens s.cursor.column then .ok ((s.deepen s.cursor.column).push start)
  else .ok s

/-- A bracket that opens. -/
def openFlow (s : Scan) (token : Token) : Except Fault Scan := do
  let s ← s.rememberKey
  return { s with flow := s.flow + 1, keyAllowed := true }.pushOver 1 token

/-- A bracket that closes. -/
def closeFlow (s : Scan) (token : Token) : Except Fault Scan := do
  let s ← s.forgetKey
  return { s with flow := s.flow - 1, keyAllowed := false }.pushOver 1 token

/-- A comma. -/
def flowEntry (s : Scan) : Except Fault Scan := do
  let s ← { s with keyAllowed := true }.forgetKey
  return s.pushOver 1 .flowEntry

/-- The dash of an item. -/
def blockEntry (s : Scan) : Except Fault Scan := do
  let s ← s.blockAt .blockSequenceStart
  let s ← { s with keyAllowed := true }.forgetKey
  return s.pushOver 1 .blockEntry

/-- A question mark. -/
def keyMark (s : Scan) : Except Fault Scan := do
  let s ← s.blockAt .blockMappingStart
  let s ← { s with keyAllowed := s.flow == 0 }.forgetKey
  return s.pushOver 1 .key

/-- A colon: what stands before it on the line becomes a key. -/
def valueMark (s : Scan) : Except Fault Scan := do
  match s.keys.lookup s.flow with
  | some k =>
      let s := { s with keys := s.keys.filter fun (level, _) => level != s.flow }
      let opens := s.flow = 0 && s.deepens k.column
      let marks := if opens then #[Token.blockMappingStart, .key] else #[Token.key]
      let s := if opens then s.deepen k.column else s
      let tokens := s.tokens.extract 0 k.token ++ marks ++ s.tokens.extract k.token s.tokens.size
      return { s with tokens := tokens, keyAllowed := false }.pushOver 1 .value
  | none =>
      let s ← s.blockAt .blockMappingStart
      let s ← { s with keyAllowed := s.flow == 0 }.forgetKey
      return s.pushOver 1 .value

/-- A token that may begin a key, read by `read`. -/
def content (s : Scan) (read : Cursor → Except Fault (Token × Cursor)) : Except Fault Scan := do
  let s ← s.rememberKey
  let (token, c) ← read s.cursor
  return { s with keyAllowed := false, cursor := c }.push token

/-- A plain scalar; a key may follow if a line ended in it. -/
def plain (s : Scan) : Except Fault Scan := do
  let s ← s.rememberKey
  let (text, ended, c) :=
    plainRuns (s.flow != 0) (s.indent + 1) (s.cursor.rest.length + 1) [] false s.cursor
  return { s with keyAllowed := ended, cursor := c }.push (.scalar text true)

/-- A block scalar. -/
def block (s : Scan) : Except Fault Scan := do
  let s ← { s with keyAllowed := true }.forgetKey
  let (text, c) ← blockScalar s.indent s.cursor
  return { s with cursor := c }.push (.scalar text false)

/-- The start or end of a document. -/
def separator (s : Scan) (token : Token) : Except Fault Scan := do
  let s ← (s.unwind (-1)).forgetKey
  return { s with keyAllowed := false }.pushOver 3 token

/-- A directive. -/
def directive (s : Scan) : Except Fault Scan := do
  let s ← (s.unwind (-1)).forgetKey
  let (token, c) ← readDirective s.cursor
  return { s with keyAllowed := false, cursor := c }.push token

/-- Whether a plain scalar may begin here. -/
def plainBegins (s : Scan) : Bool :=
  let ch := s.cursor.peek
  (!isBlankOrEnd ch && !"-?:,[]\x7b\x7d#&*!|>'\"%@\x60".toList.contains ch) ||
    (!isBlankOrEnd (s.cursor.peekAt 1) && (ch == '-' || (s.flow == 0 && (ch == '?' || ch == ':'))))

/-- Reads the next token; none at the end of the text. -/
def next (s : Scan) : Except Fault (Scan × Bool) := do
  let c := s.cursor
  let s := if c.index = 0 && c.peek.toNat == 0xFEFF then { s with cursor := c.forward } else s
  let s ← (skipToToken (s.cursor.rest.length + 1) s).dropStaleKeys
  let s := s.unwind s.cursor.column
  let c := s.cursor
  let ch := c.peek
  let spaced := isBlankOrEnd (c.peekAt 1)
  let more := fun (r : Except Fault Scan) => r.map fun s => (s, true)
  if c.rest.isEmpty then return (← (s.unwind (-1)).forgetKey, false)
  else if ch == '%' && c.column = 0 then more s.directive
  else if ch == '-' && c.column = 0 && c.atSeparator then more (s.separator .documentStart)
  else if ch == '.' && c.column = 0 && c.atSeparator then more (s.separator .documentEnd)
  else if ch == '[' then more (s.openFlow .flowSequenceStart)
  else if ch == '{' then more (s.openFlow .flowMappingStart)
  else if ch == ']' then more (s.closeFlow .flowSequenceEnd)
  else if ch == '}' then more (s.closeFlow .flowMappingEnd)
  else if ch == ',' then more s.flowEntry
  else if ch == '-' && spaced then more s.blockEntry
  else if ch == '?' && (s.flow != 0 || spaced) then more s.keyMark
  else if ch == ':' && (s.flow != 0 || spaced) then more s.valueMark
  else if ch == '*' then
    more (s.content fun c => (anchorName c).map fun (name, c) => (.alias name, c))
  else if ch == '&' then
    more (s.content fun c => (anchorName c).map fun (name, c) => (.anchor name, c))
  else if ch == '!' then more (s.content readTag)
  else if (ch == '|' || ch == '>') && s.flow = 0 then more s.block
  else if ch == '\'' || ch == '"' then
    more (s.content fun c => (quotedScalar c).map fun (text, c) => (.scalar text false, c))
  else if s.plainBegins then more s.plain
  else throw .malformed

/-- Reads tokens up to the end of the text; `fuel` bounds their number. -/
def run : Nat → Scan → Except Fault Scan
  | 0, s => .ok s
  | fuel + 1, s => do
      let (s, more) ← s.next
      if more then run fuel s else return s

end Scan

/-- The tokens of a text. -/
def tokens (text : List Char) : Except Fault (List Token) := do
  if !text.all isAllowed then throw .malformed
  let s ← Scan.run (text.length + 1) (Scan.start text)
  return s.tokens.toList

end Folio.Data.Yaml
