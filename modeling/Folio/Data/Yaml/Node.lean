import Folio.Data.Yaml.Token

/-!
# Nodes of YAML

The tokens of a text form one tree of nodes.  Every node has a tag; that of an
untagged scalar follows from its content (`scalarTag`).  An alias is the node
that its anchor stands on, which must be complete.

`Node.ofTokens` reads the tree.
-/

namespace Folio.Data.Yaml

/-- The kinds of values that tags name. -/
inductive Tag
  | null
  | bool
  | int
  | float
  | text
  | timestamp
  | binary
  | sequence
  | mapping
  | set
  | orderedMap
  | pairs
  | merge
  | value
  | other
  deriving Repr, DecidableEq, Inhabited

/-- What tags of the standard begin with. -/
def standardLead : List Char :=
  "tag:yaml.org,2002:".toList

/-- The tag that a full name stands for. -/
def Tag.ofName (name : List Char) : Tag :=
  if standardLead.isPrefixOf name then
    match String.ofList (name.drop standardLead.length) with
    | "null" => .null
    | "bool" => .bool
    | "int" => .int
    | "float" => .float
    | "str" => .text
    | "timestamp" => .timestamp
    | "binary" => .binary
    | "seq" => .sequence
    | "map" => .mapping
    | "set" => .set
    | "omap" => .orderedMap
    | "pairs" => .pairs
    | "merge" => .merge
    | "value" => .value
    | _ => .other
  else .other

/-- A node of the tree. -/
inductive Node
  | scalar (tag : Tag) (content : List Char)
  | sequence (tag : Tag) (items : List Node)
  | mapping (tag : Tag) (items : List (Node × Node))
  deriving Repr, Inhabited

namespace Node

/-- The tag of a node. -/
def tag : Node → Tag
  | .scalar tag _ => tag
  | .sequence tag _ => tag
  | .mapping tag _ => tag

/-- An empty scalar. -/
def empty : Node :=
  .scalar .null []

end Node

/-! ## Tags of untagged scalars

Each class of contents is a small grammar, read by functions that return what
follows. -/

/-- Drops a sign. -/
def dropSign : List Char → List Char
  | '-' :: s => s
  | '+' :: s => s
  | s => s

/-- A digit or underscore. -/
def isDigitMark (c : Char) : Bool :=
  c.isDigit || c == '_'

/-- What follows an exponent with a sign, or the text if there is none. -/
def dropExponent (s : List Char) : List Char :=
  match s with
  | e :: sign :: d :: rest =>
      if (e == 'e' || e == 'E') && (sign == '+' || sign == '-') && d.isDigit then
        rest.dropWhile Char.isDigit
      else s
  | _ => s

/-- What follows groups of at most two digits below sixty, each after a colon;
none if there is no such group. -/
def dropSixties : Nat → List Char → Option (List Char)
  | 0, _ => none
  | fuel + 1, s =>
      match s with
      | ':' :: a :: rest =>
          let after? : Option (List Char) :=
            match rest with
            | b :: more =>
                if '0' ≤ a && a ≤ '5' && b.isDigit then some more
                else if a.isDigit then some rest
                else none
            | [] => if a.isDigit then some [] else none
          match after? with
          | none => none
          | some after =>
              match dropSixties fuel after with
              | some final => some final
              | none => some after
      | _ => none

/-- Whether a list of characters begins with a digit other than zero. -/
def beginsNonZero : List Char → Bool
  | c :: _ => c.isDigit && c != '0'
  | [] => false

/-- Truth values. -/
def isBoolText (s : List Char) : Bool :=
  ["yes", "Yes", "YES", "no", "No", "NO", "true", "True", "TRUE", "false", "False", "FALSE", "on",
    "On", "ON", "off", "Off", "OFF"].any fun word => word.toList == s

/-- Nothing. -/
def isNullText (s : List Char) : Bool :=
  ["~", "null", "Null", "NULL", ""].any fun word => word.toList == s

/-- Floating-point numbers: with a point, in groups of sixty, or a word. -/
def isFloatText (s : List Char) : Bool :=
  let unsigned := dropSign s
  let decimal :=
    match unsigned with
    | c :: _ =>
        match unsigned.dropWhile isDigitMark with
        | '.' :: rest => c.isDigit && (dropExponent (rest.dropWhile isDigitMark)).isEmpty
        | _ => false
    | [] => false
  let pointFirst :=
    match s with
    | '.' :: c :: rest => c.isDigit && (dropExponent (rest.dropWhile isDigitMark)).isEmpty
    | _ => false
  let sixties :=
    match unsigned with
    | c :: rest =>
        c.isDigit &&
          match dropSixties rest.length (rest.dropWhile isDigitMark) with
          | some ('.' :: fraction) => fraction.all isDigitMark
          | _ => false
    | [] => false
  let words := [".inf", ".Inf", ".INF"].any fun word => word.toList == unsigned
  let notNumbers := [".nan", ".NaN", ".NAN"].any fun word => word.toList == s
  decimal || pointFirst || sixties || words || notNumbers

/-- Integers in base two, eight, ten, sixteen, or in groups of sixty. -/
def isIntText (s : List Char) : Bool :=
  let unsigned := dropSign s
  match unsigned with
  | '0' :: 'b' :: rest => !rest.isEmpty && rest.all fun c => c == '0' || c == '1' || c == '_'
  | '0' :: 'x' :: rest => !rest.isEmpty && rest.all fun c => isHexDigit c || c == '_'
  | '0' :: rest => rest.all fun c => ('0' ≤ c && c ≤ '7') || c == '_'
  | c :: rest =>
      c.isDigit &&
        let after := rest.dropWhile isDigitMark
        after.isEmpty || dropSixties after.length after == some []
  | [] => false

/-- Digits at the start: at least `least` and at most `most`, and the rest. -/
def takeDigits (least most : Nat) (s : List Char) : Option (List Char × List Char) :=
  let ds := (s.takeWhile Char.isDigit).take most
  if ds.length < least then none else some (ds, s.drop ds.length)

/-- What follows one character. -/
def afterChar (c : Char) : List Char → Option (List Char)
  | d :: rest => if c = d then some rest else none
  | [] => none

/-- A date with time as written: its digits, and its zone if it has one. -/
structure TimeText where
  hour : List Char
  minute : List Char
  second : List Char
  fraction : List Char
  zone : Option (Option (Char × List Char × List Char))
  deriving Repr

/-- A date as written, with a time if there is one. -/
structure TimestampText where
  year : List Char
  month : List Char
  day : List Char
  time : Option TimeText
  deriving Repr

/-- Reads the zone of a time up to the end of the text: `Z`, or a sign and hours
with optional minutes. -/
def readZone (s : List Char) : Option (Option (Option (Char × List Char × List Char))) :=
  match s.dropWhile fun c => c == ' ' || c == '\t' with
  | [] => if s.isEmpty then some none else none
  | ['Z'] => some (some none)
  | sign :: rest =>
      if sign == '+' || sign == '-' then do
        let (hours, after) ← takeDigits 1 2 rest
        match after with
        | [] => return some (some (sign, hours, []))
        | ':' :: more =>
            let (minutes, tail) ← takeDigits 2 2 more
            if tail.isEmpty then return some (some (sign, hours, minutes)) else none
        | _ => none
      else none

/-- Reads a time after the date. -/
def readTime (s : List Char) : Option TimeText := do
  let body ← match s with
    | 'T' :: rest => some rest
    | 't' :: rest => some rest
    | c :: _ =>
        if c == ' ' || c == '\t' then some (s.dropWhile fun d => d == ' ' || d == '\t') else none
    | [] => none
  let (hour, s) ← takeDigits 1 2 body
  let (minute, s) ← (afterChar ':' s).bind (takeDigits 2 2)
  let (second, s) ← (afterChar ':' s).bind (takeDigits 2 2)
  let (fraction, s) := match s with
    | '.' :: rest => (rest.takeWhile Char.isDigit, rest.dropWhile Char.isDigit)
    | _ => ([], s)
  let zone ← readZone s
  return ⟨hour, minute, second, fraction, zone⟩

/-- Reads a date, with an optional time. -/
def readTimestamp (s : List Char) : Option TimestampText := do
  let (year, s) ← takeDigits 4 4 s
  let (month, s) ← (afterChar '-' s).bind (takeDigits 1 2)
  let (day, s) ← (afterChar '-' s).bind (takeDigits 1 2)
  if s.isEmpty then return ⟨year, month, day, none⟩
  else return ⟨year, month, day, some (← readTime s)⟩

/-- Dates; one without a time has two digits for month and day. -/
def isTimestampText (s : List Char) : Bool :=
  match readTimestamp s with
  | some t => t.time.isSome || (t.month.length == 2 && t.day.length == 2)
  | none => false

/-- The tag of an untagged plain scalar. -/
def scalarTag (content : List Char) : Tag :=
  let s := if content.getLast? = some '\n' then content.dropLast else content
  if isBoolText s then .bool
  else if isFloatText s then .float
  else if isIntText s then .int
  else if s = ['<', '<'] then .merge
  else if isNullText s && (content.isEmpty || !s.isEmpty) then .null
  else if isTimestampText s then .timestamp
  else if s = ['='] then .value
  else if s = ['!'] || s = ['&'] || s = ['*'] then .other
  else .text

/-! ## Reading the tree -/

/-- What the reader knows besides the tokens: handles of tags, and the nodes that
anchors stand on; the node of an anchor is missing while it is read. -/
structure Names where
  handles : List (List Char × List Char)
  anchors : List (List Char × Option Node)

/-- What stands in front of a node: an anchor and a tag, in either order. -/
structure Properties where
  anchor : Option (List Char)
  tag : Option (Option (List Char) × List Char)

/-- Reads the anchor and the tag of a node. -/
def readProperties : List Token → Properties × List Token
  | .anchor a :: .tag h s :: rest => (⟨some a, some (h, s)⟩, rest)
  | .anchor a :: rest => (⟨some a, none⟩, rest)
  | .tag h s :: .anchor a :: rest => (⟨some a, some (h, s)⟩, rest)
  | .tag h s :: rest => (⟨none, some (h, s)⟩, rest)
  | rest => (⟨none, none⟩, rest)

/-- The full name of a tag; a handle must have been declared. -/
def tagName (names : Names) : Option (Option (List Char) × List Char) →
    Except Fault (Option (List Char))
  | none => .ok none
  | some (none, suffix) => .ok (some suffix)
  | some (some handle, suffix) =>
      match names.handles.lookup handle with
      | some lead => .ok (some (lead ++ suffix))
      | none => .error .malformed

/-- The tag of a collection: the one that is written, or the usual one. -/
def collectionTag (written : Option (List Char)) (usual : Tag) : Tag :=
  match written with
  | none => usual
  | some ['!'] => usual
  | some name => Tag.ofName name

/-- The tag of a scalar: the one that is written, or the one that its content
has if it is plain. -/
def scalarTagOf (written : Option (List Char)) (plain : Bool) (content : List Char) : Tag :=
  match written with
  | none => if plain then scalarTag content else .text
  | some ['!'] => scalarTag content
  | some name => Tag.ofName name

/-- Announces an anchor; no two nodes have the same. -/
def Names.announce (names : Names) : Option (List Char) → Except Fault Names
  | none => .ok names
  | some a =>
      if (names.anchors.lookup a).isSome then .error .malformed
      else .ok { names with anchors := (a, none) :: names.anchors }

/-- Sets the node of an anchor. -/
def Names.settle (names : Names) (anchor : Option (List Char)) (node : Node) : Names :=
  match anchor with
  | none => names
  | some a =>
      { names with
        anchors := names.anchors.map fun (b, n) => if b = a then (b, some node) else (b, n) }

/-- Where a node stands: in brackets, in a block, or as a value in a block, where
a sequence need not be indented. -/
inductive Site
  | flow
  | block
  | blockValue
  deriving DecidableEq

/-- Whether the first token ends a block entry. -/
def endsBlockItem : List Token → Bool
  | .blockEntry :: _ => true
  | .blockEnd :: _ => true
  | [] => true
  | _ => false

/-- Whether the first token ends the item of a sequence that is not indented. -/
def endsIndentlessItem : List Token → Bool
  | .blockEntry :: _ => true
  | .key :: _ => true
  | .value :: _ => true
  | .blockEnd :: _ => true
  | _ => false

/-- Whether the first token ends the key or value of a block mapping. -/
def endsBlockPair : List Token → Bool
  | .key :: _ => true
  | .value :: _ => true
  | .blockEnd :: _ => true
  | _ => false

/-- Whether the first token ends an entry in brackets closed by `closing`. -/
def endsFlowEntry (closing : Token) : List Token → Bool
  | .flowEntry :: _ => true
  | t :: _ => t == closing
  | [] => false

mutual

/-- Reads a node. -/
def readNode : Nat → Site → Names → List Token → Except Fault (Node × Names × List Token)
  | 0, _, _, _ => .error .malformed
  | fuel + 1, site, names, tokens =>
      match tokens with
      | .alias a :: rest =>
          match names.anchors.lookup a with
          | some (some node) => .ok (node, names, rest)
          | _ => .error .malformed
      | _ => do
          let (properties, tokens) := readProperties tokens
          let written ← tagName names properties.tag
          let names ← names.announce properties.anchor
          let (node, names, rest) ←
            match site, tokens with
            | .blockValue, .blockEntry :: _ => do
                let (items, names, rest) ← readIndentless fuel names tokens
                pure (Node.sequence (collectionTag written .sequence) items, names, rest)
            | _, .scalar content plain :: rest =>
                pure (Node.scalar (scalarTagOf written plain content) content, names, rest)
            | _, .flowSequenceStart :: rest => do
                let (items, names, rest) ← readFlowItems fuel true names rest
                pure (Node.sequence (collectionTag written .sequence) items, names, rest)
            | _, .flowMappingStart :: rest => do
                let (items, names, rest) ← readFlowPairs fuel true names rest
                pure (Node.mapping (collectionTag written .mapping) items, names, rest)
            | .block, .blockSequenceStart :: rest
            | .blockValue, .blockSequenceStart :: rest => do
                let (items, names, rest) ← readBlockItems fuel names rest
                pure (Node.sequence (collectionTag written .sequence) items, names, rest)
            | .block, .blockMappingStart :: rest
            | .blockValue, .blockMappingStart :: rest => do
                let (items, names, rest) ← readBlockPairs fuel names rest
                pure (Node.mapping (collectionTag written .mapping) items, names, rest)
            | _, _ =>
                if properties.anchor.isSome || written.isSome then
                  pure (Node.scalar (scalarTagOf written true []) [], names, tokens)
                else throw .malformed
          return (node, names.settle properties.anchor node, rest)

/-- Reads the items of a block sequence up to and with its end. -/
def readBlockItems : Nat → Names → List Token → Except Fault (List Node × Names × List Token)
  | 0, _, _ => .error .malformed
  | fuel + 1, names, tokens =>
      match tokens with
      | .blockEntry :: rest => do
          let (node, names, rest) ←
            if endsBlockItem rest then pure (Node.empty, names, rest)
            else readNode fuel .block names rest
          let (nodes, names, rest) ← readBlockItems fuel names rest
          return (node :: nodes, names, rest)
      | .blockEnd :: rest => .ok ([], names, rest)
      | _ => .error .malformed

/-- Reads the items of a sequence that is not indented. -/
def readIndentless : Nat → Names → List Token → Except Fault (List Node × Names × List Token)
  | 0, _, _ => .error .malformed
  | fuel + 1, names, tokens =>
      match tokens with
      | .blockEntry :: rest => do
          let (node, names, rest) ←
            if endsIndentlessItem rest then pure (Node.empty, names, rest)
            else readNode fuel .block names rest
          let (nodes, names, rest) ← readIndentless fuel names rest
          return (node :: nodes, names, rest)
      | _ => .ok ([], names, tokens)

/-- Reads the pairs of a block mapping up to and with its end. -/
def readBlockPairs :
    Nat → Names → List Token → Except Fault (List (Node × Node) × Names × List Token)
  | 0, _, _ => .error .malformed
  | fuel + 1, names, tokens =>
      match tokens with
      | .blockEnd :: rest => .ok ([], names, rest)
      | _ => do
          let (key, names, rest) ←
            match tokens with
            | .key :: rest =>
                if endsBlockPair rest then pure (Node.empty, names, rest)
                else readNode fuel .blockValue names rest
            | .value :: _ => pure (Node.empty, names, tokens)
            | _ => throw .malformed
          let (value, names, rest) ←
            match rest with
            | .value :: rest =>
                if endsBlockPair rest then pure (Node.empty, names, rest)
                else readNode fuel .blockValue names rest
            | _ => pure (Node.empty, names, rest)
          let (pairs, names, rest) ← readBlockPairs fuel names rest
          return ((key, value) :: pairs, names, rest)

/-- Reads the items in square brackets up to and with the closing one; an item
may be a single pair. -/
def readFlowItems :
    Nat → Bool → Names → List Token → Except Fault (List Node × Names × List Token)
  | 0, _, _, _ => .error .malformed
  | fuel + 1, first, names, tokens => do
      match tokens with
      | .flowSequenceEnd :: rest => return ([], names, rest)
      | _ =>
          let tokens ←
            match first, tokens with
            | true, _ => pure tokens
            | false, .flowEntry :: rest => pure rest
            | false, _ => throw .malformed
          match tokens with
          | .flowSequenceEnd :: rest => return ([], names, rest)
          | .key :: rest =>
              let (key, names, rest) ←
                if rest.head? = some .value || endsFlowEntry .flowSequenceEnd rest then
                  pure (Node.empty, names, rest)
                else readNode fuel .flow names rest
              let (value, names, rest) ← readFlowValue fuel .flowSequenceEnd names rest
              let (nodes, names, rest) ← readFlowItems fuel false names rest
              return (Node.mapping .mapping [(key, value)] :: nodes, names, rest)
          | _ =>
              let (node, names, rest) ← readNode fuel .flow names tokens
              let (nodes, names, rest) ← readFlowItems fuel false names rest
              return (node :: nodes, names, rest)

/-- Reads the value of a pair in brackets, if there is one. -/
def readFlowValue :
    Nat → Token → Names → List Token → Except Fault (Node × Names × List Token)
  | 0, _, _, _ => .error .malformed
  | fuel + 1, closing, names, tokens =>
      match tokens with
      | .value :: rest =>
          if endsFlowEntry closing rest then .ok (Node.empty, names, rest)
          else readNode fuel .flow names rest
      | _ => .ok (Node.empty, names, tokens)

/-- Reads the pairs in braces up to and with the closing one; a key may stand
alone. -/
def readFlowPairs :
    Nat → Bool → Names → List Token → Except Fault (List (Node × Node) × Names × List Token)
  | 0, _, _, _ => .error .malformed
  | fuel + 1, first, names, tokens => do
      match tokens with
      | .flowMappingEnd :: rest => return ([], names, rest)
      | _ =>
          let tokens ←
            match first, tokens with
            | true, _ => pure tokens
            | false, .flowEntry :: rest => pure rest
            | false, _ => throw .malformed
          match tokens with
          | .flowMappingEnd :: rest => return ([], names, rest)
          | .key :: rest =>
              let (key, names, rest) ←
                if rest.head? = some .value || endsFlowEntry .flowMappingEnd rest then
                  pure (Node.empty, names, rest)
                else readNode fuel .flow names rest
              let (value, names, rest) ← readFlowValue fuel .flowMappingEnd names rest
              let (pairs, names, rest) ← readFlowPairs fuel false names rest
              return ((key, value) :: pairs, names, rest)
          | _ =>
              let (key, names, rest) ← readNode fuel .flow names tokens
              let (pairs, names, rest) ← readFlowPairs fuel false names rest
              return ((key, Node.empty) :: pairs, names, rest)

end

/-- The handles of tags that need no declaration. -/
def usualHandles : List (List Char × List Char) :=
  [(['!'], ['!']), (['!', '!'], standardLead)]

/-- Reads the directives in front of a document: the handles that they declare. -/
def readDirectives : Bool → List (List Char × List Char) → List Token →
    Except Fault (List (List Char × List Char) × List Token)
  | versioned, handles, .versionDirective major _ :: rest =>
      if versioned || major ≠ 1 then .error .malformed else readDirectives true handles rest
  | versioned, handles, .tagDirective handle leading :: rest =>
      if (handles.lookup handle).isSome then .error .malformed
      else readDirectives versioned (handles ++ [(handle, leading)]) rest
  | versioned, handles, .otherDirective :: rest => readDirectives versioned handles rest
  | _, handles, tokens => .ok (handles, tokens)

/-- Whether tokens begin with a directive, a separator, or nothing. -/
def beginsExplicitly : List Token → Bool
  | .versionDirective .. :: _ => true
  | .tagDirective .. :: _ => true
  | .otherDirective :: _ => true
  | .documentStart :: _ => true
  | [] => true
  | _ => false

/-- Whether tokens begin where a document has no content. -/
def beginsEmpty : List Token → Bool
  | .documentEnd :: _ => true
  | tokens => beginsExplicitly tokens

/-- Drops separators that end documents. -/
def dropDocumentEnds : List Token → List Token
  | .documentEnd :: rest => dropDocumentEnds rest
  | tokens => tokens

/-- The tree of a text that holds at most one document. -/
def Node.ofTokens (tokens : List Token) : Except Fault (Option Node) := do
  let fuel := 2 * tokens.length + 2
  let (node, rest) ←
    if beginsExplicitly tokens then
      let (handles, rest) ← readDirectives false [] tokens
      match rest with
      | [] => if tokens.isEmpty then return none else throw .malformed
      | .documentStart :: rest =>
          let all := handles ++ usualHandles.filter fun h => (handles.lookup h.1).isNone
          if beginsEmpty rest then pure (Node.empty, rest)
          else
            let (node, _, rest) ← readNode fuel .block ⟨all, []⟩ rest
            pure (node, rest)
      | _ => throw .malformed
    else
      let (node, _, rest) ← readNode fuel .block ⟨usualHandles, []⟩ tokens
      pure (node, rest)
  if (dropDocumentEnds rest).isEmpty then return some node else throw .malformed

end Folio.Data.Yaml
