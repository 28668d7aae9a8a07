import Folio.Template.Reader

/-!
# Reading expressions

From the loosest to the tightest: a choice (`a if b else c`), `or`, `and`, `not`,
comparisons, sums, `~`, products, powers, signs, and then single values with what
is attached to them: fields, items, calls, filters and tests.

Brackets lead back to the loosest level.  `Grammar` holds the readers that this
needs, as they are one level of brackets deeper; `grammar` allows for a fixed
number of levels.
-/

namespace Folio.Template

open Reader

/-- The readers that parts of expressions go back to. -/
structure Grammar where
  expression : Reader Expr
  disjunction : Reader Expr
  negation : Reader Expr
  operand : Bool → Reader Expr

/-! ## Tuples -/

/-- Whether no further item of a tuple can begin here. -/
def atTupleEnd (ends : List String) : Reader Bool := do
  match ← current with
  | some .printEnd => return true
  | some .statementEnd => return true
  | some (.sign .closeParen) => return true
  | some (.name n) => return ends.contains n
  | _ => return false

/-- Reads an item, or several separated by commas; whether there were commas. -/
def tupleItems {α : Type} (item : Reader α) (ends : List String) : Reader (List α × Bool) := do
  let (items, commas, _) ← repeated (fun ((items, commas, more) : List α × Bool × Bool) => do
    if !more then return none
    if ← atTupleEnd ends then return none
    let items := (← item) :: items
    if ← takeSign .comma then return some (items, true, true)
    else return some (items, commas, false)) ([], false, true)
  return (items.reverse, commas)

/-- Reads an expression, or several separated by commas as a tuple. -/
def tuple (item : Reader Expr) (ends : List String) (mayBeEmpty : Bool) : Reader Expr := do
  match ← tupleItems item ends with
  | ([], _) => if mayBeEmpty then return .tuple [] else refuse
  | ([e], false) => return e
  | (items, _) => return .tuple items

/-! ## Arguments -/

/-- Reads one argument of a call, after those read so far, last first. -/
def argument (g : Grammar) (sofar : Arguments) : Reader Arguments := do
  let ⟨items, named, more, moreNamed⟩ := sofar
  if ← takeSign .star then
    if more.isSome || moreNamed.isSome then refuse
    return ⟨items, named, some (← g.expression), moreNamed⟩
  else if ← takeSign .doubleStar then
    if moreNamed.isSome then refuse
    return ⟨items, named, more, some (← g.expression)⟩
  else
    match ← current with
    | some (.name n) =>
        if isSign .assign (← second) then
          if moreNamed.isSome then refuse
          skip
          skip
          return ⟨items, (n, ← g.expression) :: named, more, moreNamed⟩
    | _ => pure ()
    if more.isSome || moreNamed.isSome || !named.isEmpty then refuse
    return ⟨(← g.expression) :: items, named, more, moreNamed⟩

/-- Reads the arguments of a call, with the brackets around them. -/
def arguments (g : Grammar) : Reader Arguments := do
  sign .openParen
  let (⟨items, named, more, moreNamed⟩, _) ←
    repeated (fun ((sofar, first) : Arguments × Bool) => do
      if ← atSign .closeParen then return none
      if !first then
        sign .comma
        if ← atSign .closeParen then return none
      return some (← argument g sofar, false)) (Arguments.none, true)
  sign .closeParen
  return ⟨items.reverse, named.reverse, more, moreNamed⟩

/-- Reads the arguments of a filter or test, if there are any in brackets. -/
def optionalArguments (g : Grammar) : Reader Arguments := do
  if ← atSign .openParen then arguments g else return Arguments.none

/-! ## Single values -/

/-- Reads further quoted texts that continue one. -/
def textParts (first : List Char) : Reader (List Char) :=
  repeated (fun text => do
    match ← current with
    | some (.text more) =>
        skip
        return some (text ++ more)
    | _ => return none) first

/-- The expression that a name stands for. -/
def nameExpr (name : String) : Expr :=
  if name = "true" || name = "True" then .literal (.bool true)
  else if name = "false" || name = "False" then .literal (.bool false)
  else if name = "none" || name = "None" then .literal .null
  else .name name

/-- Reads an entry of a mapping. -/
def mappingItem (g : Grammar) : Reader (Expr × Expr) := do
  let key ← g.expression
  sign .colon
  return (key, ← g.expression)

/-- Reads a name, a value that is written out, or something in brackets. -/
def primary (g : Grammar) : Reader Expr := do
  match ← current with
  | some (.name n) =>
      skip
      return nameExpr n
  | some (.text s) =>
      skip
      return .literal (.text (← textParts s))
  | some (.int n) =>
      skip
      return .literal (.int n)
  | some (.float x) =>
      skip
      return .literal (.float x)
  | some (.sign .openParen) =>
      skip
      let e ← tuple g.expression [] true
      sign .closeParen
      return e
  | some (.sign .openBracket) =>
      skip
      return .list (← separated g.expression .closeBracket true)
  | some (.sign .openBrace) =>
      skip
      return .mapping (← separated (mappingItem g) .closeBrace true)
  | _ => refuse

/-! ## What is attached to a value -/

/-- Whether one part of a slice ends here. -/
def atSliceEnd : Reader Bool := do
  return (← atSign .colon) || (← atSign .closeBracket) || (← atSign .comma)

/-- Reads a part of a slice, which may be missing. -/
def slicePart (g : Grammar) : Reader (Option Expr) := do
  if ← atSliceEnd then return none else return some (← g.expression)

/-- Reads the parts of a slice after its first colon. -/
def sliceAfter (g : Grammar) (start : Option Expr) : Reader Expr := do
  let stop ← slicePart g
  if ← takeSign .colon then
    if ← atSign .colon then refuse
    return .span start stop (← slicePart g)
  else return .span start stop none

/-- Reads one index or slice. -/
def subscript (g : Grammar) : Reader Expr := do
  if ← takeSign .colon then sliceAfter g none
  else
    let e ← g.expression
    if ← takeSign .colon then sliceAfter g (some e) else return e

/-- Reads what follows a point. -/
def afterDot (subject : Expr) : Reader Expr := do
  match ← current with
  | some (.name n) =>
      skip
      return .field subject n
  | some (.int n) =>
      skip
      return .item subject (.literal (.int n))
  | _ => refuse

/-- Reads one field, item or call of a value. -/
def attachment (g : Grammar) (subject : Expr) : Reader (Option Expr) := do
  if ← takeSign .dot then return some (← afterDot subject)
  else if ← takeSign .openBracket then
    match ← separated (subscript g) .closeBracket false with
    | [index] => return some (.item subject index)
    | several => return some (.item subject (.tuple several))
  else if ← atSign .openParen then return some (.call subject (← arguments g))
  else return none

/-- Reads the further parts of a name with points in it. -/
def dottedName : Reader String := do
  let first ← anyName
  repeated (fun name => do
    if ← takeSign .dot then return some (name ++ "." ++ (← anyName)) else return none) first

/-- Reads a filter after its bar. -/
def filterPart (g : Grammar) (subject : Option Expr) : Reader Expr := do
  let name ← dottedName
  return .filter subject name (← optionalArguments g)

/-- Whether a value that a test takes without brackets begins here. -/
def atTestArgument : Reader Bool := do
  match ← current with
  | some (.name n) => return !(["else", "or", "and"].contains n)
  | some (.text _) => return true
  | some (.int _) => return true
  | some (.float _) => return true
  | some (.sign s) => return s = .openBracket || s = .openBrace
  | _ => return false

/-- Reads a test after the word `is`. -/
def testPart (g : Grammar) (subject : Expr) : Reader Expr := do
  let negated ← takeName "not"
  let name ← dottedName
  let given ←
    if ← atSign .openParen then arguments g
    else if ← atTestArgument then
      if ← atName ["is"] then refuse
      let value ← repeated (attachment g) (← primary g)
      pure ⟨[value], [], none, none⟩
    else pure Arguments.none
  let test := Expr.test subject name given
  return if negated then .negate test else test

/-- Reads one filter, test or call of a value. -/
def refinement (g : Grammar) (subject : Expr) : Reader (Option Expr) := do
  if ← takeSign .bar then return some (← filterPart g (some subject))
  else if ← takeName "is" then return some (← testPart g subject)
  else if ← atSign .openParen then return some (.call subject (← arguments g))
  else return none

/-! ## Operators -/

/-- Reads a value with the signs in front of it and what is attached to it. -/
def operand (g : Grammar) (refined : Bool) : Reader Expr := do
  let e ←
    if ← takeSign .minus then pure (Expr.minus (← g.operand false))
    else if ← takeSign .plus then pure (Expr.plus (← g.operand false))
    else primary g
  let e ← repeated (attachment g) e
  if refined then repeated (refinement g) e else return e

/-- The operation of a sign among some. -/
def operationOf (table : List (Sign × Operation)) : Option Lexeme → Option Operation
  | some (.sign s) => table.lookup s
  | _ => none

/-- Reads operands joined by operations of one level, from the left. -/
def leftJoined (table : List (Sign × Operation)) (part : Reader Expr) : Reader Expr := do
  repeated (fun left => do
    match operationOf table (← current) with
    | some operation =>
        skip
        return some (.compute operation left (← part))
    | none => return none) (← part)

/-- Reads powers. -/
def powers (g : Grammar) : Reader Expr :=
  leftJoined [(.doubleStar, .power)] (g.operand true)

/-- Reads products. -/
def products (g : Grammar) : Reader Expr :=
  leftJoined [(.star, .multiply), (.slash, .divide), (.doubleSlash, .floorDivide),
    (.percent, .remainder)] (powers g)

/-- Reads values that are joined as texts. -/
def joins (g : Grammar) : Reader Expr := do
  let first ← products g
  let others ← repeated (fun items => do
    if ← takeSign .tilde then return some ((← products g) :: items) else return none) []
  return if others.isEmpty then first else .joined (first :: others.reverse)

/-- Reads sums. -/
def sums (g : Grammar) : Reader Expr :=
  leftJoined [(.plus, .add), (.minus, .subtract)] (joins g)

/-- The comparison of a sign. -/
def comparisonOf : Option Lexeme → Option Comparison
  | some (.sign .equal) => some .equal
  | some (.sign .notEqual) => some .notEqual
  | some (.sign .less) => some .less
  | some (.sign .lessEqual) => some .lessEqual
  | some (.sign .greater) => some .greater
  | some (.sign .greaterEqual) => some .greaterEqual
  | _ => none

/-- Takes the sign or the words of a comparison. -/
def takeComparison : Reader (Option Comparison) := do
  match comparisonOf (← current) with
  | some c =>
      skip
      return some c
  | none =>
      if ← takeName "in" then return some .isIn
      else if (← atName ["not"]) && isNameOf ["in"] (← second) then
        skip
        skip
        return some .isNotIn
      else return none

/-- Reads comparisons. -/
def comparisons (g : Grammar) : Reader Expr := do
  let first ← sums g
  let others ← repeated (fun items => do
    match ← takeComparison with
    | some c => return some ((c, ← sums g) :: items)
    | none => return none) []
  return if others.isEmpty then first else .compare first others.reverse

/-- Reads a negation. -/
def negation (g : Grammar) : Reader Expr := do
  if ← takeName "not" then return .negate (← g.negation) else comparisons g

/-- Reads a conjunction. -/
def conjunction (g : Grammar) : Reader Expr := do
  repeated (fun left => do
    if ← takeName "and" then return some (.both left (← negation g)) else return none)
    (← negation g)

/-- Reads a disjunction. -/
def disjunction (g : Grammar) : Reader Expr := do
  repeated (fun left => do
    if ← takeName "or" then return some (.either left (← conjunction g)) else return none)
    (← conjunction g)

/-- Reads a choice. -/
def choice (g : Grammar) : Reader Expr := do
  repeated (fun value => do
    if ← takeName "if" then
      let test ← disjunction g
      if ← takeName "else" then return some (.choose test value (some (← g.expression)))
      else return some (.choose test value none)
    else return none) (← disjunction g)

/-! ## All levels -/

/-- The readers for expressions with so many levels of brackets. -/
def grammar : Nat → Grammar
  | 0 => ⟨throw .tooDeep, throw .tooDeep, throw .tooDeep, fun _ => throw .tooDeep⟩
  | depth + 1 =>
      let g := grammar depth
      ⟨choice g, disjunction g, negation g, operand g⟩

/-- The most levels of brackets. -/
def maxBrackets : Nat := 68

/-- The readers for expressions in templates. -/
def expressions : Grammar :=
  grammar maxBrackets

/-- Reads an expression. -/
def expression : Reader Expr :=
  expressions.expression

end Folio.Template
