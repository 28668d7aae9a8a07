import Folio.Template.ExprReader

/-!
# Reading statements

A statement begins with its keyword; one that holds others ends at a keyword of
its own.  `statements` reads a whole template.
-/

namespace Folio.Template

open Reader

/-! ## Targets -/

/-- The words that stand for values and cannot be assigned to. -/
def valueWords : List String :=
  ["true", "false", "none", "True", "False", "None"]

/-- A name that can be assigned to. -/
def targetName : Reader String := do
  let name ← anyName
  if valueWords.contains name then refuse else return name

/-- The target that an expression in brackets stands for. -/
def Target.ofExpr? : Expr → Option Target
  | .name n => some (.name n)
  | .tuple items => (allOf items).map .tuple
  | _ => none
where
  /-- The targets that expressions stand for, if they all do. -/
  allOf : List Expr → Option (List Target)
    | [] => some []
    | e :: rest => do
        let first ← Target.ofExpr? e
        return first :: (← allOf rest)

/-- Reads one target; `slots` allows fields of records. -/
def targetItem (slots : Bool) : Reader Target := do
  if ← takeSign .openParen then
    let e ← tuple expression [] true
    sign .closeParen
    match Target.ofExpr? e with
    | some t => return t
    | none => refuse
  else
    let name ← targetName
    if slots then
      if ← takeSign .dot then return .slot name (← anyName)
    return .name name

/-- Reads a target, or several separated by commas. -/
def target (ends : List String) (slots : Bool) : Reader Target := do
  match ← tupleItems (targetItem slots) ends with
  | ([], _) => refuse
  | ([t], false) => return t
  | (items, _) => return .tuple items

/-! ## Parts of statements -/

/-- Readers of the statements inside a statement: up to one of some keywords,
which is not taken. -/
abbrev BodyReader := List String → Reader (List Statement)

/-- Reads the end of an opening statement, then statements up to a keyword. -/
def body (inner : BodyReader) (ends : List String) : Reader (List Statement) := do
  let _ ← takeSign .colon
  statementEnd
  let statements ← inner ends
  match ← current with
  | none => throw .badSyntax
  | some _ => return statements

/-- Reads statements up to a keyword, which is taken. -/
def bodyTo (inner : BodyReader) (ending : String) : Reader (List Statement) := do
  let statements ← body inner [ending]
  skip
  return statements

/-- Reads a parameter, after those read so far, last first. -/
def parameter (s : Signature) : Reader Signature := do
  let name ← targetName
  if ← takeSign .assign then
    return ⟨name :: s.parameters, (← expression) :: s.defaults⟩
  else if s.defaults.isEmpty then return ⟨name :: s.parameters, []⟩
  else refuse

/-- Reads parameters with the brackets around them. -/
def signature : Reader Signature := do
  sign .openParen
  let s ← repeated (fun (s : Signature) => do
    if ← atSign .closeParen then return none
    if !s.parameters.isEmpty then sign .comma
    return some (← parameter s)) ⟨[], []⟩
  sign .closeParen
  return ⟨s.parameters.reverse, s.defaults.reverse⟩

/-- Reads whether a template sees the names around the statement. -/
def contextWish? : Reader (Option Bool) := do
  if (← atName ["with", "without"]) && isNameOf ["context"] (← second) then
    let wish ← atName ["with"]
    skip
    skip
    return some wish
  else return none

/-- Reads further filters behind bars after one. -/
def filterChain (first : Expr) : Reader Expr :=
  repeated (fun e => do
    if ← takeSign .bar then return some (← filterPart expressions (some e)) else return none) first

/-! ## Statements -/

/-- Reads a loop after its keyword. -/
def loop (inner : BodyReader) : Reader Statement := do
  let goal ← target ["in"] false
  keyword "in"
  let items ← tuple expressions.disjunction ["recursive"] false
  let test ← if ← takeName "if" then pure (some (← expression)) else pure none
  let recursive ← takeName "recursive"
  let statements ← body inner ["endfor", "else"]
  if ← takeName "endfor" then return .loop goal items test recursive statements []
  else
    skip
    return .loop goal items test recursive statements (← bodyTo inner "endfor")

/-- Reads one branch of a choice: its test and its statements. -/
def branch (inner : BodyReader) : Reader (Expr × List Statement) := do
  let test ← tuple expressions.disjunction [] false
  return (test, ← body inner ["elif", "else", "endif"])

/-- Reads a choice after its keyword. -/
def branches (inner : BodyReader) : Reader Statement := do
  let (test, statements) ← branch inner
  let others ← repeated (fun others => do
    if ← takeName "elif" then return some ((← branch inner) :: others) else return none) []
  if ← takeName "else" then
    return .branch test statements others.reverse (← bodyTo inner "endif")
  else
    skip
    return .branch test statements others.reverse []

/-- Reads an assignment after its keyword. -/
def assignment (inner : BodyReader) : Reader Statement := do
  let goal ← target [] true
  if ← takeSign .assign then return .assign goal (← tuple expression [] false)
  else
    let filter ←
      if ← takeSign .bar then pure (some (← filterChain (← filterPart expressions none)))
      else pure none
    return .capture goal filter (← bodyTo inner "endset")

/-- Reads names with values for a part of a template, after the keyword. -/
def bindings (inner : BodyReader) : Reader Statement := do
  let pairs ← repeated (fun (pairs : List (Target × Expr)) => do
    match ← current with
    | some .statementEnd => return none
    | _ =>
        if !pairs.isEmpty then sign .comma
        let goal ← target [] false
        sign .assign
        return some ((goal, ← expression) :: pairs)) []
  return .bind pairs.reverse (← bodyTo inner "endwith")

/-- Whether statements are white space only. -/
def areBlank : List Statement → Bool
  | [] => true
  | .text s :: rest => s.all Text.isBlank && areBlank rest
  | _ => false

/-- Reads a block after its keyword. -/
def block (inner : BodyReader) : Reader Statement := do
  let name ← anyName
  let sharesNames ← takeName "scoped"
  let required ← takeName "required"
  if ← atSign .minus then refuse
  let statements ← bodyTo inner "endblock"
  if required && !areBlank statements then refuse
  let _ ← takeName name
  return .block name sharesNames required statements

/-- Reads a macro after its keyword. -/
def definition (inner : BodyReader) : Reader Statement := do
  let name ← targetName
  return .define name (← signature) (← bodyTo inner "endmacro")

/-- Reads a call that is given a part of the template, after its keyword. -/
def callWith (inner : BodyReader) : Reader Statement := do
  let s ← if ← atSign .openParen then signature else pure ⟨[], []⟩
  match ← expression with
  | .call subject given => return .callWith s (.call subject given) (← bodyTo inner "endcall")
  | _ => refuse

/-- Reads a part of the template that is filtered, after its keyword. -/
def filtered (inner : BodyReader) : Reader Statement := do
  let filter ← filterChain (← filterPart expressions none)
  return .filtered filter (← bodyTo inner "endfilter")

/-- Reads an inclusion after its keyword. -/
def inclusion : Reader Statement := do
  let template ← expression
  let mayMiss := (← atName ["ignore"]) && isNameOf ["missing"] (← second)
  if mayMiss then
    skip
    skip
  return .inclusion template mayMiss ((← contextWish?).getD true)

/-- Reads the import of a whole template after its keyword. -/
def library : Reader Statement := do
  let template ← expression
  keyword "as"
  let name ← targetName
  return .library template name ((← contextWish?).getD false)

/-- Reads one name of an import, and the name that it gets here. -/
def importedName : Reader (String × String) := do
  let name ← targetName
  if name.toList.head? = some '_' then throw .illFormed
  if ← takeName "as" then return (name, ← targetName) else return (name, name)

/-- Reads the import of names after its keyword. -/
def libraryNames : Reader Statement := do
  let template ← expression
  keyword "import"
  let (names, wish, _) ←
    repeated (fun ((names, _, more) : List (String × String) × Option Bool × Bool) => do
      if !more then return none
      if !names.isEmpty then sign .comma
      match ← contextWish? with
      | some wish => return some (names, some wish, false)
      | none =>
          let names := (← importedName) :: names
          match ← contextWish? with
          | some wish => return some (names, some wish, false)
          | none => return some (names, none, ← atSign .comma)) ([], none, true)
  return .libraryNames template names.reverse (wish.getD false)

/-- Reads printed values after the keyword. -/
def printedValues : Reader (List Statement) := do
  let values ← repeated (fun (values : List Expr) => do
    match ← current with
    | some .statementEnd => return none
    | _ =>
        if !values.isEmpty then sign .comma
        return some ((← expression) :: values)) []
  return values.reverse.map .print

/-- Reads a part of the template with its own rule of escaping, after the
keyword. -/
def escaping (inner : BodyReader) : Reader Statement := do
  let value ← expression
  return .escaping value (← bodyTo inner "endautoescape")

/-- Reads a statement. -/
def statement (inner : BodyReader) : Reader (List Statement) := do
  match ← anyName with
  | "for" => return [← loop inner]
  | "if" => return [← branches inner]
  | "set" => return [← assignment inner]
  | "with" => return [← bindings inner]
  | "block" => return [← block inner]
  | "macro" => return [← definition inner]
  | "call" => return [← callWith inner]
  | "filter" => return [← filtered inner]
  | "extends" => return [.extension (← expression)]
  | "include" => return [← inclusion]
  | "import" => return [← library]
  | "from" => return [← libraryNames]
  | "print" => printedValues
  | "autoescape" => return [← escaping inner]
  | _ => throw .badSyntax

/-! ## Templates -/

/-- Reads one text, printed value or statement, and adds it to those before it,
last first; gives nothing at the end and at one of some keywords. -/
def nextStatement (inner : BodyReader) (ends : List String) (before : List Statement) :
    Reader (Option (List Statement)) := do
  match ← current with
  | none => return none
  | some (.data s) =>
      skip
      return some (.text s :: before)
  | some .printBegin =>
      skip
      let e ← tuple expression [] false
      printEnd
      return some (.print e :: before)
  | some .statementBegin =>
      skip
      if ← atName ends then return none
      let found ← statement inner
      statementEnd
      return some (found.reverse ++ before)
  | some _ => refuse

/-- Reads statements in so many levels of statements. -/
def statementsWithin : Nat → BodyReader
  | 0, _ => throw .tooDeep
  | depth + 1, ends => do
      return (← repeated (nextStatement (statementsWithin depth) ends) []).reverse

/-- The most levels of statements within statements. -/
def maxLevels : Nat := 100

/-- Reads the statements of a template. -/
def statements (source : List Char) : Except Fault (List Statement) := do
  let (found, _) ← (statementsWithin maxLevels []).run (lexemes source)
  return found

end Folio.Template
