import Folio.Template.Expr

/-!
# Names in templates

Which names an expression or statement reads and which it assigns.  `undeclared`
tells whether a part of a template uses a name that the part does not assign
first, blocks left out.
-/

namespace Folio.Template

/-! ## Expressions -/

namespace Expr

mutual

/-- The names that an expression reads. -/
def names : Expr → List String
  | .literal _ => []
  | .name n => [n]
  | .tuple items => namesIn items
  | .list items => namesIn items
  | .mapping items => namesInPairs items
  | .choose condition value otherwise => condition.names ++ value.names ++ namesInOption otherwise
  | .both left right => left.names ++ right.names
  | .either left right => left.names ++ right.names
  | .negate operand => operand.names
  | .compare first others => first.names ++ namesInComparisons others
  | .compute _ left right => left.names ++ right.names
  | .joined items => namesIn items
  | .minus operand => operand.names
  | .plus operand => operand.names
  | .field subject _ => subject.names
  | .item subject index => subject.names ++ index.names
  | .span start stop step => namesInOption start ++ namesInOption stop ++ namesInOption step
  | .call subject arguments => subject.names ++ namesInArguments arguments
  | .filter subject _ arguments => namesInOption subject ++ namesInArguments arguments
  | .test subject _ arguments => subject.names ++ namesInArguments arguments

/-- The names that expressions read. -/
def namesIn : List Expr → List String
  | [] => []
  | e :: rest => e.names ++ namesIn rest

/-- The names that an expression reads, if there is one. -/
def namesInOption : Option Expr → List String
  | none => []
  | some e => e.names

/-- The names that keys and values read. -/
def namesInPairs : List (Expr × Expr) → List String
  | [] => []
  | (key, value) :: rest => key.names ++ value.names ++ namesInPairs rest

/-- The names that compared expressions read. -/
def namesInComparisons : List (Comparison × Expr) → List String
  | [] => []
  | (_, e) :: rest => e.names ++ namesInComparisons rest

/-- The names that named arguments read. -/
def namesInNamed : List (String × Expr) → List String
  | [] => []
  | (_, e) :: rest => e.names ++ namesInNamed rest

/-- The names that arguments read. -/
def namesInArguments : Arguments → List String
  | ⟨items, named, more, moreNamed⟩ =>
      namesIn items ++ namesInNamed named ++ namesInOption more ++ namesInOption moreNamed

end

end Expr

/-! ## Targets -/

namespace Target

mutual

/-- The names that a target assigns. -/
def names : Target → List String
  | .name n => [n]
  | .slot _ _ => []
  | .tuple items => namesIn items

/-- The names that targets assign. -/
def namesIn : List Target → List String
  | [] => []
  | t :: rest => t.names ++ namesIn rest

end

mutual

/-- The records of which a target assigns fields. -/
def records : Target → List String
  | .name _ => []
  | .slot record _ => [record]
  | .tuple items => recordsIn items

/-- The records of which targets assign fields. -/
def recordsIn : List Target → List String
  | [] => []
  | t :: rest => t.records ++ recordsIn rest

end

end Target

/-! ## Statements -/

/-- A use of a name. -/
inductive NameUse
  | reads (name : String)
  | assigns (name : String)
  deriving Repr, DecidableEq

/-- Names that are read. -/
def reading (names : List String) : List NameUse :=
  names.map .reads

/-- Names that are assigned. -/
def assigning (names : List String) : List NameUse :=
  names.map .assigns

namespace Statement

mutual

/-- The uses of names in a statement and in those inside it, blocks left out. -/
def uses : Statement → List NameUse
  | .text _ => []
  | .print value => reading value.names
  | .branch test body others otherwise =>
      reading test.names ++ usesIn body ++ usesOthers others ++ usesIn otherwise
  | .loop target items test _ body otherwise =>
      assigning target.names ++ reading items.names ++ usesIn body ++ usesIn otherwise ++
        reading (Expr.namesInOption test)
  | .assign target value => assigning target.names ++ reading value.names
  | .capture target filter body =>
      assigning target.names ++ reading (Expr.namesInOption filter) ++ usesIn body
  | .bind bindings body =>
      assigning (bindings.flatMap fun (t, _) => t.names) ++
        reading (bindings.flatMap fun (_, e) => e.names) ++ usesIn body
  | .define _ signature body =>
      assigning signature.parameters ++ reading (Expr.namesIn signature.defaults) ++ usesIn body
  | .callWith signature call body =>
      reading call.names ++ assigning signature.parameters ++
        reading (Expr.namesIn signature.defaults) ++ usesIn body
  | .filtered filter body => usesIn body ++ reading filter.names
  | .block _ _ _ _ => []
  | .extension template => reading template.names
  | .inclusion template _ _ => reading template.names
  | .library template _ _ => reading template.names
  | .libraryNames template _ _ => reading template.names
  | .escaping value body => reading value.names ++ usesIn body

/-- The uses of names in statements. -/
def usesIn : List Statement → List NameUse
  | [] => []
  | s :: rest => s.uses ++ usesIn rest

/-- The uses of names in the later branches of a choice. -/
def usesOthers : List (Expr × List Statement) → List NameUse
  | [] => []
  | (test, body) :: rest => reading test.names ++ usesIn body ++ usesOthers rest

end

mutual

/-- Whether a statement assigns a name by `set` or as the target of a loop, here
or inside, blocks included. -/
def assigns (name : String) : Statement → Bool
  | .branch _ body others otherwise =>
      assignsIn name body || assignsOthers name others || assignsIn name otherwise
  | .loop target _ _ _ body otherwise =>
      target.names.contains name || assignsIn name body || assignsIn name otherwise
  | .assign target _ => target.names.contains name
  | .capture target _ body => target.names.contains name || assignsIn name body
  | .bind _ body => assignsIn name body
  | .define _ _ body => assignsIn name body
  | .callWith _ _ body => assignsIn name body
  | .filtered _ body => assignsIn name body
  | .block _ _ _ body => assignsIn name body
  | .escaping _ body => assignsIn name body
  | _ => false

/-- Whether one of several statements assigns a name. -/
def assignsIn (name : String) : List Statement → Bool
  | [] => false
  | s :: rest => s.assigns name || assignsIn name rest

/-- Whether a later branch of a choice assigns a name. -/
def assignsOthers (name : String) : List (Expr × List Statement) → Bool
  | [] => false
  | (_, body) :: rest => assignsIn name body || assignsOthers name rest

end

end Statement

/-- Whether a name is read before it is assigned. -/
def readsFirst (name : String) : List NameUse → Bool
  | [] => false
  | .reads n :: rest => n = name || readsFirst name rest
  | .assigns n :: rest => n ≠ name && readsFirst name rest

/-- Whether statements read a name before they assign it. -/
def undeclared (name : String) (body : List Statement) : Bool :=
  readsFirst name (Statement.usesIn body)

end Folio.Template
