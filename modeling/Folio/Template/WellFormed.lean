import Folio.Template.Test

/-!
# Well-formed templates

A template that can be read may still be refused before it runs: it names a filter
or test that there is none of, defines a block twice, extends another template
inside a part with names of its own, assigns the name `loop` in a loop, or takes
`caller` as a parameter without a default.  Filters and tests inside a choice are
not looked up before they are needed, and what an extended template would replace
is not looked at.
-/

namespace Folio.Template

namespace Expr

mutual

/-- Whether all filters and tests of an expression exist; those in a choice need
not. -/
def isKnown : Expr → Bool
  | .literal _ => true
  | .name _ => true
  | .tuple items => areKnown items
  | .list items => areKnown items
  | .mapping items => pairsAreKnown items
  | .choose _ _ _ => true
  | .both left right => left.isKnown && right.isKnown
  | .either left right => left.isKnown && right.isKnown
  | .negate operand => operand.isKnown
  | .compare first others => first.isKnown && comparedAreKnown others
  | .compute _ left right => left.isKnown && right.isKnown
  | .joined items => areKnown items
  | .minus operand => operand.isKnown
  | .plus operand => operand.isKnown
  | .field subject _ => subject.isKnown
  | .item subject index => subject.isKnown && index.isKnown
  | .span start stop step => optionIsKnown start && optionIsKnown stop && optionIsKnown step
  | .call subject arguments => subject.isKnown && argumentsAreKnown arguments
  | .filter subject filterName arguments =>
      Filter.names.contains filterName && optionIsKnown subject && argumentsAreKnown arguments
  | .test subject testName arguments =>
      Test.names.contains testName && subject.isKnown && argumentsAreKnown arguments

/-- Whether all filters and tests of expressions exist. -/
def areKnown : List Expr → Bool
  | [] => true
  | e :: rest => e.isKnown && areKnown rest

/-- Whether all filters and tests of an expression exist, if there is one. -/
def optionIsKnown : Option Expr → Bool
  | none => true
  | some e => e.isKnown

/-- Whether all filters and tests of keys and values exist. -/
def pairsAreKnown : List (Expr × Expr) → Bool
  | [] => true
  | (key, value) :: rest => key.isKnown && value.isKnown && pairsAreKnown rest

/-- Whether all filters and tests of compared expressions exist. -/
def comparedAreKnown : List (Comparison × Expr) → Bool
  | [] => true
  | (_, e) :: rest => e.isKnown && comparedAreKnown rest

/-- Whether all filters and tests of named arguments exist. -/
def namedAreKnown : List (String × Expr) → Bool
  | [] => true
  | (_, e) :: rest => e.isKnown && namedAreKnown rest

/-- Whether all filters and tests of arguments exist. -/
def argumentsAreKnown : Arguments → Bool
  | ⟨items, named, more, moreNamed⟩ =>
      areKnown items && namedAreKnown named && optionIsKnown more && optionIsKnown moreNamed

end

end Expr

/-- Where a statement stands: in a choice, in the outermost part, and whether its
output gives way to that of an extended template. -/
structure Standing where
  inChoice : Bool
  outermost : Bool
  yields : Bool

/-- A part with names of its own. -/
def Standing.inside (s : Standing) : Standing :=
  { s with inChoice := false, outermost := false }

/-- Whether the parameters can be those of a macro with a body. -/
def takesCaller (signature : Signature) (body : List Statement) : Bool :=
  undeclared "caller" body &&
    signature.withDefaults.any fun (name, default) => name = "caller" && default.isNone

namespace Statement

mutual

/-- Whether a statement is well-formed, blocks left out; if so, whether a template
is extended after it, `extended` telling whether one is before. -/
def check (at_ : Standing) (extended : Bool) : Statement → Option Bool
  | .text _ => some extended
  | .print value =>
      if (at_.yields && extended) || at_.inChoice || value.isKnown then some extended else none
  | .branch _ body others otherwise => do
      let inner := { at_ with inChoice := true }
      let extended ← checkAll inner extended body
      let extended ← checkOthers inner extended others
      checkAll inner extended otherwise
  | .loop target items condition recursive body otherwise => do
      if (Statement.loop target items condition recursive body otherwise).assigns "loop" then none
      if !Expr.optionIsKnown condition || !(at_.inChoice || items.isKnown) then none
      let extended ← checkAll at_.inside extended body
      checkAll at_.inside extended otherwise
  | .assign _ value => if at_.inChoice || value.isKnown then some extended else none
  | .capture _ filter body => do
      if !Expr.optionIsKnown filter then none
      checkAll { at_.inside with yields := false } extended body
  | .bind bindings body => do
      if !(at_.inChoice || bindings.all fun (_, e) => e.isKnown) then none
      checkAll at_.inside extended body
  | .define _ signature body => do
      if takesCaller signature body || !Expr.areKnown signature.defaults then none
      checkAll ⟨false, false, false⟩ extended body
  | .callWith signature call body => do
      if takesCaller signature body || !Expr.areKnown signature.defaults then none
      if !(at_.inChoice || call.isKnown) then none
      checkAll ⟨false, false, false⟩ extended body
  | .filtered filter body => do
      if !filter.isKnown then none
      checkAll at_.inside extended body
  | .block _ _ _ _ => some extended
  | .extension template =>
      if at_.outermost && (at_.inChoice || template.isKnown) then some (extended || !at_.inChoice)
      else none
  | .inclusion template _ _ => if at_.inChoice || template.isKnown then some extended else none
  | .library template _ _ => if at_.inChoice || template.isKnown then some extended else none
  | .libraryNames template _ _ =>
      if at_.inChoice || template.isKnown then some extended else none
  | .escaping value body => do
      if !value.isKnown then none
      checkAll at_.inside extended body

/-- Whether statements are well-formed one after another. -/
def checkAll (at_ : Standing) (extended : Bool) : List Statement → Option Bool
  | [] => some extended
  | s :: rest => do
      let extended ← s.check at_ extended
      checkAll at_ extended rest

/-- Whether the later branches of a choice are well-formed. -/
def checkOthers (at_ : Standing) (extended : Bool) :
    List (Expr × List Statement) → Option Bool
  | [] => some extended
  | (_, body) :: rest => do
      let extended ← checkAll at_ extended body
      checkOthers at_ extended rest

end

end Statement

/-- Whether names are all different. -/
def areDistinct : List String → Bool
  | [] => true
  | n :: rest => !rest.contains n && areDistinct rest

/-- Whether a template is well-formed. -/
def isWellFormed (body : List Statement) : Bool :=
  let blocks := Statement.blocksIn body
  areDistinct (blocks.map (·.name)) &&
    (Statement.checkAll ⟨false, true, Statement.anyExtends body⟩ false body).isSome &&
    blocks.all fun b => (Statement.checkAll ⟨false, false, false⟩ false b.body).isSome

end Folio.Template
