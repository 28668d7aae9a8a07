/-!
# Expressions and statements of templates

What a template says once it is read: expressions, the places that values are
assigned to, and statements.
-/

namespace Folio.Template

/-- A value that is written out. -/
inductive Literal
  | null
  | bool (b : Bool)
  | int (n : Int)
  | float (x : Float)
  | text (s : List Char)
  deriving Repr

/-- How two values are compared. -/
inductive Comparison
  | equal
  | notEqual
  | less
  | lessEqual
  | greater
  | greaterEqual
  | isIn
  | isNotIn
  deriving Repr, DecidableEq

/-- What is computed from two values. -/
inductive Operation
  | add
  | subtract
  | multiply
  | divide
  | floorDivide
  | remainder
  | power
  deriving Repr, DecidableEq

mutual

/-- An expression. -/
inductive Expr
  | literal (value : Literal)
  | name (name : String)
  | tuple (items : List Expr)
  | list (items : List Expr)
  | mapping (items : List (Expr × Expr))
  | choose (test value : Expr) (otherwise : Option Expr)
  | both (left right : Expr)
  | either (left right : Expr)
  | negate (operand : Expr)
  | compare (first : Expr) (others : List (Comparison × Expr))
  | compute (operation : Operation) (left right : Expr)
  | joined (items : List Expr)
  | minus (operand : Expr)
  | plus (operand : Expr)
  | field (subject : Expr) (name : String)
  | item (subject index : Expr)
  | span (start stop step : Option Expr)
  | call (subject : Expr) (arguments : Arguments)
  | filter (subject : Option Expr) (name : String) (arguments : Arguments)
  | test (subject : Expr) (name : String) (arguments : Arguments)

/-- What something is called with: values, named values, and the members of a
sequence and of a mapping. -/
inductive Arguments
  | mk (items : List Expr) (named : List (String × Expr)) (more moreNamed : Option Expr)

end

instance : Inhabited Expr := ⟨.literal .null⟩

namespace Arguments

/-- No arguments. -/
def none : Arguments :=
  ⟨[], [], Option.none, Option.none⟩

end Arguments

/-- A place that a value is assigned to. -/
inductive Target
  | name (name : String)
  | slot (record field : String)
  | tuple (items : List Target)

/-- The parameters of a macro.  The last parameters have the defaults, in order. -/
structure Signature where
  parameters : List String
  defaults : List Expr

namespace Signature

/-- The default of each parameter, if it has one. -/
def withDefaults (s : Signature) : List (String × Option Expr) :=
  let required := s.parameters.length - s.defaults.length
  s.parameters.zip (List.replicate required none ++ s.defaults.map some)

end Signature

/-- A statement. -/
inductive Statement
  | text (text : List Char)
  | print (value : Expr)
  | branch (test : Expr) (body : List Statement) (others : List (Expr × List Statement))
      (otherwise : List Statement)
  | loop (target : Target) (items : Expr) (test : Option Expr) (recursive : Bool)
      (body otherwise : List Statement)
  | assign (target : Target) (value : Expr)
  | capture (target : Target) (filter : Option Expr) (body : List Statement)
  | bind (bindings : List (Target × Expr)) (body : List Statement)
  | define (name : String) (signature : Signature) (body : List Statement)
  | callWith (signature : Signature) (call : Expr) (body : List Statement)
  | filtered (filter : Expr) (body : List Statement)
  | block (name : String) (sharesNames required : Bool) (body : List Statement)
  | extension (template : Expr)
  | inclusion (template : Expr) (mayMiss withContext : Bool)
  | library (template : Expr) (target : String) (withContext : Bool)
  | libraryNames (template : Expr) (names : List (String × String)) (withContext : Bool)
  | escaping (value : Expr) (body : List Statement)

instance : Inhabited Statement := ⟨.text []⟩

/-! ## Statements within statements -/

/-- A block: its name, whether it sees the names around it, and its statements. -/
structure Block where
  name : String
  sharesNames : Bool
  body : List Statement

namespace Statement

mutual

/-- The blocks of a statement, those inside others included. -/
def blocks : Statement → List Block
  | .branch _ body others otherwise => blocksIn body ++ blocksOthers others ++ blocksIn otherwise
  | .loop _ _ _ _ body otherwise => blocksIn body ++ blocksIn otherwise
  | .capture _ _ body => blocksIn body
  | .bind _ body => blocksIn body
  | .define _ _ body => blocksIn body
  | .callWith _ _ body => blocksIn body
  | .filtered _ body => blocksIn body
  | .escaping _ body => blocksIn body
  | .block name sharesNames _ body => ⟨name, sharesNames, body⟩ :: blocksIn body
  | _ => []

/-- The blocks of statements. -/
def blocksIn : List Statement → List Block
  | [] => []
  | s :: rest => s.blocks ++ blocksIn rest

/-- The blocks of the later branches of a choice. -/
def blocksOthers : List (Expr × List Statement) → List Block
  | [] => []
  | (_, body) :: rest => blocksIn body ++ blocksOthers rest

end

mutual

/-- Whether a statement extends a template, here or inside. -/
def extends? : Statement → Bool
  | .extension _ => true
  | .branch _ body others otherwise =>
      anyExtends body || othersExtend others || anyExtends otherwise
  | .loop _ _ _ _ body otherwise => anyExtends body || anyExtends otherwise
  | .capture _ _ body => anyExtends body
  | .bind _ body => anyExtends body
  | .define _ _ body => anyExtends body
  | .callWith _ _ body => anyExtends body
  | .filtered _ body => anyExtends body
  | .escaping _ body => anyExtends body
  | .block _ _ _ body => anyExtends body
  | _ => false

/-- Whether one of several statements extends a template. -/
def anyExtends : List Statement → Bool
  | [] => false
  | s :: rest => s.extends? || anyExtends rest

/-- Whether a later branch of a choice extends a template. -/
def othersExtend : List (Expr × List Statement) → Bool
  | [] => false
  | (_, body) :: rest => anyExtends body || othersExtend rest

end

end Statement

end Folio.Template
