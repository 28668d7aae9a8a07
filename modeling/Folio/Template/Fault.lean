/-!
# Failures of templates

Why a template cannot be loaded, compiled or rendered.  `Fault.kind` is the word
that reports use for the class of a failure.
-/

namespace Folio.Template

/-- A failure of a template. -/
inductive Fault
  | notFound
  | noneFound
  | badSyntax
  | illFormed
  | undefined
  | wrongType
  | zeroDivision
  | tooDeep
  | noAttribute
  | badValue
  | noItem
  | noKey
  | overflow
  | badState
  | badFilterArgument
  | stopped
  | unsafeCall
  | notText
  | notEncodable
  | notListed
  | outOfRange
  | outOfMemory
  deriving Repr, DecidableEq

/-- The class of a failure. -/
def Fault.kind : Fault → String
  | .notFound => "TemplateNotFound"
  | .noneFound => "TemplatesNotFound"
  | .badSyntax => "TemplateSyntaxError"
  | .illFormed => "TemplateAssertionError"
  | .undefined => "UndefinedError"
  | .wrongType => "TypeError"
  | .zeroDivision => "ZeroDivisionError"
  | .tooDeep => "RecursionError"
  | .noAttribute => "AttributeError"
  | .badValue => "ValueError"
  | .noItem => "IndexError"
  | .noKey => "KeyError"
  | .overflow => "OverflowError"
  | .badState => "TemplateRuntimeError"
  | .badFilterArgument => "FilterArgumentError"
  | .stopped => "StopIteration"
  | .unsafeCall => "SecurityError"
  | .notText => "UnicodeDecodeError"
  | .notEncodable => "UnicodeEncodeError"
  | .notListed => "LookupError"
  | .outOfRange => "AssertionError"
  | .outOfMemory => "MemoryError"

end Folio.Template
