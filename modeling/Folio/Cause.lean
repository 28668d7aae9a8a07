import Folio.Source.Relationship
import Folio.Data.Json
import Folio.Data.Yaml.Load
import Folio.FileTree
import Folio.Markup.Token
import Folio.Template.Fault

/-!
# Causes of failures

What can go wrong below the level of a whole build: files, texts, data, markup,
templates.  A report names a cause by its class in angle brackets.
-/

namespace Folio

/-- What a failure goes back to. -/
inductive Cause
  | file (fault : FileFault)
  | unusablePath
  | namelessPath
  | notText
  | json (fault : Data.Json.Fault)
  | yaml (fault : Data.Yaml.Fault)
  | markup (error : Markup.MarkupError)
  | unknownRelation (key : List Char)
  | template (fault : Template.Fault)
  deriving Repr, DecidableEq

namespace Cause

/-- The class of a cause. -/
def kind : Cause → String
  | .file .nullCharacter => "ValueError"
  | .file _ => "OSError"
  | .unusablePath => "ValueError"
  | .namelessPath => "ValueError"
  | .notText => "UnicodeDecodeError"
  | .json .malformed => "JSONDecodeError"
  | .json .tooManyDigits => "ValueError"
  | .yaml .malformed => "YAMLError"
  | .yaml .badValue => "ValueError"
  | .yaml .tooLarge => "OverflowError"
  | .yaml .noKey => "KeyError"
  | .yaml .noIndex => "IndexError"
  | .yaml .noMatch => "AttributeError"
  | .markup _ => "AssertionError"
  | .unknownRelation _ => "KeyError"
  | .template fault => fault.kind

/-- How a report shows a cause. -/
def label (c : Cause) : String :=
  "<" ++ c.kind ++ ">"

instance : ToString Cause := ⟨Cause.label⟩

/-- Whether the cause is a failure of the file system, a path that no file can
have aside. -/
def isFileFault : Cause → Bool
  | .file .nullCharacter => false
  | .file _ => true
  | _ => false

/-- Whether a text could not be read from a file: the file system failed, or the
bytes are no text. -/
def isReadFault (c : Cause) : Bool :=
  c.isFileFault || c == .notText

/-- The cause that a path with a null character gives. -/
def ofUnusable (_ : Path.Unusable) : Cause :=
  .unusablePath

end Cause

end Folio
