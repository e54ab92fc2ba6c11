import DocTemplate.Compile.Error
import DocTemplate.Dictionary
import DocTemplate.Text.Blank

/-!
# Options of HTML pages

What stands around the body of a page, and how placeholders appear in it.
Options are overridden key by key: a key that is not given leaves its field as
it was.
-/

namespace DocTemplate

/-- Options of a backend by their keys. -/
abbrev BackendOptions := Dictionary String

namespace Html

/-- How placeholders appear. -/
inductive PlaceholderMode
  /-- As their text, like any other chunk. -/
  | text
  /-- As a field with the text in it. -/
  | input
  /-- As a field that cannot be changed, with a choice of whether the value
  is required. -/
  | combo
deriving DecidableEq, Repr

namespace PlaceholderMode

def name : PlaceholderMode → String
  | .text => "text"
  | .input => "input"
  | .combo => "combo"

/-- The mode of a name, whatever its case and the blanks around it. -/
def read (text : String) : Except OptionError PlaceholderMode :=
  match Text.lower (Text.trim text) with
  | "text" => .ok .text
  | "input" => .ok .input
  | "combo" => .ok .combo
  | found => .error (.unknownMode found)

end PlaceholderMode

structure PageOptions where
  /-- The document type declaration, before everything else. -/
  declaration : String := "<!DOCTYPE html>"
  encoding : String := "UTF-8"
  /-- The title of the page, if it is not that of the data source. -/
  title : Option String := none
  styleSheets : List String := []
  scripts : List String := []
  /-- Markup that is put at the end of the body as it is. -/
  extra : Option String := none
  placeholders : PlaceholderMode := .text
deriving DecidableEq, Repr

namespace PageOptions

/-- The option keys, apart from the one that every backend has. -/
def keys : List String :=
  ["declare", "encoding", "title", "css", "js", "extra", "placeholders"]

/-- The items of a comma separated list that are not blank. -/
def splitList (list : String) : List String :=
  (Text.fields ',' list).filter fun item => !item.isEmpty

/-- Extra markup counts only if there is any. -/
def nonEmpty (text : String) : Option String :=
  if text.isEmpty then none else some text

/-- The options with some of their fields overridden. -/
def override (base : PageOptions) (options : BackendOptions) :
    Except OptionError PageOptions := do
  let placeholders ←
    match options.get? "placeholders" with
    | none => .ok base.placeholders
    | some mode => PlaceholderMode.read mode
  return {
    declaration := (options.get? "declare").getD base.declaration
    encoding := (options.get? "encoding").getD base.encoding
    title := (options.get? "title").or base.title
    styleSheets := ((options.get? "css").map splitList).getD base.styleSheets
    scripts := ((options.get? "js").map splitList).getD base.scripts
    extra := ((options.get? "extra").map nonEmpty).getD base.extra
    placeholders }

end PageOptions
end Html
end DocTemplate
