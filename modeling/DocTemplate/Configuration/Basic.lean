import DocTemplate.Compile.Template
import DocTemplate.Configuration.Setting
import DocTemplate.Decimal.Shortest
import DocTemplate.Html.Options

/-!
# Configurations

A configuration has three sections: `compile` names the root element, `html`
has the options that pages start from, and `blocks` says whether a block stream
is indented.  Values are read leniently: a number or a truth value stands for
its text, and a text such as `yes` for a truth value.  A section may also be a
list of its fields in their order.
-/

namespace DocTemplate

structure Configuration where
  rootElement : String := defaultRoot
  page : Html.PageOptions := {}
  pretty : Bool := false
deriving DecidableEq, Repr

namespace Configuration

open Toml (Value)

/-! ## Values -/

def text? : Value → Option String
  | .string text => some text
  | .moment text => some text
  | .boolean value => some (if value then "true" else "false")
  | .integer value => some (toString value)
  | .float value => some (value.text Decimal.double)
  | _ => none

/-- The truth value that a text stands for. -/
def truthOfText? (text : String) : Option Bool :=
  match Text.lower text with
  | "1" | "true" | "on" | "yes" => some true
  | "0" | "false" | "off" | "no" => some false
  | _ => none

/-- Whether a number differs from zero. -/
def isNonzero : Decimal.BinaryNumber → Bool
  | .finite _ significand _ => significand ≠ 0
  | _ => true

def truth? : Value → Option Bool
  | .boolean value => some value
  | .integer value => some (value ≠ 0)
  | .float value => some (isNonzero value)
  | .string text => truthOfText? text
  | _ => none

def texts? : Value → Option (List String)
  | .array items => items.mapM text?
  | _ => none

/-- The mode of a name, whatever its case. -/
def modeOfName? (name : String) : Option Html.PlaceholderMode :=
  match Text.lower name with
  | "text" => some .text
  | "input" => some .input
  | "combo" => some .combo
  | _ => none

/-- A mode is given by its name, or by a table whose only key it is. -/
def mode? : Value → Option Html.PlaceholderMode
  | .string name => modeOfName? name
  | .table [(name, _)] => modeOfName? name
  | _ => none

/-! ## Sections -/

/-- The field of a section with a name, or at a place if the section is a
list. -/
def field? (part : Value) (place : Nat) (name : String) : Option Value :=
  match part with
  | .table entries => entries.lookup name
  | .array items => items[place]?
  | _ => none

/-- A field that may be missing. -/
def optional {α : Type} (read? : Value → Option α) (default : α) :
    Option Value → Option α
  | some value => read? value
  | none => some default

def page? (html : Value) : Option Html.PageOptions := do
  let declaration ← (field? html 0 "declare").bind text?
  let encoding ← (field? html 1 "encoding").bind text?
  let styleSheets ← optional texts? [] (field? html 2 "css")
  let scripts ← optional texts? [] (field? html 3 "js")
  let extra ← optional text? "" (field? html 4 "extra")
  let placeholders ← (field? html 5 "placeholders").bind mode?
  return {
    declaration, encoding, styleSheets, scripts, placeholders
    title := none
    extra := Html.PageOptions.nonEmpty extra }

/-- The configuration that settings stand for. -/
def ofSettings? (settings : Settings) : Option Configuration := do
  let compile ← settings.lookup "compile"
  let html ← settings.lookup "html"
  let blocks ← settings.lookup "blocks"
  return {
    rootElement := ← (field? compile 0 "root_element").bind text?
    page := ← page? html
    pretty := ← (field? blocks 0 "pretty").bind truth? }

/-- The settings that stand for a configuration. -/
def settings (configuration : Configuration) : Settings :=
  let page := configuration.page
  let list (items : List String) : Value := .array (items.map .string)
  [("compile", .table [("root_element", .string configuration.rootElement)]),
    ("html", .table [
      ("declare", .string page.declaration),
      ("encoding", .string page.encoding),
      ("css", list page.styleSheets),
      ("js", list page.scripts),
      ("extra", .string (page.extra.getD "")),
      ("placeholders", .string page.placeholders.name)]),
    ("blocks", .table [("pretty", .boolean configuration.pretty)])]

theorem modeOfName?_name (mode : Html.PlaceholderMode) :
    modeOfName? mode.name = some mode := by
  cases mode <;> rfl

theorem texts?_strings (items : List String) :
    texts? (.array (items.map .string)) = some items := by
  induction items with
  | nil => rfl
  | cons item rest ih =>
      simp only [texts?] at ih ⊢
      simp [List.mapM_cons, text?, ih]

/-- Without a title, and with extra markup only if it is not empty, a
configuration is what its settings stand for. -/
theorem ofSettings?_settings (configuration : Configuration)
    (htitle : configuration.page.title = none)
    (hextra : configuration.page.extra ≠ some "") :
    ofSettings? configuration.settings = some configuration := by
  obtain ⟨rootElement, page, pretty⟩ := configuration
  obtain ⟨declaration, encoding, title, styleSheets, scripts, extra,
    placeholders⟩ := page
  simp only at htitle hextra
  subst htitle
  have hnonEmpty :
      Html.PageOptions.nonEmpty (extra.getD "") = extra := by
    cases extra with
    | none => rfl
    | some markup =>
        have hne : markup ≠ "" := fun heq => hextra (by rw [heq])
        simp [Html.PageOptions.nonEmpty, hne]
  simp [ofSettings?, settings, field?, page?, optional, text?, truth?, mode?,
    texts?_strings, modeOfName?_name, hnonEmpty, List.lookup_cons]

end Configuration
end DocTemplate
