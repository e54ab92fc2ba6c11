import DocTemplate.Markup.Error
import DocTemplate.Renderer.Call

/-!
# Why a template does not compile

Problems that leave a document usable are diagnostics.  Everything here ends a
compilation: markup that does not read, elements that are not where they
belong, a renderer that gives up, a backend that does not exist or an option
that it does not take.
-/

namespace DocTemplate

/-- Why an option of a backend is refused. -/
inductive OptionError
  | notAccepted (backend : String) (keys : List String)
  | notBoolean (key found : String)
  | unknownMode (found : String)
deriving DecidableEq, Repr

def OptionError.message : OptionError → String
  | .notAccepted backend keys =>
      s!"Backend '{backend}' does not accept " ++ ", ".intercalate keys
  | .notBoolean key found =>
      s!"Option '{key}' expects a boolean, got '{found}'"
  | .unknownMode found =>
      s!"Unknown placeholder mode '{found}'. "
        ++ "Expected one of: text, input, combo"

inductive CompileError
  | markup (error : Markup.MarkupError)
  | notOpened (element root : String)
  | duplicateRoot (root : String)
  | afterClose (element : String)
  | notTableChild (element : String)
  | cellOutsideTable
  | missingRoot (root : String)
  | unexpectedEnd (root : String)
  | openFailed (error : RenderError)
  | render (error : RenderError)
  | backendNotFound (name : String)
  | invalidOption (error : OptionError)
deriving DecidableEq, Repr

def CompileError.message : CompileError → String
  | .markup error => error.message
  | .notOpened element root =>
      s!"Document is not open yet: <{element}> appeared before <{root}>"
  | .duplicateRoot root =>
      s!"Document is already open: <{root}> appeared twice"
  | .afterClose element =>
      s!"<{element}> appeared after the document was closed"
  | .notTableChild element =>
      s!"<{element}> is not allowed inside a table, only <cell> is"
  | .cellOutsideTable => "<cell> must be a child of <table>"
  | .missingRoot root => s!"Template has no <{root}> root element"
  | .unexpectedEnd root => s!"Template ended before </{root}>"
  | .openFailed error => "Failed to open document: " ++ error.message
  | .render error => "Render error: " ++ error.message
  | .backendNotFound name => s!"Backend '{name}' not found"
  | .invalidOption error => "Invalid backend option: " ++ error.message

end DocTemplate
