import DocTemplate.Compile.Template
import DocTemplate.Html.Options

/-!
# Backends

A backend turns a template and its data into a finished output.  It has a
name, the file extensions that its outputs usually have, and options of its
own; one option, the name of the root element, is common to all.  A key that a
backend does not know is refused.
-/

namespace DocTemplate

/-- The option for the name of the root element. -/
def rootKey : String := "root"

/-- What a backend makes of a template. -/
structure Rendered where
  output : String
  diagnostics : List Diagnostic
deriving DecidableEq, Repr

structure Backend where
  name : String
  description : String := ""
  extensions : List String := []
  render : String → DataStore → BackendOptions →
    Except CompileError Rendered

namespace BackendOptions

/-- The keys that a backend does not accept, in ascending order. -/
def unknownKeys (options : BackendOptions) (accepted : List String) :
    List String :=
  options.keys.filter fun key => key != rootKey && !accepted.contains key

/-- Refuses keys that a backend does not accept. -/
def checkKeys (options : BackendOptions) (backend : String)
    (accepted : List String) : Except OptionError Unit :=
  match unknownKeys options accepted with
  | [] => .ok ()
  | unknown => .error (.notAccepted backend unknown)

/-- The name of the root element; a blank one does not count. -/
def root (options : BackendOptions) : String :=
  match (options.get? rootKey).map Text.trim with
  | some root => if root.isEmpty then defaultRoot else root
  | none => defaultRoot

/-- The truth value of an option.  A key without a value stands for true. -/
def bool? (options : BackendOptions) (key : String) :
    Except OptionError (Option Bool) :=
  match options.get? key with
  | none => .ok none
  | some text =>
      match Text.lower (Text.trim text) with
      | "" | "true" | "yes" | "1" => .ok (some true)
      | "false" | "no" | "0" => .ok (some false)
      | found => .error (.notBoolean key found)

end BackendOptions
end DocTemplate
