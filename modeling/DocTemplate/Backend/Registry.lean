import DocTemplate.Backend.Blocks
import DocTemplate.Backend.Html

/-!
# Choosing a backend

A registry knows backends by their names.  Registering a second one under a
name replaces the first.  A backend can also be detected from the extension of
the file that its output goes to.
-/

namespace DocTemplate

/-! ## File extensions -/

/-- The last part of a path that names something: trailing separators and
parts that stand for the directory itself do not count. -/
def lastComponent? (path : List Char) : Option (List Char) :=
  let components := (Text.pieces '/' path).filter fun component =>
    component != [] && component != ['.']
  match components.getLast? with
  | some ['.', '.'] => none
  | last? => last?

/-- What stands behind the last dot of a file name.  A dot at the start of a
name does not begin an extension. -/
def extensionOfName? (name : List Char) : Option (List Char) :=
  let reversed := name.reverse
  let extension := (reversed.takeWhile (· != '.')).reverse
  match reversed.dropWhile (· != '.') with
  | _ :: _ :: _ => some extension
  | _ => none

/-- The extension of the file that a path names. -/
def extension? (path : String) : Option String :=
  ((lastComponent? path.toList).bind extensionOfName?).map String.ofList

/-! ## Registries -/

structure Registry where
  backends : Dictionary Backend := .empty

namespace Registry

def empty : Registry := {}

/-- Adds a backend under its own name. -/
def register (registry : Registry) (backend : Backend) : Registry :=
  ⟨registry.backends.insert backend.name backend⟩

def get (registry : Registry) (name : String) :
    Except CompileError Backend :=
  match registry.backends.get? name with
  | some backend => .ok backend
  | none => .error (.backendNotFound name)

def has (registry : Registry) (name : String) : Bool :=
  registry.backends.contains name

/-- The names of all backends, in ascending order. -/
def names (registry : Registry) : List String := registry.backends.keys

/-- The first backend, in the order of names, that has the extension of a
file name. -/
def detect? (registry : Registry) (fileName : String) : Option Backend :=
  (extension? fileName).bind fun extension =>
    (registry.backends.entries.map Prod.snd).find? fun backend =>
      backend.extensions.contains extension

/-- Renders a template with the backend of a name. -/
def render (registry : Registry) (template : String) (store : DataStore)
    (name : String) (options : BackendOptions) :
    Except CompileError Rendered := do
  let backend ← registry.get name
  backend.render template store options

/-- The registry of the backends for HTML and for block streams. -/
def standard (page : Html.PageOptions := {}) (pretty : Bool := false) :
    Registry :=
  (empty.register (htmlBackend page)).register (blocksBackend pretty)

end Registry
end DocTemplate
