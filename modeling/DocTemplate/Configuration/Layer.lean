import DocTemplate.Configuration.Basic
import DocTemplate.Toml.Reader

/-!
# Layers of a configuration

A configuration starts from the defaults.  Files are laid over them in their
order, and single settings over all files.  A file that is not there counts as
an error only if it is required; one that is there has to be well formed.
-/

namespace DocTemplate
namespace Configuration

open Toml (Value)

inductive Layer
  | file (contents : Option String) (required : Bool)
  | setting (key : String) (value : Value)

/-- Why there is no configuration. -/
inductive ConfigurationError
  | missingFile
  | malformedFile
  | malformedKey (key : String)
  | unusable
deriving DecidableEq, Repr

def ConfigurationError.message : ConfigurationError → String
  | .missingFile => "a required file is missing"
  | .malformedFile => "a file is not well-formed TOML"
  | .malformedKey key => "'" ++ key ++ "' is not a key"
  | .unusable => "a value is missing or of the wrong type"

/-- Puts the entry of a file into place.  A key that is no path counts as it
is. -/
def putEntry (settings : Settings) (entry : String × Value) : Settings :=
  match Path.read? entry.1 with
  | some path => putAt path entry.2 settings
  | none => merge entry.1 entry.2 settings

/-- Lays a file over settings. -/
def applyFile (settings : Settings) : Layer → Except ConfigurationError Settings
  | .file (some contents) _ =>
      match Toml.read? contents with
      | some entries => .ok (entries.foldl putEntry settings)
      | none => .error .malformedFile
  | .file none true => .error .missingFile
  | .file none false => .ok settings
  | .setting _ _ => .ok settings

/-- Lays a single setting over settings. -/
def applySetting (settings : Settings) :
    Layer → Except ConfigurationError Settings
  | .setting key value =>
      match Path.read? key with
      | some path => .ok (putAt path value settings)
      | none => .error (.malformedKey key)
  | .file _ _ => .ok settings

/-- The configuration of layers. -/
def load (layers : List Layer) : Except ConfigurationError Configuration := do
  let settings := ({} : Configuration).settings
  let settings ← layers.foldlM applyFile settings
  let settings ← layers.foldlM applySetting settings
  match ofSettings? settings with
  | some configuration => .ok configuration
  | none => .error .unusable

/-- Without any file the configuration is the default one. -/
theorem load_absent : load [.file none false] = .ok {} := by
  have hdefault : ofSettings? ({} : Configuration).settings = some {} :=
    ofSettings?_settings {} rfl nofun
  simp only [load, List.foldlM_cons, List.foldlM_nil, applyFile, applySetting,
    bind, Except.bind, pure, Except.pure, hdefault]

end Configuration
end DocTemplate
