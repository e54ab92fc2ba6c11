import DocTemplate.Dictionary
import DocTemplate.Text.Blank

/-!
# Files in a folder

A command reads and writes files by their paths, in whatever way its
surroundings offer that.  One such way is a folder in memory: it has files
under paths such as `forms/letter.xml`, and the folders on the way to its
files.  Paths can lead out of it into the machine that it is on, of which
nothing is known but what every machine has.
-/

namespace DocTemplate
namespace CommandLine

/-- Why a file cannot be read or written. -/
inductive FileProblem
  | missing
  | isFolder
  | notFolder
  | nameTooLong
  | other (text : String)
deriving DecidableEq, Repr

def FileProblem.message : FileProblem → String
  | .missing => "No such file or directory (os error 2)"
  | .isFolder => "Is a directory (os error 21)"
  | .notFolder => "Not a directory (os error 20)"
  | .nameTooLong => "File name too long (os error 36)"
  | .other text => text

/-- How files are read and written, and whether there is a file at all that
keeps what is in it. -/
structure FileAccess (m : Type → Type) where
  isFile : String → m Bool
  read : String → m (Except FileProblem String)
  write : String → String → m (Except FileProblem Unit)

/-! ## Folders in memory -/

structure Folder where
  files : Dictionary String := .empty
deriving DecidableEq, Repr

namespace Folder

/-- The parts of a path between its separators. -/
def parts (path : String) : List String :=
  (Text.pieces '/' path.toList).map String.ofList

/-- The path through parts. -/
def join (parts : List String) : String := "/".intercalate parts

/-- What a place is counted from. -/
inductive Base
  /-- The folder itself. -/
  | folder
  /-- Any of the folders around it. -/
  | surroundings
  /-- The outermost folder of the machine. -/
  | root
deriving DecidableEq, Repr

structure Place where
  base : Base
  names : List String
deriving DecidableEq, Repr

/-- The folder around a place.  The outermost one is around itself. -/
def Place.outer : Place → Place
  | ⟨.folder, []⟩ => ⟨.surroundings, []⟩
  | ⟨base, names⟩ => ⟨base, names.dropLast⟩

/-- The place of a name in a place. -/
def Place.child (place : Place) (name : String) : Place :=
  { place with names := place.names ++ [name] }

/-- The folders that stand in the outermost one. -/
def standardFolders : List String :=
  ["bin", "boot", "dev", "etc", "home", "lib", "media", "mnt", "opt", "proc",
    "root", "run", "sbin", "srv", "sys", "tmp", "usr", "var"]

/-- Whether names lead to the folder itself or on the way to one of its
files. -/
def leadsOn (folder : Folder) (names : List String) : Bool :=
  names = [] ||
    folder.files.keys.any fun path =>
      let parts := parts path
      names.isPrefixOf parts && parts.length ≠ names.length

def isFolder (folder : Folder) : Place → Bool
  | ⟨.folder, names⟩ => folder.leadsOn names
  | ⟨.surroundings, names⟩ => names = []
  | ⟨.root, []⟩ => true
  | ⟨.root, [name]⟩ => standardFolders.contains name
  | ⟨.root, _⟩ => false

/-- The contents of a place that is no folder.  The null device is empty. -/
def contents? (folder : Folder) : Place → Option String
  | ⟨.folder, names⟩ => folder.files.get? (join names)
  | ⟨.root, ["dev", "null"]⟩ => some ""
  | _ => none

/-! ## Paths -/

/-- How many bytes a name may have. -/
def maxNameSize : Nat := 255

/-- How many bytes a path may have. -/
def maxPathSize : Nat := 4095

/-- Goes along one part of a path, which has to start in a folder. -/
def step (folder : Folder) (place : Place) (part : String) :
    Except FileProblem Place :=
  if folder.isFolder place then
    if part = "" ∨ part = "." then .ok place
    else if part = ".." then .ok place.outer
    else if maxNameSize < part.utf8ByteSize then .error .nameTooLong
    else .ok (place.child part)
  else if (folder.contents? place).isSome then
    .error .notFolder
  else
    .error .missing

/-- Goes along the parts of a path. -/
def walk (folder : Folder) (place : Place) (parts : List String) :
    Except FileProblem Place :=
  parts.foldlM folder.step place

/-- The place that a path starts from. -/
def start (path : String) : Place :=
  match path.toList with
  | '/' :: _ => ⟨.root, []⟩
  | _ => ⟨.folder, []⟩

/-- The place that parts of a path lead to. -/
def locateParts (folder : Folder) (path : String) (parts : List String) :
    Except FileProblem Place :=
  if maxPathSize < path.utf8ByteSize then .error .nameTooLong
  else if path = "" then .error .missing
  else folder.walk (start path) parts

/-- The place of a path. -/
def locate (folder : Folder) (path : String) : Except FileProblem Place :=
  folder.locateParts path (parts path)

/-! ## Files -/

def isFile (folder : Folder) (path : String) : Bool :=
  match folder.locate path with
  | .ok ⟨.folder, names⟩ => folder.files.contains (join names)
  | _ => false

def read (folder : Folder) (path : String) : Except FileProblem String := do
  let place ← folder.locate path
  if folder.isFolder place then
    .error .isFolder
  else
    match folder.contents? place with
    | some contents => .ok contents
    | none => .error .missing

/-- The folder with contents put at a place.  What is put outside leaves no
trace in it. -/
def put (folder : Folder) (contents : String) : Place → Folder
  | ⟨.folder, names⟩ => ⟨folder.files.insert (join names) contents⟩
  | _ => folder

/-- The folder with a file written.  A path that ends in a separator names a
folder, and only the way up to its last name counts then. -/
def write (folder : Folder) (path contents : String) :
    Except FileProblem Folder := do
  if path.toList.getLast? = some '/' then
    let names := Text.dropTrailing (· = "") (parts path)
    let _ ← folder.locateParts path (names.dropLast ++ ["."])
    .error .isFolder
  else
    let place ← folder.locate path
    if folder.isFolder place then .error .isFolder
    else .ok (folder.put contents place)

/-- Reading and writing in a folder in memory. -/
def access : FileAccess (StateM Folder) where
  isFile path := do
    return (← get).isFile path
  read path := do
    return (← get).read path
  write path contents := do
    match (← get).write path contents with
    | .ok folder =>
        set folder
        return .ok ()
    | .error problem => return .error problem

end Folder
end CommandLine
end DocTemplate
