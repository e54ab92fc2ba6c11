import DocTemplate.Json.Parser
import DocTemplate.Json.Printer

/-!
# Data stores

A data source is a JSON object such as

    { "title": "Invoice", "data": { "name": "Alice", "amount": "42.00" } }

Its `title` is a property of the document, and `data` gives the text of each
placeholder.  A source without usable `data` still loads, with a warning: it
is each lookup that finds nothing then.
-/

namespace DocTemplate

/-- What is wrong with a source that loads all the same. -/
inductive DataWarning
  | dataNotObject
  | dataMissing
  | titleNotString
deriving DecidableEq, Repr

def DataWarning.message : DataWarning → String
  | .dataNotObject => "Data section 'data' is not a JSON object"
  | .dataMissing => "Data source has no 'data' section"
  | .titleNotString => "Document 'title' is not a string"

/-- Why a source does not load. -/
inductive DataError
  | json (error : Json.Error)
  | notAnObject
deriving DecidableEq, Repr

def DataError.message : DataError → String
  | .json error => "Invalid JSON data: " ++ error.message
  | .notAnObject => "Data source must be a JSON object"

/-- What the lookup of a placeholder finds. -/
inductive Resolution
  | value (text : String)
  | missing
  | notText
  | noData
deriving DecidableEq, Repr

structure DataStore where
  title : Option String := none
  values : Option (Dictionary Json) := none
  warnings : List DataWarning := []

namespace DataStore

/-- The store without any data. -/
def empty : DataStore := {}

/-- The store of a list of ids and their texts, of which the last of an id
counts. -/
def ofPairs (pairs : List (String × String)) : DataStore :=
  { values := some (.ofList (pairs.map fun (id, text) => (id, .string text))) }

def withTitle (store : DataStore) (title : String) : DataStore :=
  { store with title := some title }

/-- The values of a `data` member, and what is wrong with it. -/
def loadValues : Option Json → Option (Dictionary Json) × List DataWarning
  | some (.object members) => (some (.ofList members), [])
  | some _ => (none, [.dataNotObject])
  | none => (none, [.dataMissing])

/-- The text of a `title` member, and what is wrong with it. -/
def loadTitle : Option Json → Option String × List DataWarning
  | some (.string title) => (some title, [])
  | some _ => (none, [.titleNotString])
  | none => (none, [])

/-- The store of a JSON value. -/
def ofJson : Json → Except DataError DataStore
  | .object members =>
      let (values, dataWarnings) := loadValues (Json.member? members "data")
      let (title, titleWarnings) := loadTitle (Json.member? members "title")
      .ok ⟨title, values, dataWarnings ++ titleWarnings⟩
  | _ => .error .notAnObject

/-- The store of a source. -/
def load (source : String) (intake : Json.Intake := .inMemory) :
    Except DataError DataStore :=
  match Json.parse source intake with
  | .error error => .error (.json error)
  | .ok value => ofJson value

/-- Looks up a placeholder. -/
def resolve (store : DataStore) (id : String) : Resolution :=
  match store.values with
  | none => .noData
  | some values =>
      match values.get? id with
      | some (.string text) => .value text
      | some _ => .notText
      | none => .missing

/-- A data source in which each placeholder has the empty text. -/
def skeleton (ids : List String) : Json :=
  let data := Dictionary.ofList (ids.map fun id => (id, Json.string ""))
  .ofDictionary <| .ofList
    [("title", .string ""), ("data", .ofDictionary data)]

end DataStore
end DocTemplate
