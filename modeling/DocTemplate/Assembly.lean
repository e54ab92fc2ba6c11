import DocTemplate.Composer
import DocTemplate.Diagnostic
import DocTemplate.Element

/-!
# Assembling the contents of an open document

While the document is open, its elements fill blocks and tables.  An assembly
holds the block and the table in the making.  What an element asks for beyond
that, calls of the renderer and reports of problems, is a list of requests in
the order in which they are to be met.  None of it depends on the renderer.
-/

namespace DocTemplate

/-- What an element asks for. -/
inductive Request
  | call (call : RenderCall)
  | report (problem : Problem)
deriving DecidableEq, Repr

/-! ## What the attributes of an element ask for -/

/-- The new page of a `page` element, behind its size and its margins. -/
def pageRequests (own : OwnAttributes) : List Request :=
  let size :=
    match own.lookup "size" with
    | none => []
    | some name =>
        match PageSize.ofName? name with
        | some size => [.call (.setPageSize size)]
        | none => [.report (.unknownPageSize name)]
  let margins :=
    match own.lookup "margin" with
    | none => []
    | some text =>
        match PageMargins.read text with
        | .ok margins => [.call (.setPageMargins margins)]
        | .error error => [.report (.margins error)]
  size ++ margins ++ [.call .newPage]

/-- A field of a rule: its value, or none with a report. -/
def ruleField (own : OwnAttributes) (field : String) (default : Nat) :
    Nat × List Request :=
  match own.lookup field with
  | none => (default, [])
  | some text =>
      match Text.natural? Text.maxCount (Text.trim text) with
      | some value => (value, [])
      | none => (default, [.report (.malformedRule field text)])

def ruleRequests (own : OwnAttributes) : List Request :=
  let usual : HorizontalRule := {}
  let (width, widthReports) := ruleField own "width" usual.width
  let (percent, percentReports) := ruleField own "percent" usual.percent
  widthReports ++ percentReports ++ [.call (.horizontalRule ⟨width, percent⟩)]

def imageRequests (own : OwnAttributes) : List Request :=
  match own.lookup "src" with
  | some source => [.call (.image ⟨source⟩)]
  | none => [.report .imageWithoutSource]

/-- Reports on the attributes of a table, which is laid out as if the
malformed ones were not there. -/
def tableReports (own : OwnAttributes) : List Request :=
  let columns :=
    match own.lookup "columns" with
    | none => []
    | some columns =>
        match readColumns columns with
        | .ok _ => []
        | .error error => [.report (.columns error)]
  let width :=
    match own.lookup "width" with
    | none => []
    | some width =>
        match readWidth? width with
        | some _ => []
        | none => [.report (.malformedWidth width)]
  columns ++ width

/-- The text of a placeholder, or the problem with it. -/
def valueText (store : DataStore) (own : OwnAttributes) :
    Except Problem String :=
  match own.lookup "id" with
  | none => .error .valueWithoutId
  | some id =>
      match store.resolve id with
      | .value text => .ok text
      | .missing => .error (.unknownId id)
      | .notText => .error (.idNotText id)
      | .noData => .error (.noData id)

/-- The blanks of a space element, or the problem with it. -/
def spaceText (own : OwnAttributes) : Except Problem String :=
  match own.lookup "size" with
  | none => .error .spaceWithoutSize
  | some size =>
      match Text.natural? Text.maxLength (Text.trim size) with
      | none => .error (.malformedSpace size)
      | some count =>
          if count ≤ maxSpace then
            .ok (String.ofList (List.replicate count ' '))
          else
            .error (.spaceTooLarge size)

/-- The font style of a placeholder that does not say another one. -/
def valueEmphasis : String := "bold,underline"

/-! ## The block and the table in the making -/

structure Assembly where
  composer : Composer := {}
  table : Option Table := none
deriving DecidableEq, Repr

/-- Why an element cannot stand where it does. -/
inductive Misplacement
  | notTableChild
  | cellOutsideTable
deriving DecidableEq, Repr

namespace Assembly

def withComposer (assembly : Assembly) (composer : Composer) : Assembly :=
  { assembly with composer }

def addText (assembly : Assembly) (text : String) : Assembly :=
  assembly.withComposer (assembly.composer.addTemplateText text)

/-- Opens a placeholder, which is emphasised once it has its text. -/
def openValue (store : DataStore) (composer : Composer)
    (own : OwnAttributes) : Composer × List Request :=
  let opened := (composer.enter own).modifyTop fun entry =>
    { entry with isPlaceholder := true }
  match valueText store own with
  | .error problem => (opened, [.report problem])
  | .ok text =>
      let filled := opened.addLiteral text
      if (own.lookup "font-style").isNone then
        (filled.modifyTop (·.setAttribute "font-style" valueEmphasis), [])
      else
        (filled, [])

def openSpace (composer : Composer) (own : OwnAttributes) :
    Composer × List Request :=
  let opened := composer.enter own
  match spaceText own with
  | .error problem => (opened, [.report problem])
  | .ok text => (opened.addLiteral text, [])

/-- Starts an element outside all tables. -/
def startOutside (store : DataStore) (composer : Composer)
    (element : Element) (own : OwnAttributes) :
    Except Misplacement (Assembly × List Request) :=
  match element with
  | .cell => .error .cellOutsideTable
  | .table =>
      .ok (⟨composer, some { attributes := .ofList own }⟩, tableReports own)
  | .page => .ok (⟨composer, none⟩, pageRequests own)
  | .rule => .ok (⟨composer, none⟩, ruleRequests own)
  | .image => .ok (⟨composer, none⟩, imageRequests own)
  | .block .pageBreak => .ok (⟨composer, none⟩, [])
  | .value =>
      let (opened, requests) := openValue store composer own
      .ok (⟨opened, none⟩, requests)
  | .space =>
      let (opened, requests) := openSpace composer own
      .ok (⟨opened, none⟩, requests)
  | .block _ | .lineBreak | .generic =>
      .ok (⟨composer.enter own, none⟩, [])

/-- Starts an element.  Even one that cannot stand where it does cuts off the
text before it, if it is of that kind. -/
def start (store : DataStore) (assembly : Assembly) (element : Element)
    (own : OwnAttributes) :
    Assembly × Except Misplacement (List Request) :=
  let composer :=
    if element.startsAfresh then
      assembly.composer.restart
    else
      assembly.composer
  match assembly.table with
  | some table =>
      if element = .cell then
        (⟨composer.clearPending, some (table.openCell own)⟩, .ok [])
      else
        (⟨composer, some table⟩, .error .notTableChild)
  | none =>
      match startOutside store composer element own with
      | .ok (started, requests) => (started, .ok requests)
      | .error misplacement => (⟨composer, none⟩, .error misplacement)

/-- Ends an element that has an entry.  A block is written once it ends. -/
def stopEntry (composer : Composer) (element : Element) :
    Composer × List Request :=
  match composer.leave element.leavesChunk, element with
  | (left, some carrier), .block kind =>
      let (finished, block?) := left.finish kind (some carrier)
      (finished, (block?.map fun block => Request.call (.block block)).toList)
  | (left, _), _ => (left, [])

/-- Ends an element.  A table without cells is dropped. -/
def stop (assembly : Assembly) (element : Element) :
    Assembly × List Request :=
  match element with
  | .block .pageBreak => (assembly, [.call .newPage])
  | .page | .rule | .image => (assembly, [])
  | .lineBreak =>
      let (composer, _) := (assembly.composer.addLiteral "\n").discard
      (assembly.withComposer composer, [])
  | .cell =>
      match assembly.table with
      | none => (assembly, [])
      | some table =>
          (⟨assembly.composer.clearPending,
              some (table.closeCell assembly.composer.pending)⟩, [])
  | .table =>
      let written := (assembly.table.bind Table.finished?).map fun table =>
        Request.call (.table table)
      (⟨assembly.composer.clearPending, none⟩, written.toList)
  | element =>
      let (composer, requests) := stopEntry assembly.composer element
      (assembly.withComposer composer, requests)

end Assembly
end DocTemplate
