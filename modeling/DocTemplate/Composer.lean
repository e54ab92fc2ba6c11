import DocTemplate.Block
import DocTemplate.Text.Collapse

/-!
# Composing the chunks of a block

Every open element owns an entry, a chunk that starts with the attributes of
the entry around it and lays its own over them.  Text belongs to no element at
first: it waits until an element opens or closes, and then becomes the
contents of the entry that is innermost at that moment.  The chunks flushed in
this way are the chunks of the block.
-/

namespace DocTemplate

structure Composer where
  /-- The entries of the open elements, the innermost first. -/
  entries : List Chunk := []
  /-- The text that waits. -/
  pending : String := ""
  /-- The chunks of the block so far. -/
  chunks : List Chunk := []
deriving DecidableEq, Repr

namespace Composer

def depth (composer : Composer) : Nat := composer.entries.length

def top? (composer : Composer) : Option Chunk := composer.entries.head?

/-- Adds character data of the template. -/
def addTemplateText (composer : Composer) (text : String) : Composer :=
  { composer with pending := composer.pending ++ Text.collapse text }

/-- Adds text that is taken as it is. -/
def addLiteral (composer : Composer) (text : String) : Composer :=
  { composer with pending := composer.pending ++ text }

def clearPending (composer : Composer) : Composer :=
  { composer with pending := "" }

/-- Adds a chunk to the block. -/
def push (composer : Composer) (chunk : Chunk) : Composer :=
  { composer with chunks := composer.chunks ++ [chunk] }

/-- Starts a block afresh. -/
def restart (composer : Composer) : Composer :=
  { composer with chunks := [] }

/-- Changes the innermost entry. -/
def modifyTop (composer : Composer) (change : Chunk → Chunk) : Composer :=
  { composer with entries := composer.entries.modifyHead change }

/-- Gives the waiting text to a chunk, which becomes part of the block. -/
def flushInto (composer : Composer) (chunk : Chunk) : Composer × Chunk :=
  let filled := { chunk with contents := composer.pending }
  ((composer.push filled).clearPending, filled)

/-- The entry of an element inside another entry. -/
def entryWithin (outer : Attributes) (own : OwnAttributes) : Chunk :=
  { attributes := outer.insertAll own }

/-- Opens an element.  Waiting text goes to the element around it first. -/
def enter (composer : Composer) (own : OwnAttributes) : Composer :=
  match composer.entries with
  | [] => { composer with entries := [entryWithin .empty own] }
  | parent :: outer =>
      let entry := entryWithin parent.attributes own
      if composer.pending.isEmpty then
        { composer with entries := entry :: parent :: outer }
      else
        let (flushed, parent) := composer.flushInto parent
        { flushed with entries := entry :: parent :: outer }

/-- Closes the innermost element and gives its entry.  With `force` the entry
becomes part of the block even if no text waits. -/
def leave (composer : Composer) (force : Bool) : Composer × Option Chunk :=
  match composer.entries with
  | [] => (composer, none)
  | entry :: outer =>
      if force || !composer.pending.isEmpty then
        let (flushed, entry) := composer.flushInto entry
        ({ flushed with entries := outer }, some entry)
      else
        ({ composer with entries := outer }, some entry)

/-- Closes the innermost element without a trace. -/
def discard (composer : Composer) : Composer × Option Chunk :=
  match composer.entries with
  | [] => (composer, none)
  | entry :: outer => ({ composer with entries := outer }, some entry)

/-- What fills a paragraph without text, in the style of a given chunk. -/
def filler (carrier : Option Chunk) : Chunk :=
  { carrier.getD {} with contents := " " }

/-- The chunks of a finished block.  An empty paragraph still takes up a line;
a heading without text does not. -/
def finishedChunks (kind : BlockKind) (carrier : Option Chunk)
    (chunks : List Chunk) : List Chunk :=
  if chunks.isEmpty && kind == .paragraph then [filler carrier] else chunks

/-- Ends the block, if there is anything in it. -/
def finish (composer : Composer) (kind : BlockKind)
    (carrier : Option Chunk) : Composer × Option Block :=
  let chunks := finishedChunks kind carrier composer.chunks
  (composer.restart, if chunks.isEmpty then none else some ⟨kind, chunks⟩)

end Composer
end DocTemplate
