import DocTemplate.Proofs.JsonReading
import DocTemplate.Proofs.Lookups
import DocTemplate.Renderer.Transcript

/-!
# Reading transcripts

A transcript tells everything about the calls it is of.  Each part of a call
has a reader that looks up the fields by their names, and reading what is
written gives the part back, as long as its numbers are in the ranges that
lengths and margins have.
-/

namespace DocTemplate

/-! ## Numbers in range -/

def PageSize.InRange (size : PageSize) : Prop :=
  size.width ≤ Text.maxCount ∧ size.height ≤ Text.maxCount

def IsMargin (value : Int) : Prop :=
  -2 ^ 31 ≤ value ∧ value < 2 ^ 31

def PageMargins.InRange (margins : PageMargins) : Prop :=
  IsMargin margins.left ∧ IsMargin margins.right ∧ IsMargin margins.top ∧
    IsMargin margins.bottom

def HorizontalRule.InRange (rule : HorizontalRule) : Prop :=
  rule.width ≤ Text.maxCount ∧ rule.percent ≤ Text.maxCount

/-- Whether the numbers of a call are in the ranges of their types. -/
def RenderCall.InRange : RenderCall → Prop
  | .setPageSize size => size.InRange
  | .setPageMargins margins => margins.InRange
  | .horizontalRule rule => rule.InRange
  | .openDocument | .closeDocument | .newPage | .image _ | .block _
  | .table _ => True

/-! ## Readers -/

namespace Json

/-- The field of an object. -/
def field? (name : String) : Json → Option Json
  | .object members => member? members name
  | _ => none

@[simp] theorem field?_object (name : String)
    (members : List (String × Json)) :
    field? name (.object members) = members.reverse.lookup name := rfl

def string? : Json → Option String
  | .string value => some value
  | _ => none

@[simp] theorem string?_string (value : String) :
    (string value).string? = some value := rfl

def natural? : Json → Option Nat
  | .number literal => Text.natural? Text.maxCount literal
  | _ => none

def integer? : Json → Option Int
  | .number literal => Text.integer? literal
  | _ => none

def list? {α : Type} (read? : Json → Option α) : Json → Option (List α)
  | .array items => items.mapM read?
  | _ => none

end Json

/-- An attribute, from its member. -/
def Attributes.attribute? (member : String × Json) :
    Option (String × String) :=
  member.2.string?.map (member.1, ·)

def Attributes.ofJson? : Json → Option Attributes
  | .object members =>
      (members.mapM attribute?).map .ofList
  | _ => none

def Chunk.ofJson? (value : Json) : Option Chunk := do
  let contents ← value.field? "contents" >>= Json.string?
  let attributes ← value.field? "attributes" >>= Attributes.ofJson?
  match value.field? "is_placeholder" with
  | none => return { contents, attributes }
  | some (.bool isPlaceholder) => return { contents, attributes, isPlaceholder }
  | some _ => none

def Block.ofJson? (value : Json) : Option Block := do
  let kind ← value.field? "kind" >>= Json.string?
  let chunks ← value.field? "chunks" >>= Json.list? Chunk.ofJson?
  return ⟨← BlockKind.ofName? kind, chunks⟩

def Table.ofJson? (value : Json) : Option Table := do
  let attributes ← value.field? "attributes" >>= Attributes.ofJson?
  let cells ← value.field? "cells" >>= Json.list? Chunk.ofJson?
  return { attributes, cells }

def PageSize.ofJson? (value : Json) : Option PageSize := do
  let name ← value.field? "name" >>= Json.string?
  let width ← value.field? "width" >>= Json.natural?
  let height ← value.field? "height" >>= Json.natural?
  return { name, width, height }

def PageMargins.ofJson? (value : Json) : Option PageMargins := do
  let left ← value.field? "left" >>= Json.integer?
  let right ← value.field? "right" >>= Json.integer?
  let top ← value.field? "top" >>= Json.integer?
  let bottom ← value.field? "bottom" >>= Json.integer?
  return { left, right, top, bottom }

def HorizontalRule.ofJson? (value : Json) : Option HorizontalRule := do
  let width ← value.field? "width" >>= Json.natural?
  let percent ← value.field? "percent" >>= Json.natural?
  return { width, percent }

def Image.ofJson? (value : Json) : Option Image := do
  let source ← value.field? "source" >>= Json.string?
  return { source }

namespace RenderCall

/-- The call of a name, with what the object of the call holds. -/
def ofName? (name : String) (value : Json) : Option RenderCall :=
  if name = "open" then some .openDocument
  else if name = "close" then some .closeDocument
  else if name = "new_page" then some .newPage
  else if name = "set_page_size" then
    (value.field? "size" >>= PageSize.ofJson?).map .setPageSize
  else if name = "set_page_margins" then
    (value.field? "margins" >>= PageMargins.ofJson?).map .setPageMargins
  else if name = "horizontal_rule" then
    (value.field? "rule" >>= HorizontalRule.ofJson?).map .horizontalRule
  else if name = "image" then
    (value.field? "image" >>= Image.ofJson?).map .image
  else if name = "block" then
    (value.field? "block" >>= Block.ofJson?).map .block
  else if name = "table" then
    (value.field? "table" >>= Table.ofJson?).map .table
  else none

def ofJson? (value : Json) : Option RenderCall := do
  let name ← value.field? "call" >>= Json.string?
  ofName? name value

/-- The calls that a transcript is of. -/
def ofTranscript? (transcript : String) : Option (List RenderCall) :=
  match Json.parse transcript .inMemory with
  | .ok value => value.list? ofJson?
  | .error _ => none

end RenderCall

/-! ## Reading what is written -/

namespace Json

theorem digits?_toDigits (value : Nat) :
    Text.digits? (Nat.toDigits 10 value) = some value := by
  have hall : (Nat.toDigits 10 value).all Char.isDigit = true := by
    rw [List.all_eq_true]
    intro c hmem
    exact isDigit_of_mem_toDigits hmem
  have hsome : (Nat.toDigits 10 value).isEmpty = false := by
    rw [List.isEmpty_eq_false_iff]
    exact Nat.toDigits_ne_nil
  have hvalue : Text.digitsValue (Nat.toDigits 10 value) = value :=
    Nat.ofDigitChars_toDigits (by decide) (by decide)
  simp [Text.digits?, hall, hsome, hvalue]

theorem natural?_toString {bound value : Nat} (h : value ≤ bound) :
    Text.natural? bound (toString value) = some value := by
  obtain ⟨first, rest, hdigits, hdigit⟩ := exists_toDigits value
  have hread := digits?_toDigits value
  have hplus : first ≠ '+' := by
    rintro rfl
    cases hdigit
  unfold Text.natural?
  rw [toList_toString]
  rw [hdigits] at hread ⊢
  split
  · rename_i heq
    exact absurd (List.cons.inj heq).1 hplus
  · dsimp only
    rw [hread, Option.filter_some, if_pos (decide_eq_true h)]

theorem natural?_natural {value : Nat} (h : value ≤ Text.maxCount) :
    (natural value).natural? = some value := natural?_toString h

theorem integer?_integer {value : Int} (h : IsMargin value) :
    (integer value).integer? = some value := by
  obtain ⟨hlow, hhigh⟩ := h
  have hpower : Nat.pow 2 31 = 2147483648 := rfl
  unfold integer integer? Text.integer?
  by_cases hnegative : value < 0
  · have hbound : value.natAbs ≤ Nat.pow 2 31 := by
      omega
    have hvalue : -(value.natAbs : Int) = value := by
      omega
    have hlist : ("-" ++ toString value.natAbs).toList =
        '-' :: Nat.toDigits 10 value.natAbs := by
      rw [String.toList_append, toList_toString]
      rfl
    rw [if_pos hnegative]
    simp only [hlist, digits?_toDigits, Option.filter_some,
      decide_eq_true hbound, if_true]
    exact congrArg some hvalue
  · have hbound : value.natAbs ≤ Nat.pow 2 31 - 1 := by
      omega
    have hvalue : Int.ofNat value.natAbs = value :=
      Int.natAbs_of_nonneg (Int.not_lt.mp hnegative)
    obtain ⟨first, rest, hdigits, hdigit⟩ := exists_toDigits value.natAbs
    have hminus : first ≠ '-' := by
      rintro rfl
      cases hdigit
    rw [if_neg hnegative]
    dsimp only
    split
    · rename_i heq
      rw [toList_toString, hdigits] at heq
      exact absurd (List.cons.inj heq).1 hminus
    · rw [natural?_toString hbound, Option.map_some, hvalue]

/-- A list is read back if each item is. -/
theorem list?_map {α : Type} {read? : Json → Option α} {write : α → Json}
    (items : List α) (h : ∀ item ∈ items, read? (write item) = some item) :
    (Json.array (items.map write)).list? read? = some items := by
  change (items.map write).mapM read? = some items
  induction items with
  | nil => rfl
  | cons item rest ih =>
      rw [List.forall_mem_cons] at h
      rw [List.map_cons, List.mapM_cons, h.1, ih h.2]
      rfl

end Json

theorem Attributes.ofJson?_toJson (attributes : Attributes) :
    Attributes.ofJson? attributes.toJson = some attributes := by
  have hmembers (entries : List (String × String)) :
      (entries.map fun entry => (entry.1, Json.string entry.2)).mapM
        attribute? = some entries := by
    induction entries with
    | nil => rfl
    | cons entry rest ih =>
        rw [List.map_cons, List.mapM_cons, ih]
        rfl
  change Option.map Dictionary.ofList ((attributes.entries.map fun entry =>
    (entry.1, Json.string entry.2)).mapM attribute?) = some attributes
  rw [hmembers, Option.map_some, Dictionary.ofList_entries]

theorem Chunk.ofJson?_toJson (chunk : Chunk) :
    Chunk.ofJson? chunk.toJson = some chunk := by
  obtain ⟨contents, attributes, isPlaceholder⟩ := chunk
  have hattributes := Attributes.ofJson?_toJson attributes
  cases isPlaceholder <;>
    simp [Chunk.ofJson?, Chunk.toJson, List.lookup_cons, hattributes]

theorem Block.ofJson?_toJson (block : Block) :
    Block.ofJson? block.toJson = some block := by
  obtain ⟨kind, chunks⟩ := block
  have hchunks := Json.list?_map chunks fun chunk _ =>
    Chunk.ofJson?_toJson chunk
  simp [Block.ofJson?, Block.toJson, List.lookup_cons, hchunks,
    BlockKind.ofName?_name]

theorem Table.ofJson?_toJson (table : Table) :
    Table.ofJson? table.toJson = some table := by
  obtain ⟨attributes, cells⟩ := table
  have hattributes := Attributes.ofJson?_toJson attributes
  have hcells := Json.list?_map cells fun cell _ => Chunk.ofJson?_toJson cell
  simp [Table.ofJson?, Table.toJson, List.lookup_cons, hattributes, hcells]

theorem PageSize.ofJson?_toJson {size : PageSize} (h : size.InRange) :
    PageSize.ofJson? size.toJson = some size := by
  have hwidth := Json.natural?_natural h.1
  have hheight := Json.natural?_natural h.2
  simp [PageSize.ofJson?, PageSize.toJson, List.lookup_cons, hwidth, hheight]

theorem PageMargins.ofJson?_toJson {margins : PageMargins}
    (h : margins.InRange) :
    PageMargins.ofJson? margins.toJson = some margins := by
  obtain ⟨hleft, hright, htop, hbottom⟩ := h
  simp [PageMargins.ofJson?, PageMargins.toJson, List.lookup_cons,
    Json.integer?_integer, hleft, hright, htop, hbottom]

theorem HorizontalRule.ofJson?_toJson {rule : HorizontalRule}
    (h : rule.InRange) :
    HorizontalRule.ofJson? rule.toJson = some rule := by
  have hwidth := Json.natural?_natural h.1
  have hpercent := Json.natural?_natural h.2
  simp [HorizontalRule.ofJson?, HorizontalRule.toJson, List.lookup_cons,
    hwidth, hpercent]

theorem Image.ofJson?_toJson (image : Image) :
    Image.ofJson? image.toJson = some image := by
  simp [Image.ofJson?, Image.toJson]

namespace RenderCall

theorem ofJson?_toJson {call : RenderCall} (h : call.InRange) :
    ofJson? call.toJson = some call := by
  have hname : call.toJson.field? "call" = some (.string call.name) := by
    cases call <;> rfl
  -- the name of a call decides which reader is tried, and it is the right one
  have hread : ofJson? call.toJson = ofName? call.name call.toJson := by
    simp [ofJson?, hname]
  rw [hread]
  cases call with
  | openDocument => rfl
  | closeDocument => rfl
  | newPage => rfl
  | setPageSize size =>
      simp [ofName?, name, toJson, fields, PageSize.ofJson?_toJson h]
  | setPageMargins margins =>
      simp [ofName?, name, toJson, fields, PageMargins.ofJson?_toJson h]
  | horizontalRule rule =>
      simp [ofName?, name, toJson, fields, HorizontalRule.ofJson?_toJson h]
  | image shown =>
      simp [ofName?, name, toJson, fields, Image.ofJson?_toJson]
  | block written =>
      simp [ofName?, name, toJson, fields, Block.ofJson?_toJson]
  | table written =>
      simp [ofName?, name, toJson, fields, Table.ofJson?_toJson]

end RenderCall

/-! ## Transcripts as JSON texts -/

namespace Json

theorem fits_natural {value : Nat} (h : value ≤ Text.maxCount) (room : Nat) :
    (natural value).Fits room :=
  ⟨value, h.trans (by decide), .inl rfl⟩

theorem fits_integer {value : Int} (h : IsMargin value) (room : Nat) :
    (integer value).Fits room := by
  have hbound : value.natAbs ≤ Text.maxLength := by
    obtain ⟨hlow, hhigh⟩ := h
    have hmax : Text.maxLength = 18446744073709551615 := rfl
    omega
  unfold integer
  split
  · exact ⟨value.natAbs, hbound, .inr rfl⟩
  · exact ⟨value.natAbs, hbound, .inl rfl⟩

end Json

theorem Dictionary.fits_toJson (attributes : Attributes) (room : Nat) :
    attributes.toJson.Fits (room + 1) := by
  refine ⟨Nat.succ_pos room, Json.membersFit_iff.mpr ?_⟩
  intro member hmem
  obtain ⟨entry, _, rfl⟩ := List.mem_map.mp hmem
  trivial

theorem Chunk.fits_toJson (chunk : Chunk) (room : Nat) :
    chunk.toJson.Fits (room + 2) := by
  have hattributes := chunk.attributes.fits_toJson room
  unfold Chunk.toJson
  split
  · exact ⟨Nat.succ_pos _, trivial, hattributes, trivial, trivial⟩
  · exact ⟨Nat.succ_pos _, trivial, hattributes, trivial⟩

theorem Chunk.fits_array (chunks : List Chunk) (room : Nat) :
    (Json.array (chunks.map Chunk.toJson)).Fits (room + 3) := by
  refine ⟨Nat.succ_pos _, Json.itemsFit_iff.mpr ?_⟩
  intro item hmem
  obtain ⟨chunk, _, rfl⟩ := List.mem_map.mp hmem
  exact chunk.fits_toJson room

namespace RenderCall

/-- The deepest parts of a call are the attributes of its chunks, on the fifth
level. -/
theorem fits_toJson {call : RenderCall} (h : call.InRange) (room : Nat) :
    call.toJson.Fits (room + 5) := by
  have hsingle {name : String} {value : Json}
      (hvalue : value.Fits (room + 4)) :
      (Json.object [("call", .string call.name), (name, value)]).Fits
        (room + 5) :=
    ⟨Nat.succ_pos _, trivial, hvalue, trivial⟩
  cases call with
  | openDocument | closeDocument | newPage =>
      exact ⟨Nat.succ_pos _, trivial, trivial⟩
  | setPageSize size =>
      apply hsingle
      exact ⟨Nat.succ_pos _, trivial, Json.fits_natural h.1 _,
        Json.fits_natural h.2 _, trivial⟩
  | setPageMargins margins =>
      obtain ⟨hleft, hright, htop, hbottom⟩ := h
      apply hsingle
      exact ⟨Nat.succ_pos _, Json.fits_integer hleft _,
        Json.fits_integer hright _, Json.fits_integer htop _,
        Json.fits_integer hbottom _, trivial⟩
  | horizontalRule rule =>
      apply hsingle
      exact ⟨Nat.succ_pos _, Json.fits_natural h.1 _,
        Json.fits_natural h.2 _, trivial⟩
  | image shown =>
      apply hsingle
      exact ⟨Nat.succ_pos _, trivial, trivial⟩
  | block written =>
      apply hsingle
      exact ⟨Nat.succ_pos _, trivial, Chunk.fits_array written.chunks _,
        trivial⟩
  | table written =>
      apply hsingle
      exact ⟨Nat.succ_pos _, written.attributes.fits_toJson _,
        Chunk.fits_array written.cells _, trivial⟩

/-- Both texts of some calls are texts of one value. -/
theorem parse_transcript {calls : List RenderCall}
    (h : ∀ call ∈ calls, call.InRange) (pretty : Bool)
    (intake : Json.Intake) :
    Json.parse (transcript calls pretty) intake =
      .ok (.array (calls.map toJson)) := by
  apply Json.parse_text
  refine ⟨by decide, Json.itemsFit_iff.mpr ?_⟩
  intro item hmem
  obtain ⟨call, hcall, rfl⟩ := List.mem_map.mp hmem
  exact fits_toJson (h call hcall) 121

theorem ofTranscript?_eq {calls : List RenderCall}
    (h : ∀ call ∈ calls, call.InRange) (pretty : Bool) :
    ofTranscript? (transcript calls pretty) = some calls := by
  simp only [ofTranscript?, parse_transcript h]
  apply Json.list?_map
  intro call hcall
  exact ofJson?_toJson (h call hcall)

/-- Reading a transcript gives its calls back, whatever their texts, attributes
and flags are and however it is set out.  So no other calls have that text, and
the compact and the indented text are read as the same value. -/
theorem transcript_lossless {calls : List RenderCall}
    (h : ∀ call ∈ calls, call.InRange) :
    (∀ pretty, ofTranscript? (transcript calls pretty) = some calls) ∧
      (∀ others : List RenderCall, (∀ call ∈ others, call.InRange) →
        ∀ pretty prettyOther,
          transcript calls pretty = transcript others prettyOther →
            calls = others) ∧
      ∀ pretty intake, Json.parse (transcript calls pretty) intake =
        .ok (.array (calls.map toJson)) := by
  refine ⟨ofTranscript?_eq h, ?_, parse_transcript h⟩
  intro others hothers pretty prettyOther hsame
  have hcalls := ofTranscript?_eq h pretty
  rw [hsame, ofTranscript?_eq hothers] at hcalls
  exact (Option.some.inj hcalls).symm

/-- A negative margin, and a text whose characters have to be escaped. -/
theorem transcript_lossless_escapes :
    let chunk : Chunk := ⟨"\"\\\n\x01é", .ofList [("id", "a")], true⟩
    let calls : List RenderCall :=
      [.openDocument, .setPageMargins { left := -5 },
        .block ⟨.paragraph, [chunk, {}]⟩, .closeDocument]
    (∀ call ∈ calls, call.InRange) ∧
      ofTranscript? (transcript calls false) = some calls ∧
      ofTranscript? (transcript calls true) = some calls := by
  intro chunk calls
  have hrange : ∀ call ∈ calls, call.InRange := by
    simp [calls, InRange, PageMargins.InRange, IsMargin]
  have hread := (transcript_lossless hrange).1
  exact ⟨hrange, hread false, hread true⟩

end RenderCall

end DocTemplate
