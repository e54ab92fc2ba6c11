import DocTemplate.Json.Token

/-!
# Reading JSON

The reader takes one token after the other and keeps the arrays and objects
that are still open, the innermost first.  What may come next depends on what
came last, and each place has its own complaint for a token that does not
fit.  At most 127 arrays and objects may be open at a time.
-/

namespace DocTemplate
namespace Json

/-- An array or object that is open, with what it holds so far.  For an object
there is also the name whose value is due. -/
inductive Frame
  | array (items : List Json)
  | object (members : List (String × Json)) (name : String)

/-- What may come next. -/
inductive Due
  /-- A value. -/
  | value
  /-- The first item of an array, or its end. -/
  | firstItem
  /-- An item of an array, behind a comma. -/
  | item
  /-- The first name of an object, or its end. -/
  | firstName
  /-- A name of an object, behind a comma. -/
  | name
  /-- The colon behind a name. -/
  | colon
  /-- A comma, or the end of the innermost array or object. -/
  | commaOrEnd
  /-- Nothing: the text is complete. -/
  | nothing (result : Json)

structure Reading where
  frames : List Frame
  due : Due

namespace Reading

def start : Reading := ⟨[], .value⟩

/-- How many arrays and objects may be open at a time. -/
def maxDepth : Nat := 127

/-- Takes a complete value. -/
def put (frames : List Frame) (value : Json) : Reading :=
  match frames with
  | [] => ⟨[], .nothing value⟩
  | .array items :: rest => ⟨.array (items ++ [value]) :: rest, .commaOrEnd⟩
  | .object members name :: rest =>
      ⟨.object (members ++ [(name, value)]) name :: rest, .commaOrEnd⟩

/-- A fault that shows at the first byte of a token. -/
def refuse (token : Token) (problem : Problem) : Except Fault Reading :=
  .error ⟨problem, token.offset + 1, false⟩

/-- Opens an array or object. -/
def openFrame (frames : List Frame) (token : Token) (frame : Frame)
    (due : Due) : Except Fault Reading :=
  if frames.length = maxDepth then
    refuse token .tooDeep
  else
    .ok ⟨frame :: frames, due⟩

/-- Takes the token at which a value starts. -/
def beginValue (frames : List Frame) (token : Token) :
    Except Fault Reading :=
  match token.lexeme with
  | .string contents => .ok (put frames (.string contents))
  | .scalar value => .ok (put frames value)
  | .punctuation '[' => openFrame frames token (.array []) .firstItem
  | .punctuation '\x7b' => openFrame frames token (.object [] "") .firstName
  | .punctuation _ => refuse token .expectedValue
  | .faultyString fault => .error fault
  | .faulty fault => .error fault

/-- Takes the token at which a name is due. -/
def takeName (frames : List Frame) (token : Token) : Except Fault Reading :=
  match token.lexeme, frames with
  | .string name, .object members _ :: rest =>
      .ok ⟨.object members name :: rest, .colon⟩
  | .faultyString fault, _ => .error fault
  | _, _ => refuse token .nameNotString

/-- Takes one token. -/
def step (reading : Reading) (token : Token) : Except Fault Reading :=
  match reading.due, token.lexeme, reading.frames with
  | .value, _, frames => beginValue frames token
  | .firstItem, .punctuation ']', .array items :: rest =>
      .ok (put rest (.array items))
  | .firstItem, _, frames => beginValue frames token
  | .item, .punctuation ']', _ => refuse token .trailingComma
  | .item, _, frames => beginValue frames token
  | .firstName, .punctuation '\x7d', .object members _ :: rest =>
      .ok (put rest (.object members))
  | .firstName, _, frames => takeName frames token
  | .name, .punctuation '\x7d', _ => refuse token .trailingComma
  | .name, _, frames => takeName frames token
  | .colon, .punctuation ':', frames => .ok ⟨frames, .value⟩
  | .colon, _, _ => refuse token .expectedColon
  | .commaOrEnd, .punctuation ',', .array items :: rest =>
      .ok ⟨.array items :: rest, .item⟩
  | .commaOrEnd, .punctuation ']', .array items :: rest =>
      .ok (put rest (.array items))
  | .commaOrEnd, .punctuation ',', .object members name :: rest =>
      .ok ⟨.object members name :: rest, .name⟩
  | .commaOrEnd, .punctuation '\x7d', .object members _ :: rest =>
      .ok (put rest (.object members))
  | .commaOrEnd, _, .array _ :: _ => refuse token .expectedItemOrEnd
  | .commaOrEnd, _, _ => refuse token .expectedMemberOrEnd
  | .nothing _, _, _ => refuse token .trailingCharacters

/-- What is missing when the tokens end. -/
def unfinished (reading : Reading) : Problem :=
  match reading.due, reading.frames with
  | .firstItem, _ => .listEnds
  | .firstName, _ => .objectEnds
  | .colon, _ => .objectEnds
  | .commaOrEnd, .array _ :: _ => .listEnds
  | .commaOrEnd, _ => .objectEnds
  | _, _ => .valueEnds

/-- The value that a complete reading gives, of a text of `size` bytes. -/
def finish (reading : Reading) (size : Nat) : Except Fault Json :=
  match reading.due with
  | .nothing result => .ok result
  | _ => .error ⟨reading.unfinished, size, false⟩

end Reading

/-- Reads a text, or tells its first fault. -/
def read (text : List Char) : Except Fault Json := do
  let reading ← (tokensFrom 0 text).foldlM Reading.step Reading.start
  reading.finish (Text.byteCount text)

/-- Reads a source. -/
def parse (source : String) (intake : Intake) : Except Error Json :=
  (read source.toList).mapError fun fault => fault.toError source intake

end Json
end DocTemplate
