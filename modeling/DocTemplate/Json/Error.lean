import DocTemplate.Json.Value

/-!
# Where a text stops being JSON

A text is refused at a byte, and the message counts lines and the bytes of the
last line up to it.  A source that is taken in byte by byte is always one byte
ahead once the byte behind a number has been looked at, so it can place the
end of a number one byte later than a source that is in memory.
-/

namespace DocTemplate
namespace Json

/-- Why a text is not JSON. -/
inductive Problem
  | valueEnds
  | listEnds
  | objectEnds
  | stringEnds
  | expectedValue
  | expectedWord
  | expectedColon
  | expectedItemOrEnd
  | expectedMemberOrEnd
  | nameNotString
  | trailingComma
  | trailingCharacters
  | malformedNumber
  | numberTooLarge
  | malformedEscape
  | controlCharacter
  | loneSurrogate
  | surrogatePairEnds
  | tooDeep
deriving DecidableEq, Repr

def Problem.message : Problem → String
  | .valueEnds => "EOF while parsing a value"
  | .listEnds => "EOF while parsing a list"
  | .objectEnds => "EOF while parsing an object"
  | .stringEnds => "EOF while parsing a string"
  | .expectedValue => "expected value"
  | .expectedWord => "expected ident"
  | .expectedColon => "expected `:`"
  | .expectedItemOrEnd => "expected `,` or `]`"
  | .expectedMemberOrEnd => "expected `,` or `\x7d`"
  | .nameNotString => "key must be a string"
  | .trailingComma => "trailing comma"
  | .trailingCharacters => "trailing characters"
  | .malformedNumber => "invalid number"
  | .numberTooLarge => "number out of range"
  | .malformedEscape => "invalid escape"
  | .controlCharacter =>
      "control character (\\u0000-\\u001F) found while parsing a string"
  | .loneSurrogate => "lone leading surrogate in hex escape"
  | .surrogatePairEnds => "unexpected end of hex escape"
  | .tooDeep => "recursion limit exceeded"

/-- A problem, and how many bytes of the source it takes to see it.  With
`ahead`, the byte behind them has been looked at as well. -/
structure Fault where
  problem : Problem
  offset : Nat
  ahead : Bool := false
deriving DecidableEq, Repr

/-- A place in a source; lines count from one and columns from zero. -/
structure Position where
  line : Nat
  column : Nat
deriving DecidableEq, Repr

/-- The place behind the first `offset` bytes of a source. -/
def Position.after (source : List Char) (offset : Nat)
    (position : Position := ⟨1, 0⟩) : Position :=
  match source with
  | [] => position
  | c :: rest =>
      if offset = 0 then
        position
      else if c = '\n' then
        Position.after rest (offset - 1) ⟨position.line + 1, 0⟩
      else if offset < c.utf8Size then
        ⟨position.line, position.column + offset⟩
      else
        Position.after rest (offset - c.utf8Size)
          ⟨position.line, position.column + c.utf8Size⟩

/-- How a source is taken in. -/
inductive Intake
  | inMemory
  | byByte
deriving DecidableEq, Repr

structure Error where
  problem : Problem
  position : Position
deriving DecidableEq, Repr

/-- The error that a fault of a source is reported as. -/
def Fault.toError (source : String) (intake : Intake) (fault : Fault) :
    Error :=
  let offset :=
    if intake = .byByte ∧ fault.ahead ∧ fault.offset < source.utf8ByteSize then
      fault.offset + 1
    else
      min fault.offset source.utf8ByteSize
  ⟨fault.problem, .after source.toList offset⟩

def Error.message (error : Error) : String :=
  s!"{error.problem.message} at line {error.position.line}"
    ++ s!" column {error.position.column}"

end Json
end DocTemplate
