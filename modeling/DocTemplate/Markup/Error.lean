/-!
# Why a template is not markup

Each problem has its wording here.  Ranges count bytes of the text or value in
which a reference stands, and places in a tag count bytes of what stands
between its angle brackets.
-/

namespace DocTemplate
namespace Markup

/-- Why a reference such as `&amp;` does not stand for a character. -/
inductive ReferenceProblem
  | unterminated (start stop : Nat)
  | unknown (start stop : Nat) (name : String)
  | signed
  | nullCharacter
  | noCodepoint (value : Nat)
  | noDigits
  | badDigit
  | tooLarge
deriving DecidableEq, Repr

def ReferenceProblem.message : ReferenceProblem → String
  | .unterminated start stop =>
      s!"Error while escaping character at range {start}..{stop}: "
        ++ "Cannot find ';' after '&'"
  | .unknown start stop name =>
      s!"at {start}..{stop}: unrecognized entity `{name}`"
  | .signed => "invalid character reference: unexpected number sign"
  | .nullCharacter =>
      "invalid character reference: 0x0 character is not permitted in XML"
  | .noCodepoint value =>
      s!"invalid character reference: `{value}` is not a valid codepoint"
  | .noDigits =>
      "invalid character reference: cannot parse integer from empty string"
  | .badDigit =>
      "invalid character reference: invalid digit found in string"
  | .tooLarge =>
      "invalid character reference: number too large to fit in target type"

/-- Why the inside of a tag is not a list of attributes. -/
inductive AttributeProblem
  | noEquals (place : Nat)
  | noValue (place : Nat)
  | notQuoted (place : Nat)
  | openQuote (place : Nat) (quote : Char)
  | repeated (place previous : Nat)
deriving DecidableEq, Repr

def AttributeProblem.message : AttributeProblem → String
  | .noEquals place =>
      s!"position {place}: "
        ++ "attribute key must be directly followed by `=` or space"
  | .noValue place =>
      s!"position {place}: `=` must be followed by an attribute value"
  | .notQuoted place =>
      s!"position {place}: "
        ++ "attribute value must be enclosed in `\"` or `'`"
  | .openQuote place quote =>
      s!"position {place}: "
        ++ s!"missing closing quote `{quote}` in attribute value"
  | .repeated place previous =>
      s!"position {place}: "
        ++ s!"duplicated attribute, previous declaration at position {previous}"

inductive MarkupProblem
  | unknownDeclaration
  | openInstruction
  | openComment
  | openDoctype
  | openCharacterData
  | openTag
  | doctypeWithoutName
  | strayEnd (found : String)
  | wrongEnd (expected found : String)
  | attribute (problem : AttributeProblem)
  | attributeValue (problem : ReferenceProblem)
  | text (problem : ReferenceProblem)
deriving DecidableEq, Repr

def MarkupProblem.message : MarkupProblem → String
  | .unknownDeclaration =>
      "syntax error: unknown or missed symbol in markup"
  | .openInstruction =>
      "syntax error: processing instruction or xml declaration not closed: "
        ++ "`?>` not found before end of input"
  | .openComment =>
      "syntax error: comment not closed: `-->` not found before end of input"
  | .openDoctype =>
      "syntax error: DOCTYPE not closed: `>` not found before end of input"
  | .openCharacterData =>
      "syntax error: CDATA not closed: `]]>` not found before end of input"
  | .openTag =>
      "syntax error: tag not closed: `>` not found before end of input"
  | .doctypeWithoutName =>
      "ill-formed document: `<!DOCTYPE>` declaration does not contain "
        ++ "a name of a document type"
  | .strayEnd found =>
      s!"ill-formed document: close tag `</{found}>` "
        ++ "does not match any open tag"
  | .wrongEnd expected found =>
      s!"ill-formed document: expected `</{expected}>`, "
        ++ s!"but `</{found}>` was found"
  | .attribute problem => "Invalid attribute: " ++ problem.message
  | .attributeValue problem => "Invalid attribute value: " ++ problem.message
  | .text problem => "Invalid character data: " ++ problem.message

/-- A problem, and how many bytes of the template stand before it. -/
structure MarkupError where
  problem : MarkupProblem
  position : Nat
deriving DecidableEq, Repr

def MarkupError.message (error : MarkupError) : String :=
  s!"Markup error at byte {error.position}: {error.problem.message}"

end Markup
end DocTemplate
