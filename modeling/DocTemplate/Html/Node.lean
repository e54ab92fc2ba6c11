/-!
# HTML fragments

The fragments of a page are trees of elements and texts, and writing them is
the only place where a tree becomes text.  Elements without content have no
end tag.  In texts the brackets, the ampersand and the no-break space are
escaped, and in attribute values the quote instead of the brackets, so that no
text can open or close a tag or a value.
-/

namespace DocTemplate
namespace Html

/-- The elements of a page body. -/
inductive Tag
  | h1 | h2 | h3 | p | span | br | hr | img | input | select | option
  | table | tr | td
deriving DecidableEq, Repr

def Tag.name : Tag → String
  | .h1 => "h1"
  | .h2 => "h2"
  | .h3 => "h3"
  | .p => "p"
  | .span => "span"
  | .br => "br"
  | .hr => "hr"
  | .img => "img"
  | .input => "input"
  | .select => "select"
  | .option => "option"
  | .table => "table"
  | .tr => "tr"
  | .td => "td"

/-- Whether an element never has content, and no end tag. -/
def Tag.isVoid : Tag → Bool
  | .br | .hr | .img | .input => true
  | _ => false

inductive Node
  | text (contents : String)
  | element (tag : Tag) (attributes : List (String × String))
      (children : List Node)
deriving Repr

/-- A character of a text. -/
def escapeText (c : Char) : List Char :=
  if c = '&' then "&amp;".toList
  else if c = '\u00a0' then "&nbsp;".toList
  else if c = '<' then "&lt;".toList
  else if c = '>' then "&gt;".toList
  else [c]

/-- A character of an attribute value. -/
def escapeValue (c : Char) : List Char :=
  if c = '&' then "&amp;".toList
  else if c = '\u00a0' then "&nbsp;".toList
  else if c = '"' then "&quot;".toList
  else [c]

/-- An attribute with the blank before it. -/
def writeAttribute (pair : String × String) : List Char :=
  ' ' :: (pair.1.toList ++ '=' :: '"' ::
    (pair.2.toList.flatMap escapeValue ++ ['"']))

def startTag (tag : Tag) (attributes : List (String × String)) : List Char :=
  '<' :: (tag.name.toList ++ attributes.flatMap writeAttribute ++ ['>'])

def endTag (tag : Tag) : List Char :=
  '<' :: '/' :: (tag.name.toList ++ ['>'])

mutual

/-- The text of a fragment. -/
def Node.write : Node → List Char
  | .text contents => contents.toList.flatMap escapeText
  | .element tag attributes children =>
      if tag.isVoid then
        startTag tag attributes
      else
        startTag tag attributes ++ writeAll children ++ endTag tag

/-- The text of fragments, one after the other. -/
def writeAll : List Node → List Char
  | [] => []
  | node :: rest => node.write ++ writeAll rest

end

end Html
end DocTemplate
