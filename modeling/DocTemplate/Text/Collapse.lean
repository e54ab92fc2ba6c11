import DocTemplate.Text.Blank

/-!
# Collapsing the layout of character data

Character data in a template is mostly indentation and line ends put there by
whoever wrote the template.  Every run of layout characters that holds a line
feed is dropped, and what is left is trimmed; blanks inside a single line
survive.  Only ASCII layout and control characters count here: a no-break
space or an ideographic space is content.
-/

namespace DocTemplate
namespace Text

/-- Tab, line feed, vertical tab, form feed, carriage return and space. -/
def isLayout (c : Char) : Bool :=
  let n := c.toNat
  (9 ≤ n && n ≤ 13) || n == 0x20

/-- The characters up to the space, which never start or end a collapsed
text. -/
def isLow (c : Char) : Bool :=
  c.toNat ≤ 0x20

/-- Scans for the leftmost place where layout characters reach a line feed,
and continues behind the whole run. -/
def dropBrokenRuns : List Char → List Char
  | [] => []
  | c :: rest =>
      if isLayout c && '\n' ∈ (c :: rest).takeWhile isLayout then
        dropBrokenRuns (rest.dropWhile isLayout)
      else
        c :: dropBrokenRuns rest
  termination_by text => text.length
  decreasing_by
    · have := (List.dropWhile_sublist isLayout (l := rest)).length_le
      simp only [List.length_cons]
      omega
    · simp

/-- Character data as it enters a document. -/
def collapse (text : String) : String :=
  String.ofList (dropAround isLow (dropBrokenRuns text.toList))

end Text
end DocTemplate
