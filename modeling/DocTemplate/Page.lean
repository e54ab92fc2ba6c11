import DocTemplate.Text.Blank
import DocTemplate.Text.Numeral

/-!
# Pages, rules and images

What a template says about the page and about everything on it that is not
text: named page sizes, margins, horizontal rules and images.  Lengths are in
points.
-/

namespace DocTemplate

/-- A page size that has a name. -/
structure PageSize where
  name : String
  width : Nat
  height : Nat
deriving DecidableEq, Repr

namespace PageSize

/-- The sheets of the series A and B. -/
def named : List PageSize :=
  [⟨"a0", 2384, 3370⟩, ⟨"a1", 1684, 2384⟩, ⟨"a2", 1191, 1684⟩,
    ⟨"a3", 842, 1191⟩, ⟨"a4", 595, 842⟩, ⟨"a5", 420, 595⟩,
    ⟨"a6", 297, 420⟩, ⟨"a7", 210, 297⟩, ⟨"a8", 148, 210⟩,
    ⟨"a9", 105, 148⟩, ⟨"a10", 74, 105⟩,
    ⟨"b0", 2834, 4008⟩, ⟨"b1", 2004, 2834⟩, ⟨"b2", 1417, 2004⟩,
    ⟨"b3", 1000, 1417⟩, ⟨"b4", 708, 1000⟩, ⟨"b5", 498, 708⟩,
    ⟨"b6", 354, 498⟩, ⟨"b7", 249, 354⟩, ⟨"b8", 175, 249⟩,
    ⟨"b9", 124, 175⟩, ⟨"b10", 87, 124⟩]

def a4 : PageSize := ⟨"a4", 595, 842⟩

/-- The size of a name, whatever its case and the blanks around it. -/
def ofName? (name : String) : Option PageSize :=
  named.find? fun size => size.name == Text.lower (Text.trim name)

end PageSize

structure PageMargins where
  left : Int := 45
  right : Int := 45
  top : Int := 50
  bottom : Int := 56
deriving DecidableEq, Repr

/-- Why a text does not give page margins. -/
inductive MarginError
  | tooFew (text : String)
  | malformed (part text : String)
deriving DecidableEq, Repr

def MarginError.message : MarginError → String
  | .tooFew text =>
      s!"Margin '{text}' needs four comma separated values (left,right,top,bottom)"
  | .malformed part text => s!"Invalid margin value '{part}' in '{text}'"

/-- Reads the margins `left,right,top,bottom`; further fields do not count. -/
def PageMargins.read (text : String) : Except MarginError PageMargins :=
  let value (part : String) : Except MarginError Int :=
    match Text.integer? part with
    | some value => .ok value
    | none => .error (.malformed part text)
  match Text.fields ',' text with
  | left :: right :: top :: bottom :: _ => do
      return ⟨← value left, ← value right, ← value top, ← value bottom⟩
  | _ => .error (.tooFew text)

/-- A horizontal rule: its thickness, and its length as a percentage. -/
structure HorizontalRule where
  width : Nat := 1
  percent : Nat := 100
deriving DecidableEq, Repr

structure Image where
  source : String
deriving DecidableEq, Repr

end DocTemplate
