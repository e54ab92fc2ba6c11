import DocTemplate.Html.Page
import DocTemplate.Proofs.JsonTokens

/-!
# What a style declares

A style is read as declarations with semicolons between them, each with the
name of a property before its first colon.  The last declaration of a property
counts.  Quotes and comments have no meaning of their own here.  A chunk writes
one declaration for each thing that it says of its font, and these come out as
they went in.  Its alignment is written as it is, so it declares more than an
alignment if there is a semicolon in it.
-/

namespace DocTemplate
namespace Text

variable {separator : Char}

/-- A separator cuts a text whatever stands on both sides. -/
theorem pieces_append (first second : List Char) :
    pieces separator (first ++ separator :: second) =
      pieces separator first ++ pieces separator second := by
  induction first with
  | nil => exact if_pos rfl
  | cons c rest ih =>
      rw [List.cons_append, pieces, pieces, ih]
      split
      · rfl
      · cases hpieces : pieces separator rest with
        | nil => exact absurd hpieces (pieces_ne_nil separator rest)
        | cons piece others => rfl

theorem pieces_eq_singleton {text : List Char} (h : separator ∉ text) :
    pieces separator text = [text] := by
  induction text with
  | nil => rfl
  | cons c rest ih =>
      rw [List.mem_cons, not_or] at h
      rw [pieces, if_neg (Ne.symm h.1), ih h.2]

theorem isBlank_of_isDigit {c : Char} (h : c.isDigit = true) :
    isBlank c = false := by
  simp only [Char.isDigit, Bool.and_eq_true, decide_eq_true_eq, ge_iff_le,
    UInt32.le_iff_toNat_le] at h
  have hlow : 48 ≤ c.toNat := h.1
  have hhigh : c.toNat ≤ 57 := h.2
  rw [Bool.eq_false_iff]
  intro hblank
  simp only [isBlank, Bool.or_eq_true, Bool.and_eq_true, decide_eq_true_eq,
    beq_iff_eq] at hblank
  omega

theorem dropTrailing_of_last {α : Type} {p : α → Bool} {last : α}
    (hlast : p last = false) (items : List α) :
    dropTrailing p (items ++ [last]) = items ++ [last] := by
  rw [dropTrailing, List.reverse_concat, List.dropWhile_cons, hlast,
    ← List.reverse_concat]
  exact List.reverse_reverse _

end Text

namespace Html

/-! ## Reading declarations -/

/-- A declaration is the name of a property and a value. -/
def declaration? (piece : List Char) : Option (String × String) :=
  match piece.dropWhile (· != ':') with
  | [] => none
  | _ :: value =>
      let name := String.ofList (piece.takeWhile (· != ':'))
      some (Text.lower (Text.trim name), Text.trim (String.ofList value))

def declarations (style : List Char) : List (String × String) :=
  (Text.pieces ';' style).filterMap declaration?

/-- The value that counts among declarations, which is the last one. -/
def lastValue? (property : String) (declared : List (String × String)) :
    Option String :=
  declared.reverse.lookup property

/-- What a style says of a property. -/
def declared? (property : String) (style : String) : Option String :=
  lastValue? property (declarations style.toList)

theorem lastValue?_append (property : String)
    (first second : List (String × String)) :
    lastValue? property (first ++ second) =
      (lastValue? property second).or (lastValue? property first) := by
  rw [lastValue?, List.reverse_append, List.lookup_append]
  rfl

theorem declarations_append (first second : List Char) :
    declarations (first ++ ';' :: second) =
      declarations first ++ declarations second := by
  rw [declarations, Text.pieces_append, List.filterMap_append]
  rfl

theorem declaration?_blank (piece : List Char) :
    declaration? (' ' :: piece) = declaration? piece := by
  have hcolon : (' ' != ':') = true := by decide
  have hblank : Text.isBlank ' ' = true := by decide
  unfold declaration?
  simp only [List.dropWhile_cons, List.takeWhile_cons, hcolon, if_true,
    Text.trim, Text.dropAround, String.toList_ofList, hblank]

theorem declarations_blank (style : List Char) :
    declarations (' ' :: style) = declarations style := by
  unfold declarations
  rw [Text.pieces, if_neg (by decide)]
  cases hpieces : Text.pieces ';' style with
  | nil => exact absurd hpieces (Text.pieces_ne_nil ';' style)
  | cons piece others =>
      simp only [List.filterMap_cons, declaration?_blank]

/-- What stands before the first colon is the name. -/
theorem declaration?_colon {name : List Char} (hname : ':' ∉ name)
    (value : List Char) :
    declaration? (name ++ ':' :: value) =
      some (Text.lower (Text.trim (String.ofList name)),
        Text.trim (String.ofList value)) := by
  have hbefore : ∀ c ∈ name, (c != ':') = true := by
    intro c hmem
    rw [bne_iff_ne]
    rintro rfl
    exact hname hmem
  have hat : ∀ c ∈ (':' :: value).head?, (c != ':') = false := by
    rintro c ⟨⟩
    rfl
  rw [declaration?, Text.dropWhile_run hbefore hat,
    Text.takeWhile_run hbefore hat]

theorem declarations_single {name value : List Char} (hcolon : ':' ∉ name)
    (hname : ';' ∉ name) (hvalue : ';' ∉ value) :
    declarations (name ++ ':' :: value) =
      [(Text.lower (Text.trim (String.ofList name)),
        Text.trim (String.ofList value))] := by
  have hnone : ';' ∉ name ++ ':' :: value := by
    simp [hname, hvalue]
  rw [declarations, Text.pieces_eq_singleton hnone, List.filterMap_cons,
    declaration?_colon hcolon]
  rfl

/-! ## Writing declarations -/

/-- A style of some declarations. -/
def styleOf (written : List String) : String :=
  String.join (written.map (· ++ "; "))

theorem styleOf_singleton (text : String) : styleOf [text] = text ++ "; " :=
  String.empty_append

theorem styleOf_append (first second : List String) :
    styleOf (first ++ second) = styleOf first ++ styleOf second := by
  rw [styleOf, List.map_append, String.join_append]
  rfl

theorem declarations_styleOf (written : List String) :
    declarations (styleOf written).toList =
      written.flatMap fun text => declarations text.toList := by
  induction written with
  | nil => rfl
  | cons text rest ih =>
      have hlist : (styleOf (text :: rest)).toList =
          text.toList ++ ';' :: ' ' :: (styleOf rest).toList := by
        simp [styleOf]
      rw [hlist, declarations_append, declarations_blank, ih,
        List.flatMap_cons]

/-! ## Fonts -/

/-- The properties of a font. -/
inductive FontProperty
  | weight | style | decoration | size
deriving DecidableEq, Repr

def FontProperty.name : FontProperty → String
  | .weight => "font-weight"
  | .style => "font-style"
  | .decoration => "text-decoration"
  | .size => "font-size"

/-- What a chunk asks for its own text. -/
def fontValue? (chunk : Chunk) : FontProperty → Option String
  | .weight => if chunk.fontStyles.bold then some "bold" else none
  | .style => if chunk.fontStyles.italic then some "italic" else none
  | .decoration => if chunk.fontStyles.underline then some "underline" else none
  | .size => chunk.fontSize?.map fun size => s!"{size}pt"

/-- What the alignment of a chunk says of a property of the font. -/
def alignValue? (chunk : Chunk) (property : FontProperty) : Option String :=
  (chunk.attribute? "align").bind fun align =>
    declared? property.name s!"text-align: {align}"

/-- What the first of some chunks says of a property of the font, in its own
name or in its alignment. -/
def headValue? : List Chunk → FontProperty → Option String
  | [], _ => none
  | first :: _, property =>
      (fontValue? first property).or (alignValue? first property)

def fontText? (chunk : Chunk) (property : FontProperty) : Option String :=
  (fontValue? chunk property).map fun value => property.name ++ ": " ++ value

/-- The declarations of a font, in the order in which they are written. -/
def fontTexts (chunk : Chunk) : List String :=
  [FontProperty.weight, .style, .decoration, .size].flatMap fun property =>
    (fontText? chunk property).toList

theorem fontStyle_eq (chunk : Chunk) :
    fontStyle chunk = styleOf (fontTexts chunk) := by
  have hflag (flag : Bool) (name value : String) :
      styleOf ((if flag then some value else none).map
        (name ++ ": " ++ ·)).toList =
          if flag then name ++ ": " ++ value ++ "; " else "" := by
    cases flag
    · rfl
    · exact styleOf_singleton _
  have hweight : styleOf (fontText? chunk .weight).toList =
      if chunk.fontStyles.bold then "font-weight: bold; " else "" :=
    hflag _ "font-weight" "bold"
  have hstyle : styleOf (fontText? chunk .style).toList =
      if chunk.fontStyles.italic then "font-style: italic; " else "" :=
    hflag _ "font-style" "italic"
  have hdecoration : styleOf (fontText? chunk .decoration).toList =
      if chunk.fontStyles.underline then "text-decoration: underline; "
      else "" :=
    hflag _ "text-decoration" "underline"
  have hsplit : fontTexts chunk =
      (fontText? chunk .weight).toList ++ (fontText? chunk .style).toList ++
        (fontText? chunk .decoration).toList ++
        (fontText? chunk .size).toList := by
    simp [fontTexts]
  rw [hsplit]
  simp only [styleOf_append, hweight, hstyle, hdecoration]
  refine congrArg₂ (· ++ ·) rfl ?_
  unfold fontText? fontValue?
  cases chunk.fontSize? with
  | none => rfl
  | some size =>
      refine Eq.symm ?_
      rw [Option.map_some, Option.map_some, Option.toList_some,
        styleOf_singleton, ← String.append_assoc, String.append_assoc]
      rfl

/-- A value that is read back as it is written behind the name of a
property. -/
structure ReadsBack (value : String) : Prop where
  whole : ';' ∉ value.toList
  trimmed : Text.trim (String.ofList (' ' :: value.toList)) = value

theorem readsBack_size (size : Nat) : ReadsBack s!"{size}pt" := by
  have hlist : (s!"{size}pt").toList = Nat.toDigits 10 size ++ ['p', 't'] := by
    rw [String.toList_append, Json.toList_toString]
    rfl
  constructor
  · rw [hlist, List.mem_append, not_or]
    refine ⟨fun hmem => ?_, by decide⟩
    cases Json.isDigit_of_mem_toDigits hmem
  · obtain ⟨first, rest, hdigits, hfirst⟩ := Json.exists_toDigits size
    have hhead := Text.isBlank_of_isDigit hfirst
    have hblank : Text.isBlank ' ' = true := by decide
    apply String.toList_injective
    have hlast : Text.isBlank 't' = false := by decide
    have hwhole : Nat.toDigits 10 size ++ ['p', 't'] =
        first :: (rest ++ ['p']) ++ ['t'] := by
      rw [hdigits, List.cons_append, List.cons_append, List.append_assoc]
      rfl
    rw [Text.trim, String.toList_ofList, String.toList_ofList, hlist, hwhole,
      Text.dropAround, List.dropWhile_cons, if_pos hblank, List.cons_append,
      List.dropWhile_cons, hhead]
    exact Text.dropTrailing_of_last hlast (first :: (rest ++ ['p']))

theorem readsBack_fontValue {chunk : Chunk} {property : FontProperty}
    {value : String} (h : fontValue? chunk property = some value) :
    ReadsBack value := by
  have hword : ∀ flag word, (if flag = true then some word else none) =
      some value → ReadsBack word → ReadsBack value := by
    intro flag word hvalue hreads
    split at hvalue
    · exact Option.some.inj hvalue ▸ hreads
    · cases hvalue
  cases property with
  | weight => exact hword _ _ h ⟨by decide, by decide⟩
  | style => exact hword _ _ h ⟨by decide, by decide⟩
  | decoration => exact hword _ _ h ⟨by decide, by decide⟩
  | size =>
      obtain ⟨size, -, rfl⟩ := Option.map_eq_some_iff.mp h
      exact readsBack_size size

theorem declarations_fontText {chunk : Chunk} {property : FontProperty}
    {value : String} (h : fontValue? chunk property = some value) :
    declarations (property.name ++ ": " ++ value).toList =
      [(property.name, value)] := by
  have hreads := readsBack_fontValue h
  have hlist : (property.name ++ ": " ++ value).toList =
      property.name.toList ++ ':' :: ' ' :: value.toList := by
    simp
  have hvalue : ';' ∉ ' ' :: value.toList := by
    rw [List.mem_cons, not_or]
    exact ⟨by decide, hreads.whole⟩
  have hname : ':' ∉ property.name.toList ∧ ';' ∉ property.name.toList ∧
      Text.lower (Text.trim property.name) = property.name := by
    cases property <;> decide
  rw [hlist, declarations_single hname.1 hname.2.1 hvalue, hreads.trimmed,
    String.ofList_toList, hname.2.2]

theorem name_injective {first second : FontProperty}
    (h : first.name = second.name) : first = second := by
  revert h
  cases first <;> cases second <;> decide

/-- Where each property is declared at most once, its value is found. -/
theorem lastValue?_flatMap (value? : FontProperty → Option String)
    (property : FontProperty) (properties : List FontProperty) :
    lastValue? property.name (properties.flatMap fun other =>
        ((value? other).map fun value => (other.name, value)).toList) =
      if property ∈ properties then value? property else none := by
  induction properties with
  | nil => rfl
  | cons other rest ih =>
      have hother : lastValue? property.name
          ((value? other).map fun value => (other.name, value)).toList =
            if property = other then value? other else none := by
        cases hvalue : value? other with
        | none => rw [ite_self]; rfl
        | some value =>
            change List.lookup property.name [(other.name, value)] = _
            by_cases heq : property = other
            · rw [heq, if_pos rfl, List.lookup_cons_self]
            · have hname : (property.name == other.name) = false :=
                beq_false_of_ne fun hname => heq (name_injective hname)
              rw [if_neg heq, List.lookup_cons, hname]
              rfl
      rw [List.flatMap_cons, lastValue?_append, ih, hother]
      by_cases heq : property = other
      · subst heq
        rw [if_pos rfl, if_pos List.mem_cons_self]
        split
        · exact Option.or_self
        · rfl
      · rw [if_neg heq, Option.or_none]
        simp only [List.mem_cons, heq, false_or]

theorem lastValue?_fontTexts (chunk : Chunk) (property : FontProperty) :
    lastValue? property.name
        ((fontTexts chunk).flatMap fun text => declarations text.toList) =
      fontValue? chunk property := by
  have hmem : property ∈ [FontProperty.weight, .style, .decoration, .size] := by
    cases property <;> decide
  have hdeclared (other : FontProperty) :
      ((fontText? chunk other).toList.flatMap fun text =>
        declarations text.toList) =
          ((fontValue? chunk other).map fun value =>
            (other.name, value)).toList := by
    unfold fontText?
    cases hvalue : fontValue? chunk other with
    | none => rfl
    | some value =>
        rw [Option.map_some, Option.toList_some, List.flatMap_singleton]
        exact declarations_fontText hvalue
  simp only [fontTexts, List.flatMap_assoc, hdeclared]
  rw [lastValue?_flatMap, if_pos hmem]

/-! ## The style of a block -/

def alignText? (chunk : Chunk) : Option String :=
  (chunk.attribute? "align").map fun align => s!"text-align: {align}"

def indentText? (chunk : Chunk) : Option String :=
  ((chunk.attribute? "indent").bind fun indent =>
    Text.integer? (Text.trim indent)).map fun indent =>
      s!"text-indent: {indent}px"

theorem blockStyle_eq (chunk : Chunk) :
    blockStyle chunk =
      styleOf ((alignText? chunk).toList ++ (indentText? chunk).toList) := by
  rw [styleOf_append]
  refine congrArg₂ (· ++ ·) ?_ ?_
  · unfold alignText?
    cases chunk.attribute? "align" with
    | none => rfl
    | some align => exact (styleOf_singleton _).symm
  · unfold indentText?
    cases (chunk.attribute? "indent").bind fun indent =>
        Text.integer? (Text.trim indent) with
    | none => rfl
    | some indent =>
        refine Eq.symm ?_
        rw [Option.map_some, Option.toList_some, styleOf_singleton,
          String.append_assoc]
        rfl

/-- The layout of a block says nothing of the font. -/
theorem lastValue?_layout {name : String}
    (hname : name = "text-align" ∨ name = "text-indent") {value : List Char}
    (hvalue : ';' ∉ value) (property : FontProperty) :
    lastValue? property.name (declarations (name.toList ++ ':' :: value)) =
      none := by
  have hother : ':' ∉ name.toList ∧ ';' ∉ name.toList ∧
      (property.name == Text.lower (Text.trim name)) = false := by
    rcases hname with rfl | rfl <;> cases property <;> decide
  rw [declarations_single hother.1 hother.2.1 hvalue, String.ofList_toList]
  change List.lookup property.name [_] = _
  rw [List.lookup_cons, hother.2.2]
  rfl

theorem semicolon_notMem_integer (value : Int) :
    ';' ∉ (toString value).toList := by
  have hnatural (value : Nat) : ';' ∉ (toString value).toList := by
    rw [Json.toList_toString]
    intro hmem
    cases Json.isDigit_of_mem_toDigits hmem
  cases value with
  | ofNat value => exact hnatural value
  | negSucc value =>
      have hlist : (toString (Int.negSucc value)).toList =
          '-' :: (toString (value + 1)).toList := by
        change ("-" ++ toString (value + 1)).toList = _
        rw [String.toList_append]
        rfl
      rw [hlist, List.mem_cons, not_or]
      exact ⟨by decide, hnatural _⟩

theorem lastValue?_indentText (property : FontProperty) (chunk : Chunk) :
    lastValue? property.name ((indentText? chunk).toList.flatMap fun text =>
      declarations text.toList) = none := by
  unfold indentText?
  cases (chunk.attribute? "indent").bind fun indent =>
      Text.integer? (Text.trim indent) with
  | none => rfl
  | some indent =>
      have hlist : (s!"text-indent: {indent}px").toList =
          "text-indent".toList ++
            ':' :: ' ' :: ((toString indent).toList ++ ['p', 'x']) := by
        rw [String.toList_append, String.toList_append, List.append_assoc]
        rfl
      have hvalue : ';' ∉ ' ' :: ((toString indent).toList ++ ['p', 'x']) := by
        rw [List.mem_cons, List.mem_append, not_or, not_or]
        exact ⟨by decide, semicolon_notMem_integer indent, by decide⟩
      rw [Option.map_some, Option.toList_some, List.flatMap_singleton, hlist]
      exact lastValue?_layout (.inr rfl) hvalue property

/-- A style says of a font what the chunk asks for, and else what is in its
alignment. -/
theorem declared?_headStyle (chunks : List Chunk) (property : FontProperty) :
    declared? property.name (headStyle chunks) = headValue? chunks property := by
  cases chunks with
  | nil => cases property <;> rfl
  | cons first others =>
      rw [headStyle, blockStyle_eq, fontStyle_eq, ← styleOf_append, declared?,
        declarations_styleOf, List.flatMap_append, List.flatMap_append,
        lastValue?_append, lastValue?_append, lastValue?_fontTexts,
        lastValue?_indentText, Option.none_or, headValue?, alignValue?, alignText?]
      cases first.attribute? "align" with
      | none => rfl
      | some align =>
          rw [Option.map_some, Option.toList_some, List.flatMap_singleton]
          rfl

theorem declared?_fontStyle (chunk : Chunk) (property : FontProperty) :
    declared? property.name (fontStyle chunk) = fontValue? chunk property := by
  rw [declared?, fontStyle_eq, declarations_styleOf, lastValue?_fontTexts]

/-- An alignment without semicolons says nothing of the font. -/
theorem alignValue?_eq_none {chunk : Chunk}
    (h : ∀ align ∈ chunk.attribute? "align", ';' ∉ align.toList)
    (property : FontProperty) : alignValue? chunk property = none := by
  unfold alignValue?
  cases halign : chunk.attribute? "align" with
  | none => rfl
  | some align =>
      have hlist : (s!"text-align: {align}").toList =
          "text-align".toList ++ ':' :: ' ' :: align.toList := by
        rw [String.toList_append]
        rfl
      have hvalue : ';' ∉ ' ' :: align.toList := by
        rw [List.mem_cons, not_or]
        exact ⟨by decide, h align halign⟩
      rw [Option.bind_some, declared?, hlist]
      exact lastValue?_layout (.inl rfl) hvalue property

/-- So the first chunk decides with its own font, unless there is a semicolon
in its alignment. -/
theorem headValue?_eq {first : Chunk}
    (h : ∀ align ∈ first.attribute? "align", ';' ∉ align.toList)
    (others : List Chunk) (property : FontProperty) :
    headValue? (first :: others) property = fontValue? first property := by
  rw [headValue?, alignValue?_eq_none h, Option.or_none]

end Html
end DocTemplate
