import DocTemplate.Json.Number
import DocTemplate.Text.Utf8

/-!
# The tokens of a JSON text

A text is cut into tokens before it is read: punctuation, strings, numbers and
words.  Where no token can be made there is a faulty one, and it is the last.
The fault counts only if a token is due at that place, so that a text which
goes wrong earlier is refused for the earlier reason.
-/

namespace DocTemplate
namespace Json

inductive Lexeme
  | punctuation (mark : Char)
  | string (contents : String)
  | scalar (value : Json)
  /-- A string that does not end as it should. -/
  | faultyString (fault : Fault)
  /-- Anything else that starts no token. -/
  | faulty (fault : Fault)
deriving Inhabited

/-- A lexeme and how many bytes stand before it. -/
structure Token where
  offset : Nat
  lexeme : Lexeme
deriving Inhabited

/-! ## Strings -/

/-- The four hexadecimal digits that open a text. -/
def quad? : List Char → Option (Nat × List Char)
  | a :: b :: c :: d :: rest => do
      let a ← Text.hexDigit? a
      let b ← Text.hexDigit? b
      let c ← Text.hexDigit? c
      let d ← Text.hexDigit? d
      return (((16 * a + b) * 16 + c) * 16 + d, rest)
  | _ => none

/-- Why a text does not open with four hexadecimal digits. -/
def quadFault (offset : Nat) (text : List Char) : Fault :=
  if Text.byteCount text < 4 then
    ⟨.stringEnds, offset + Text.byteCount text, false⟩
  else
    ⟨.malformedEscape, offset + 4, false⟩

def isLowSurrogate (unit : Nat) : Bool := 0xDC00 ≤ unit && unit ≤ 0xDFFF

def isHighSurrogate (unit : Nat) : Bool := 0xD800 ≤ unit && unit ≤ 0xDBFF

/-- The character of a pair of surrogates. -/
def combine (high low : Nat) : Char :=
  Char.ofNat (0x10000 + (high - 0xD800) * 0x400 + (low - 0xDC00))

/-- A character read off a text, with the bytes before the rest of the text
and that rest. -/
structure Piece where
  char : Char
  offset : Nat
  rest : List Char

/-- The second half of a character that is written as two surrogates. -/
def lowHalf (offset high : Nat) : List Char → Except Fault Piece
  | [] => .error ⟨.stringEnds, offset, false⟩
  | ['\\'] => .error ⟨.stringEnds, offset + 1, false⟩
  | '\\' :: 'u' :: text =>
      match quad? text with
      | none => .error (quadFault (offset + 2) text)
      | some (low, rest) =>
          if isLowSurrogate low then
            .ok ⟨combine high low, offset + 6, rest⟩
          else
            .error ⟨.loneSurrogate, offset + 6, false⟩
  | '\\' :: _ => .error ⟨.surrogatePairEnds, offset + 2, false⟩
  | _ => .error ⟨.surrogatePairEnds, offset + 1, false⟩

/-- The character written as a number, from behind the letter `u`. -/
def numbered (offset : Nat) (text : List Char) : Except Fault Piece :=
  match quad? text with
  | none => .error (quadFault offset text)
  | some (unit, rest) =>
      if isLowSurrogate unit then
        .error ⟨.loneSurrogate, offset + 4, false⟩
      else if isHighSurrogate unit then
        lowHalf (offset + 4) unit rest
      else
        .ok ⟨Char.ofNat unit, offset + 4, rest⟩

/-- The characters that have an escape of one letter. -/
def shortEscape? (letter : Char) : Option Char :=
  match letter with
  | '"' => some '"'
  | '\\' => some '\\'
  | '/' => some '/'
  | 'b' => some '\x08'
  | 'f' => some '\x0c'
  | 'n' => some '\n'
  | 'r' => some '\r'
  | 't' => some '\t'
  | _ => none

/-- The character of an escape, from behind its backslash. -/
def unescape (offset : Nat) : List Char → Except Fault Piece
  | [] => .error ⟨.stringEnds, offset, false⟩
  | 'u' :: text => numbered (offset + 1) text
  | letter :: rest =>
      match shortEscape? letter with
      | some c => .ok ⟨c, offset + 1, rest⟩
      | none => .error ⟨.malformedEscape, offset + 1, false⟩

theorem quad?_length {text rest : List Char} {value : Nat}
    (h : quad? text = some (value, rest)) : rest.length ≤ text.length := by
  unfold quad? at h
  split at h
  · simp only [Option.bind_eq_bind, Option.bind_eq_some_iff,
      Option.pure_def, Option.some.injEq, Prod.mk.injEq] at h
    obtain ⟨_, _, _, _, _, _, _, _, _, hrest⟩ := h
    subst hrest
    simp only [List.length_cons]
    omega
  · simp at h

theorem lowHalf_length {offset high : Nat} {text : List Char} {piece : Piece}
    (h : lowHalf offset high text = .ok piece) :
    piece.rest.length ≤ text.length := by
  unfold lowHalf at h
  split at h
  · simp at h
  · simp at h
  · split at h
    · simp at h
    · rename_i hquad
      have := quad?_length hquad
      split at h
      · simp only [Except.ok.injEq] at h
        rw [← h]
        simp only [List.length_cons]
        omega
      · simp at h
  · simp at h
  · simp at h

theorem numbered_length {offset : Nat} {text : List Char} {piece : Piece}
    (h : numbered offset text = .ok piece) :
    piece.rest.length ≤ text.length := by
  unfold numbered at h
  split at h
  · simp at h
  · rename_i hquad
    have hle := quad?_length hquad
    split at h
    · simp at h
    · split at h
      · exact Nat.le_trans (lowHalf_length h) hle
      · simp only [Except.ok.injEq] at h
        rw [← h]
        exact hle

theorem unescape_length {offset : Nat} {text : List Char} {piece : Piece}
    (h : unescape offset text = .ok piece) :
    piece.rest.length < text.length := by
  unfold unescape at h
  split at h
  · simp at h
  · have := numbered_length h
    simp only [List.length_cons]
    omega
  · split at h
    · cases h
      simp
    · simp at h

/-- The contents of a string, from behind its opening quote, with the bytes
before the text behind the string and that text. -/
def scanString (offset : Nat) (text : List Char) :
    Except Fault (List Char × Nat × List Char) :=
  match text with
  | [] => .error ⟨.stringEnds, offset, false⟩
  | '"' :: rest => .ok ([], offset + 1, rest)
  | '\\' :: escaped =>
      match _hpiece : unescape (offset + 1) escaped with
      | .error fault => .error fault
      | .ok piece =>
          (scanString piece.offset piece.rest).map fun (contents, behind) =>
            (piece.char :: contents, behind)
  | c :: rest =>
      if c.toNat < 0x20 then
        .error ⟨.controlCharacter, offset + 1, false⟩
      else
        (scanString (offset + c.utf8Size) rest).map fun (contents, behind) =>
          (c :: contents, behind)
  termination_by text.length
  decreasing_by
    · have := unescape_length _hpiece
      simp only [List.length_cons]
      omega
    · simp

theorem scanString_length {offset : Nat} {text : List Char}
    {contents : List Char} {behind : Nat × List Char}
    (h : scanString offset text = .ok (contents, behind)) :
    behind.2.length ≤ text.length := by
  fun_induction scanString offset text generalizing contents behind with
  | case1 => simp at h
  | case2 => cases h; simp
  | case3 => simp at h
  | case4 offset escaped piece hpiece ih =>
      cases hscan : scanString piece.offset piece.rest with
      | error fault => simp [hscan, Except.map] at h
      | ok result =>
          obtain ⟨inner, behind'⟩ := result
          simp only [hscan, Except.map, Except.ok.injEq, Prod.mk.injEq] at h
          have := ih hscan
          have := unescape_length hpiece
          rw [← h.2]
          simp only [List.length_cons]
          omega
  | case5 => simp at h
  | case6 offset c rest _ _ _ ih =>
      cases hscan : scanString (offset + c.utf8Size) rest with
      | error fault => simp [hscan, Except.map] at h
      | ok result =>
          obtain ⟨inner, behind'⟩ := result
          simp only [hscan, Except.map, Except.ok.injEq, Prod.mk.injEq] at h
          have := ih hscan
          rw [← h.2]
          simp only [List.length_cons]
          omega

/-! ## Words -/

/-- The text behind a word, letter by letter. -/
def scanWord (offset : Nat) : List Char → List Char → Except Fault (List Char)
  | [], text => .ok text
  | _ :: _, [] => .error ⟨.valueEnds, offset, false⟩
  | letter :: word, c :: rest =>
      if c = letter then
        scanWord (offset + 1) word rest
      else
        .error ⟨.expectedWord, offset + 1, false⟩

theorem scanWord_length {offset : Nat} {word text rest : List Char}
    (h : scanWord offset word text = .ok rest) :
    rest.length ≤ text.length := by
  induction word generalizing offset text with
  | nil =>
      simp only [scanWord, Except.ok.injEq] at h
      simp [h]
  | cons letter word ih =>
      cases text with
      | nil => simp [scanWord] at h
      | cons c text =>
          simp only [scanWord] at h
          split at h
          · have := ih h
            simp only [List.length_cons]
            omega
          · simp at h

/-! ## Cutting a text into tokens -/

/-- The marks that stand for themselves. -/
def isMark (c : Char) : Bool :=
  c = '[' || c = ']' || c = '\x7b' || c = '\x7d' || c = ',' || c = ':'

/-- The word that starts with a letter, and its value. -/
def word? (c : Char) : Option (List Char × Json) :=
  match c with
  | 'n' => some ("ull".toList, .null)
  | 't' => some ("rue".toList, .bool true)
  | 'f' => some ("alse".toList, .bool false)
  | _ => none

/-- The lexeme that starts a text, and the bytes and the text behind it if the
text goes on. -/
def lexeme (offset : Nat) (c : Char) (rest : List Char) :
    Lexeme × Option (Nat × List Char) :=
  if isMark c then
    (.punctuation c, some (offset + 1, rest))
  else if c = '"' then
    match scanString (offset + 1) rest with
    | .ok (contents, behind) => (.string (String.ofList contents), some behind)
    | .error fault => (.faultyString fault, none)
  else if c = '-' || c.isDigit then
    match scanNumber offset (c :: rest) with
    | .ok behind =>
        let literal := (c :: rest).take ((c :: rest).length - behind.length)
        (.scalar (.number (String.ofList literal)),
          some (offset + literal.length, behind))
    | .error fault => (.faulty fault, none)
  else
    match word? c with
    | some (word, value) =>
        match scanWord (offset + 1) word rest with
        | .ok behind =>
            (.scalar value, some (offset + 1 + word.length, behind))
        | .error fault => (.faulty fault, none)
    | none => (.faulty ⟨.expectedValue, offset + 1, false⟩, none)

theorem lexeme_length {offset : Nat} {c : Char} {rest : List Char}
    {found : Lexeme} {behind : Nat × List Char}
    (h : lexeme offset c rest = (found, some behind)) :
    behind.2.length ≤ rest.length := by
  unfold lexeme at h
  split at h
  · cases h
    simp
  split at h
  · split at h
    · rename_i hscan
      cases h
      exact scanString_length hscan
    · simp at h
  split at h
  · split at h
    · rename_i hscan
      have := scanNumber_length hscan
      cases h
      exact Nat.le_of_lt_succ this
    · simp at h
  · split at h
    · split at h
      · rename_i hscan
        cases h
        exact scanWord_length hscan
      · simp at h
    · simp at h

/-- The tokens of a text that starts behind `offset` bytes. -/
def tokensFrom (offset : Nat) (text : List Char) : List Token :=
  match text with
  | [] => []
  | c :: rest =>
      if Text.isSpace c then
        tokensFrom (offset + 1) rest
      else
        match _hfound : lexeme offset c rest with
        | (found, none) => [⟨offset, found⟩]
        | (found, some behind) =>
            ⟨offset, found⟩ :: tokensFrom behind.1 behind.2
  termination_by text.length
  decreasing_by
    · simp
    · have := lexeme_length _hfound
      simp only [List.length_cons]
      omega

end Json
end DocTemplate
