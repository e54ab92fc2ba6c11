/-!
# Blanks, letter case and separated lists

Attribute values, option values and list items are trimmed before they are
read, and several of them are lists separated by a comma.  Blank means the
Unicode property White_Space: a no-break space or an ideographic space around
a value is dropped just like an ordinary one.  Names are compared ignoring
case, of ASCII letters only.
-/

namespace DocTemplate
namespace Text

/-- The characters with the Unicode property White_Space. -/
def isBlank (c : Char) : Bool :=
  let n := c.toNat
  (9 ≤ n && n ≤ 13) || n == 0x20 || n == 0x85 || n == 0xA0 || n == 0x1680
    || (0x2000 ≤ n && n ≤ 0x200A) || n == 0x2028 || n == 0x2029
    || n == 0x202F || n == 0x205F || n == 0x3000

/-- The blanks between the parts of a tag and between the tokens of a data
file: space, tab, line feed and carriage return. -/
def isSpace (c : Char) : Bool :=
  c = ' ' || c = '\t' || c = '\n' || c = '\r'

/-- A run of what satisfies `p` ends where something does not. -/
theorem takeWhile_run {α : Type} {p : α → Bool} {run rest : List α}
    (hrun : ∀ item ∈ run, p item = true)
    (hrest : ∀ item ∈ rest.head?, p item = false) :
    (run ++ rest).takeWhile p = run := by
  rw [List.takeWhile_append_of_pos hrun]
  cases rest with
  | nil => exact List.append_nil run
  | cons item tail =>
      rw [List.takeWhile_cons, hrest item rfl]
      exact List.append_nil run

theorem dropWhile_run {α : Type} {p : α → Bool} {run rest : List α}
    (hrun : ∀ item ∈ run, p item = true)
    (hrest : ∀ item ∈ rest.head?, p item = false) :
    (run ++ rest).dropWhile p = rest := by
  rw [List.dropWhile_append_of_pos hrun]
  cases rest with
  | nil => rfl
  | cons item tail =>
      rw [List.dropWhile_cons, hrest item rfl]
      rfl

/-- Drops what satisfies `p` from the end of a list, such as a text. -/
def dropTrailing {α : Type} (p : α → Bool) (items : List α) : List α :=
  (items.reverse.dropWhile p).reverse

/-- Drops the characters that satisfy `p` from both ends of a text. -/
def dropAround (p : Char → Bool) (text : List Char) : List Char :=
  dropTrailing p (text.dropWhile p)

/-- A text with its ASCII capitals made small. -/
def lower (text : String) : String :=
  String.ofList (text.toList.map Char.toLower)

@[simp] theorem toList_lower (text : String) :
    (lower text).toList = text.toList.map Char.toLower := by
  simp [lower]

theorem toLower_toLower (c : Char) : c.toLower.toLower = c.toLower := by
  have hsmall : ¬(c.toLower.val ≥ 'A'.val ∧ c.toLower.val ≤ 'Z'.val) := by
    delta Char.toLower
    split <;> grind
  exact dif_neg hsmall

@[simp] theorem lower_lower (text : String) :
    lower (lower text) = lower text := by
  have hsmall : Char.toLower ∘ Char.toLower = Char.toLower :=
    funext toLower_toLower
  rw [lower, toList_lower, List.map_map, hsmall, lower]

/-- A text without the blanks around it. -/
def trim (text : String) : String :=
  String.ofList (dropAround isBlank text.toList)

/-- The pieces of a text between the occurrences of a separator.  There is
always one more piece than there are separators. -/
def pieces (separator : Char) : List Char → List (List Char)
  | [] => [[]]
  | c :: rest =>
      if c = separator then
        [] :: pieces separator rest
      else
        match pieces separator rest with
        | [] => [[c]]
        | piece :: others => (c :: piece) :: others

theorem pieces_ne_nil (separator : Char) (text : List Char) :
    pieces separator text ≠ [] := by
  cases text with
  | nil => simp [pieces]
  | cons c rest =>
      simp only [pieces]
      split
      · simp
      · split <;> simp

/-- The fields of a separated list, each trimmed. -/
def fields (separator : Char) (text : String) : List String :=
  (pieces separator text.toList).map fun piece =>
    String.ofList (dropAround isBlank piece)

/-- The lines of a text, cut at each line feed. -/
def lines (text : String) : List String :=
  (pieces '\n' text.toList).map String.ofList

end Text
end DocTemplate
