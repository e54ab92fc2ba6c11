import DocTemplate.Markup.Error
import DocTemplate.Text.Blank
import DocTemplate.Text.Utf8

/-!
# Cutting a template into pieces

A template is character data and, between angle brackets, tags, comments,
instructions, declarations and literal sections.  Cutting loses nothing: the
sources of the pieces, one after the other, are the template as far as it has
been cut.
-/

namespace DocTemplate
namespace Markup

inductive Piece
  /-- Character data up to the next angle bracket. -/
  | text (contents : List Char)
  /-- Character data in which nothing is a reference. -/
  | literal (contents : List Char)
  /-- What stands between the brackets of a comment, an instruction or a
  document type. -/
  | skipped (contents : List Char)
  | startTag (content : List Char)
  | emptyTag (content : List Char)
  | endTag (content : List Char)
deriving DecidableEq, Repr

/-- How a literal section starts, behind its angle bracket. -/
def literalMark : List Char :=
  ['!', '[', 'C', 'D', 'A', 'T', 'A', '[']

/-- How a literal section ends. -/
def literalEnd : List Char := [']', ']', '>']

/-- A piece as it stands in the template. -/
def Piece.source : Piece → List Char
  | .text contents => contents
  | .literal contents => '<' :: (literalMark ++ contents ++ literalEnd)
  | .skipped contents => '<' :: (contents ++ ['>'])
  | .startTag content => '<' :: (content ++ ['>'])
  | .emptyTag content => '<' :: (content ++ ['/', '>'])
  | .endTag content => '<' :: '/' :: (content ++ ['>'])

/-- Cuts a text at the first place where `mark` stands. -/
def cutAt? (mark : List Char) : List Char → Option (List Char × List Char)
  | [] => none
  | c :: rest =>
      if mark.isPrefixOf (c :: rest) then
        some ([], (c :: rest).drop mark.length)
      else
        (cutAt? mark rest).map fun (before, behind) => (c :: before, behind)

/-- Cuts a tag at the bracket that closes it, which stands outside all
quotes. -/
def cutTag? (quote : Option Char) :
    List Char → Option (List Char × List Char)
  | [] => none
  | c :: rest =>
      let keep (quote : Option Char) :=
        (cutTag? quote rest).map fun (before, behind) => (c :: before, behind)
      match quote with
      | some mark => keep (if c = mark then none else some mark)
      | none =>
          if c = '>' then some ([], rest)
          else if c = '"' || c = '\'' then keep (some c)
          else keep none

/-- Cuts a document type at the bracket that balances its first one. -/
def cutBalanced? (depth : Nat) : List Char → Option (List Char × List Char)
  | [] => none
  | c :: rest =>
      let keep (depth : Nat) :=
        (cutBalanced? depth rest).map fun (before, behind) =>
          (c :: before, behind)
      if c = '<' then
        keep (depth + 1)
      else if c = '>' then
        match depth with
        | 0 => some ([], rest)
        | depth + 1 => keep depth
      else
        keep depth

/-- A problem with a piece, and how many bytes of the piece stand before
it. -/
structure PieceFault where
  problem : MarkupProblem
  offset : Nat := 0
deriving DecidableEq, Repr

/-- Cuts a comment, given behind its exclamation mark. -/
def cutComment (text : List Char) :
    Except PieceFault (Piece × List Char) :=
  match text with
  | '-' :: '-' :: inside =>
      match cutAt? ['-', '-', '>'] inside with
      | some (before, behind) =>
          .ok (.skipped ('!' :: '-' :: '-' :: (before ++ ['-', '-'])), behind)
      | none => .error { problem := .openComment }
  | _ => .error { problem := .openComment }

/-- Cuts a literal section, given from its exclamation mark. -/
def cutLiteral (text : List Char) :
    Except PieceFault (Piece × List Char) :=
  if literalMark.isPrefixOf text then
    match cutAt? literalEnd (text.drop literalMark.length) with
    | some (before, behind) => .ok (.literal before, behind)
    | none => .error { problem := .openCharacterData }
  else
    .error { problem := .openCharacterData }

/-- The name of a document type declaration, in small letters. -/
def doctypeName : List Char := "doctype".toList

/-- Cuts a document type, given behind its exclamation mark. -/
def cutDoctype (text : List Char) :
    Except PieceFault (Piece × List Char) :=
  match cutBalanced? 0 text with
  | none => .error { problem := .openDoctype }
  | some (before, behind) =>
      if (before.take doctypeName.length).map Char.toLower = doctypeName then
        if (before.drop doctypeName.length).all Text.isSpace then
          .error ⟨.doctypeWithoutName, Text.byteCount before + 2⟩
        else
          .ok (.skipped ('!' :: before), behind)
      else
        .error { problem := .openDoctype }

/-- Cuts an instruction, given behind its question mark. -/
def cutInstruction (text : List Char) :
    Except PieceFault (Piece × List Char) :=
  match text with
  | '>' :: _ => .error { problem := .openInstruction }
  | _ =>
      match cutAt? ['?', '>'] text with
      | some (before, behind) =>
          .ok (.skipped ('?' :: (before ++ ['?'])), behind)
      | none => .error { problem := .openInstruction }

/-- The piece of a tag without its brackets. -/
def tagPiece (content : List Char) : Piece :=
  match content with
  | '/' :: name => .endTag name
  | _ =>
      if content.getLast? = some '/' then
        .emptyTag content.dropLast
      else
        .startTag content

/-- Cuts a piece behind its angle bracket. -/
def cutBracketed (text : List Char) :
    Except PieceFault (Piece × List Char) :=
  match text with
  | '!' :: rest =>
      match rest with
      | '-' :: _ => cutComment rest
      | '[' :: _ => cutLiteral text
      | 'D' :: _ => cutDoctype rest
      | 'd' :: _ => cutDoctype rest
      | _ => .error { problem := .unknownDeclaration }
  | '?' :: rest => cutInstruction rest
  | _ =>
      match cutTag? none text with
      | some (content, behind) => .ok (tagPiece content, behind)
      | none => .error { problem := .openTag }

/-- Cuts the first piece of a text that is not empty. -/
def cutPiece (first : Char) (rest : List Char) :
    Except PieceFault (Piece × List Char) :=
  if first = '<' then
    cutBracketed rest
  else
    .ok (.text (first :: rest.takeWhile (· != '<')),
      rest.dropWhile (· != '<'))

/-! ## Cutting loses nothing -/

theorem eq_of_cutAt? {mark text before behind : List Char}
    (h : cutAt? mark text = some (before, behind)) :
    text = before ++ mark ++ behind := by
  induction text generalizing before behind with
  | nil => simp [cutAt?] at h
  | cons c rest ih =>
      simp only [cutAt?] at h
      split at h
      · rename_i hmark
        obtain ⟨tail, htail⟩ := List.isPrefixOf_iff_prefix.1 hmark
        simp only [Option.some.injEq, Prod.mk.injEq] at h
        obtain ⟨hbefore, hbehind⟩ := h
        rw [← htail, List.drop_left] at hbehind
        simp [← hbefore, ← hbehind, htail]
      · obtain ⟨⟨inner, tail⟩, hcut, hpair⟩ := Option.map_eq_some_iff.1 h
        simp only [Prod.mk.injEq] at hpair
        rw [← hpair.1, ← hpair.2]
        simp [ih hcut]

theorem eq_of_cutTag? {quote : Option Char} {text before behind : List Char}
    (h : cutTag? quote text = some (before, behind)) :
    text = before ++ '>' :: behind := by
  induction text generalizing quote before behind with
  | nil => simp [cutTag?] at h
  | cons c rest ih =>
      have hkeep : ∀ inner : Option Char,
          (cutTag? inner rest).map (fun (before, behind) =>
            (c :: before, behind)) = some (before, behind) →
          c :: rest = before ++ '>' :: behind := by
        intro inner hmap
        obtain ⟨⟨head, tail⟩, hcut, hpair⟩ := Option.map_eq_some_iff.1 hmap
        simp only [Prod.mk.injEq] at hpair
        rw [← hpair.1, ← hpair.2]
        simp [ih hcut]
      simp only [cutTag?] at h
      split at h
      · exact hkeep _ h
      · split at h
        · rename_i hbracket
          simp only [Option.some.injEq, Prod.mk.injEq] at h
          simp [hbracket, ← h.1, ← h.2]
        · split at h
          · exact hkeep _ h
          · exact hkeep _ h

theorem eq_of_cutBalanced? {depth : Nat} {text before behind : List Char}
    (h : cutBalanced? depth text = some (before, behind)) :
    text = before ++ '>' :: behind := by
  induction text generalizing depth before behind with
  | nil => simp [cutBalanced?] at h
  | cons c rest ih =>
      have hkeep : ∀ inner : Nat,
          (cutBalanced? inner rest).map (fun (before, behind) =>
            (c :: before, behind)) = some (before, behind) →
          c :: rest = before ++ '>' :: behind := by
        intro inner hmap
        obtain ⟨⟨head, tail⟩, hcut, hpair⟩ := Option.map_eq_some_iff.1 hmap
        simp only [Prod.mk.injEq] at hpair
        rw [← hpair.1, ← hpair.2]
        simp [ih hcut]
      simp only [cutBalanced?] at h
      split at h
      · exact hkeep _ h
      · split at h
        · rename_i hbracket
          split at h
          · simp only [Option.some.injEq, Prod.mk.injEq] at h
            simp [hbracket, ← h.1, ← h.2]
          · exact hkeep _ h
        · exact hkeep _ h

theorem source_tagPiece (content : List Char) :
    (tagPiece content).source = '<' :: (content ++ ['>']) := by
  unfold tagPiece
  split
  · rfl
  · split
    · rename_i hlast
      obtain ⟨init, hinit⟩ := List.getLast?_eq_some_iff.1 hlast
      simp [Piece.source, hinit]
    · rfl

theorem source_of_cutComment {text behind : List Char} {piece : Piece}
    (h : cutComment text = .ok (piece, behind)) :
    ∃ inside, piece.source = '<' :: '!' :: inside ∧
      text = inside ++ behind := by
  unfold cutComment at h
  split at h
  · split at h
    · rename_i before tail hcut
      simp only [Except.ok.injEq, Prod.mk.injEq] at h
      refine ⟨'-' :: '-' :: (before ++ ['-', '-', '>']), ?_, ?_⟩
      · simp [← h.1, Piece.source]
      · simp [← h.2, eq_of_cutAt? hcut]
    · simp at h
  · simp at h

theorem source_of_cutLiteral {text behind : List Char} {piece : Piece}
    (h : cutLiteral text = .ok (piece, behind)) :
    ∃ inside, piece.source = '<' :: inside ∧ text = inside ++ behind := by
  unfold cutLiteral at h
  split at h
  · rename_i hmark
    obtain ⟨tail, htail⟩ := List.isPrefixOf_iff_prefix.1 hmark
    rw [← htail, List.drop_left] at h
    split at h
    · rename_i before _ hcut
      simp only [Except.ok.injEq, Prod.mk.injEq] at h
      refine ⟨literalMark ++ before ++ literalEnd, ?_, ?_⟩
      · simp [← h.1, Piece.source]
      · simp [← htail, ← h.2, eq_of_cutAt? hcut]
    · simp at h
  · simp at h

theorem source_of_cutDoctype {text behind : List Char} {piece : Piece}
    (h : cutDoctype text = .ok (piece, behind)) :
    ∃ inside, piece.source = '<' :: '!' :: inside ∧
      text = inside ++ behind := by
  unfold cutDoctype at h
  split at h
  · simp at h
  · rename_i before _ hcut
    split at h
    · split at h
      · simp at h
      · simp only [Except.ok.injEq, Prod.mk.injEq] at h
        refine ⟨before ++ ['>'], ?_, ?_⟩
        · simp [← h.1, Piece.source]
        · simp [← h.2, eq_of_cutBalanced? hcut]
    · simp at h

theorem source_of_cutInstruction {text behind : List Char} {piece : Piece}
    (h : cutInstruction text = .ok (piece, behind)) :
    ∃ inside, piece.source = '<' :: '?' :: inside ∧
      text = inside ++ behind := by
  unfold cutInstruction at h
  split at h
  · simp at h
  · split at h
    · rename_i before _ hcut
      simp only [Except.ok.injEq, Prod.mk.injEq] at h
      refine ⟨before ++ ['?', '>'], ?_, ?_⟩
      · simp [← h.1, Piece.source]
      · simp [← h.2, eq_of_cutAt? hcut]
    · simp at h

theorem source_of_cutBracketed {text behind : List Char} {piece : Piece}
    (h : cutBracketed text = .ok (piece, behind)) :
    ∃ inside, piece.source = '<' :: inside ∧ text = inside ++ behind := by
  unfold cutBracketed at h
  split at h
  · split at h
    · obtain ⟨inside, hsource, htext⟩ := source_of_cutComment h
      exact ⟨'!' :: inside, hsource, by simp [htext]⟩
    · exact source_of_cutLiteral h
    · obtain ⟨inside, hsource, htext⟩ := source_of_cutDoctype h
      exact ⟨'!' :: inside, hsource, by simp [htext]⟩
    · obtain ⟨inside, hsource, htext⟩ := source_of_cutDoctype h
      exact ⟨'!' :: inside, hsource, by simp [htext]⟩
    · simp at h
  · obtain ⟨inside, hsource, htext⟩ := source_of_cutInstruction h
    exact ⟨'?' :: inside, hsource, by simp [htext]⟩
  · split at h
    · rename_i content _ hcut
      simp only [Except.ok.injEq, Prod.mk.injEq] at h
      refine ⟨content ++ ['>'], ?_, ?_⟩
      · rw [← h.1, source_tagPiece]
      · simp [← h.2, eq_of_cutTag? hcut]
    · simp at h

/-- A piece is what has been cut off the front of a text, and it is never
empty. -/
theorem source_of_cutPiece {first : Char} {rest behind : List Char}
    {piece : Piece} (h : cutPiece first rest = .ok (piece, behind)) :
    ∃ inside, piece.source = first :: inside ∧ rest = inside ++ behind := by
  unfold cutPiece at h
  split at h
  · rename_i hbracket
    rw [hbracket]
    exact source_of_cutBracketed h
  · simp only [Except.ok.injEq, Prod.mk.injEq] at h
    exact ⟨rest.takeWhile (· != '<'), by simp [← h.1, Piece.source],
      by simp [← h.2]⟩

theorem cutPiece_length {first : Char} {rest behind : List Char}
    {piece : Piece} (h : cutPiece first rest = .ok (piece, behind)) :
    behind.length ≤ rest.length := by
  obtain ⟨inside, _, hrest⟩ := source_of_cutPiece h
  simp [hrest]

/-- The pieces of a text, up to the first that cannot be cut. -/
def pieces (text : List Char) : List Piece × Option PieceFault :=
  match text with
  | [] => ([], none)
  | first :: rest =>
      match _hcut : cutPiece first rest with
      | .error fault => ([], some fault)
      | .ok (piece, behind) =>
          let (others, fault) := pieces behind
          (piece :: others, fault)
  termination_by text.length
  decreasing_by
    have := cutPiece_length _hcut
    simp only [List.length_cons]
    omega

end Markup
end DocTemplate
