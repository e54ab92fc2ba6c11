import DocTemplate.Chunk
import DocTemplate.Markup.Reference

/-!
# The attributes of a tag

An attribute is a key, an equals sign and a value in quotes of either kind.
Blanks may stand around the equals sign, and none are needed between two
attributes.  A key may be anything up to a blank or an equals sign, but it
cannot be used twice; that is checked before the value is looked at.
-/

namespace DocTemplate
namespace Markup

/-- A text that stands behind so many bytes. -/
structure Located where
  offset : Nat
  text : List Char

namespace Located

/-- The text behind its leading blanks. -/
def skipSpaces (located : Located) : Located :=
  let spaces := located.text.takeWhile Text.isSpace
  ⟨located.offset + spaces.length, located.text.dropWhile Text.isSpace⟩

theorem skipSpaces_length (located : Located) :
    located.skipSpaces.text.length ≤ located.text.length :=
  (List.dropWhile_sublist Text.isSpace).length_le

end Located

/-- Whether a character ends a key. -/
def endsKey (c : Char) : Bool := c = '=' || Text.isSpace c

/-- The text behind the equals sign that follows a key. -/
def behindEquals (located : Located) : Except MarkupProblem Located :=
  let next := located.skipSpaces
  match next.text with
  | '=' :: rest => .ok ⟨next.offset + 1, rest⟩
  | _ => .error (.attribute (.noEquals next.offset))

/-- A value as it is written, and the text behind its closing quote. -/
def quotedValue (located : Located) :
    Except MarkupProblem (List Char × Located) :=
  let next := located.skipSpaces
  match next.text with
  | [] => .error (.attribute (.noValue next.offset))
  | quote :: rest =>
      if quote = '"' || quote = '\'' then
        let value := rest.takeWhile (· != quote)
        let stop := next.offset + 1 + Text.byteCount value
        match rest.dropWhile (· != quote) with
        | _ :: behind => .ok (value, ⟨stop + 1, behind⟩)
        | [] => .error (.attribute (.openQuote stop quote))
      else
        .error (.attribute (.notQuoted next.offset))

theorem behindEquals_length {located rest : Located}
    (h : behindEquals located = .ok rest) :
    rest.text.length < located.text.length := by
  have hskip := located.skipSpaces_length
  unfold behindEquals at h
  dsimp only at h
  split at h
  · rename_i heq
    rw [heq] at hskip
    simp only [Except.ok.injEq] at h
    rw [← h]
    exact hskip
  · simp at h

theorem quotedValue_length {located rest : Located} {value : List Char}
    (h : quotedValue located = .ok (value, rest)) :
    rest.text.length < located.text.length := by
  have hskip := located.skipSpaces_length
  unfold quotedValue at h
  dsimp only at h
  split at h
  · simp at h
  · rename_i quote body heq
    rw [heq] at hskip
    split at h
    · split at h
      · rename_i mark behind hbehind
        simp only [Except.ok.injEq, Prod.mk.injEq] at h
        have hdrop :=
          (List.dropWhile_sublist (· != quote) (l := body)).length_le
        rw [hbehind] at hdrop
        rw [← h.2]
        simp only [List.length_cons] at *
        omega
      · simp at h
    · simp at h

/-- Reads the attributes of a text.  The keys before it are known with their
places. -/
def attributesFrom (known : List (List Char × Nat)) (located : Located) :
    Except MarkupProblem OwnAttributes :=
  match _hstart : located.skipSpaces.text with
  | [] => .ok []
  | first :: rest =>
      let place := located.skipSpaces.offset
      let key := first :: rest.takeWhile (!endsKey ·)
      let behindKey : Located :=
        ⟨place + Text.byteCount key, rest.dropWhile (!endsKey ·)⟩
      match _hequals : behindEquals behindKey with
      | .error problem => .error problem
      | .ok behindSign =>
          match known.lookup key with
          | some previous => .error (.attribute (.repeated place previous))
          | none =>
              match _hvalue : quotedValue behindSign with
              | .error problem => .error problem
              | .ok (raw, behind) => do
                  let value ← (unescape raw).mapError .attributeValue
                  let others ← attributesFrom ((key, place) :: known) behind
                  return (String.ofList key, value) :: others
  termination_by located.text.length
  decreasing_by
    have := located.skipSpaces_length
    have := behindEquals_length _hequals
    have := quotedValue_length _hvalue
    have : behindKey.text.length ≤ rest.length :=
      (List.dropWhile_sublist (!endsKey ·)).length_le
    simp only [_hstart, List.length_cons] at *
    omega

/-- The name at the start of a tag. -/
def tagName (content : List Char) : List Char :=
  content.takeWhile (!Text.isSpace ·)

/-- The attributes of a tag, whose content is given without its brackets. -/
def attributes (content : List Char) : Except MarkupProblem OwnAttributes :=
  attributesFrom []
    ⟨Text.byteCount (tagName content), content.dropWhile (!Text.isSpace ·)⟩

end Markup
end DocTemplate
