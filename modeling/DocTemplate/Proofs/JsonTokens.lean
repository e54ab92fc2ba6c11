import DocTemplate.Json.Parser
import DocTemplate.Json.Printer
import Mathlib.Algebra.Group.Int.Defs
import Mathlib.Algebra.Group.Nat.Defs
import Mathlib.Data.Bool.AllAny
import Mathlib.Data.Nat.Log

/-!
# The tokens of written JSON

Each thing that is written as JSON is cut into the one token that it was: a
mark, a string with its escapes, a whole number, a word.  A number has no mark
at its end, so it is only cut off where neither a digit nor the point or the
letter of a longer number follows.
-/

namespace DocTemplate

/-! ## Rounding whole numbers -/

namespace Decimal
namespace BinaryFormat

variable (format : BinaryFormat) (numerator denominator : Nat)

theorem unitOf_le :
    format.unitOf numerator denominator ≤
      max ((numerator.log2 : Int) - denominator.log2 - format.precision + 1)
        format.leastUnit := by
  unfold unitOf
  dsimp only
  split_ifs <;> omega

theorem le_unitOf :
    (numerator.log2 : Int) - denominator.log2 - format.precision ≤
      format.unitOf numerator denominator := by
  unfold unitOf
  dsimp only
  split_ifs <;> omega

end BinaryFormat

theorem divideToEven_le (numerator denominator : Nat) :
    divideToEven numerator denominator ≤ numerator + 1 := by
  have hquotient := Nat.div_le_self numerator denominator
  unfold divideToEven
  dsimp only
  split_ifs <;> omega

theorem inUnits_fst_le {numerator denominator power : Nat} {unit : Int}
    (h : -unit ≤ power) :
    (inUnits numerator denominator unit).1 ≤ numerator * 2 ^ power := by
  unfold inUnits
  split
  · exact Nat.le_mul_of_pos_right numerator (Nat.two_pow_pos power)
  · apply Nat.mul_le_mul_left
    exact Nat.pow_le_pow_right (by decide) (by omega)

/-- A quotient far below the greatest double is rounded to a finite one.  The
unit of that one is about that of its last bit. -/
theorem nearest_double {numerator : Nat} (h : numerator.log2 ≤ 1000)
    (denominator : Nat) :
    ∃ significand unit,
      double.nearest false numerator denominator =
        .finite false significand unit ∧
      unit ≤ max ((numerator.log2 : Int) - 51) (-1073) ∧
      significand ≤
        max (2 ^ 52) (numerator * 2 ^ (53 + denominator.log2) + 1) := by
  have hupper : double.unitOf numerator denominator ≤
      max ((numerator.log2 : Int) - denominator.log2 - 53 + 1) (-1074) :=
    double.unitOf_le numerator denominator
  have hlower : (numerator.log2 : Int) - denominator.log2 - 53 ≤
      double.unitOf numerator denominator :=
    double.le_unitOf numerator denominator
  have hgreatest : double.greatestUnit = 971 := rfl
  unfold BinaryFormat.nearest
  split
  · exact ⟨0, -1074, rfl, by omega, Nat.zero_le _⟩
  · generalize double.unitOf numerator denominator = unit at hupper hlower
    have htop : (inUnits numerator denominator unit).1 ≤
        numerator * 2 ^ (53 + denominator.log2) :=
      inUnits_fst_le (by push_cast; omega)
    have hrounded := divideToEven_le
      (inUnits numerator denominator unit).1
      (inUnits numerator denominator unit).2
    dsimp only
    split
    · rw [if_neg (by omega)]
      exact ⟨_, _, rfl, by omega, Nat.le_max_left _ _⟩
    · rw [if_neg (by omega)]
      exact ⟨_, _, rfl, by omega, by omega⟩

end Decimal

namespace Json

/-- No whole number of 64 bits is too large. -/
theorem isTooLarge_whole {value : Nat} (h : value ≤ Text.maxLength) :
    Magnitude.isTooLarge ⟨value, 0⟩ = false := by
  have hvalue : value < 2 ^ 64 := Nat.lt_of_le_of_lt h (by decide)
  have hlog : value.log2 ≤ 64 := by
    by_cases hzero : value = 0
    · rw [hzero]
      decide
    · exact ((Nat.log2_lt hzero).mpr hvalue).le
  have hone : Decimal.double.nearest false (Nat.pow 10 (0 : Int).toNat) 1 =
      .finite false (2 ^ 52) (-52) := by
    decide
  -- the value and a power of ten are rounded, and so is their product
  obtain ⟨first, unit, hfirst, hunit, hsize⟩ :=
    Decimal.nearest_double (hlog.trans (by decide)) 1
  have hproduct : (first * 2 ^ 52).log2 ≤ 1000 := by
    have hsmall : first * 2 ^ 52 < 2 ^ 200 := by
      rw [show Nat.log2 1 = 0 from rfl] at hsize
      omega
    by_cases hzero : first * 2 ^ 52 = 0
    · rw [hzero]
      decide
    · exact ((Nat.log2_lt hzero).mpr hsmall).le.trans (by decide)
  obtain ⟨significand, last, hlast, _, _⟩ :=
    Decimal.nearest_double hproduct (2 ^ (52 - unit).toNat)
  have hunits : Decimal.inUnits (first * 2 ^ 52) 1 (-(unit + -52)) =
      (first * 2 ^ 52, 2 ^ (52 - unit).toNat) := by
    have hnonneg : 0 ≤ -(unit + -52) := by omega
    have hexponent : -(unit + -52) = 52 - unit := by omega
    rw [Decimal.inUnits, if_pos hnonneg, hexponent, Nat.one_mul]
    rfl
  unfold Magnitude.isTooLarge
  split
  · rfl
  · simp only [hone, hfirst, hunits, hlast]
    rfl

/-! ## Numbers -/

/-- Whether a text does not go on with a number that stands before it. -/
def Apart (text : List Char) : Prop :=
  ∀ c ∈ text.head?, c.isDigit = false ∧ c ≠ '.' ∧ c ≠ 'e' ∧ c ≠ 'E'

theorem Apart.append {first second : List Char} (hfirst : Apart first)
    (hsecond : Apart second) : Apart (first ++ second) := by
  cases first with
  | nil => exact hsecond
  | cons c rest => exact hfirst

theorem le_ofDigitChars (digits : List Char) (value : Nat) :
    value ≤ Nat.ofDigitChars 10 digits value := by
  induction digits generalizing value with
  | nil => exact Nat.le_refl value
  | cons digit rest ih =>
      rw [Nat.ofDigitChars_cons]
      have hlater := ih (10 * value + (digit.toNat - '0'.toNat))
      omega

theorem ofWhole_eq {digits : List Char} {value : Nat}
    (h : Nat.ofDigitChars 10 digits value ≤ Text.maxLength) :
    Magnitude.ofWhole value digits =
      ⟨Nat.ofDigitChars 10 digits value, 0⟩ := by
  induction digits generalizing value with
  | nil => rfl
  | cons digit rest ih =>
      rw [Nat.ofDigitChars_cons] at h ⊢
      have hbound := le_ofDigitChars rest
        (10 * value + (digit.toNat - '0'.toNat))
      have hfits : ¬ Text.maxLength < Magnitude.push value digit := by
        unfold Magnitude.push
        omega
      rw [Magnitude.ofWhole, if_neg hfits]
      exact ih h

/-- Only zero is written with a zero in front. -/
theorem head_toDigits {value : Nat} (h : 0 < value) :
    ∃ first rest, Nat.toDigits 10 value = first :: rest ∧ first ≠ '0' := by
  have hdigit : ∀ digit < 10, 0 < digit → digit.digitChar ≠ '0' := by
    decide
  induction value using Nat.strongRecOn with
  | ind value ih =>
      by_cases hsmall : value < 10
      · exact ⟨value.digitChar, [], Nat.toDigits_of_lt_base hsmall,
          hdigit value hsmall h⟩
      · have hle : 10 ≤ value := Nat.le_of_not_lt hsmall
        obtain ⟨first, rest, hfront, hfirst⟩ :=
          ih (value / 10) (Nat.div_lt_self h (by decide)) (by omega)
        rw [Nat.toDigits_of_base_le (by decide) hle, hfront]
        exact ⟨first, _, rfl, hfirst⟩

theorem isDigit_of_mem_toDigits {value : Nat} {c : Char}
    (h : c ∈ Nat.toDigits 10 value) : c.isDigit = true :=
  Nat.isDigit_of_mem_toDigits (by decide) (by decide) h

theorem endNumber_whole {value : Nat} (h : value ≤ Text.maxLength)
    (offset : Nat) (rest : List Char) :
    endNumber offset ⟨value, 0⟩ rest = .ok rest := by
  rw [endNumber, isTooLarge_whole h]
  rfl

theorem scanFraction_whole {value : Nat} (h : value ≤ Text.maxLength)
    {rest : List Char} (hrest : Apart rest) (offset : Nat) :
    scanFraction offset ⟨value, 0⟩ rest = .ok rest := by
  cases rest with
  | nil => exact endNumber_whole h offset []
  | cons c tail =>
      obtain ⟨_, hpoint, hsmall, hcapital⟩ := hrest c rfl
      unfold scanFraction
      split
      · rename_i heq
        exact absurd (List.cons.inj heq).1 hpoint
      · simp only [scanTail, hsmall, hcapital, decide_false, Bool.or_false,
          Bool.false_eq_true, if_false]
        exact endNumber_whole h offset (c :: tail)

theorem scanUnsigned_whole {value : Nat} (h : value ≤ Text.maxLength)
    {rest : List Char} (hrest : Apart rest) (offset : Nat) :
    scanUnsigned offset (Nat.toDigits 10 value ++ rest) = .ok rest := by
  -- a zero in front ends the whole part, so zero goes its own way
  by_cases hzero : value = 0
  · have hdigit : (rest.head?.map Char.isDigit).getD false = false := by
      cases rest with
      | nil => rfl
      | cons c tail => exact (hrest c rfl).1
    rw [hzero, Nat.toDigits_zero, List.singleton_append, scanUnsigned, hdigit]
    exact scanFraction_whole (Nat.zero_le _) hrest _
  · obtain ⟨first, others, hdigits, hfirst⟩ :=
      head_toDigits (Nat.pos_of_ne_zero hzero)
    have hall : ∀ c ∈ Nat.toDigits 10 value, c.isDigit = true :=
      fun c hmem => isDigit_of_mem_toDigits hmem
    have hbehind : ∀ c ∈ rest.head?, c.isDigit = false :=
      fun c hhead => (hrest c hhead).1
    have htake := Text.takeWhile_run hall hbehind
    have hdrop := Text.dropWhile_run hall hbehind
    have hvalue : Nat.ofDigitChars 10 (Nat.toDigits 10 value) 0 = value :=
      Nat.ofDigitChars_toDigits (by decide) (by decide)
    have hmagnitude : Magnitude.ofWhole 0 (Nat.toDigits 10 value) =
        ⟨value, 0⟩ := by
      rw [ofWhole_eq (by rw [hvalue]; exact h), hvalue]
    have hisDigit : first.isDigit = true := by
      apply hall
      rw [hdigits]
      exact List.mem_cons_self
    rw [hdigits, List.cons_append] at htake hdrop ⊢
    unfold scanUnsigned
    split
    · rename_i heq
      cases heq
    · rename_i heq
      exact absurd (List.cons.inj heq).1 hfirst
    · rename_i heq
      obtain ⟨rfl, _⟩ := List.cons.inj heq
      rw [if_pos hisDigit]
      simp only [htake, hdrop, ← hdigits, hmagnitude]
      exact scanFraction_whole h hrest _

/-- A whole number of 64 bits as it is written. -/
def IsWhole (literal : String) : Prop :=
  ∃ value ≤ Text.maxLength,
    literal = toString value ∨ literal = "-" ++ toString value

theorem toList_toString (value : Nat) :
    (toString value).toList = Nat.toDigits 10 value := Nat.toList_repr

theorem exists_toDigits (value : Nat) :
    ∃ first rest, Nat.toDigits 10 value = first :: rest ∧ first.isDigit := by
  obtain ⟨first, rest, hdigits⟩ :=
    List.exists_cons_of_ne_nil (Nat.toDigits_ne_nil (b := 10) (n := value))
  refine ⟨first, rest, hdigits, ?_⟩
  apply isDigit_of_mem_toDigits
  rw [hdigits]
  exact List.mem_cons_self

theorem scanNumber_whole {literal : String} (h : IsWhole literal)
    {rest : List Char} (hrest : Apart rest) (offset : Nat) :
    scanNumber offset (literal.toList ++ rest) = .ok rest := by
  obtain ⟨value, hvalue, rfl | rfl⟩ := h
  · obtain ⟨first, others, hdigits, hdigit⟩ := exists_toDigits value
    have hscan := scanUnsigned_whole hvalue hrest offset
    rw [toList_toString]
    rw [hdigits] at hscan ⊢
    unfold scanNumber
    split
    · rename_i heq
      obtain ⟨rfl, _⟩ := List.cons.inj heq
      cases hdigit
    · exact hscan
  · rw [String.toList_append, toList_toString]
    exact scanUnsigned_whole hvalue hrest (offset + 1)

/-! ## Strings -/

theorem unescape_short {c letter : Char} (hletter : letter ≠ 'u')
    (h : shortEscape? letter = some c) (offset : Nat) (rest : List Char) :
    unescape offset (letter :: rest) = .ok ⟨c, offset + 1, rest⟩ := by
  unfold unescape
  split
  · rename_i heq
    cases heq
  · rename_i heq
    exact absurd (List.cons.inj heq).1 hletter
  · rename_i heq
    obtain ⟨rfl, rfl⟩ := List.cons.inj heq
    rw [h]

theorem unescape_control {c : Char} (h : c.toNat < 0x20) (offset : Nat)
    (rest : List Char) :
    unescape offset ('u' :: '0' :: '0' :: hexDigit (c.toNat / 16) ::
        hexDigit c.toNat :: rest) = .ok ⟨c, offset + 5, rest⟩ := by
  have hdigits : ∀ value < 0x20,
      Text.hexDigit? (hexDigit (value / 16)) = some (value / 16) ∧
        Text.hexDigit? (hexDigit value) = some (value % 16) := by
    decide
  obtain ⟨hhigh, hlow⟩ := hdigits c.toNat h
  have hzero : Text.hexDigit? '0' = some 0 := by
    decide
  have hvalue : ((16 * 0 + 0) * 16 + c.toNat / 16) * 16 + c.toNat % 16 =
      c.toNat := by
    omega
  have hquad : quad? ('0' :: '0' :: hexDigit (c.toNat / 16) ::
      hexDigit c.toNat :: rest) = some (c.toNat, rest) := by
    simp only [quad?, hzero, hhigh, hlow, Option.bind_eq_bind,
      Option.bind_some, Option.pure_def, hvalue]
  have hplain : isLowSurrogate c.toNat = false ∧
      isHighSurrogate c.toNat = false := by
    unfold isLowSurrogate isHighSurrogate
    constructor
    · simp
      omega
    · simp
      omega
  simp only [unescape, numbered, hquad, hplain.1, hplain.2,
    Bool.false_eq_true, if_false, Char.ofNat_toNat]

theorem scanString_escaped {offset : Nat} {escaped : List Char}
    {piece : Piece} (h : unescape (offset + 1) escaped = .ok piece) :
    scanString offset ('\\' :: escaped) =
      (scanString piece.offset piece.rest).map fun (contents, behind) =>
        (piece.char :: contents, behind) := by
  rw [scanString]
  split
  · rename_i hfault
    cases h.symm.trans hfault
  · rename_i hpiece
    cases h.symm.trans hpiece
    rfl

theorem scanString_raw {c : Char} (hquote : c ≠ '"') (hslash : c ≠ '\\')
    (hcontrol : ¬ c.toNat < 0x20) (offset : Nat) (rest : List Char) :
    scanString offset (c :: rest) =
      (scanString (offset + c.utf8Size) rest).map fun (contents, behind) =>
        (c :: contents, behind) := by
  rw [scanString, if_neg hcontrol]
  · exact hquote
  · exact hslash

/-- A character of a string, as it is written, is read as itself. -/
theorem scanString_escape (c : Char) (offset : Nat) (rest : List Char) :
    ∃ behind, scanString offset (escape c ++ rest) =
      (scanString behind rest).map fun (contents, place) =>
        (c :: contents, place) := by
  have hshort {letter : Char} (hletter : letter ≠ 'u')
      (hc : shortEscape? letter = some c) :
      ∃ behind, scanString offset (['\\', letter] ++ rest) =
        (scanString behind rest).map fun (contents, place) =>
          (c :: contents, place) :=
    ⟨_, scanString_escaped (unescape_short hletter hc _ rest)⟩
  unfold escape
  split_ifs with hquote hslash hback htab hline hform hreturn hcontrol
  · exact hshort (by decide) (by rw [hquote]; rfl)
  · exact hshort (by decide) (by rw [hslash]; rfl)
  · exact hshort (by decide) (by rw [hback]; rfl)
  · exact hshort (by decide) (by rw [htab]; rfl)
  · exact hshort (by decide) (by rw [hline]; rfl)
  · exact hshort (by decide) (by rw [hform]; rfl)
  · exact hshort (by decide) (by rw [hreturn]; rfl)
  · exact ⟨_, scanString_escaped (unescape_control hcontrol _ rest)⟩
  · exact ⟨_, scanString_raw hquote hslash hcontrol offset rest⟩

/-- A string is read up to the quote that closes it. -/
theorem scanString_escapes (contents : List Char) (offset : Nat)
    (rest : List Char) :
    ∃ behind, scanString offset (contents.flatMap escape ++ '"' :: rest) =
      .ok (contents, behind, rest) := by
  induction contents generalizing offset with
  | nil => exact ⟨offset + 1, by simp [scanString]⟩
  | cons c others ih =>
      obtain ⟨next, hnext⟩ := scanString_escape c offset
        (others.flatMap escape ++ '"' :: rest)
      obtain ⟨behind, hbehind⟩ := ih next
      refine ⟨behind, ?_⟩
      rw [List.flatMap_cons, List.append_assoc, hnext, hbehind]
      rfl

/-! ## Cutting written tokens -/

theorem scanWord_append (word : List Char) (offset : Nat)
    (rest : List Char) : scanWord offset word (word ++ rest) = .ok rest := by
  induction word generalizing offset with
  | nil => rfl
  | cons letter others ih =>
      rw [List.cons_append, scanWord, if_pos rfl]
      exact ih (offset + 1)

theorem tokensFrom_space {c : Char} (h : Text.isSpace c) (offset : Nat)
    (rest : List Char) :
    tokensFrom offset (c :: rest) = tokensFrom (offset + 1) rest := by
  rw [tokensFrom, if_pos h]

theorem tokensFrom_blanks {blanks : List Char}
    (h : ∀ c ∈ blanks, Text.isSpace c = true) (offset : Nat)
    (rest : List Char) :
    tokensFrom offset (blanks ++ rest) =
      tokensFrom (offset + blanks.length) rest := by
  induction blanks generalizing offset with
  | nil => rfl
  | cons c others ih =>
      rw [List.forall_mem_cons] at h
      rw [List.cons_append, tokensFrom_space h.1, ih h.2, List.length_cons,
        Nat.add_assoc, Nat.add_comm 1]

theorem tokensFrom_of_lexeme {c : Char} {offset behind : Nat}
    {rest later : List Char} {found : Lexeme} (hspace : ¬ Text.isSpace c)
    (h : lexeme offset c rest = (found, some (behind, later))) :
    tokensFrom offset (c :: rest) =
      ⟨offset, found⟩ :: tokensFrom behind later := by
  rw [tokensFrom, if_neg hspace]
  split
  · rename_i hnone
    cases h.symm.trans hnone
  · rename_i hsome
    cases h.symm.trans hsome
    rfl

theorem tokensFrom_mark {mark : Char} (h : isMark mark) (offset : Nat)
    (rest : List Char) :
    tokensFrom offset (mark :: rest) =
      ⟨offset, .punctuation mark⟩ :: tokensFrom (offset + 1) rest := by
  have hspace : ¬ Text.isSpace mark := by
    simp only [isMark, Bool.or_eq_true, decide_eq_true_eq] at h
    rcases h with ((((rfl | rfl) | rfl) | rfl) | rfl) | rfl <;> decide
  apply tokensFrom_of_lexeme hspace
  rw [lexeme, if_pos h]

theorem tokensFrom_quote (contents : String) (offset : Nat)
    (rest : List Char) :
    ∃ behind, tokensFrom offset (quote contents ++ rest) =
      ⟨offset, .string contents⟩ :: tokensFrom behind rest := by
  obtain ⟨behind, hscan⟩ :=
    scanString_escapes contents.toList (offset + 1) rest
  refine ⟨behind, ?_⟩
  have hmark : isMark '"' = false := rfl
  rw [quote, List.cons_append, List.append_assoc, List.singleton_append]
  apply tokensFrom_of_lexeme (by decide)
  simp only [lexeme, hmark, Bool.false_eq_true, if_false, if_true, hscan,
    String.ofList_toList]

theorem IsWhole.head {literal : String} (h : IsWhole literal) :
    ∃ c rest, literal.toList = c :: rest ∧ (c = '-' ∨ c.isDigit) := by
  obtain ⟨value, _, rfl | rfl⟩ := h
  · obtain ⟨first, rest, hdigits, hdigit⟩ := exists_toDigits value
    exact ⟨first, rest, (toList_toString value).trans hdigits, .inr hdigit⟩
  · exact ⟨'-', _, String.toList_append, .inl rfl⟩

theorem tokensFrom_number {literal : String} (h : IsWhole literal)
    {rest : List Char} (hrest : Apart rest) (offset : Nat) :
    ∃ behind, tokensFrom offset (literal.toList ++ rest) =
      ⟨offset, .scalar (.number literal)⟩ :: tokensFrom behind rest := by
  obtain ⟨c, others, hliteral, hc⟩ := h.head
  have hscan := scanNumber_whole h hrest offset
  have hother : ∀ mark ∈ ['[', ']', '\x7b', '\x7d', ',', ':', '"', ' ', '\t',
      '\n', '\r'], mark ≠ '-' ∧ mark.isDigit = false :=
    List.all_iff_forall_prop.mp (by decide)
  have hne : c ∉ ['[', ']', '\x7b', '\x7d', ',', ':', '"', ' ', '\t', '\n',
      '\r'] := by
    intro hmem
    obtain ⟨hsign, hdigit⟩ := hother c hmem
    rcases hc with hminus | hisDigit
    · exact hsign hminus
    · rw [hdigit] at hisDigit
      cases hisDigit
  simp only [List.mem_cons, List.not_mem_nil, or_false, not_or] at hne
  have hmark : isMark c = false := by
    simp [isMark, hne]
  have hspace : ¬ Text.isSpace c := by
    simp [Text.isSpace, hne]
  have hnumber : (decide (c = '-') || c.isDigit) = true := by
    simpa using hc
  have htake : (literal.toList ++ rest).take
      ((literal.toList ++ rest).length - rest.length) = literal.toList := by
    rw [List.length_append, Nat.add_sub_cancel, List.take_left]
  rw [hliteral, List.cons_append] at hscan htake ⊢
  refine ⟨offset + (c :: others).length, ?_⟩
  apply tokensFrom_of_lexeme hspace
  simp only [lexeme, hmark, hne, hnumber, hscan, htake, ← hliteral,
    String.ofList_toList, Bool.false_eq_true, if_false, if_true]

theorem tokensFrom_word {c : Char} {word : List Char} {value : Json}
    (h : word? c = some (word, value)) (offset : Nat) (rest : List Char) :
    ∃ behind, tokensFrom offset (c :: (word ++ rest)) =
      ⟨offset, .scalar value⟩ :: tokensFrom behind rest := by
  have hscan := scanWord_append word (offset + 1) rest
  have hplain : isMark c = false ∧ c ≠ '"' ∧ c ≠ '-' ∧ c.isDigit = false ∧
      ¬ Text.isSpace c := by
    unfold word? at h
    split at h
    · decide
    · decide
    · decide
    · cases h
  obtain ⟨hmark, hquote, hminus, hdigit, hspace⟩ := hplain
  refine ⟨offset + 1 + word.length, ?_⟩
  apply tokensFrom_of_lexeme hspace
  simp only [lexeme, hmark, hquote, hminus, hdigit, h, hscan, decide_false,
    Bool.or_false, Bool.false_eq_true, if_false]

end Json
end DocTemplate
