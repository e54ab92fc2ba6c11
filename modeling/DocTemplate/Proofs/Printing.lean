import DocTemplate.Proofs.Pulling
import Mathlib.Data.Bool.AllAny
import Mathlib.Data.List.Chain

/-!
# Printing events

Events can be printed as a template in many ways.  A character is written as
it is or as a reference, a text with references or as a literal section, a
value in quotes of either kind, an element without content as one tag or as
two, and comments may stand anywhere between them.  Whichever way is taken,
reading what is printed gives the events back.
-/

namespace DocTemplate
namespace Markup

/-! ## Names -/

/-- The first and the last code points of the characters that start a name in
XML. -/
def nameStartRanges : List (Nat × Nat) :=
  [(0x3A, 0x3A), (0x41, 0x5A), (0x5F, 0x5F), (0x61, 0x7A), (0xC0, 0xD6),
    (0xD8, 0xF6), (0xF8, 0x2FF), (0x370, 0x37D), (0x37F, 0x1FFF),
    (0x200C, 0x200D), (0x2070, 0x218F), (0x2C00, 0x2FEF), (0x3001, 0xD7FF),
    (0xF900, 0xFDCF), (0xFDF0, 0xFFFD), (0x10000, 0xEFFFF)]

/-- The characters that a name goes on with. -/
def nameRanges : List (Nat × Nat) :=
  nameStartRanges ++
    [(0x2D, 0x2E), (0x30, 0x39), (0xB7, 0xB7), (0x300, 0x36F),
      (0x203F, 0x2040)]

def inRanges (ranges : List (Nat × Nat)) (c : Char) : Bool :=
  ranges.any fun (first, last) => first ≤ c.toNat && c.toNat ≤ last

/-- Whether a text is a name in XML. -/
def isName : List Char → Bool
  | [] => false
  | first :: rest =>
      inRanges nameStartRanges first && rest.all (inRanges nameRanges)

/-- The characters that have a meaning inside a tag. -/
def tagMarks : List Char :=
  [' ', '\t', '\n', '\r', '<', '>', '/', '=', '"', '\'', '!', '?']

theorem ne_nil_of_isName {name : List Char} (h : isName name) :
    name ≠ [] := by
  intro hnil
  rw [hnil] at h
  cases h

theorem inRanges_of_mem {name : List Char} (h : isName name) {c : Char}
    (hmem : c ∈ name) : inRanges nameRanges c := by
  cases name with
  | nil => cases hmem
  | cons first rest =>
      simp only [isName, Bool.and_eq_true, List.all_eq_true] at h
      rcases List.mem_cons.mp hmem with rfl | hlater
      · simp only [inRanges, nameRanges, List.any_append, Bool.or_eq_true]
        exact .inl h.1
      · exact h.2 c hlater

/-- A name holds no character that has a meaning inside a tag. -/
theorem not_mem_tagMarks {name : List Char} (h : isName name) {c : Char}
    (hmem : c ∈ name) : c ∉ tagMarks := by
  have houtside : ∀ mark ∈ tagMarks, inRanges nameRanges mark = false :=
    List.all_iff_forall_prop.mp (by decide)
  intro hmark
  have hinside := inRanges_of_mem h hmem
  rw [houtside c hmark] at hinside
  cases hinside

theorem ne_of_mem_name {name : List Char} (h : isName name) {c mark : Char}
    (hmem : c ∈ name) (hmark : mark ∈ tagMarks) : c ≠ mark := by
  rintro rfl
  exact not_mem_tagMarks h hmem hmark

theorem isSpace_of_mem_name {name : List Char} (h : isName name) {c : Char}
    (hmem : c ∈ name) : Text.isSpace c = false := by
  have hmark := not_mem_tagMarks h hmem
  simp only [tagMarks, List.mem_cons, not_or] at hmark
  simp [Text.isSpace, hmark]

/-! ## References -/

/-- The characters that can be written by a name. -/
def predefined : List (List Char × Char) :=
  [("lt".toList, '<'), ("gt".toList, '>'), ("amp".toList, '&'),
    ("apos".toList, '\''), ("quot".toList, '"')]

/-- The number behind one more digit. -/
def addDigit? (base value : Nat) (c : Char) : Option Nat :=
  (Text.digitOf? base c).map (base * value + ·)

/-- The number that digits write in a base, if they are digits of it. -/
def valueOf? (base : Nat) (digits : List Char) : Option Nat :=
  digits.foldlM (addDigit? base) 0

/-- The texts that refer to a character between an ampersand and a
semicolon. -/
inductive RefersTo (c : Char) : List Char → Prop
  | named {name : List Char} : (name, c) ∈ predefined → RefersTo c name
  | decimal {digits : List Char} : c ≠ '\x00' →
      valueOf? 10 digits = some c.toNat → RefersTo c ('#' :: digits)
  | hexadecimal {digits : List Char} : c ≠ '\x00' →
      valueOf? 16 digits = some c.toNat → RefersTo c ('#' :: 'x' :: digits)

/-- The ways to write a character where another one would end the text. -/
inductive Spelling (stop c : Char) : List Char → Prop
  | raw : c ≠ '&' → c ≠ stop → Spelling stop c [c]
  | reference {body : List Char} : RefersTo c body →
      Spelling stop c ('&' :: (body ++ [';']))

/-- The ways to write some characters, each in its own way. -/
inductive Spells (stop : Char) : List Char → List Char → Prop
  | nil : Spells stop [] []
  | cons {c : Char} {contents spelling written : List Char} :
      Spelling stop c spelling → Spells stop contents written →
      Spells stop (c :: contents) (spelling ++ written)

/-- The characters that end a text or a value. -/
def stops : List Char := ['<', '"', '\'']

theorem exists_spells (stop : Char) (hstop : stop ∈ stops)
    (contents : List Char) : ∃ written, Spells stop contents written := by
  have hnamed : ∀ mark ∈ '&' :: stops,
      ∃ entry ∈ predefined, entry.2 = mark :=
    List.all_iff_forall_prop.mp (by decide)
  induction contents with
  | nil => exact ⟨[], .nil⟩
  | cons c rest ih =>
      obtain ⟨written, hwritten⟩ := ih
      by_cases hraw : c ≠ '&' ∧ c ≠ stop
      · exact ⟨_, .cons (.raw hraw.1 hraw.2) hwritten⟩
      · have hmark : c ∈ '&' :: stops := by
          rw [not_and_or, not_not, not_not] at hraw
          rcases hraw with rfl | rfl
          · exact List.mem_cons_self
          · exact List.mem_cons_of_mem _ hstop
        obtain ⟨⟨name, _⟩, hname, rfl⟩ := hnamed c hmark
        exact ⟨_, .cons (.reference (.named hname)) hwritten⟩

theorem hexDigit?_of_addDigit? {base value number : Nat}
    {digits : List Char}
    (h : digits.foldlM (addDigit? base) value = some number) {c : Char}
    (hmem : c ∈ digits) : Text.hexDigit? c ≠ none := by
  induction digits generalizing value with
  | nil => cases hmem
  | cons first rest ih =>
      obtain ⟨next, hnext, hrest⟩ := Option.bind_eq_some_iff.mp h
      rcases List.mem_cons.mp hmem with rfl | hlater
      · intro hnone
        rw [addDigit?, Text.digitOf?, hnone] at hnext
        cases hnext
      · exact ih hrest hlater

theorem le_of_addDigit? {base value number : Nat} (hbase : 0 < base)
    {digits : List Char}
    (h : digits.foldlM (addDigit? base) value = some number) :
    value ≤ number := by
  induction digits generalizing value with
  | nil =>
      cases h
      exact Nat.le_refl number
  | cons c rest ih =>
      obtain ⟨next, hnext, hrest⟩ := Option.bind_eq_some_iff.mp h
      obtain ⟨digit, _, hdigit⟩ := Option.map_eq_some_iff.mp hnext
      have hlater := ih hrest
      have hgrow : value ≤ base * value := Nat.le_mul_of_pos_left value hbase
      omega

theorem readNumber_eq {base value number : Nat} (hbase : 0 < base)
    (hnumber : number ≤ maxNumber) {digits : List Char}
    (h : digits.foldlM (addDigit? base) value = some number) :
    readNumber base value digits = .ok number := by
  induction digits generalizing value with
  | nil =>
      cases h
      rfl
  | cons c rest ih =>
      obtain ⟨next, hnext, hrest⟩ := Option.bind_eq_some_iff.mp h
      obtain ⟨digit, hdigit, rfl⟩ := Option.map_eq_some_iff.mp hnext
      have hbound := le_of_addDigit? hbase hrest
      have hsmall : ¬ maxNumber < base * value + digit := by omega
      simp only [readNumber, hdigit, if_neg hsmall]
      exact ih hrest

theorem number_eq {base : Nat} (hbase : 0 < base) {digits : List Char}
    {c : Char} (hnull : c ≠ '\x00')
    (h : valueOf? base digits = some c.toNat) :
    number base digits = .ok c.toNat := by
  have hbound : c.toNat ≤ maxNumber := by
    have hchar : c.toNat < 2 ^ 32 := c.val.toNat_lt
    have hmax : maxNumber = 2 ^ 32 - 1 := rfl
    omega
  have hread : readNumber base 0 digits = .ok c.toNat :=
    readNumber_eq hbase hbound h
  have hdigit := fun c => hexDigit?_of_addDigit? h (c := c)
  -- the reader refuses an empty text and a sign, and neither has this value
  unfold number
  split
  · exfalso
    apply hnull
    apply Char.ext
    apply UInt32.toNat_inj.mp
    exact (Option.some.inj h).symm
  · exact absurd (by decide) (hdigit '+' List.mem_cons_self)
  · exact absurd (by decide) (hdigit '-' List.mem_cons_self)
  · exact hread

theorem character_toNat {c : Char} (hnull : c ≠ '\x00') :
    character c.toNat = .ok c := by
  have hpositive : c.toNat ≠ 0 := by
    intro hzero
    apply hnull
    apply Char.ext
    exact UInt32.toNat_inj.mp hzero
  have hvalid : c.toNat.isValidChar := c.valid
  unfold character
  rw [if_neg hpositive, dif_pos hvalid]
  rfl

/-- What refers to a character ends neither the reference nor the text. -/
theorem RefersTo.not_mem {c : Char} {body : List Char} (h : RefersTo c body)
    {letter : Char} (hmem : letter ∈ body) :
    letter ∉ '&' :: ';' :: stops := by
  have hnames : ∀ letter ∈ predefined.flatMap Prod.fst,
      letter ∉ '&' :: ';' :: stops :=
    List.all_iff_forall_prop.mp (by decide)
  have hsigns : ∀ sign ∈ ['#', 'x'], sign ∉ '&' :: ';' :: stops :=
    List.all_iff_forall_prop.mp (by decide)
  have hdigits : ∀ mark ∈ '&' :: ';' :: stops,
      Text.hexDigit? mark = none :=
    List.all_iff_forall_prop.mp (by decide)
  cases h with
  | named hname => exact hnames letter (List.mem_flatMap.mpr ⟨_, hname, hmem⟩)
  | decimal hnull hvalue =>
      rcases List.mem_cons.mp hmem with rfl | hdigit
      · exact hsigns '#' (by decide)
      · intro hmark
        exact hexDigit?_of_addDigit? hvalue hdigit (hdigits letter hmark)
  | hexadecimal hnull hvalue =>
      rcases List.mem_cons.mp hmem with rfl | hlater
      · exact hsigns '#' (by decide)
      · rcases List.mem_cons.mp hlater with rfl | hdigit
        · exact hsigns 'x' (by decide)
        · intro hmark
          exact hexDigit?_of_addDigit? hvalue hdigit (hdigits letter hmark)

theorem RefersTo.dereference_eq {c : Char} {body : List Char}
    (h : RefersTo c body) (offset : Nat) :
    dereference offset body = .ok c := by
  cases h with
  | named hname =>
      have hall : ∀ entry ∈ predefined,
          dereference offset entry.1 = .ok entry.2 := by
        simp [predefined, dereference, named?]
      exact hall _ hname
  | decimal hnull hvalue =>
      have hdigit := fun c => hexDigit?_of_addDigit? hvalue (c := c)
      unfold dereference
      split
      · rename_i digits heq
        obtain ⟨_, rfl⟩ := List.cons.inj heq
        exact absurd (by decide) (hdigit 'x' List.mem_cons_self)
      · rename_i digits _ heq
        obtain ⟨_, rfl⟩ := List.cons.inj heq
        rw [number_eq (by decide) hnull hvalue]
        exact character_toNat hnull
      · rename_i hother
        exact absurd rfl (hother _)
  | hexadecimal hnull hvalue =>
      simp only [dereference]
      rw [number_eq (by decide) hnull hvalue]
      exact character_toNat hnull

/-- What ends a text does not stand in any spelling of it. -/
theorem Spelling.not_mem {stop c : Char} (hstop : stop ∈ stops)
    {spelling : List Char} (h : Spelling stop c spelling) :
    stop ∉ spelling := by
  have hfence : ∀ mark ∈ stops, mark ≠ '&' ∧ mark ≠ ';' :=
    List.all_iff_forall_prop.mp (by decide)
  cases h with
  | raw hamp hne => simpa using hne.symm
  | reference hbody =>
      have hinside : stop ∉ _ := fun hmem => hbody.not_mem hmem
        (List.mem_cons_of_mem _ (List.mem_cons_of_mem _ hstop))
      simp only [List.mem_cons, List.mem_append, List.not_mem_nil, or_false,
        not_or]
      exact ⟨(hfence stop hstop).1, hinside, (hfence stop hstop).2⟩

theorem Spells.not_mem {stop : Char} (hstop : stop ∈ stops)
    {contents written : List Char} (h : Spells stop contents written) :
    stop ∉ written := by
  induction h with
  | nil => exact List.not_mem_nil
  | cons hspelling _ ih =>
      rw [List.mem_append, not_or]
      exact ⟨hspelling.not_mem hstop, ih⟩

theorem Spells.ne_nil {stop : Char} {contents written : List Char}
    (h : Spells stop contents written) (hne : contents ≠ []) :
    written ≠ [] := by
  cases h with
  | nil => exact absurd rfl hne
  | cons hspelling _ =>
      cases hspelling with
      | raw _ _ => exact List.cons_ne_nil _ _
      | reference _ => exact List.cons_ne_nil _ _

theorem unescapeFrom_reference {c : Char} {body : List Char}
    (hbody : RefersTo c body) (offset : Nat) (tail : List Char) :
    unescapeFrom offset ('&' :: (body ++ ';' :: tail)) =
      (unescapeFrom (offset + Text.byteCount body + 2) tail).map (c :: ·) := by
  have hends : ∀ letter ∈ body, (!endsReference letter) = true := by
    intro letter hmem
    have hmark := hbody.not_mem hmem
    simp only [List.mem_cons, not_or] at hmark
    simp [endsReference, hmark]
  have hstop : ∀ c ∈ (';' :: tail).head?, (!endsReference c) = false := by
    rintro c ⟨⟩
    rfl
  have htake : (body ++ ';' :: tail).takeWhile (!endsReference ·) = body :=
    Text.takeWhile_run hends hstop
  have hdrop : (body ++ ';' :: tail).dropWhile (!endsReference ·) =
      ';' :: tail :=
    Text.dropWhile_run hends hstop
  rw [unescapeFrom]
  split
  · rename_i found hfound
    obtain ⟨_, rfl⟩ := List.cons.inj (hdrop.symm.trans hfound)
    rw [htake, hbody.dereference_eq]
    cases unescapeFrom (offset + Text.byteCount body + 2) tail <;> rfl
  · rename_i hother
    exact absurd hdrop (hother tail)

theorem unescapeFrom_raw {c : Char} (hamp : c ≠ '&') (offset : Nat)
    (rest : List Char) :
    unescapeFrom offset (c :: rest) =
      (unescapeFrom (offset + c.utf8Size) rest).map (c :: ·) := by
  rw [unescapeFrom]
  · cases unescapeFrom (offset + c.utf8Size) rest <;> rfl
  · exact hamp

/-- The references in a spelling stand for what is spelled. -/
theorem Spells.unescapeFrom_eq {stop : Char} {contents written : List Char}
    (h : Spells stop contents written) (offset : Nat) :
    unescapeFrom offset written = .ok contents := by
  induction h generalizing offset with
  | nil => simp [unescapeFrom]
  | cons hspelling _ ih =>
      cases hspelling with
      | raw hamp hne =>
          rw [List.singleton_append, unescapeFrom_raw hamp, ih]
          rfl
      | reference hbody =>
          rw [List.cons_append, List.append_assoc, List.singleton_append,
            unescapeFrom_reference hbody, ih]
          rfl

theorem Spells.unescape_eq {stop : Char} {contents : String}
    {written : List Char} (h : Spells stop contents.toList written) :
    unescape written = .ok contents := by
  rw [unescape, h.unescapeFrom_eq]
  exact congrArg Except.ok String.ofList_toList

/-! ## Tags -/

/-- The blanks that can stand inside a tag. -/
def Blanks (text : List Char) : Prop :=
  ∀ c ∈ text, Text.isSpace c = true

theorem blanks_nil : Blanks [] := nofun

theorem blanks_space : Blanks [' '] := List.forall_mem_singleton.mpr rfl

/-- The ways to print the attributes of a tag, each behind one blank at
least. -/
inductive PrintsOwn : OwnAttributes → List Char → Prop
  | nil : PrintsOwn [] []
  | cons {key value : String} {quote : Char} {own : OwnAttributes}
      {before left right written rest : List Char} :
      Blanks before → before ≠ [] → Blanks left → Blanks right →
      quote = '"' ∨ quote = '\'' → Spells quote value.toList written →
      PrintsOwn own rest →
      PrintsOwn ((key, value) :: own)
        (before ++ key.toList ++ left ++ '=' :: (right ++
          quote :: (written ++ quote :: rest)))

/-- The ways to print what stands between the brackets of a tag. -/
inductive PrintsTag (name : String) (own : OwnAttributes) : List Char → Prop
  | mk {text blanks : List Char} : PrintsOwn own text → Blanks blanks →
      PrintsTag name own (name.toList ++ (text ++ blanks))

/-- A text that can stand in a tag: its quotes are balanced, and outside them
no bracket closes the tag. -/
def Balanced (text : List Char) : Prop :=
  ∀ rest, cutTag? none (text ++ rest) =
    (cutTag? none rest).map fun (before, behind) => (text ++ before, behind)

theorem Balanced.append {first second : List Char} (hfirst : Balanced first)
    (hsecond : Balanced second) : Balanced (first ++ second) := by
  intro rest
  rw [List.append_assoc, hfirst, hsecond, Option.map_map]
  simp [Function.comp_def]

theorem balanced_plain {text : List Char}
    (h : ∀ c ∈ text, c ≠ '>' ∧ c ≠ '"' ∧ c ≠ '\'') : Balanced text := by
  intro rest
  induction text with
  | nil => simp
  | cons c others ih =>
      rw [List.forall_mem_cons] at h
      obtain ⟨⟨hbracket, hdouble, hsingle⟩, hothers⟩ := h
      simp only [List.cons_append, cutTag?, if_neg hbracket, hdouble, hsingle,
        decide_false, Bool.or_false, Bool.false_eq_true, if_false, ih hothers,
        Option.map_map]
      rfl

theorem balanced_mark {mark : Char}
    (h : mark ≠ '>' ∧ mark ≠ '"' ∧ mark ≠ '\'') : Balanced [mark] :=
  balanced_plain (List.forall_mem_singleton.mpr h)

theorem cutTag?_inside {quote : Char} {value : List Char}
    (h : quote ∉ value) (rest : List Char) :
    cutTag? (some quote) (value ++ quote :: rest) =
      (cutTag? none rest).map fun (before, behind) =>
        (value ++ quote :: before, behind) := by
  induction value with
  | nil => simp [cutTag?]
  | cons c others ih =>
      rw [List.mem_cons, not_or] at h
      have hother : c ≠ quote := Ne.symm h.1
      simp only [List.cons_append, cutTag?, if_neg hother, ih h.2,
        Option.map_map]
      rfl

theorem balanced_quoted {quote : Char} (hquote : quote = '"' ∨ quote = '\'')
    {value : List Char} (h : quote ∉ value) :
    Balanced (quote :: (value ++ [quote])) := by
  intro rest
  have hbracket : quote ≠ '>' := by
    rcases hquote with rfl | rfl <;> decide
  have hmark : (decide (quote = '"') || decide (quote = '\'')) = true := by
    simpa using hquote
  simp only [List.cons_append, List.append_assoc, List.nil_append, cutTag?,
    if_neg hbracket, hmark, if_true, cutTag?_inside h, Option.map_map]
  rfl

theorem balanced_name {name : List Char} (h : isName name) :
    Balanced name := by
  apply balanced_plain
  intro c hmem
  exact ⟨ne_of_mem_name h hmem (by decide), ne_of_mem_name h hmem (by decide),
    ne_of_mem_name h hmem (by decide)⟩

theorem balanced_blanks {text : List Char} (h : Blanks text) :
    Balanced text := by
  have hmarks : ∀ mark ∈ ['>', '"', '\''], Text.isSpace mark = false :=
    List.all_iff_forall_prop.mp (by decide)
  apply balanced_plain
  intro c hmem
  have hother (mark : Char) (hmark : mark ∈ ['>', '"', '\'']) : c ≠ mark := by
    rintro rfl
    have hspace := h c hmem
    rw [hmarks c hmark] at hspace
    cases hspace
  exact ⟨hother _ (by decide), hother _ (by decide), hother _ (by decide)⟩

/-! ## Reading the attributes of a tag -/

theorem Located.skipSpaces_append (offset : Nat) {blanks text : List Char}
    (hblanks : Blanks blanks)
    (htext : ∀ c ∈ text.head?, Text.isSpace c = false) :
    (⟨offset, blanks ++ text⟩ : Located).skipSpaces =
      ⟨offset + blanks.length, text⟩ := by
  rw [Located.skipSpaces]
  dsimp only
  rw [Text.takeWhile_run hblanks htext, Text.dropWhile_run hblanks htext]

theorem behindEquals_append {offset : Nat} {blanks rest : List Char}
    (hblanks : Blanks blanks) :
    behindEquals ⟨offset, blanks ++ '=' :: rest⟩ =
      .ok ⟨offset + blanks.length + 1, rest⟩ := by
  have hskip : (⟨offset, blanks ++ '=' :: rest⟩ : Located).skipSpaces =
      ⟨offset + blanks.length, '=' :: rest⟩ := by
    apply Located.skipSpaces_append _ hblanks
    rintro c ⟨⟩
    decide
  simp only [behindEquals, hskip]

theorem bne_of_not_mem {mark : Char} {text : List Char} (h : mark ∉ text) :
    ∀ c ∈ text, (c != mark) = true := by
  intro c hmem
  rw [bne_iff_ne]
  rintro rfl
  exact h hmem

theorem quotedValue_append {blanks value : List Char} {quote : Char}
    (hblanks : Blanks blanks) (hquote : quote = '"' ∨ quote = '\'')
    (hvalue : quote ∉ value) (offset : Nat) (rest : List Char) :
    ∃ place, quotedValue
        ⟨offset, blanks ++ quote :: (value ++ quote :: rest)⟩ =
      .ok (value, ⟨place, rest⟩) := by
  have hskip : (⟨offset, blanks ++ quote :: (value ++ quote :: rest)⟩ :
      Located).skipSpaces =
        ⟨offset + blanks.length, quote :: (value ++ quote :: rest)⟩ := by
    apply Located.skipSpaces_append _ hblanks
    rintro c ⟨⟩
    rcases hquote with rfl | rfl <;> decide
  have hmark : (decide (quote = '"') || decide (quote = '\'')) = true := by
    simpa using hquote
  have hinside := bne_of_not_mem hvalue
  have hclose : ∀ c ∈ (quote :: rest).head?, (c != quote) = false := by
    rintro c ⟨⟩
    exact bne_self_eq_false quote
  refine ⟨offset + blanks.length + 1 + Text.byteCount value + 1, ?_⟩
  simp only [quotedValue, hskip, hmark, if_true,
    Text.takeWhile_run hinside hclose, Text.dropWhile_run hinside hclose]

theorem endsKey_of_mem_name {name : List Char} (h : isName name) {c : Char}
    (hmem : c ∈ name) : (!endsKey c) = true := by
  have hsign : c ≠ '=' := ne_of_mem_name h hmem (by decide)
  simp [endsKey, isSpace_of_mem_name h hmem, hsign]

theorem attributesFrom_of_parts {known : List (List Char × Nat)}
    {located behindSign behind : Located} {first : Char}
    {rest raw : List Char} {place : Nat} {key value : String}
    (hstart : located.skipSpaces = ⟨place, first :: rest⟩)
    (hkey : first :: rest.takeWhile (!endsKey ·) = key.toList)
    (hequals : behindEquals ⟨place + Text.byteCount key.toList,
      rest.dropWhile (!endsKey ·)⟩ = .ok behindSign)
    (hnew : known.lookup key.toList = none)
    (hquoted : quotedValue behindSign = .ok (raw, behind))
    (hvalue : unescape raw = .ok value) :
    attributesFrom known located =
      (attributesFrom ((key.toList, place) :: known) behind).map
        ((key, value) :: ·) := by
  -- one part answers each question the reader asks on its way
  rw [attributesFrom]
  split
  · rename_i hnone
    rw [hstart] at hnone
    cases hnone
  · rename_i found tail hfound
    rw [hstart] at hfound
    obtain ⟨rfl, rfl⟩ := List.cons.inj hfound
    simp only [hstart, hkey, hnew]
    split
    · rename_i hproblem
      rw [hstart, hkey, hequals] at hproblem
      cases hproblem
    · rename_i hsign
      rw [hstart, hkey, hequals] at hsign
      cases hsign
      split
      · rename_i hproblem
        cases hquoted.symm.trans hproblem
      · rename_i hfound
        cases hquoted.symm.trans hfound
        rw [hvalue, String.ofList_toList]
        cases attributesFrom ((key.toList, place) :: known) behind <;> rfl

/-- A key, its sign and its value are read, and then the attributes behind
them. -/
theorem attributesFrom_cons {known : List (List Char × Nat)}
    {key value : String} {quote : Char}
    {before left right written : List Char}
    (hkey : isName key.toList) (hnew : known.lookup key.toList = none)
    (hbefore : Blanks before) (hleft : Blanks left) (hright : Blanks right)
    (hquote : quote = '"' ∨ quote = '\'')
    (hwritten : Spells quote value.toList written) (offset : Nat)
    (rest : List Char) :
    ∃ place behind, attributesFrom known
        ⟨offset, before ++ key.toList ++ left ++ '=' :: (right ++
          quote :: (written ++ quote :: rest))⟩ =
      (attributesFrom ((key.toList, place) :: known) ⟨behind, rest⟩).map
        ((key, value) :: ·) := by
  have hstop : quote ∈ stops := by
    rcases hquote with rfl | rfl <;> decide
  obtain ⟨first, name, hname⟩ := List.exists_cons_of_ne_nil
    (ne_nil_of_isName hkey)
  have hinside : ∀ c ∈ key.toList, (!endsKey c) = true :=
    fun c hmem => endsKey_of_mem_name hkey hmem
  rw [hname, List.forall_mem_cons] at hinside
  have hends (tail : List Char) :
      ∀ c ∈ (left ++ '=' :: tail).head?, (!endsKey c) = false := by
    cases left with
    | nil =>
        rintro c ⟨⟩
        rfl
    | cons first others =>
        rintro c ⟨⟩
        simp [endsKey, hleft first List.mem_cons_self]
  obtain ⟨behind, hquoted⟩ := quotedValue_append hright hquote
    (hwritten.not_mem hstop) (offset + before.length +
      Text.byteCount key.toList + left.length + 1) rest
  have hstart : (⟨offset, before ++ key.toList ++ left ++ '=' :: (right ++
      quote :: (written ++ quote :: rest))⟩ : Located).skipSpaces =
        ⟨offset + before.length, first :: (name ++ (left ++ '=' :: (right ++
          quote :: (written ++ quote :: rest))))⟩ := by
    rw [hname, List.append_assoc, List.append_assoc]
    apply Located.skipSpaces_append _ hbefore
    rintro c ⟨⟩
    apply isSpace_of_mem_name hkey
    rw [hname]
    exact List.mem_cons_self
  refine ⟨offset + before.length, behind,
    attributesFrom_of_parts hstart ?_ ?_ hnew hquoted hwritten.unescape_eq⟩
  · rw [Text.takeWhile_run hinside.2 (hends _), hname]
  · rw [Text.dropWhile_run hinside.2 (hends _), behindEquals_append hleft]

theorem PrintsOwn.attributesFrom_eq {own : OwnAttributes}
    {text blanks : List Char} (h : PrintsOwn own text)
    (hblanks : Blanks blanks) (hkeys : ∀ pair ∈ own, isName pair.1.toList)
    (hunique : UniqueKeys own) (known : List (List Char × Nat))
    (hnew : ∀ pair ∈ own, known.lookup pair.1.toList = none) (offset : Nat) :
    attributesFrom known ⟨offset, text ++ blanks⟩ = .ok own := by
  -- every attribute becomes a known one for those behind it
  induction h generalizing known offset with
  | nil =>
      have hskip : (⟨offset, blanks ++ []⟩ : Located).skipSpaces =
          ⟨offset + blanks.length, []⟩ :=
        Located.skipSpaces_append offset hblanks nofun
      rw [List.append_nil] at hskip
      rw [List.nil_append, attributesFrom]
      split
      · rfl
      · rename_i hstart
        rw [hskip] at hstart
        cases hstart
  | @cons key value quote own before left right written rest hbefore hne
      hleft hright hquote hwritten hown ih =>
      rw [List.forall_mem_cons] at hkeys hnew
      obtain ⟨hfirst, hothers⟩ := List.pairwise_cons.mp hunique
      obtain ⟨place, behind, hcons⟩ := attributesFrom_cons hkeys.1 hnew.1
        hbefore hleft hright hquote hwritten offset (rest ++ blanks)
      have hlater : ∀ pair ∈ own,
          ((key.toList, place) :: known).lookup pair.1.toList = none := by
        intro pair hmem
        have hother : (pair.1.toList == key.toList) = false := by
          rw [beq_eq_false_iff_ne]
          intro heq
          exact hfirst pair hmem (String.toList_inj.mp heq).symm
        rw [List.lookup_cons, hother]
        exact hnew.2 pair hmem
      have htext : before ++ key.toList ++ left ++ '=' :: (right ++
          quote :: (written ++ quote :: rest)) ++ blanks =
            before ++ key.toList ++ left ++ '=' :: (right ++
              quote :: (written ++ quote :: (rest ++ blanks))) := by
        simp only [List.append_assoc, List.cons_append]
      rw [htext, hcons, ih hkeys.2 hothers _ hlater]
      rfl

/-! ## Reading tags -/

theorem PrintsOwn.balanced {own : OwnAttributes} {text : List Char}
    (h : PrintsOwn own text) (hkeys : ∀ pair ∈ own, isName pair.1.toList) :
    Balanced text := by
  induction h with
  | nil => exact balanced_plain nofun
  | @cons key value quote own before left right written rest hbefore hne
      hleft hright hquote hwritten hown ih =>
      have hstop : quote ∈ stops := by
        rcases hquote with rfl | rfl <;> decide
      have hsign : Balanced ['='] := balanced_mark (by decide)
      rw [List.forall_mem_cons] at hkeys
      have hfront := (((balanced_blanks hbefore).append
        (balanced_name hkeys.1)).append (balanced_blanks hleft)).append hsign
      have hvalue := ((balanced_blanks hright).append
        (balanced_quoted hquote (hwritten.not_mem hstop))).append (ih hkeys.2)
      have hall := hfront.append hvalue
      simp only [List.append_assoc, List.cons_append, List.nil_append] at hall ⊢
      exact hall

theorem PrintsOwn.head_blank {own : OwnAttributes} {text blanks : List Char}
    (h : PrintsOwn own text) (hblanks : Blanks blanks) :
    ∀ c ∈ (text ++ blanks).head?, Text.isSpace c = true := by
  intro c hhead
  cases h with
  | nil => exact hblanks c (List.mem_of_mem_head? hhead)
  | @cons _ _ _ _ before _ _ _ _ hbefore hne =>
      obtain ⟨first, others, rfl⟩ := List.exists_cons_of_ne_nil hne
      cases hhead
      exact hbefore c List.mem_cons_self

theorem PrintsOwn.last_ne {own : OwnAttributes} {text : List Char}
    (h : PrintsOwn own text) : text.getLast? ≠ some '/' := by
  induction h with
  | nil => nofun
  | @cons key value quote own before left right written rest _ _ _ _ hquote
      _ _ ih =>
      have hslash : quote ≠ '/' := by
        rcases hquote with rfl | rfl <;> decide
      have htext : before ++ key.toList ++ left ++ '=' :: (right ++
          quote :: (written ++ quote :: rest)) =
            before ++ key.toList ++ left ++ '=' :: (right ++
              quote :: written) ++ [quote] ++ rest := by
        simp only [List.append_assoc, List.cons_append, List.nil_append]
      intro hlast
      rw [htext, List.getLast?_append, List.getLast?_concat,
        Option.or_eq_some_iff] at hlast
      rcases hlast with hlater | ⟨_, hlast⟩
      · exact ih hlater
      · exact hslash (Option.some.inj hlast)

namespace PrintsTag

variable {name : String} {own : OwnAttributes} {content : List Char}

/-- The name of a tag and what stands behind it. -/
theorem span_eq (h : PrintsTag name own content) (hname : isName name.toList) :
    ∃ text blanks, PrintsOwn own text ∧ Blanks blanks ∧
      tagName content = name.toList ∧
      content.dropWhile (!Text.isSpace ·) = text ++ blanks := by
  obtain ⟨hown, hblanks⟩ := h
  rename_i text blanks
  have hinside : ∀ c ∈ name.toList, (!Text.isSpace c) = true := by
    intro c hmem
    simp [isSpace_of_mem_name hname hmem]
  have hbehind : ∀ c ∈ (text ++ blanks).head?, (!Text.isSpace c) = false := by
    intro c hhead
    rw [hown.head_blank hblanks c hhead]
    rfl
  exact ⟨text, blanks, hown, hblanks, Text.takeWhile_run hinside hbehind,
    Text.dropWhile_run hinside hbehind⟩

theorem startEvent_eq (h : PrintsTag name own content)
    (hname : isName name.toList) (hkeys : ∀ pair ∈ own, isName pair.1.toList)
    (hunique : UniqueKeys own) :
    startEvent content = .ok (.start name own) := by
  obtain ⟨text, blanks, hown, hblanks, htag, hbehind⟩ := h.span_eq hname
  have hread := hown.attributesFrom_eq hblanks hkeys hunique []
    (fun _ _ => rfl) (Text.byteCount (tagName content))
  rw [startEvent, attributes, hbehind, hread, htag, String.ofList_toList]
  rfl

theorem balanced (h : PrintsTag name own content)
    (hname : isName name.toList)
    (hkeys : ∀ pair ∈ own, isName pair.1.toList) : Balanced content := by
  obtain ⟨hown, hblanks⟩ := h
  exact (balanced_name hname).append
    ((hown.balanced hkeys).append (balanced_blanks hblanks))

/-- A tag starts with its name, so it is neither an end nor a declaration. -/
theorem head_plain (h : PrintsTag name own content)
    (hname : isName name.toList) :
    ∃ first inside, content = first :: inside ∧
      first ≠ '/' ∧ first ≠ '!' ∧ first ≠ '?' := by
  obtain ⟨_, _⟩ := h
  obtain ⟨first, rest, hfirst⟩ := List.exists_cons_of_ne_nil
    (ne_nil_of_isName hname)
  have hmem : first ∈ name.toList := by
    rw [hfirst]
    exact List.mem_cons_self
  have hother {mark : Char} (hmark : mark ∈ tagMarks) : first ≠ mark :=
    ne_of_mem_name hname hmem hmark
  rw [hfirst]
  exact ⟨first, _, rfl, hother (by decide), hother (by decide),
    hother (by decide)⟩

theorem last_ne (h : PrintsTag name own content)
    (hname : isName name.toList) : content.getLast? ≠ some '/' := by
  obtain ⟨hown, hblanks⟩ := h
  intro hlast
  rw [List.getLast?_append, List.getLast?_append, Option.or_eq_some_iff,
    Option.or_eq_some_iff] at hlast
  rcases hlast with (hblank | ⟨_, htext⟩) | ⟨_, hletter⟩
  · have hspace := hblanks '/' (List.mem_of_getLast? hblank)
    cases hspace
  · exact hown.last_ne htext
  · exact not_mem_tagMarks hname (List.mem_of_getLast? hletter) (by decide)

end PrintsTag

/-! ## Printed events -/

/-- How a comment starts, behind its angle bracket. -/
def commentMark : List Char := ['!', '-', '-']

/-- How a comment ends. -/
def commentEnd : List Char := ['-', '-', '>']

/-- The ways to print events. -/
inductive Prints : List Event → List Char → Prop
  | nil : Prints [] []
  | comment {events : List Event} {inside rest : List Char} :
      ¬ commentEnd <:+: inside → Prints events rest →
      Prints events ('<' :: (commentMark ++ inside ++ commentEnd ++ rest))
  | startTag {name : String} {own : OwnAttributes} {events : List Event}
      {content rest : List Char} :
      PrintsTag name own content → Prints events rest →
      Prints (.start name own :: events) ('<' :: (content ++ '>' :: rest))
  | emptyTag {name : String} {own : OwnAttributes} {events : List Event}
      {content rest : List Char} :
      PrintsTag name own content → Prints events rest →
      Prints (.start name own :: .stop name :: events)
        ('<' :: (content ++ '/' :: '>' :: rest))
  | endTag {name : String} {events : List Event} {blanks rest : List Char} :
      Blanks blanks → Prints events rest →
      Prints (.stop name :: events)
        ('<' :: '/' :: (name.toList ++ blanks ++ '>' :: rest))
  | text {contents : String} {events : List Event}
      {written rest : List Char} :
      Spells '<' contents.toList written → Prints events rest →
      Prints (.text contents :: events) (written ++ rest)
  | literal {contents : String} {events : List Event} {rest : List Char} :
      ¬ literalEnd <:+: contents.toList → Prints events rest →
      Prints (.text contents :: events)
        ('<' :: (literalMark ++ contents.toList ++ literalEnd ++ rest))

/-- Whether an event has names as XML has them, no key twice and no empty
text. -/
def Event.Printable : Event → Prop
  | .start name own =>
      isName name.toList ∧ (∀ pair ∈ own, isName pair.1.toList) ∧
        Markup.UniqueKeys own
  | .stop name => isName name.toList
  | .text contents => contents ≠ ""

def Event.isText : Event → Bool
  | .text _ => true
  | .start _ _ | .stop _ => false

/-- Whether no text stands right behind another. -/
def TextsApart (events : List Event) : Prop :=
  events.IsChain fun first second => ¬ (first.isText ∧ second.isText)

theorem TextsApart.of_cons {event : Event} {rest : List Event}
    (h : TextsApart (event :: rest)) : TextsApart rest :=
  (List.isChain_cons.mp h).2

/-! ## Every event can be printed -/

theorem exists_printsOwn (own : OwnAttributes) :
    ∃ text, PrintsOwn own text := by
  induction own with
  | nil => exact ⟨[], .nil⟩
  | cons pair rest ih =>
      obtain ⟨key, value⟩ := pair
      obtain ⟨text, htext⟩ := ih
      obtain ⟨written, hwritten⟩ :=
        exists_spells '"' (by decide) value.toList
      exact ⟨_, .cons blanks_space (List.cons_ne_nil _ _) blanks_nil
        blanks_nil (.inl rfl) hwritten htext⟩

theorem exists_prints (events : List Event) : ∃ text, Prints events text := by
  induction events with
  | nil => exact ⟨[], .nil⟩
  | cons event rest ih =>
      obtain ⟨text, htext⟩ := ih
      cases event with
      | start name own =>
          obtain ⟨attributes, hattributes⟩ := exists_printsOwn own
          exact ⟨_, .startTag (.mk hattributes blanks_nil) htext⟩
      | stop name => exact ⟨_, .endTag blanks_nil htext⟩
      | text contents =>
          obtain ⟨written, hwritten⟩ :=
            exists_spells '<' (by decide) contents.toList
          exact ⟨_, .text hwritten htext⟩

/-! ## Cutting what is printed -/

/-- A mark such as `-->` is found where it stands, for it cannot begin in what
stands before it and end in itself. -/
theorem cutAt?_append {x y : Char} (hne : x ≠ y) {inside : List Char}
    (h : ¬ [x, x, y] <:+: inside) (rest : List Char) :
    cutAt? [x, x, y] (inside ++ [x, x, y] ++ rest) = some (inside, rest) := by
  induction inside with
  | nil => simp [cutAt?]
  | cons c others ih =>
      have hinside : ¬ [x, x, y] <:+: others := by
        intro hwithin
        exact h (hwithin.trans (List.suffix_cons c others).isInfix)
      have hfirst : [x, x, y].isPrefixOf
          (c :: (others ++ [x, x, y] ++ rest)) = false := by
        rw [← Bool.not_eq_true, List.isPrefixOf_iff_prefix]
        rintro ⟨tail, htail⟩
        -- a mark here would reach into the one behind, unless three
        -- characters stand before it
        rcases others with _ | ⟨second, _ | ⟨third, others⟩⟩
        · simp only [List.cons_append, List.nil_append, List.cons.injEq]
            at htail
          exact hne htail.2.2.1.symm
        · simp only [List.cons_append, List.nil_append, List.cons.injEq]
            at htail
          exact hne htail.2.2.1.symm
        · simp only [List.cons_append, List.nil_append, List.cons.injEq]
            at htail
          obtain ⟨rfl, rfl, rfl, _⟩ := htail
          exact h ⟨[], others, rfl⟩
      simp only [List.cons_append, cutAt?, hfirst, Bool.false_eq_true,
        if_false, ih hinside, Option.map_some]

theorem cutPiece_comment {inside : List Char}
    (h : ¬ commentEnd <:+: inside) (rest : List Char) :
    cutPiece '<' (commentMark ++ inside ++ commentEnd ++ rest) =
      .ok (.skipped ('!' :: '-' :: '-' :: (inside ++ ['-', '-'])), rest) := by
  have hcut := cutAt?_append (by decide) h rest
  simp only [cutPiece, if_true, commentMark, commentEnd, List.cons_append,
    List.nil_append, cutBracketed, cutComment]
  simp only [List.append_assoc, List.cons_append, List.nil_append] at hcut ⊢
  rw [hcut]

theorem cutPiece_literal {contents : List Char}
    (h : ¬ literalEnd <:+: contents) (rest : List Char) :
    cutPiece '<' (literalMark ++ contents ++ literalEnd ++ rest) =
      .ok (.literal contents, rest) := by
  have hcut : cutAt? literalEnd (contents ++ literalEnd ++ rest) =
      some (contents, rest) := cutAt?_append (by decide) h rest
  have hmark : literalMark.isPrefixOf
      (literalMark ++ (contents ++ literalEnd ++ rest)) = true := by
    rw [List.isPrefixOf_iff_prefix]
    exact List.prefix_append _ _
  have htext : literalMark ++ contents ++ literalEnd ++ rest =
      literalMark ++ (contents ++ literalEnd ++ rest) := by
    simp only [List.append_assoc]
  have hbracketed (text : List Char) :
      cutBracketed (literalMark ++ text) = cutLiteral (literalMark ++ text) :=
    rfl
  rw [cutPiece, if_pos rfl, htext, hbracketed, cutLiteral, if_pos hmark,
    List.drop_left, hcut]

theorem cutPiece_tag {first : Char} {inside : List Char}
    (hbalanced : Balanced (first :: inside)) (hbang : first ≠ '!')
    (hquestion : first ≠ '?') (rest : List Char) :
    cutPiece '<' (first :: inside ++ '>' :: rest) =
      .ok (tagPiece (first :: inside), rest) := by
  have hcut : cutTag? none (first :: inside ++ '>' :: rest) =
      some (first :: inside, rest) := by
    rw [hbalanced]
    simp [cutTag?]
  rw [cutPiece, if_pos rfl]
  unfold cutBracketed
  split
  · rename_i heq
    exact absurd (List.cons.inj heq).1 hbang
  · rename_i heq
    exact absurd (List.cons.inj heq).1 hquestion
  · rw [hcut]

theorem cutPiece_startTag {name : String} {own : OwnAttributes}
    {content : List Char} (h : PrintsTag name own content)
    (hname : isName name.toList)
    (hkeys : ∀ pair ∈ own, isName pair.1.toList) (rest : List Char) :
    cutPiece '<' (content ++ '>' :: rest) = .ok (.startTag content, rest) := by
  have hlast := h.last_ne hname
  have hbalanced := h.balanced hname hkeys
  obtain ⟨first, inside, rfl, hslash, hbang, hquestion⟩ := h.head_plain hname
  rw [cutPiece_tag hbalanced hbang hquestion]
  unfold tagPiece
  split
  · rename_i heq
    exact absurd (List.cons.inj heq).1 hslash
  · rw [if_neg hlast]

theorem cutPiece_emptyTag {name : String} {own : OwnAttributes}
    {content : List Char} (h : PrintsTag name own content)
    (hname : isName name.toList)
    (hkeys : ∀ pair ∈ own, isName pair.1.toList) (rest : List Char) :
    cutPiece '<' (content ++ '/' :: '>' :: rest) =
      .ok (.emptyTag content, rest) := by
  have hmark : Balanced ['/'] := balanced_mark (by decide)
  have hbalanced := (h.balanced hname hkeys).append hmark
  obtain ⟨first, inside, rfl, hslash, hbang, hquestion⟩ := h.head_plain hname
  have htext : first :: inside ++ '/' :: '>' :: rest =
      first :: (inside ++ ['/']) ++ '>' :: rest := by
    simp only [List.cons_append, List.append_assoc, List.nil_append]
  rw [List.cons_append] at hbalanced
  rw [htext, cutPiece_tag hbalanced hbang hquestion]
  unfold tagPiece
  split
  · rename_i heq
    exact absurd (List.cons.inj heq).1 hslash
  · rw [← List.cons_append, if_pos List.getLast?_concat,
      List.dropLast_concat]

theorem cutPiece_endTag {name blanks : List Char} (hname : isName name)
    (hblanks : Blanks blanks) (rest : List Char) :
    cutPiece '<' ('/' :: (name ++ blanks ++ '>' :: rest)) =
      .ok (.endTag (name ++ blanks), rest) := by
  have hmark : Balanced ['/'] := balanced_mark (by decide)
  have hbalanced := hmark.append
    ((balanced_name hname).append (balanced_blanks hblanks))
  exact cutPiece_tag hbalanced (by decide) (by decide) rest

theorem endName_append {name blanks : List Char} (hname : isName name)
    (hblanks : Blanks blanks) : endName (name ++ blanks) = name := by
  obtain ⟨first, rest, hfirst⟩ := List.exists_cons_of_ne_nil
    (ne_nil_of_isName hname)
  have hspaces : (name ++ blanks).all Text.isSpace = false := by
    have hmem : first ∈ name := by
      rw [hfirst]
      exact List.mem_cons_self
    rw [List.all_eq_false]
    refine ⟨first, List.mem_append_left _ hmem, ?_⟩
    rw [isSpace_of_mem_name hname hmem]
    exact Bool.false_ne_true
  have hbehind : ∀ c ∈ blanks.reverse, Text.isSpace c = true :=
    fun c hmem => hblanks c (List.mem_reverse.mp hmem)
  have hletter : ∀ c ∈ name.reverse.head?, Text.isSpace c = false := by
    intro c hhead
    apply isSpace_of_mem_name hname
    exact List.mem_reverse.mp (List.mem_of_mem_head? hhead)
  rw [endName, hspaces, Text.dropTrailing, List.reverse_append,
    Text.dropWhile_run hbehind hletter, List.reverse_reverse]
  rfl

/-! ## Reading what is printed -/

theorem readFrom_of_take {place next : Place} {first : Char}
    {rest behind : List Char} {piece : Piece} {found events : List Event}
    (hcut : cutPiece first rest = .ok (piece, behind))
    (htake : place.take piece = .ok (found, next))
    (hbehind : readFrom next behind = (events, none)) :
    readFrom place (first :: rest) = (found ++ events, none) := by
  rw [readFrom_of_cut hcut, htake]
  dsimp only
  rw [hbehind]

theorem Prints.head_mark {events : List Event} {text : List Char}
    (h : Prints events text)
    (hevents : ∀ event ∈ events.head?, ¬ event.isText) :
    ∀ c ∈ text.head?, c = '<' := by
  induction h with
  | nil => nofun
  | text _ _ _ => exact absurd rfl (hevents _ rfl)
  | comment _ _ _ | startTag _ _ _ | emptyTag _ _ _ | endTag _ _ _
  | literal _ _ _ =>
      rintro c ⟨⟩
      rfl

/-- A text ends where the next angle bracket is. -/
theorem cutPiece_text {first : Char} {others rest : List Char}
    (h : '<' ∉ first :: others) (hrest : ∀ c ∈ rest.head?, c = '<') :
    cutPiece first (others ++ rest) = .ok (.text (first :: others), rest) := by
  rw [List.mem_cons, not_or] at h
  have hinside := bne_of_not_mem h.2
  have hbehind : ∀ c ∈ rest.head?, (c != '<') = false := by
    intro c hhead
    rw [hrest c hhead]
    rfl
  rw [cutPiece, if_neg (Ne.symm h.1), Text.takeWhile_run hinside hbehind,
    Text.dropWhile_run hinside hbehind]

namespace Place

variable (place : Place)

theorem behind_openNames (piece : Piece) :
    (place.behind piece).openNames = place.openNames := rfl

theorem take_startTag {name : String} {own : OwnAttributes}
    {content : List Char} (h : PrintsTag name own content)
    (hname : isName name.toList) (hkeys : ∀ pair ∈ own, isName pair.1.toList)
    (hunique : UniqueKeys own) :
    ∃ next, place.take (.startTag content) = .ok ([.start name own], next) ∧
      next.openNames = name :: place.openNames := by
  obtain ⟨_, _, _, _, htag, _⟩ := h.span_eq hname
  simp only [take, h.startEvent_eq hname hkeys hunique, htag,
    String.ofList_toList]
  exact ⟨_, rfl, rfl⟩

theorem take_emptyTag {name : String} {own : OwnAttributes}
    {content : List Char} (h : PrintsTag name own content)
    (hname : isName name.toList) (hkeys : ∀ pair ∈ own, isName pair.1.toList)
    (hunique : UniqueKeys own) :
    place.take (.emptyTag content) =
      .ok ([.start name own, .stop name], place.behind (.emptyTag content)) := by
  obtain ⟨_, _, _, _, htag, _⟩ := h.span_eq hname
  simp only [take, h.startEvent_eq hname hkeys hunique, htag,
    String.ofList_toList]

theorem take_endTag {name : String} {blanks : List Char}
    (hname : isName name.toList) (hblanks : Blanks blanks)
    (hopen : place.openNames.head? = some name) :
    ∃ next, place.take (.endTag (name.toList ++ blanks)) =
        .ok ([.stop name], next) ∧
      next.openNames = place.openNames.tail := by
  obtain ⟨outer, houter⟩ := List.head?_eq_some_iff.mp hopen
  simp only [take, endName_append hname hblanks, String.ofList_toList, houter,
    if_true]
  exact ⟨_, rfl, rfl⟩

end Place

/-- Reading what is printed from any place gives the events. -/
theorem Prints.readFrom_eq {events : List Event} {text : List Char}
    (h : Prints events text) (hprintable : ∀ event ∈ events, event.Printable)
    (htexts : TextsApart events) (place : Place)
    (hnested : Nested place.openNames events) :
    readFrom place text = (events, none) := by
  -- a tag changes which names are open, so the place is any
  induction h generalizing place with
  | nil => exact readFrom_nil place
  | comment hinside _ ih =>
      exact readFrom_of_take (cutPiece_comment hinside _) rfl
        (ih hprintable htexts _ hnested)
  | @startTag name own events content rest htag _ ih =>
      rw [List.forall_mem_cons] at hprintable
      obtain ⟨⟨hname, hkeys, hunique⟩, hlater⟩ := hprintable
      obtain ⟨next, htake, hopen⟩ :=
        place.take_startTag htag hname hkeys hunique
      apply readFrom_of_take (cutPiece_startTag htag hname hkeys rest) htake
      apply ih hlater htexts.of_cons next
      rw [hopen]
      exact hnested.2
  | @emptyTag name own events content rest htag _ ih =>
      rw [List.forall_mem_cons, List.forall_mem_cons] at hprintable
      obtain ⟨⟨hname, hkeys, hunique⟩, _, hlater⟩ := hprintable
      apply readFrom_of_take (cutPiece_emptyTag htag hname hkeys rest)
        (place.take_emptyTag htag hname hkeys hunique)
      exact ih hlater htexts.of_cons.of_cons _ hnested.2.2
  | @endTag name events blanks rest hblanks _ ih =>
      rw [List.forall_mem_cons] at hprintable
      obtain ⟨hname, hlater⟩ := hprintable
      obtain ⟨next, htake, hopen⟩ :=
        place.take_endTag hname hblanks hnested.1
      apply readFrom_of_take (cutPiece_endTag hname hblanks rest) htake
      apply ih hlater htexts.of_cons next
      rw [hopen]
      exact hnested.2
  | @text contents events written rest hwritten hrest ih =>
      rw [List.forall_mem_cons] at hprintable
      obtain ⟨hne, hlater⟩ := hprintable
      -- no text stands behind this one, so a bracket ends it
      have hmark : ∀ c ∈ rest.head?, c = '<' := by
        apply hrest.head_mark
        intro event hevent htext
        exact (List.isChain_cons.mp htexts).1 event hevent ⟨rfl, htext⟩
      have hcontents : contents.toList ≠ [] := by
        intro hnil
        exact hne (String.toList_eq_nil_iff.mp hnil)
      obtain ⟨first, others, rfl⟩ :=
        List.exists_cons_of_ne_nil (hwritten.ne_nil hcontents)
      have htake : place.take (.text (first :: others)) =
          .ok ([.text contents], place.behind (.text (first :: others))) := by
        simp only [Place.take, hwritten.unescape_eq]
      apply readFrom_of_take
        (cutPiece_text (hwritten.not_mem (by decide)) hmark) htake
      exact ih hlater htexts.of_cons _ hnested.2
  | @literal contents events rest hcontents _ ih =>
      rw [List.forall_mem_cons] at hprintable
      have htake : place.take (.literal contents.toList) =
          .ok ([.text contents], place.behind (.literal contents.toList)) := by
        simp only [Place.take, String.ofList_toList]
      apply readFrom_of_take (cutPiece_literal hcontents rest) htake
      apply ih hprintable.2 htexts.of_cons
      rw [Place.behind_openNames]
      exact hnested.2

/-- Events that begin with a start and nest, with names as XML has them, no
key twice in an element, no empty text and no text right behind another, can be
printed, and whichever way they are printed, reading gives exactly these events
and no error, and so does a cursor. -/
theorem read_printed {events : List Event}
    (hstart : ∃ name own, events.head? = some (.start name own))
    (hnested : Nested [] events)
    (hprintable : ∀ event ∈ events, event.Printable)
    (htexts : TextsApart events) :
    (∃ source : String, Prints events source.toList) ∧
      ∀ source : String, Prints events source.toList →
        read source = (events, none) ∧
          ∀ asked, (Cursor.of source).answer asked =
            (events.map .ok)[asked]? := by
  constructor
  · obtain ⟨text, htext⟩ := exists_prints events
    refine ⟨String.ofList text, ?_⟩
    rw [String.toList_ofList]
    exact htext
  · intro source hprints
    have hmark : ∀ c ∈ source.toList.head?, c = '<' := by
      apply hprints.head_mark
      intro event hevent
      obtain ⟨name, own, hfirst⟩ := hstart
      cases hfirst.symm.trans hevent
      exact Bool.false_ne_true
    -- what is printed begins with a bracket, so no mark is taken off
    have hplain : withoutByteOrderMark source.toList = source.toList := by
      unfold withoutByteOrderMark
      split
      · rename_i rest heq
        rw [heq] at hmark
        exact absurd (hmark '\ufeff' rfl) (by decide)
      · rfl
    have hread : read source = (events, none) := by
      rw [read_eq_readFrom, hplain]
      exact hprints.readFrom_eq hprintable htexts {} hnested
    refine ⟨hread, fun asked => ?_⟩
    have hanswer := (Cursor.of source).answer_eq asked
    have hremaining : (Cursor.of source).remaining =
        Cursor.answers (read source) := rfl
    rw [hanswer, hremaining, hread]
    simp [Cursor.answers]

/-- A value that holds quotes of both kinds, a text that is written with a
reference, and one that looks like a tag. -/
theorem read_printed_quotes :
    let events : List Event :=
      [.start "p" [("t", "\"&'")], .text "a<b", .start "br" [], .stop "br",
        .text "<i>", .stop "p"]
    let source :=
      "<!--a-b--><p t = '\"&#38;&#x27;' >a&lt;b<br/><![CDATA[<i>]]></p >"
    Nested [] events ∧ (∀ event ∈ events, event.Printable) ∧
      TextsApart events ∧ Prints events source.toList ∧
      read source = (events, none) := by
  intro events source
  have hnested : Nested [] events := by
    simp [events, Nested, Event.Fits, Event.nest]
  have hp : isName "p".toList := by decide
  have hbr : isName "br".toList := by decide
  have ht : isName "t".toList := by decide
  have hunique : UniqueKeys [("t", "\"&'")] := List.pairwise_singleton _ _
  have hprintable : ∀ event ∈ events, event.Printable := by
    simp only [events, List.forall_mem_cons, Event.Printable]
    exact ⟨⟨hp, ⟨ht, List.forall_mem_nil _⟩, hunique⟩, by decide,
      ⟨hbr, List.forall_mem_nil _, .nil⟩, hbr, by decide, hp,
      List.forall_mem_nil _⟩
  have htexts : TextsApart events := by
    unfold TextsApart
    decide
  have hblank := blanks_space
  have hamp : Spelling '\'' '&' ('&' :: (['#', '3', '8'] ++ [';'])) :=
    .reference (.decimal (by decide) (by decide))
  have hquote : Spelling '\'' '\'' ('&' :: (['#', 'x', '2', '7'] ++ [';'])) :=
    .reference (.hexadecimal (by decide) (by decide))
  have hless : Spelling '<' '<' ('&' :: (['l', 't'] ++ [';'])) :=
    .reference (.named (by decide))
  have hvalue : Spells '\'' ['"', '&', '\''] _ :=
    .cons (.raw (by decide) (by decide)) (.cons hamp (.cons hquote .nil))
  have htext : Spells '<' ['a', '<', 'b'] _ :=
    .cons (.raw (by decide) (by decide)) (.cons hless
      (.cons (.raw (by decide) (by decide)) .nil))
  have hopening : PrintsTag "p" [("t", "\"&'")] _ :=
    .mk (.cons hblank (by decide) hblank hblank (.inr rfl) hvalue .nil) hblank
  have hprints : Prints [.start "p" [("t", "\"&'")], .text "a<b",
      .start "br" [], .stop "br", .text "<i>", .stop "p"] _ :=
    .comment (by decide : ¬ commentEnd <:+: ['a', '-', 'b']) <|
      .startTag hopening <|
      .text htext <|
      .emptyTag (.mk .nil blanks_nil) <|
      .literal (by decide) <|
      .endTag hblank .nil
  have hsource : Prints events source.toList := by
    dsimp only [events, source]
    exact hprints
  have hread := ((read_printed ⟨"p", _, rfl⟩ hnested hprintable htexts).2
    source hsource).1
  exact ⟨hnested, hprintable, htexts, hsource, hread⟩

end Markup
end DocTemplate
