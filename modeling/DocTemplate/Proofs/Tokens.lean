import DocTemplate.Html.Page
import Mathlib.Tactic.SplitIfs

/-!
# Reading fragments back

A reader of a page sees a text and nothing of the tree that it was written
from.  It takes the text one character at a time, and the place where it
stands decides what a character means: a bracket opens a tag in a text and is
itself in an attribute value, a quote is itself in a text and ends a value.
What is written from a tree is read back as the tags, the attribute values and
the characters of the tree, whatever they are.  The reason is that each way of
escaping gives a text that, read at the place where it is used, adds its
character to that place and does not leave it.
-/

namespace DocTemplate
namespace Html

/-! ## Tokens -/

inductive Token
  | start (name : String) (attributes : List (String × String))
  | stop (name : String)
  | character (c : Char)
deriving DecidableEq, Repr

/-- A start tag up to where it has been read. -/
structure OpenTag where
  name : List Char
  attributes : List (String × String) := []
deriving DecidableEq, Repr

namespace OpenTag

def add (tag : OpenTag) (key value : List Char) : OpenTag :=
  { tag with
    attributes :=
      tag.attributes ++ [(String.ofList key, String.ofList value)] }

def token (tag : OpenTag) : Token :=
  .start (String.ofList tag.name) tag.attributes

end OpenTag

/-- The character of a reference, by what stands between the ampersand and the
semicolon. -/
def reference? : List Char → Option Char
  | ['a', 'm', 'p'] => some '&'
  | ['n', 'b', 's', 'p'] => some '\u00a0'
  | ['l', 't'] => some '<'
  | ['g', 't'] => some '>'
  | ['q', 'u', 'o', 't'] => some '"'
  | ['#', '3', '9'] => some '\''
  | _ => none

/-- Where a reader stands, with what it has read of the part around it. -/
inductive Place
  | text
  | textReference (body : List Char)
  | bracket
  | startName (name : List Char)
  | stopName (name : List Char)
  | blank (opened : OpenTag)
  | key (opened : OpenTag) (name : List Char)
  | equals (opened : OpenTag) (name : List Char)
  | value (opened : OpenTag) (name contents : List Char)
  | valueReference (opened : OpenTag) (name contents body : List Char)
  | quote (opened : OpenTag)
deriving DecidableEq, Repr

namespace Place

/-- Reads one character: the tokens that it completes, and the place behind
it. -/
def step : Place → Char → Option (List Token × Place)
  | text, c =>
      if c = '<' then some ([], bracket)
      else if c = '&' then some ([], textReference [])
      else some ([.character c], text)
  | textReference body, c =>
      if c = ';' then
        (reference? body).map fun referred => ([.character referred], text)
      else
        some ([], textReference (body ++ [c]))
  | bracket, c =>
      if c = '/' then some ([], stopName [])
      else if c.isAlphanum then some ([], startName [c])
      else none
  | startName name, c =>
      if c = '>' then some ([OpenTag.token ⟨name, []⟩], text)
      else if c = ' ' then some ([], blank ⟨name, []⟩)
      else if c.isAlphanum then some ([], startName (name ++ [c]))
      else none
  | stopName name, c =>
      if c = '>' then some ([.stop (String.ofList name)], text)
      else if c.isAlphanum then some ([], stopName (name ++ [c]))
      else none
  | blank opened, c =>
      if c.isAlphanum then some ([], key opened [c]) else none
  | key opened name, c =>
      if c = '=' then some ([], equals opened name)
      else if c.isAlphanum then some ([], key opened (name ++ [c]))
      else none
  | equals opened name, c =>
      if c = '"' then some ([], value opened name []) else none
  | value opened name contents, c =>
      if c = '"' then some ([], quote (opened.add name contents))
      else if c = '&' then some ([], valueReference opened name contents [])
      else some ([], value opened name (contents ++ [c]))
  | valueReference opened name contents body, c =>
      if c = ';' then
        (reference? body).map fun referred =>
          ([], value opened name (contents ++ [referred]))
      else
        some ([], valueReference opened name contents (body ++ [c]))
  | quote opened, c =>
      if c = '>' then some ([opened.token], text)
      else if c = ' ' then some ([], blank opened)
      else none

def walk : Place → List Char → Option (List Token × Place)
  | place, [] => some ([], place)
  | place, c :: rest =>
      (place.step c).bind fun (tokens, next) =>
        (next.walk rest).map fun (others, last) => (tokens ++ others, last)

end Place

/-- The tokens of a text, if all of its tags and references are complete. -/
def tokens? (source : String) : Option (List Token) :=
  (Place.text.walk source.toList).bind fun (tokens, place) =>
    if place = .text then some tokens else none

mutual

/-- The tokens of a tree. -/
def Node.tokens : Node → List Token
  | .text contents => contents.toList.map .character
  | .element tag attributes children =>
      if tag.isVoid then
        [.start tag.name attributes]
      else
        .start tag.name attributes :: (tokensAll children ++ [.stop tag.name])

def tokensAll : List Node → List Token
  | [] => []
  | node :: rest => node.tokens ++ tokensAll rest

end

/-! ## Reading one part after the other -/

/-- From one place a text is read as some tokens, up to another place. -/
def Reads (place : Place) (source : List Char) (tokens : List Token)
    (next : Place) : Prop :=
  place.walk source = some (tokens, next)

namespace Reads

variable {place next last : Place} {source behind : List Char}
  {tokens others : List Token} {c : Char}

theorem nil (place : Place) : Reads place [] [] place := rfl

theorem cons (hstep : place.step c = some (tokens, next))
    (hrest : Reads next source others last) :
    Reads place (c :: source) (tokens ++ others) last := by
  unfold Reads at hrest ⊢
  simp only [Place.walk, hstep, hrest, Option.bind_some, Option.map_some]

theorem skip (hstep : place.step c = some ([], next))
    (hrest : Reads next source others last) :
    Reads place (c :: source) others last :=
  cons hstep hrest

theorem single (hstep : place.step c = some (tokens, next)) :
    Reads place [c] tokens next := by
  simpa using cons hstep (nil next)

theorem uncons (h : Reads place (c :: source) tokens last) :
    ∃ here next later, place.step c = some (here, next) ∧
      Reads next source later last ∧ tokens = here ++ later := by
  simp only [Reads, Place.walk, Option.bind_eq_some_iff,
    Option.map_eq_some_iff, Prod.exists, Prod.mk.injEq] at h
  obtain ⟨here, next, hstep, later, behind, hrest, rfl, rfl⟩ := h
  exact ⟨here, next, later, hstep, hrest, rfl⟩

theorem append (hfirst : Reads place source tokens next)
    (hsecond : Reads next behind others last) :
    Reads place (source ++ behind) (tokens ++ others) last := by
  induction source generalizing place tokens with
  | nil =>
      cases hfirst
      exact hsecond
  | cons c rest ih =>
      obtain ⟨here, between, later, hstep, hrest, rfl⟩ := hfirst.uncons
      rw [List.cons_append, List.append_assoc]
      exact cons hstep (ih hrest)

/-- Tokens that are complete at one place are the tokens of the text. -/
theorem tokens?_eq (h : Reads .text source tokens .text) :
    tokens? (String.ofList source) = some tokens := by
  unfold Reads at h
  simp [tokens?, h]

end Reads

/-! ## Parts that are collected -/

/-- Characters that a place collects one by one. -/
theorem reads_collected {place : List Char → Place}
    {write : Char → List Char} {source : List Char}
    (hread : ∀ c ∈ source, ∀ taken,
      Reads (place taken) (write c) [] (place (taken ++ [c])))
    (taken : List Char) :
    Reads (place taken) (source.flatMap write) []
      (place (taken ++ source)) := by
  -- What is taken grows with each character.
  induction source generalizing taken with
  | nil => simpa using Reads.nil (place taken)
  | cons c rest ih =>
      rw [List.forall_mem_cons] at hread
      have hrest := ih hread.2 (taken ++ [c])
      rw [List.append_assoc] at hrest
      exact (hread.1 taken).append hrest

/-- Whether a text can be the name of a tag or of an attribute. -/
def IsName (name : List Char) : Prop :=
  name ≠ [] ∧ ∀ c ∈ name, c.isAlphanum = true

instance (name : List Char) : Decidable (IsName name) :=
  @instDecidableAnd _ _ _ (List.decidableBAll _ name)

theorem ne_of_isAlphanum {c : Char} (hc : c.isAlphanum = true) (mark : Char)
    (hmark : mark.isAlphanum = false) : c ≠ mark := by
  rintro rfl
  cases hc.symm.trans hmark

/-- A place that takes the characters of a name takes the whole name. -/
theorem reads_name {place : List Char → Place}
    (hstep : ∀ c, c.isAlphanum = true → ∀ taken,
      (place taken).step c = some ([], place (taken ++ [c])))
    {name : List Char} (hname : ∀ c ∈ name, c.isAlphanum = true)
    (taken : List Char) :
    Reads (place taken) name [] (place (taken ++ name)) := by
  have hread : ∀ c ∈ name, ∀ taken,
      Reads (place taken) [c] [] (place (taken ++ [c])) :=
    fun c hc taken => .single (hstep c (hname c hc) taken)
  simpa using reads_collected hread taken

theorem step_startName {c : Char} (hc : c.isAlphanum = true)
    (taken : List Char) :
    (Place.startName taken).step c = some ([], .startName (taken ++ [c])) := by
  simp [Place.step, hc, ne_of_isAlphanum hc '>' rfl,
    ne_of_isAlphanum hc ' ' rfl]

theorem step_stopName {c : Char} (hc : c.isAlphanum = true)
    (taken : List Char) :
    (Place.stopName taken).step c = some ([], .stopName (taken ++ [c])) := by
  simp [Place.step, hc, ne_of_isAlphanum hc '>' rfl]

theorem step_key {c : Char} (hc : c.isAlphanum = true) (opened : OpenTag)
    (taken : List Char) :
    (Place.key opened taken).step c =
      some ([], .key opened (taken ++ [c])) := by
  simp [Place.step, hc, ne_of_isAlphanum hc '=' rfl]

/-! ## Escaped characters -/

/-- Whether a way of escaping is undone where a text is read. -/
def UndoneInText (escape : Char → List Char) : Prop :=
  ∀ c, Reads .text (escape c) [.character c] .text

def UndoneInValue (escape : Char → List Char) : Prop :=
  ∀ opened name taken c, Reads (.value opened name taken) (escape c) []
    (.value opened name (taken ++ [c]))

theorem escapeText_undone : UndoneInText escapeText := by
  intro c
  unfold escapeText
  split_ifs with hamp hspace hless hgreater
  · subst hamp; rfl
  · subst hspace; rfl
  · subst hless; rfl
  · subst hgreater; rfl
  · exact .single (by simp [Place.step, hamp, hless])

theorem escapeValue_undone : UndoneInValue escapeValue := by
  intro opened name taken c
  unfold escapeValue
  split_ifs with hamp hspace hquote
  · subst hamp; rfl
  · subst hspace; rfl
  · subst hquote; rfl
  · exact .single (by simp [Place.step, hamp, hquote])

theorem escapeHead_undone_text : UndoneInText escapeHead := by
  intro c
  unfold escapeHead
  split_ifs with hamp hless hgreater hquote happos
  · subst hamp; rfl
  · subst hless; rfl
  · subst hgreater; rfl
  · subst hquote; rfl
  · subst happos; rfl
  · exact .single (by simp [Place.step, hamp, hless])

theorem escapeHead_undone_value : UndoneInValue escapeHead := by
  intro opened name taken c
  unfold escapeHead
  split_ifs with hamp hless hgreater hquote happos
  · subst hamp; rfl
  · subst hless; rfl
  · subst hgreater; rfl
  · subst hquote; rfl
  · subst happos; rfl
  · exact .single (by simp [Place.step, hamp, hquote])

theorem reads_flatMap {α : Type} {write : α → List Char}
    {made : α → List Token} {items : List α}
    (hitem : ∀ item ∈ items, Reads .text (write item) (made item) .text) :
    Reads .text (items.flatMap write) (items.flatMap made) .text := by
  induction items with
  | nil => exact .nil _
  | cons item rest ih =>
      rw [List.forall_mem_cons] at hitem
      exact hitem.1.append (ih hitem.2)

theorem reads_text {escape : Char → List Char} (hundone : UndoneInText escape)
    (source : List Char) :
    Reads .text (source.flatMap escape) (source.map .character) .text := by
  rw [List.map_eq_flatMap]
  exact reads_flatMap fun c _ => hundone c

/-- A value and the quote that ends it. -/
theorem reads_value {escape : Char → List Char}
    (hundone : UndoneInValue escape) (opened : OpenTag) (name : List Char)
    (contents : String) :
    Reads (.value opened name []) (contents.toList.flatMap escape ++ ['"']) []
      (.quote { opened with
        attributes :=
          opened.attributes ++ [(String.ofList name, contents)] }) := by
  have hcontents := reads_collected
    (fun c (_ : c ∈ contents.toList) taken => hundone opened name taken c) []
  refine hcontents.append (.single ?_)
  simp [Place.step, OpenTag.add]

/-! ## Tags -/

theorem Tag.isName_name (tag : Tag) : IsName tag.name.toList := by
  cases tag <;> decide

/-- The places from which a start tag goes on or ends. -/
inductive Place.Behind : Place → OpenTag → Prop
  | name (name : List Char) : Behind (.startName name) ⟨name, []⟩
  | quote (opened : OpenTag) : Behind (.quote opened) opened

theorem reads_attribute (opened : OpenTag) {pair : String × String}
    (hname : IsName pair.1.toList) :
    Reads (.blank opened)
      (pair.1.toList ++
        '=' :: '"' :: (pair.2.toList.flatMap escapeValue ++ ['"']))
      [] (.quote
        { opened with attributes := opened.attributes ++ [pair] }) := by
  obtain ⟨key, value⟩ := pair
  obtain ⟨hnonempty, halphanum⟩ := hname
  have hvalue := reads_value escapeValue_undone opened key.toList value
  rw [String.ofList_toList] at hvalue
  have hbehind : Reads (.key opened key.toList)
      ('=' :: '"' :: (value.toList.flatMap escapeValue ++ ['"'])) []
      (.quote { opened with
        attributes := opened.attributes ++ [(key, value)] }) := by
    have hequals : (Place.key opened key.toList).step '=' =
        some ([], .equals opened key.toList) := rfl
    have hquote : (Place.equals opened key.toList).step '"' =
        some ([], .value opened key.toList []) := rfl
    exact .skip hequals (.skip hquote hvalue)
  cases hkey : key.toList with
  | nil => exact absurd hkey hnonempty
  | cons first rest =>
      simp only [hkey] at halphanum hbehind ⊢
      rw [List.forall_mem_cons] at halphanum
      have hfirst : (Place.blank opened).step first =
          some ([], .key opened [first]) := by
        simp [Place.step, halphanum.1]
      have hrest := reads_name (fun c hc => step_key hc opened) halphanum.2
        [first]
      exact .skip hfirst (hrest.append hbehind)

theorem reads_attributes {place : Place} {opened : OpenTag}
    (hplace : place.Behind opened) {attributes : List (String × String)}
    (hnames : ∀ pair ∈ attributes, IsName pair.1.toList) :
    Reads place (attributes.flatMap writeAttribute ++ ['>'])
      [.start (String.ofList opened.name) (opened.attributes ++ attributes)]
      .text := by
  -- The first attribute follows the name of the tag, the others a quote.
  induction attributes generalizing place opened with
  | nil =>
      rw [List.append_nil]
      cases hplace with
      | name => exact .single rfl
      | quote => exact .single rfl
  | cons pair rest ih =>
      rw [List.forall_mem_cons] at hnames
      have hblank : place.step ' ' = some ([], .blank opened) := by
        cases hplace <;> rfl
      have hpair := reads_attribute opened hnames.1
      have hrest := ih (.quote { opened with
        attributes := opened.attributes ++ [pair] }) hnames.2
      rw [List.append_assoc] at hrest
      simpa [writeAttribute] using (Reads.skip hblank hpair).append hrest

theorem reads_startTag (tag : Tag) {attributes : List (String × String)}
    (hnames : ∀ pair ∈ attributes, IsName pair.1.toList) :
    Reads .text (startTag tag attributes) [.start tag.name attributes]
      .text := by
  obtain ⟨hnonempty, halphanum⟩ := tag.isName_name
  have hattributes := reads_attributes (.name tag.name.toList) hnames
  unfold startTag
  cases hchars : tag.name.toList with
  | nil => exact absurd hchars hnonempty
  | cons first rest =>
      rw [hchars, List.forall_mem_cons] at halphanum
      have hbracket : Place.text.step '<' = some ([], .bracket) := rfl
      have hfirst : Place.bracket.step first =
          some ([], .startName [first]) := by
        simp [Place.step, halphanum.1,
          ne_of_isAlphanum halphanum.1 '/' rfl]
      have hrest := reads_name (fun c => step_startName) halphanum.2 [first]
      rw [List.singleton_append, ← hchars] at hrest
      simpa using Reads.skip hbracket
        (Reads.skip hfirst (hrest.append hattributes))

theorem reads_endTag (tag : Tag) :
    Reads .text (endTag tag) [.stop tag.name] .text := by
  have hread := reads_name (fun c => step_stopName) tag.isName_name.2 []
  have hend : (Place.stopName tag.name.toList).step '>' =
      some ([.stop tag.name], .text) := by
    simp [Place.step]
  have hbracket : Place.text.step '<' = some ([], .bracket) := rfl
  have hslash : Place.bracket.step '/' = some ([], .stopName []) := rfl
  exact .skip hbracket (.skip hslash (hread.append (.single hend)))

/-! ## Trees -/

mutual

def Node.HasNames : Node → Prop
  | .text _ => True
  | .element _ attributes children =>
      (∀ pair ∈ attributes, IsName pair.1.toList) ∧ AllHaveNames children

def AllHaveNames : List Node → Prop
  | [] => True
  | node :: rest => node.HasNames ∧ AllHaveNames rest

end

mutual

/-- What is written from a tree is read as the tokens of the tree. -/
theorem Node.reads_write : (node : Node) → node.HasNames →
    Reads .text node.write node.tokens .text
  | .text contents, _ => reads_text escapeText_undone contents.toList
  | .element tag attributes children, ⟨hnames, hchildren⟩ => by
      have hopening := reads_startTag tag hnames
      have hinner := reads_writeAll children hchildren
      have hclosing := reads_endTag tag
      unfold Node.write Node.tokens
      split
      · exact hopening
      · exact (hopening.append hinner).append hclosing

theorem reads_writeAll : (nodes : List Node) → AllHaveNames nodes →
    Reads .text (writeAll nodes) (tokensAll nodes) .text
  | [], _ => .nil _
  | node :: rest, ⟨hnode, hrest⟩ =>
      (node.reads_write hnode).append (reads_writeAll rest hrest)

end

end Html
end DocTemplate
