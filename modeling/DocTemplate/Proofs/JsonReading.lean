import DocTemplate.Proofs.JsonTokens

/-!
# Reading written JSON

Reading what is written gives the value back, from the compact text as well as
from the indented one.  It is shown piece by piece what taking the tokens of a
piece does to a reading that is under way, whatever comes behind the piece.
The reader bounds how deep values nest, and numbers are whole here.
-/

namespace DocTemplate
namespace Json

mutual

/-- Whether a value has whole numbers only and stays within so many levels of
arrays and objects. -/
def Fits : Json → Nat → Prop
  | .null, _ | .bool _, _ | .string _, _ => True
  | .number literal, _ => IsWhole literal
  | .array items, room => 0 < room ∧ ItemsFit items (room - 1)
  | .object members, room => 0 < room ∧ MembersFit members (room - 1)

def ItemsFit : List Json → Nat → Prop
  | [], _ => True
  | item :: rest, room => Fits item room ∧ ItemsFit rest room

def MembersFit : List (String × Json) → Nat → Prop
  | [], _ => True
  | (_, value) :: rest, room => Fits value room ∧ MembersFit rest room

end

theorem itemsFit_iff {items : List Json} {room : Nat} :
    ItemsFit items room ↔ ∀ item ∈ items, item.Fits room := by
  induction items with
  | nil => simp [ItemsFit]
  | cons item rest ih => simp [ItemsFit, ih]

theorem membersFit_iff {members : List (String × Json)} {room : Nat} :
    MembersFit members room ↔ ∀ member ∈ members, member.2.Fits room := by
  induction members with
  | nil => simp [MembersFit]
  | cons member rest ih => simp [MembersFit, ih]

/-! ## Taking the tokens of a text -/

/-- Taking the tokens of a text leads from one reading to another, whatever
stands behind the text and does not go on with a number at its end. -/
def Takes (before : Reading) (text : List Char) (after : Reading) : Prop :=
  ∀ offset rest, Apart rest →
    ∃ behind, (tokensFrom offset (text ++ rest)).foldlM Reading.step before =
      (tokensFrom behind rest).foldlM Reading.step after

variable {before middle after : Reading} {text : List Char}

theorem takes_nil (reading : Reading) : Takes reading [] reading :=
  fun offset _ _ => ⟨offset, rfl⟩

theorem Takes.append {first second : List Char}
    (hfirst : Takes before first middle) (hsecond : Takes middle second after)
    (happart : Apart second) : Takes before (first ++ second) after := by
  intro offset rest hrest
  obtain ⟨place, hplace⟩ :=
    hfirst offset (second ++ rest) (happart.append hrest)
  obtain ⟨behind, hbehind⟩ := hsecond place rest hrest
  refine ⟨behind, ?_⟩
  rw [List.append_assoc, hplace, hbehind]

theorem Takes.blanks {blanks : List Char} (h : Takes before text after)
    (hblanks : ∀ c ∈ blanks, Text.isSpace c = true) :
    Takes before (blanks ++ text) after := by
  intro offset rest hrest
  rw [List.append_assoc, tokensFrom_blanks hblanks]
  exact h _ rest hrest

/-- A mark or a string ends where it ends, so what stands behind it does not
matter. -/
theorem Takes.mark {mark : Char} (h : Takes middle text after)
    (hmark : isMark mark)
    (hstep : ∀ offset,
      before.step ⟨offset, .punctuation mark⟩ = .ok middle) :
    Takes before (mark :: text) after := by
  intro offset rest hrest
  obtain ⟨behind, hbehind⟩ := h (offset + 1) rest hrest
  refine ⟨behind, ?_⟩
  rw [List.cons_append, tokensFrom_mark hmark, List.foldlM_cons, hstep]
  exact hbehind

theorem Takes.quote {contents : String} (h : Takes middle text after)
    (hstep : ∀ offset, before.step ⟨offset, .string contents⟩ = .ok middle) :
    Takes before (quote contents ++ text) after := by
  intro offset rest hrest
  obtain ⟨place, hplace⟩ := tokensFrom_quote contents offset (text ++ rest)
  obtain ⟨behind, hbehind⟩ := h place rest hrest
  refine ⟨behind, ?_⟩
  rw [List.append_assoc, hplace, List.foldlM_cons, hstep]
  exact hbehind

theorem takes_scalar {value : Json}
    (htokens : ∀ offset rest, Apart rest →
      ∃ behind, tokensFrom offset (text ++ rest) =
        ⟨offset, .scalar value⟩ :: tokensFrom behind rest)
    (hstep : ∀ offset, before.step ⟨offset, .scalar value⟩ = .ok after) :
    Takes before text after := by
  intro offset rest hrest
  obtain ⟨behind, hbehind⟩ := htokens offset rest hrest
  refine ⟨behind, ?_⟩
  rw [hbehind, List.foldlM_cons, hstep]
  rfl

/-! ## Where a value is due -/

/-- Whether a value may come next. -/
def Due.AwaitsValue : Due → Prop
  | .value | .firstItem | .item => True
  | _ => False

/-- Whether a name may come next. -/
def Due.AwaitsName : Due → Prop
  | .firstName | .name => True
  | _ => False

namespace Reading

theorem step_value {due : Due} (hdue : due.AwaitsValue) {token : Token}
    (hend : token.lexeme ≠ .punctuation ']') (frames : List Frame) :
    step ⟨frames, due⟩ token = beginValue frames token := by
  cases due with
  | value => rfl
  | firstItem =>
      unfold step
      split <;> simp_all
  | item =>
      unfold step
      split <;> simp_all
  | firstName | name | colon | commaOrEnd | nothing => cases hdue

theorem step_name {due : Due} (hdue : due.AwaitsName) (offset : Nat)
    (name : String) (members : List (String × Json)) (last : String)
    (frames : List Frame) :
    step ⟨.object members last :: frames, due⟩ ⟨offset, .string name⟩ =
      .ok ⟨.object members name :: frames, .colon⟩ := by
  cases due with
  | firstName => rfl
  | name => rfl
  | value | firstItem | item | colon | commaOrEnd | nothing => cases hdue

theorem step_openArray {due : Due} (hdue : due.AwaitsValue)
    {frames : List Frame} (h : frames.length < maxDepth) (offset : Nat) :
    step ⟨frames, due⟩ ⟨offset, .punctuation '['⟩ =
      .ok ⟨.array [] :: frames, .firstItem⟩ := by
  rw [step_value hdue (by simp)]
  exact if_neg h.ne

theorem step_openObject {due : Due} (hdue : due.AwaitsValue)
    {frames : List Frame} (h : frames.length < maxDepth) (offset : Nat) :
    step ⟨frames, due⟩ ⟨offset, .punctuation '\x7b'⟩ =
      .ok ⟨.object [] "" :: frames, .firstName⟩ := by
  rw [step_value hdue (by simp)]
  exact if_neg h.ne

end Reading

/-! ## What is written between values -/

theorem isSpace_lineBreak (layout : Layout) :
    ∀ c ∈ layout.lineBreak, Text.isSpace c = true := by
  cases layout with
  | compact => nofun
  | indented level =>
      intro c hmem
      rcases List.mem_cons.mp hmem with rfl | hblank
      · rfl
      · rw [List.eq_of_mem_replicate hblank]
        rfl

theorem apart_of_mem {c : Char} (h : c ∈ [',', '\n', ']', '\x7d'])
    (rest : List Char) : Apart (c :: rest) := by
  have hall : ∀ mark ∈ [',', '\n', ']', '\x7d'],
      mark.isDigit = false ∧ mark ≠ '.' ∧ mark ≠ 'e' ∧ mark ≠ 'E' :=
    List.all_iff_forall_prop.mp (by decide)
  rintro first ⟨⟩
  exact hall c h

theorem apart_lineBreak (layout : Layout) : Apart layout.lineBreak := by
  cases layout with
  | compact => nofun
  | indented level => exact apart_of_mem (by decide) _

theorem apart_writeItems (layout : Layout) (items : List Json) :
    Apart (writeItems layout items) := by
  cases items with
  | nil => nofun
  | cons item rest => exact apart_of_mem (by decide) _

theorem apart_writeMembers (layout : Layout)
    (members : List (String × Json)) :
    Apart (writeMembers layout members) := by
  cases members with
  | nil => nofun
  | cons member rest => exact apart_of_mem (by decide) _

/-! ## Taking what is written -/

section

variable {due : Due} (hdue : due.AwaitsValue) (frames : List Frame)

include hdue

theorem takes_word {c : Char} {word : List Char} {value : Json}
    (hword : word? c = some (word, value)) :
    Takes ⟨frames, due⟩ (c :: word) (.put frames value) := by
  apply takes_scalar
  · intro offset rest _
    exact tokensFrom_word hword offset rest
  · intro offset
    apply Reading.step_value hdue
    exact Lexeme.noConfusion

theorem takes_number {literal : String} (hliteral : IsWhole literal) :
    Takes ⟨frames, due⟩ literal.toList (.put frames (.number literal)) := by
  apply takes_scalar
  · intro offset rest hrest
    exact tokensFrom_number hliteral hrest offset
  · intro offset
    apply Reading.step_value hdue
    exact Lexeme.noConfusion

theorem takes_string (contents : String) :
    Takes ⟨frames, due⟩ (quote contents) (.put frames (.string contents)) := by
  have hstep (offset : Nat) :
      Reading.step ⟨frames, due⟩ ⟨offset, .string contents⟩ =
        .ok (.put frames (.string contents)) := by
    apply Reading.step_value hdue
    exact Lexeme.noConfusion
  have hquote := (takes_nil _).quote hstep
  rw [List.append_nil] at hquote
  exact hquote

theorem takes_emptyArray (hopen : frames.length < Reading.maxDepth) :
    Takes ⟨frames, due⟩ ['[', ']'] (.put frames (.array [])) := by
  have hclose : Takes ⟨.array [] :: frames, .firstItem⟩ [']']
      (.put frames (.array [])) :=
    (takes_nil _).mark rfl fun _ => rfl
  exact hclose.mark rfl (Reading.step_openArray hdue hopen)

theorem takes_emptyObject (hopen : frames.length < Reading.maxDepth) :
    Takes ⟨frames, due⟩ ['\x7b', '\x7d'] (.put frames (.object [])) := by
  have hclose : Takes ⟨.object [] "" :: frames, .firstName⟩ ['\x7d']
      (.put frames (.object [])) :=
    (takes_nil _).mark rfl fun _ => rfl
  exact hclose.mark rfl (Reading.step_openObject hdue hopen)

/-- An array from its first item and the further ones. -/
theorem takes_array {layout : Layout} {item : Json} {rest : List Json}
    (hopen : frames.length < Reading.maxDepth)
    (hitem : Takes ⟨.array [] :: frames, .firstItem⟩
      (write layout.inner item) ⟨.array [item] :: frames, .commaOrEnd⟩)
    (hrest : Takes ⟨.array [item] :: frames, .commaOrEnd⟩
      (writeItems layout.inner rest)
      ⟨.array (item :: rest) :: frames, .commaOrEnd⟩) :
    Takes ⟨frames, due⟩ (write layout (.array (item :: rest)))
      (.put frames (.array (item :: rest))) := by
  have hclose : Takes ⟨.array (item :: rest) :: frames, .commaOrEnd⟩ [']']
      (.put frames (.array (item :: rest))) :=
    (takes_nil _).mark rfl fun _ => rfl
  have hend := hclose.blanks (isSpace_lineBreak layout)
  have happart := (apart_lineBreak layout).append (apart_of_mem
    (by decide : ']' ∈ [',', '\n', ']', '\x7d']) [])
  have hitems := hitem.append (hrest.append hend happart)
    ((apart_writeItems layout.inner rest).append happart)
  have hall := (hitems.blanks (isSpace_lineBreak layout.inner)).mark rfl
    (Reading.step_openArray hdue hopen)
  simp only [write, List.append_assoc]
  exact hall

/-- An object from its first member and the further ones. -/
theorem takes_object {layout : Layout} {name last : String} {value : Json}
    {rest : List (String × Json)} (hopen : frames.length < Reading.maxDepth)
    (hmember : Takes ⟨.object [] "" :: frames, .firstName⟩
      (quote name ++ (layout.colon ++ write layout.inner value))
      ⟨.object [(name, value)] name :: frames, .commaOrEnd⟩)
    (hrest : Takes ⟨.object [(name, value)] name :: frames, .commaOrEnd⟩
      (writeMembers layout.inner rest)
      ⟨.object ((name, value) :: rest) last :: frames, .commaOrEnd⟩) :
    Takes ⟨frames, due⟩ (write layout (.object ((name, value) :: rest)))
      (.put frames (.object ((name, value) :: rest))) := by
  have hclose :
      Takes ⟨.object ((name, value) :: rest) last :: frames, .commaOrEnd⟩
        ['\x7d'] (.put frames (.object ((name, value) :: rest))) :=
    (takes_nil _).mark rfl fun _ => rfl
  have hend := hclose.blanks (isSpace_lineBreak layout)
  have happart := (apart_lineBreak layout).append (apart_of_mem
    (by decide : '\x7d' ∈ [',', '\n', ']', '\x7d']) [])
  have hmembers := hmember.append (hrest.append hend happart)
    ((apart_writeMembers layout.inner rest).append happart)
  have hall := (hmembers.blanks (isSpace_lineBreak layout.inner)).mark rfl
    (Reading.step_openObject hdue hopen)
  simp only [List.append_assoc] at hall
  simp only [write, List.append_assoc]
  exact hall

end

/-- A name, its colon and its value. -/
theorem takes_member {due : Due} (hdue : due.AwaitsName) (layout : Layout)
    {name last : String} {value : Json} {members : List (String × Json)}
    {frames : List Frame} {written : List Char}
    (hvalue : Takes ⟨.object members name :: frames, .value⟩ written
      ⟨.object (members ++ [(name, value)]) name :: frames, .commaOrEnd⟩) :
    Takes ⟨.object members last :: frames, due⟩
      (quote name ++ (layout.colon ++ written))
      ⟨.object (members ++ [(name, value)]) name :: frames, .commaOrEnd⟩ := by
  have hcolon : Takes ⟨.object members name :: frames, .colon⟩
      (layout.colon ++ written)
      ⟨.object (members ++ [(name, value)]) name :: frames, .commaOrEnd⟩ := by
    cases layout with
    | compact => exact hvalue.mark rfl fun _ => rfl
    | indented level =>
        have hblank : ∀ c ∈ [' '], Text.isSpace c = true :=
          List.forall_mem_singleton.mpr rfl
        exact (hvalue.blanks hblank).mark rfl fun _ => rfl
  exact hcolon.quote fun offset =>
    Reading.step_name hdue offset name members last frames

mutual

/-- Taking the text of a value puts the value where one is due. -/
theorem takes_write (value : Json) (layout : Layout) {room : Nat}
    (hfits : value.Fits room) (frames : List Frame)
    (hroom : frames.length + room ≤ Reading.maxDepth) (due : Due)
    (hdue : due.AwaitsValue) :
    Takes ⟨frames, due⟩ (write layout value) (.put frames value) := by
  -- what is inside an array or an object has one frame more and one level of
  -- room less
  match value with
  | .null => exact takes_word hdue frames rfl
  | .bool true => exact takes_word hdue frames rfl
  | .bool false => exact takes_word hdue frames rfl
  | .number literal => exact takes_number hdue frames hfits
  | .string contents => exact takes_string hdue frames contents
  | .array [] =>
      obtain ⟨hpositive, _⟩ := hfits
      exact takes_emptyArray hdue frames (by omega)
  | .array (item :: rest) =>
      obtain ⟨hpositive, hitem, hrest⟩ := hfits
      have hinner : frames.length + 1 + (room - 1) ≤ Reading.maxDepth := by
        omega
      exact takes_array hdue frames (by omega)
        (takes_write item layout.inner hitem (.array [] :: frames) hinner
          .firstItem trivial)
        (takes_writeItems rest layout.inner hrest [item] frames hinner)
  | .object [] =>
      obtain ⟨hpositive, _⟩ := hfits
      exact takes_emptyObject hdue frames (by omega)
  | .object ((name, value) :: rest) =>
      obtain ⟨hpositive, hvalue, hrest⟩ := hfits
      have hinner : frames.length + 1 + (room - 1) ≤ Reading.maxDepth := by
        omega
      have hfirst := takes_write value layout.inner hvalue
        (.object [] name :: frames) hinner .value trivial
      obtain ⟨last, hlater⟩ := takes_writeMembers rest layout.inner hrest
        [(name, value)] name frames hinner
      have hname : Due.firstName.AwaitsName := trivial
      exact takes_object hdue frames (by omega)
        (takes_member hname layout hfirst) hlater

theorem takes_writeItems (items : List Json) (layout : Layout) {room : Nat}
    (hfits : ItemsFit items room) (before : List Json) (frames : List Frame)
    (hroom : frames.length + 1 + room ≤ Reading.maxDepth) :
    Takes ⟨.array before :: frames, .commaOrEnd⟩ (writeItems layout items)
      ⟨.array (before ++ items) :: frames, .commaOrEnd⟩ := by
  match items with
  | [] =>
      rw [List.append_nil]
      exact takes_nil _
  | item :: rest =>
      have hitem := takes_write item layout hfits.1 (.array before :: frames)
        hroom .item trivial
      have hrest := takes_writeItems rest layout hfits.2 (before ++ [item])
        frames hroom
      rw [List.append_assoc, List.singleton_append] at hrest
      have hlater := (hitem.append hrest (apart_writeItems layout rest)).blanks
        (isSpace_lineBreak layout)
      simp only [writeItems, List.append_assoc]
      exact hlater.mark rfl fun _ => rfl

theorem takes_writeMembers (members : List (String × Json)) (layout : Layout)
    {room : Nat} (hfits : MembersFit members room)
    (before : List (String × Json)) (last : String) (frames : List Frame)
    (hroom : frames.length + 1 + room ≤ Reading.maxDepth) :
    ∃ name, Takes ⟨.object before last :: frames, .commaOrEnd⟩
      (writeMembers layout members)
      ⟨.object (before ++ members) name :: frames, .commaOrEnd⟩ := by
  match members with
  | [] =>
      rw [List.append_nil]
      exact ⟨last, takes_nil _⟩
  | (name, value) :: rest =>
      have hname : Due.name.AwaitsName := trivial
      have hvalue := takes_write value layout hfits.1
        (.object before name :: frames) hroom .value trivial
      have hmember : Takes ⟨.object before last :: frames, .name⟩ _ _ :=
        takes_member hname layout hvalue
      obtain ⟨final, hrest⟩ := takes_writeMembers rest layout hfits.2
        (before ++ [(name, value)]) name frames hroom
      rw [List.append_assoc, List.singleton_append] at hrest
      have hlater := (hmember.append hrest
        (apart_writeMembers layout rest)).blanks (isSpace_lineBreak layout)
      simp only [List.append_assoc] at hlater
      simp only [writeMembers, List.append_assoc]
      exact ⟨final, hlater.mark rfl fun _ => rfl⟩

end

/-! ## Reading a whole text -/

theorem apart_blanks {blanks : List Char}
    (h : ∀ c ∈ blanks, Text.isSpace c = true) : Apart blanks := by
  cases blanks with
  | nil => nofun
  | cons c rest =>
      rintro first ⟨⟩
      have hspace := h c List.mem_cons_self
      simp only [Text.isSpace, Bool.or_eq_true, decide_eq_true_eq] at hspace
      rcases hspace with ((rfl | rfl) | rfl) | rfl <;> decide

theorem read_write_blanks (value : Json) (layout : Layout)
    (hfits : value.Fits Reading.maxDepth) {blanks : List Char}
    (hblanks : ∀ c ∈ blanks, Text.isSpace c = true) :
    read (write layout value ++ blanks) = .ok value := by
  have htakes := takes_write value layout hfits [] (Nat.zero_add _).le .value
    trivial
  obtain ⟨behind, hbehind⟩ := htakes 0 blanks (apart_blanks hblanks)
  have hend : tokensFrom behind blanks = [] := by
    have hskip := tokensFrom_blanks hblanks behind []
    rw [List.append_nil] at hskip
    rw [hskip, tokensFrom]
  rw [read, Reading.start, hbehind, hend]
  rfl

/-- Reading the compact or the indented text of a value gives the value, also
with blanks behind the text. -/
theorem parse_text_blanks (value : Json)
    (hfits : value.Fits Reading.maxDepth) (pretty : Bool) (intake : Intake)
    {blanks : String} (hblanks : ∀ c ∈ blanks.toList, Text.isSpace c = true) :
    parse (value.text pretty ++ blanks) intake = .ok value := by
  rw [parse, text, String.toList_append, String.toList_ofList,
    read_write_blanks value _ hfits hblanks]
  rfl

theorem parse_text (value : Json) (hfits : value.Fits Reading.maxDepth)
    (pretty : Bool) (intake : Intake) :
    parse (value.text pretty) intake = .ok value := by
  have hblanks : ∀ c ∈ "".toList, Text.isSpace c = true := nofun
  have hparse := parse_text_blanks value hfits pretty intake hblanks
  rwa [String.append_empty] at hparse

end Json
end DocTemplate
