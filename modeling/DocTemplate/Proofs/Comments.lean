import DocTemplate.Compile.Template
import DocTemplate.Proofs.BlockText
import DocTemplate.Proofs.Collapsing
import DocTemplate.Proofs.Cutting
import DocTemplate.Proofs.Depth
import DocTemplate.Proofs.Pulling
import DocTemplate.Proofs.Siblings

/-!
# Comments in a template

A comment leaves no event, so between two tags it makes no difference to a
document.  Inside character data it makes two texts of one, and each of them is
collapsed by itself: blanks next to the comment are trimmed away, although they
stand inside a line.  So a comment in character data is invisible exactly if
the two texts can be parted without loss, and a comment between two words takes
away the space beside it.
-/

namespace DocTemplate

open Markup Renderer

namespace Markup

/-! ## References -/

theorem dereference_place {offset : Nat} {body : List Char} {c : Char}
    (h : dereference offset body = .ok c) (place : Nat) :
    dereference place body = .ok c := by
  unfold dereference at h ⊢
  split at h
  · exact h
  · exact h
  · split at h
    · exact h
    · cases h

theorem unescapeFrom_amp {rest body tail : List Char}
    (hbody : rest.takeWhile (!endsReference ·) = body)
    (htail : rest.dropWhile (!endsReference ·) = ';' :: tail) (offset : Nat) :
    unescapeFrom offset ('&' :: rest) =
      (dereference offset body).bind fun c =>
        (unescapeFrom (offset + Text.byteCount body + 2) tail).map
          (c :: ·) := by
  rw [unescapeFrom]
  split
  · rename_i found hfound
    obtain ⟨-, rfl⟩ := List.cons.inj (htail.symm.trans hfound)
    rw [hbody]
    cases dereference offset body with
    | error problem => rfl
    | ok c => cases unescapeFrom (offset + Text.byteCount body + 2) tail <;> rfl
  · rename_i hother
    exact absurd htail (hother tail)

theorem ok_of_bind {ε α β : Type} {first : Except ε α}
    {next : α → Except ε β} {result : β} (h : first >>= next = .ok result) :
    ∃ value, first = .ok value ∧ next value = .ok result := by
  cases first with
  | error problem => cases h
  | ok value => exact ⟨value, rfl, h⟩

/-- What is read of two texts together is what is read of each of them, unless
a reference stands across the place where they meet. -/
theorem unescapeFrom_append {offset : Nat} {left right : List Char}
    {first second : List Char}
    (hleft : unescapeFrom offset left = .ok first)
    (hright : ∀ behind, unescapeFrom behind right = .ok second)
    (place : Nat) :
    unescapeFrom place (left ++ right) = .ok (first ++ second) := by
  fun_induction unescapeFrom offset left generalizing first place with
  | case1 offset =>
      cases hleft
      exact hright place
  | case2 offset rest body tail htail =>
      rename_i ih
      obtain ⟨c, hc, hbehind⟩ := ok_of_bind hleft
      obtain ⟨behind, hlater, hfirst⟩ := ok_of_bind hbehind
      cases hfirst
      have hrest : rest = body ++ ';' :: tail := by
        rw [← htail, List.takeWhile_append_dropWhile]
      have hbody : ∀ letter ∈ body, (!endsReference letter) = true :=
        fun letter hmem =>
          List.mem_takeWhile_imp (p := (!endsReference ·)) hmem
      have hstop : ∀ c ∈ (';' :: (tail ++ right)).head?,
          (!endsReference c) = false := by
        rintro c ⟨⟩
        rfl
      have htext : rest ++ right = body ++ ';' :: (tail ++ right) := by
        rw [hrest, List.append_assoc, List.cons_append]
      rw [List.cons_append, htext, unescapeFrom_amp
        (Text.takeWhile_run hbody hstop) (Text.dropWhile_run hbody hstop),
        dereference_place hc, Except.bind, ih hlater]
      rfl
  | case3 => cases hleft
  | case4 offset c rest hamp ih =>
      obtain ⟨behind, hbehind, hfirst⟩ := ok_of_bind hleft
      cases hfirst
      rw [List.cons_append, unescapeFrom_raw hamp, ih hbehind]
      rfl

/-- The character data of two texts is that of one and of the other. -/
theorem unescape_append {left right : List Char} {first second : String}
    (hleft : unescape left = .ok first) (hright : unescape right = .ok second) :
    unescape (left ++ right) = .ok (first ++ second) := by
  have hread {text : List Char} {contents : String}
      (h : unescape text = .ok contents) (place : Nat) :
      unescapeFrom place text = .ok contents.toList := by
    cases hfound : unescapeFrom 0 text with
    | error problem =>
        rw [unescape, hfound] at h
        cases h
    | ok found =>
        rw [unescape, hfound] at h
        cases h
        rw [String.toList_ofList]
        have hnothing : unescapeFrom place (text ++ []) = .ok (found ++ []) :=
          unescapeFrom_append hfound (fun _ => by rw [unescapeFrom]) place
        rwa [List.append_nil, List.append_nil] at hnothing
  rw [unescape, unescapeFrom_append (hread hleft 0) (hread hright) 0]
  change Except.ok _ = _
  rw [String.ofList_append, String.ofList_toList, String.ofList_toList]

theorem unescape_nil : unescape [] = .ok "" := by
  rw [unescape, unescapeFrom]
  rfl

/-! ## Places in a template -/

/-- A comment around some text. -/
def comment (inside : List Char) : List Char :=
  '<' :: (commentMark ++ inside ++ commentEnd)

/-- What is cut off a template as the comment. -/
def commentPiece (inside : List Char) : Piece :=
  .skipped ('!' :: '-' :: '-' :: (inside ++ ['-', '-']))

/-- Character data as a piece, if there is any. -/
def textPieces (written : List Char) : List Piece :=
  if written = [] then [] else [.text written]

/-- The place between two parts of a template lies behind the pieces `front`
and before the pieces `back`.  If there is character data around it, then
`left` stands right before it and `right` right behind. -/
structure GapBetween (front back : List Piece)
    (before after left right : List Char) : Prop where
  pieces_eq : pieces (withoutByteOrderMark (before ++ after)) =
    (front ++ (textPieces (left ++ right) ++ back), none)
  before_eq : withoutByteOrderMark before =
    front.flatMap Piece.source ++ left
  after_eq : after = right ++ back.flatMap Piece.source

/-- The place between two parts of a template lies between two pieces or inside
character data, where `left` stands right before it and `right` right
behind. -/
def Gap (before after left right : List Char) : Prop :=
  ∃ front back, GapBetween front back before after left right

theorem source_textPieces (written : List Char) :
    (textPieces written).flatMap Piece.source = written := by
  unfold textPieces
  split
  · rename_i hnil
    rw [hnil]
    rfl
  · simp [Piece.source]

/-- Cutting loses nothing. -/
theorem source_pieces {text : List Char} {list : List Piece}
    (h : pieces text = (list, none)) : list.flatMap Piece.source = text := by
  induction list generalizing text with
  | nil =>
      cases text with
      | nil => rfl
      | cons first rest =>
          cases hcut : cutPiece first rest with
          | error fault =>
              rw [pieces] at h
              split at h
              · cases h
              · cases h
          | ok taken =>
              rw [pieces_of_cut hcut] at h
              cases h
  | cons piece others ih =>
      obtain ⟨first, rest, behind, rfl, hcut, hpieces⟩ := exists_cut_of_pieces h
      obtain ⟨inside, hsource, rfl⟩ := source_of_cutPiece hcut
      rw [List.flatMap_cons, hsource, ih hpieces]
      rfl

/-- Character data in front of an angle bracket is one piece. -/
theorem pieces_textPieces {written rest : List Char}
    (hplain : '<' ∉ written)
    (hrest : written ≠ [] → ∀ c ∈ rest.head?, c = '<') :
    pieces (written ++ rest) =
      (textPieces written ++ (pieces rest).1, (pieces rest).2) := by
  cases written with
  | nil => rfl
  | cons first others =>
      rw [List.cons_append,
        pieces_of_cut (cutPiece_text hplain (hrest (List.cons_ne_nil _ _)))]
      rfl

/-- Character data that is cut as one piece, and what stands behind it. -/
theorem pieces_behind {written : List Char} {back : List Piece}
    (h : pieces (written ++ back.flatMap Piece.source) =
      (textPieces written ++ back, none)) :
    '<' ∉ written ∧
      (written ≠ [] → ∀ c ∈ (back.flatMap Piece.source).head?, c = '<') ∧
      pieces (back.flatMap Piece.source) = (back, none) := by
  cases written with
  | nil => exact ⟨List.not_mem_nil, fun hne => absurd rfl hne, h⟩
  | cons first others =>
      obtain ⟨_, rest, behind, htext, hcut, hpieces⟩ := exists_cut_of_pieces h
      obtain ⟨hplain, hhead⟩ := eq_of_cutPiece_text hcut
      obtain rfl : back.flatMap Piece.source = behind := source_pieces hpieces
      exact ⟨hplain, fun _ => hhead, hpieces⟩

theorem withoutByteOrderMark_of_head {text : List Char}
    (h : ∀ c ∈ text.head?, c ≠ '\ufeff') : withoutByteOrderMark text = text := by
  unfold withoutByteOrderMark
  split
  · exact absurd rfl (h _ rfl)
  · rfl

theorem withoutByteOrderMark_append (before : List Char) {after : List Char}
    (h : ∀ c ∈ after.head?, c ≠ '\ufeff') :
    withoutByteOrderMark (before ++ after) =
      withoutByteOrderMark before ++ after := by
  cases before with
  | nil => exact withoutByteOrderMark_of_head h
  | cons first rest =>
      by_cases hmark : first = '\ufeff'
      · subst hmark
        rfl
      · have hhead (behind : List Char) :
            withoutByteOrderMark (first :: behind) = first :: behind :=
          withoutByteOrderMark_of_head (by rintro c ⟨⟩; exact hmark)
        rw [List.cons_append, hhead, hhead, List.cons_append]

theorem GapBetween.source_eq {front back : List Piece}
    {before after left right : List Char}
    (h : GapBetween front back before after left right) :
    withoutByteOrderMark (before ++ after) = front.flatMap Piece.source ++
      (left ++ right ++ back.flatMap Piece.source) := by
  rw [← source_pieces h.pieces_eq, List.flatMap_append, List.flatMap_append,
    source_textPieces]

theorem head_comment (inside rest : List Char) :
    ∀ c ∈ (comment inside ++ rest).head?, c = '<' := by
  rintro c ⟨⟩
  rfl

theorem pieces_comment {inside : List Char} (hinside : ¬commentEnd <:+: inside)
    (rest : List Char) :
    pieces (comment inside ++ rest) =
      (commentPiece inside :: (pieces rest).1, (pieces rest).2) :=
  pieces_of_cut (cutPiece_comment hinside rest)

/-- A comment at a place of a template is a piece of its own, and all other
pieces stay as they are but for the character data around the place. -/
theorem GapBetween.pieces_comment {front back : List Piece}
    {before after left right inside : List Char}
    (h : GapBetween front back before after left right)
    (hinside : ¬commentEnd <:+: inside) :
    pieces (withoutByteOrderMark (before ++ (comment inside ++ after))) =
      (front ++ (textPieces left ++
        commentPiece inside :: (textPieces right ++ back)), none) := by
  have hpieces := h.pieces_eq
  rw [h.source_eq] at hpieces
  obtain ⟨hrest, hfront⟩ := pieces_front hpieces
  obtain ⟨hplain, hmark, hback⟩ := pieces_behind hrest
  rw [List.mem_append, not_or] at hplain
  have hright : pieces (right ++ back.flatMap Piece.source) =
      (textPieces right ++ back, none) := by
    rw [pieces_textPieces hplain.2, hback]
    intro hne
    exact hmark (List.append_ne_nil_of_right_ne_nil left hne)
  have hleft := pieces_textPieces hplain.1 fun _ =>
    head_comment inside (right ++ back.flatMap Piece.source)
  have hbom : ∀ c ∈ (comment inside ++ after).head?, c ≠ '\ufeff' := by
    intro c hc
    rw [head_comment inside after c hc]
    decide
  rw [withoutByteOrderMark_append before hbom, h.before_eq, h.after_eq,
    List.append_assoc, hfront, hleft, Markup.pieces_comment hinside, hright]
  intro c hc
  cases left with
  | nil => exact .inl (head_comment inside _ c hc)
  | cons first others => exact .inr hc

/-! ## Events around a comment -/

/-- What a piece comes to does not depend on how many bytes stand before it,
unless it is an error. -/
theorem Place.take_elsewhere {place next : Place} {piece : Piece}
    {events : List Event} (h : place.take piece = .ok (events, next))
    {other : Place} (hopen : other.openNames = place.openNames) :
    ∃ behind, other.take piece = .ok (events, behind) ∧
      behind.openNames = next.openNames := by
  have hbehind : ∀ piece,
      (other.behind piece).openNames = (place.behind piece).openNames :=
    fun _ => hopen
  cases piece with
  | text contents =>
      simp only [take] at h ⊢
      split at h <;> cases h
      exact ⟨_, rfl, hbehind _⟩
  | literal contents =>
      cases h
      exact ⟨_, rfl, hbehind _⟩
  | skipped contents =>
      cases h
      exact ⟨_, rfl, hbehind _⟩
  | startTag content =>
      simp only [take] at h ⊢
      split at h <;> cases h
      exact ⟨_, rfl, congrArg (_ :: ·) (hbehind (.startTag content))⟩
  | emptyTag content =>
      simp only [take] at h ⊢
      split at h <;> cases h
      exact ⟨_, rfl, hbehind _⟩
  | endTag content =>
      simp only [take, hopen] at h ⊢
      split at h
      · cases h
      · split at h
        · rename_i hname
          cases h
          rw [if_pos hname]
          exact ⟨_, rfl, rfl⟩
        · cases h

theorem eventsFrom_of_take {place next : Place} {piece : Piece}
    {events : List Event} (h : place.take piece = .ok (events, next))
    (fault : Option PieceFault) (rest : List Piece) :
    eventsFrom place fault (piece :: rest) =
      (events ++ (eventsFrom next fault rest).1,
        (eventsFrom next fault rest).2) := by
  rw [eventsFrom, h]

theorem eventsFrom_elsewhere {place : Place} {list : List Piece}
    {events : List Event} (h : eventsFrom place none list = (events, none))
    {other : Place} (hopen : other.openNames = place.openNames) :
    eventsFrom other none list = (events, none) := by
  induction list generalizing place other events with
  | nil =>
      cases h
      rfl
  | cons piece rest ih =>
      cases htake : place.take piece with
      | error error =>
          rw [eventsFrom, htake] at h
          cases h
      | ok taken =>
          obtain ⟨found, next⟩ := taken
          obtain ⟨behind, hbehind, hnames⟩ :=
            Place.take_elsewhere htake hopen
          rw [eventsFrom_of_take htake] at h
          obtain ⟨rfl, hrest⟩ := Prod.mk.inj h
          rw [eventsFrom_of_take hbehind, ih (Prod.ext rfl hrest) hnames]

/-- The event of character data, if there is any. -/
def textEvents (written : List Char) (contents : String) : List Event :=
  if written = [] then [] else [.text contents]

theorem eventsFrom_textPieces {written : List Char} {contents : String}
    (h : unescape written = .ok contents) (place : Place)
    (later : List Piece) :
    ∃ next, next.openNames = place.openNames ∧
      eventsFrom place none (textPieces written ++ later) =
        (textEvents written contents ++ (eventsFrom next none later).1,
          (eventsFrom next none later).2) := by
  unfold textPieces textEvents
  by_cases hnil : written = []
  · rw [if_pos hnil, if_pos hnil]
    exact ⟨place, rfl, rfl⟩
  · have htake : place.take (.text written) =
        .ok ([.text contents], place.behind (.text written)) := by
      rw [Place.take, h]
    rw [if_neg hnil, if_neg hnil]
    exact ⟨place.behind (.text written), rfl,
      eventsFrom_of_take htake none later⟩

/-- What is read without an error is so in front of any of its pieces. -/
theorem eventsFrom_front {place : Place} {front behind : List Piece}
    (h : (eventsFrom place none (front ++ behind)).2 = none) :
    (eventsFrom place none front).2 = none := by
  induction front generalizing place with
  | nil => rfl
  | cons piece others ih =>
      rw [List.cons_append, eventsFrom] at h
      rw [eventsFrom]
      cases htake : place.take piece with
      | error error =>
          rw [htake] at h
          exact h
      | ok taken =>
          rw [htake] at h
          exact ih h

/-- In what is read without an error all character data has its references
complete. -/
theorem exists_unescape {place : Place} {list : List Piece}
    (h : (eventsFrom place none list).2 = none) {written : List Char}
    (hmem : .text written ∈ list) :
    ∃ contents, unescape written = .ok contents := by
  induction list generalizing place with
  | nil => cases hmem
  | cons piece rest ih =>
      cases htake : place.take piece with
      | error error =>
          rw [eventsFrom, htake] at h
          cases h
      | ok taken =>
          rw [eventsFrom_of_take htake] at h
          rcases List.mem_cons.mp hmem with rfl | hlater
          · rw [Place.take] at htake
            split at htake
            · exact ⟨_, ‹_›⟩
            · cases htake
          · exact ih h hlater

/-- A comment has no events, but it parts the event of the character data
around it. -/
theorem eventsFrom_comment {back : List Piece} {left right : List Char}
    {first second : String} (hleft : unescape left = .ok first)
    (hright : unescape right = .ok second) {place : Place}
    (h : (eventsFrom place none (textPieces (left ++ right) ++ back)).2 =
      none) :
    ∃ later,
      eventsFrom place none (textPieces (left ++ right) ++ back) =
        (textEvents (left ++ right) (first ++ second) ++ later, none) ∧
      ∀ inside, eventsFrom place none (textPieces left ++
          commentPiece inside :: (textPieces right ++ back)) =
        (textEvents left first ++ (textEvents right second ++ later),
          none) := by
  obtain ⟨behind, hbehind, hwhole⟩ :=
    eventsFrom_textPieces (unescape_append hleft hright) place back
  rw [hwhole] at h ⊢
  refine ⟨(eventsFrom behind none back).1, Prod.ext rfl h, fun inside => ?_⟩
  obtain ⟨middle, hmiddle, hfirst⟩ := eventsFrom_textPieces hleft place
    (commentPiece inside :: (textPieces right ++ back))
  have hcomment : eventsFrom middle none
      (commentPiece inside :: (textPieces right ++ back)) =
        eventsFrom (middle.behind (commentPiece inside)) none
          (textPieces right ++ back) := rfl
  obtain ⟨last, hlast, hsecond⟩ := eventsFrom_textPieces hright
    (middle.behind (commentPiece inside)) back
  have hlater := eventsFrom_elsewhere (Prod.ext rfl h)
    (hlast.trans (hmiddle.trans hbehind.symm))
  rw [hfirst, hcomment, hsecond, hlater]

theorem read_of_pieces {text : List Char} {list : List Piece}
    (h : pieces (withoutByteOrderMark text) = (list, none)) :
    read (String.ofList text) = eventsFrom {} none list := by
  rw [read, String.toList_ofList, h]

/-- A comment changes what is read of a template in no other way than that it
parts the text around it. -/
theorem GapBetween.read_comment {front back : List Piece}
    {before after left right : List Char}
    (h : GapBetween front back before after left right) {first second : String}
    (hleft : unescape left = .ok first) (hright : unescape right = .ok second)
    (hread : (read (String.ofList (before ++ after))).2 = none) :
    ∃ later,
      read (String.ofList (before ++ after)) =
        ((eventsFrom {} none front).1 ++
          (textEvents (left ++ right) (first ++ second) ++ later), none) ∧
      ∀ inside, ¬commentEnd <:+: inside →
        read (String.ofList (before ++ (comment inside ++ after))) =
          ((eventsFrom {} none front).1 ++
            (textEvents left first ++ (textEvents right second ++ later)),
            none) := by
  rw [read_of_pieces h.pieces_eq] at hread ⊢
  have hfront : eventsFrom {} none front =
      ((eventsFrom {} none front).1, none) :=
    Prod.ext rfl (eventsFrom_front hread)
  obtain ⟨next, hbehind⟩ := exists_place_behind hfront
  rw [hbehind] at hread ⊢
  obtain ⟨later, hplain, hparted⟩ := eventsFrom_comment hleft hright hread
  refine ⟨later, by rw [hplain], fun inside hinside => ?_⟩
  rw [read_of_pieces (h.pieces_comment hinside), hbehind, hparted]

/-- If a template can be read with a comment in it, the comment does not stand
inside a reference. -/
theorem GapBetween.exists_unescape {front back : List Piece}
    {before after left right inside : List Char}
    (h : GapBetween front back before after left right)
    (hinside : ¬commentEnd <:+: inside)
    (hread : (read (String.ofList
      (before ++ (comment inside ++ after)))).2 = none) :
    (∃ first, unescape left = .ok first) ∧
      ∃ second, unescape right = .ok second := by
  rw [read_of_pieces (h.pieces_comment hinside)] at hread
  have hpart (written : List Char)
      (hmem : written ≠ [] → .text written ∈ front ++ (textPieces left ++
        commentPiece inside :: (textPieces right ++ back))) :
      ∃ contents, unescape written = .ok contents := by
    by_cases hnil : written = []
    · exact ⟨"", hnil ▸ unescape_nil⟩
    · exact Markup.exists_unescape hread (hmem hnil)
  exact ⟨hpart left fun hne => by simp [textPieces, hne],
    hpart right fun hne => by simp [textPieces, hne]⟩

theorem textEvents_of_collapse {written : List Char} {contents : String}
    (h : unescape written = .ok contents) (hseen : Text.collapse contents ≠ "") :
    textEvents written contents = [.text contents] := by
  apply if_neg
  rintro rfl
  rw [unescape_nil] at h
  cases h
  exact hseen Text.collapse_empty

end Markup

/-! ## Texts one after the other -/

namespace Session

variable {σ : Type} [Renderer σ] (session : Session σ)

omit [Renderer σ] in
theorem addText_empty : session.addText "" = session := by
  unfold addText
  split
  · simp [Assembly.addText, Assembly.withComposer, Composer.addTemplateText,
      Text.collapse_empty]
  · rfl

omit [Renderer σ] in
theorem addText_append {first second : String}
    (h : Text.collapse (first ++ second) =
      Text.collapse first ++ Text.collapse second) :
    session.addText (first ++ second) =
      (session.addText first).addText second := by
  unfold addText
  cases hstate : session.state with
  | opened =>
      simp [Assembly.addText, Assembly.withComposer, Composer.addTemplateText,
        h, String.append_assoc]
  | unopened | closed => simp [hstate]

theorem feedAll_textEvents {written : List Char} {contents : String}
    (h : unescape written = .ok contents) :
    session.feedAll (textEvents written contents) =
      ⟨session.addText contents, none⟩ := by
  unfold textEvents
  split
  · rename_i hnil
    rw [hnil, unescape_nil] at h
    cases h
    rw [addText_empty, feedAll_nil]
  · rfl

end Session

/-- Where two texts can be parted, a comment between them makes no
difference. -/
theorem compile_comment {σ : Type} [Renderer σ]
    {before after left right : List Char} (hgap : Gap before after left right)
    {first second : String} (hleft : unescape left = .ok first)
    (hright : unescape right = .ok second)
    (hparts : Text.Partable first.toList second.toList)
    (hread : (read (String.ofList (before ++ after))).2 = none)
    {inside : List Char} (hinside : ¬commentEnd <:+: inside)
    (store : DataStore) (renderer : σ) (root : String) :
    compile (String.ofList (before ++ (comment inside ++ after))) store
        renderer root =
      compile (String.ofList (before ++ after)) store renderer root := by
  obtain ⟨front, back, hgap⟩ := hgap
  obtain ⟨later, hplain, hcommented⟩ := hgap.read_comment hleft hright hread
  have hcollapse := (Text.collapse_append_iff _ _).mpr hparts
  rw [String.ofList_append, String.ofList_toList, String.ofList_toList]
    at hcollapse
  have hfeed (session : Session σ) :
      session.feedAll (textEvents left first ++
          (textEvents right second ++ later)) =
        session.feedAll (textEvents (left ++ right) (first ++ second) ++
          later) := by
    rw [Session.feedAll_append, Session.feedAll_textEvents _ hleft,
      Outcome.andThen_ok, Session.feedAll_append,
      Session.feedAll_textEvents _ hright, Outcome.andThen_ok,
      Session.feedAll_append,
      Session.feedAll_textEvents _ (unescape_append hleft hright),
      Outcome.andThen_ok, Session.addText_append _ hcollapse]
  unfold compile
  rw [hplain, hcommented inside hinside]
  dsimp only
  rw [Session.feedAll_append, Session.feedAll_append]
  simp only [hfeed]

/-! ## A paragraph with a comment -/

namespace Markup

/-- What stands before the text of a paragraph. -/
def opening : List Piece :=
  [.startTag "textpdf".toList, .startTag "para".toList]

/-- What stands behind the text of a paragraph. -/
def closing : List Piece :=
  [.endTag "para".toList, .endTag "textpdf".toList]

theorem pieces_opening (rest : List Char) :
    pieces (opening.flatMap Piece.source ++ rest) =
      (opening ++ (pieces rest).1, (pieces rest).2) := by
  have hroot : cutPiece '<' ("textpdf><para>".toList ++ rest) =
      .ok (.startTag "textpdf".toList, "<para>".toList ++ rest) := rfl
  have hblock : cutPiece '<' ("para>".toList ++ rest) =
      .ok (.startTag "para".toList, rest) := rfl
  have htext : opening.flatMap Piece.source ++ rest =
      '<' :: ("textpdf><para>".toList ++ rest) := rfl
  have hlater : "<para>".toList ++ rest = '<' :: ("para>".toList ++ rest) := rfl
  rw [htext, pieces_of_cut hroot, hlater, pieces_of_cut hblock]
  rfl

theorem pieces_closing :
    pieces (closing.flatMap Piece.source) = (closing, none) := by
  decide +kernel

theorem events_opening : (eventsFrom {} none opening).1 =
    [.start "textpdf" [], .start "para" []] := by
  decide +kernel

theorem eventsFrom_opening (list : List Piece) :
    ∃ place : Place, place.openNames = ["para", "textpdf"] ∧
      eventsFrom {} none (opening ++ list) =
        ([.start "textpdf" [], .start "para" []] ++
          (eventsFrom place none list).1, (eventsFrom place none list).2) := by
  have hroot : ({} : Place).take (.startTag "textpdf".toList) =
      .ok ([.start "textpdf" []], ⟨9, ["textpdf"]⟩) := by decide +kernel
  have hblock : (⟨9, ["textpdf"]⟩ : Place).take (.startTag "para".toList) =
      .ok ([.start "para" []], ⟨15, ["para", "textpdf"]⟩) := by decide +kernel
  have hlist : opening ++ list =
      .startTag "textpdf".toList :: .startTag "para".toList :: list := rfl
  refine ⟨⟨15, ["para", "textpdf"]⟩, rfl, ?_⟩
  rw [hlist, eventsFrom_of_take hroot, eventsFrom_of_take hblock]
  rfl

theorem eventsFrom_closing {place : Place}
    (h : place.openNames = ["para", "textpdf"]) :
    eventsFrom place none closing =
      ([.stop "para", .stop "textpdf"], none) := by
  have hstops : eventsFrom ⟨0, ["para", "textpdf"]⟩ none closing =
      ([.stop "para", .stop "textpdf"], none) := by decide +kernel
  exact eventsFrom_elsewhere hstops h

/-- A place in the text of a paragraph. -/
theorem gap_paragraph {left right : List Char} (hplain : '<' ∉ left ++ right) :
    GapBetween opening closing (opening.flatMap Piece.source ++ left)
      (right ++ closing.flatMap Piece.source) left right := by
  refine ⟨?_, rfl, rfl⟩
  have htext : withoutByteOrderMark (opening.flatMap Piece.source ++ left ++
        (right ++ closing.flatMap Piece.source)) =
      opening.flatMap Piece.source ++
        ((left ++ right) ++ closing.flatMap Piece.source) := by
    simp only [List.append_assoc]
    rfl
  rw [htext, pieces_opening, pieces_textPieces hplain, pieces_closing]
  rintro - c ⟨⟩
  rfl

/-- The events of a paragraph with some text. -/
def paragraphEvents (texts : List Event) : List Event :=
  .start "textpdf" [] :: .start "para" [] ::
    (texts ++ [.stop "para", .stop "textpdf"])

theorem read_paragraph {left right : List Char} (hplain : '<' ∉ left ++ right)
    {whole : String} (hwhole : unescape (left ++ right) = .ok whole) :
    let before := opening.flatMap Piece.source ++ left
    let after := right ++ closing.flatMap Piece.source
    read (String.ofList (before ++ after)) =
      (paragraphEvents (textEvents (left ++ right) whole), none) := by
  intro before after
  obtain ⟨place, hplace, hbehind⟩ :=
    eventsFrom_opening (textPieces (left ++ right) ++ closing)
  obtain ⟨next, hnext, htext⟩ := eventsFrom_textPieces hwhole place closing
  rw [read_of_pieces (gap_paragraph hplain).pieces_eq, hbehind, htext,
    eventsFrom_closing (hnext.trans hplace)]
  rfl

/-- What is read of a paragraph with a comment in its text. -/
theorem read_paragraph_comment {left right : List Char}
    (hplain : '<' ∉ left ++ right) {first second : String}
    (hleft : unescape left = .ok first) (hright : unescape right = .ok second)
    {inside : List Char} (hinside : ¬commentEnd <:+: inside) :
    let before := opening.flatMap Piece.source ++ left
    let after := right ++ closing.flatMap Piece.source
    read (String.ofList (before ++ (comment inside ++ after))) =
      (paragraphEvents (textEvents left first ++ textEvents right second),
        none) := by
  intro before after
  have hread := read_paragraph hplain (unescape_append hleft hright)
  obtain ⟨later, hwhole, hcommented⟩ :=
    (gap_paragraph hplain).read_comment hleft hright (congrArg Prod.snd hread)
  have hlater : later = [.stop "para", .stop "textpdf"] := by
    have hevents := congrArg Prod.fst (hwhole.symm.trans hread)
    rw [events_opening] at hevents
    exact List.append_cancel_left (List.append_cancel_left hevents)
  rw [hcommented inside hinside, events_opening, hlater, paragraphEvents,
    List.append_assoc]
  rfl

end Markup

/-- A paragraph is always written, and with its text if there is any. -/
theorem WritesContents.exists_block {text : String} {marked : Bool}
    {calls : List RenderCall}
    (h : WritesContents .paragraph text marked calls) :
    ∃ block : Block, calls = [.block block] ∧
      (text ≠ "" → block.text = text) := by
  by_cases hfilled : text ≠ "" ∨ marked = true
  · obtain ⟨block, hcalls, -, htext⟩ := h.filled hfilled
    exact ⟨block, hcalls, fun _ => htext⟩
  · rw [not_or, not_not, Bool.not_eq_true] at hfilled
    obtain ⟨block, hcalls, -, -⟩ := h.blank hfilled.1 hfilled.2 rfl
    exact ⟨block, hcalls, absurd hfilled.1⟩

/-- A paragraph compiles to one block, which has its text if there is any. -/
theorem compile_paragraph (forest : Forest) {template : String}
    (hread : read template = (paragraphEvents forest.events, none))
    (hinline : forest.Inline (Text.lower "textpdf")) :
    ∃ block : Block, ∃ reported,
      (forest.flat .empty ≠ "" → block.text = forest.flat .empty) ∧
        compile template .empty ({} : Recorder) =
          ⟨⟨[.openDocument, .block block, .closeDocument], false⟩,
            .ok reported⟩ := by
  let opened := Session.rootOpened "textpdf" .empty
  have hstart : (Session.begin "textpdf" .empty ({} : Recorder)).feed
      (.start "textpdf" []) = ⟨opened, none⟩ := Session.feed_root rfl [] .empty
  have hname : Text.lower "para" ≠ opened.root := by decide +kernel
  have helement : Element.ofName "para" = .block .paragraph := by
    decide +kernel
  obtain ⟨outer, reported, calls, hblock, -, hwrites⟩ :=
    opened.feedAll_block (iff_of_true rfl rfl) rfl rfl hname helement
      (by decide) [] hinline
  have htext : opened.assembly.composer.pending ++
      forest.flat opened.store = forest.flat .empty := String.empty_append
  rw [htext] at hwrites
  obtain ⟨block, rfl, hcontents⟩ := hwrites.exists_block
  refine ⟨block, reported, hcontents, ?_⟩
  have hevents : paragraphEvents forest.events = .start "textpdf" [] ::
      ((.start "para" [] :: (forest.events ++ [.stop "para"])) ++
        [.stop "textpdf"]) := by
    rw [paragraphEvents, List.cons_append, List.append_assoc]
    rfl
  rw [compile_eq_recorded hread, recorded, defaultRoot, hevents,
    Session.feedAll_cons, hstart, Outcome.andThen_ok, Session.feedAll_append,
    hblock, Outcome.andThen_ok, Session.feedAll_cons, Session.feed,
    Session.stop]
  simp only [opened, Session.rootOpened, Session.begin, if_true]
  rfl

/-- A comment between these texts makes no difference to any template. -/
def CommentInvisible (left right : List Char) : Prop :=
  ∀ before after, Gap before after left right →
    (read (String.ofList (before ++ after))).2 = none →
    ∀ inside, ¬commentEnd <:+: inside → ∀ store root,
      compile (String.ofList (before ++ (comment inside ++ after))) store
          ({} : Recorder) root =
        compile (String.ofList (before ++ after)) store ({} : Recorder) root

section

variable {left right : List Char}

/-- A comment inside a reference breaks a paragraph. -/
theorem CommentInvisible.exists_unescape
    (hinvisible : CommentInvisible left right) (hplain : '<' ∉ left ++ right)
    {whole : String} (hwhole : unescape (left ++ right) = .ok whole) :
    (∃ first, unescape left = .ok first) ∧
      ∃ second, unescape right = .ok second := by
  by_cases hnil : left ++ right = []
  · obtain ⟨rfl, rfl⟩ := List.append_eq_nil_iff.mp hnil
    exact ⟨⟨"", unescape_nil⟩, ⟨"", unescape_nil⟩⟩
  have hread := read_paragraph hplain hwhole
  have hsame := hinvisible _ _ ⟨_, _, gap_paragraph hplain⟩
    (congrArg Prod.snd hread) [] (by decide) .empty defaultRoot
  have htext : textEvents (left ++ right) whole = [.text whole] := if_neg hnil
  rw [htext] at hread
  obtain ⟨block, reported, -, hcompiled⟩ :=
    compile_paragraph (.text whole .nil) hread trivial
  rw [hcompiled] at hsame
  obtain ⟨-, hcommented, -⟩ :=
    Compiled.result_ok_iff.mp (congrArg Compiled.result hsame)
  exact (gap_paragraph hplain).exists_unescape (by decide) hcommented

/-- If a comment makes no difference to the text of a paragraph, the texts on
both sides of it can be parted. -/
theorem CommentInvisible.partable
    (hinvisible : CommentInvisible left right) (hplain : '<' ∉ left ++ right)
    {first second : String} (hleft : unescape left = .ok first)
    (hright : unescape right = .ok second) :
    Text.Partable first.toList second.toList := by
  by_contra hparts
  have hfirst : Text.collapse first ≠ "" :=
    fun hnone => hparts (.inl (Text.collapse_eq_empty hnone))
  have hsecond : Text.collapse second ≠ "" :=
    fun hnone => hparts (.inr (.inl (Text.collapse_eq_empty hnone)))
  have hwhole : Text.collapse (first ++ second) ≠ "" := by
    intro hnone
    have hlow := Text.collapse_eq_empty hnone
    rw [String.toList_append, List.forall_mem_append] at hlow
    exact hparts (.inl hlow.1)
  have hinside : ¬commentEnd <:+: [] := by decide
  have hread := read_paragraph hplain (unescape_append hleft hright)
  have hcomment := read_paragraph_comment hplain hleft hright hinside
  have hsame := hinvisible _ _ ⟨_, _, gap_paragraph hplain⟩
    (congrArg Prod.snd hread) [] hinside .empty defaultRoot
  rw [textEvents_of_collapse (unescape_append hleft hright) hwhole] at hread
  rw [textEvents_of_collapse hleft hfirst,
    textEvents_of_collapse hright hsecond] at hcomment
  -- the same paragraph with its text as one, and in two parts
  let one : Forest := .text (first ++ second) .nil
  let two : Forest := .text first (.text second .nil)
  have hone : one.flat .empty = Text.collapse (first ++ second) :=
    String.append_empty
  have htwo : two.flat .empty = Text.collapse first ++ Text.collapse second := by
    rw [Forest.flat, Forest.flat, Forest.flat, String.append_empty]
  obtain ⟨block, _, htext, hcompiled⟩ := compile_paragraph one hread trivial
  obtain ⟨parted, _, hparted, hcommented⟩ :=
    compile_paragraph two hcomment trivial
  rw [hcompiled, hcommented] at hsame
  obtain rfl : parted = block := by
    have hcalls := congrArg (·.renderer.calls) hsame
    simpa using hcalls
  apply hparts
  rw [← Text.collapse_append_iff, String.ofList_append, String.ofList_toList,
    String.ofList_toList, ← hone, ← htwo, ← htext (by rwa [hone]),
    hparted (by simp [htwo, String.append_eq_empty_iff, hfirst])]

/-- Between two tags, or beside a tag, a comment is never seen.  Inside
character data it is invisible exactly if it does not stand inside a reference
and the texts on both sides of it can be parted: if it stands between words,
then with no layout around it, or with a line feed and nothing but layout. -/
theorem comment_invisible_iff (hplain : '<' ∉ left ++ right) {whole : String}
    (hwhole : unescape (left ++ right) = .ok whole) :
    CommentInvisible left right ↔
      ∃ first second, unescape left = .ok first ∧
        unescape right = .ok second ∧
        Text.Partable first.toList second.toList := by
  constructor
  · intro hinvisible
    obtain ⟨⟨first, hleft⟩, second, hright⟩ :=
      hinvisible.exists_unescape hplain hwhole
    exact ⟨first, second, hleft, hright,
      hinvisible.partable hplain hleft hright⟩
  · rintro ⟨first, second, hleft, hright, hparts⟩
    intro before after hgap hread inside hinside store root
    exact compile_comment hgap hleft hright hparts hread hinside store _ root

end

/-- A comment between two lines, of which the second is indented. -/
theorem comment_invisible_iff_lines :
    let left := "one \n".toList
    let right := "  two &amp; three".toList
    '<' ∉ left ++ right ∧
      unescape (left ++ right) = .ok "one \n  two & three" ∧
      CommentInvisible left right := by
  intro left right
  have hplain : '<' ∉ left ++ right := by decide +kernel
  have hwhole : unescape (left ++ right) = .ok "one \n  two & three" := by
    decide +kernel
  have hleft : unescape left = .ok "one \n" := by decide +kernel
  have hright : unescape right = .ok "  two & three" := by decide +kernel
  have hparts : Text.Partable "one \n".toList "  two & three".toList := by
    decide +kernel
  exact ⟨hplain, hwhole, (comment_invisible_iff hplain hwhole).mpr
    ⟨_, _, hleft, hright, hparts⟩⟩

/-- A comment between two words takes away the space beside it. -/
theorem not_commentInvisible_words :
    (compile "<textpdf><para>one two</para></textpdf>" .empty
          ({} : Recorder)).renderer.blocks.map Block.text = ["one two"] ∧
      (compile "<textpdf><para>one <!--c-->two</para></textpdf>" .empty
          ({} : Recorder)).renderer.blocks.map Block.text = ["onetwo"] ∧
      ¬CommentInvisible "one ".toList "two".toList := by
  refine ⟨by decide +kernel, by decide +kernel, fun hinvisible => ?_⟩
  have hleft : unescape "one ".toList = .ok "one " := by decide +kernel
  have hright : unescape "two".toList = .ok "two" := by decide +kernel
  have hparts := hinvisible.partable (by decide +kernel) hleft hright
  revert hparts
  decide +kernel

end DocTemplate
