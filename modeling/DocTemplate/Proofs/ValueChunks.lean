import DocTemplate.Compile.Template
import DocTemplate.Proofs.BlockText
import DocTemplate.Proofs.Course
import DocTemplate.Proofs.Depth
import DocTemplate.Proofs.Fragments
import DocTemplate.Proofs.UniqueKeys

/-!
# The chunks of values

The chunk of a value is marked, and a form has a field for each marked chunk.
That does not come to one field for each value.  Text is flushed whenever an
element starts, so a value leaves a marked chunk at its end and one more for
each of its elements that starts while text waits in it.  A value inside a
value ends first, and its chunk comes first.

What the marked chunks of a block are is told here by recursion over its
content.  Only for values that hold nothing but text it is the list of the
values.
-/

namespace DocTemplate

open Markup Renderer

/-! ## Marked chunks -/

/-- What the chunks of an element carry: whether they are marked as those of a
value, and the id in force. -/
structure Holder where
  isValue : Bool
  id? : Option String

def Chunk.holder (chunk : Chunk) : Holder :=
  ⟨chunk.isPlaceholder, chunk.attribute? "id"⟩

namespace Holder

/-- The holder of an element inside another one, whose id it has unless it has
its own. -/
def inside (outer : Holder) (element : Element) (own : OwnAttributes) :
    Holder :=
  ⟨element == .value, (own.lookup "id").or outer.id?⟩

/-- What a chunk of the holder adds to the ids of marked chunks. -/
def marked (holder : Holder) : List (Option String) :=
  if holder.isValue then [holder.id?] else []

theorem marked_of_not_isValue {holder : Holder}
    (h : holder.isValue = false) : holder.marked = [] := by
  simp [marked, h]

end Holder

/-- The ids of the marked chunks among some chunks. -/
def Chunk.marked (chunks : List Chunk) : List (Option String) :=
  (chunks.filter isPlaceholder).map fun chunk => chunk.attribute? "id"

@[simp] theorem Chunk.marked_nil : marked [] = [] := rfl

@[simp] theorem Chunk.marked_append (first second : List Chunk) :
    marked (first ++ second) = marked first ++ marked second := by
  simp [marked]

theorem Chunk.marked_singleton (chunk : Chunk) :
    marked [chunk] = chunk.holder.marked := by
  cases h : chunk.isPlaceholder <;> simp [marked, Holder.marked, holder, h]

/-! ## Values in a forest -/

namespace Markup.Forest

/-- The ids of the values of a forest in document order. -/
def values : Forest → Holder → List (Option String)
  | nil, _ => []
  | text _ rest, outer => rest.values outer
  | element name own content rest, outer =>
      let holder := outer.inside (.ofName name) own
      holder.marked ++ content.values holder ++ rest.values outer

/-- The ids of the marked chunks that a forest leaves inside an element, given
whether text waits before it: a value leaves one at its end, and one at the
start of each element in it before which text waits. -/
def marked (store : DataStore) :
    Forest → Holder → (waits : Bool) → List (Option String)
  | nil, _, _ => []
  | text contents rest, outer, waits =>
      rest.marked store outer (waits || Text.collapse contents != "")
  | element name own content rest, outer, waits =>
      let element := Element.ofName name
      let holder := outer.inside element own
      (if waits then outer.marked else []) ++
        content.marked store holder
          (element.leadingText store own != "") ++
        holder.marked ++ rest.marked store outer (element == .lineBreak)

/-- How many elements of a forest start inside a value while text waits
there. -/
def interruptions (store : DataStore) :
    Forest → (inValue : Bool) → (waits : Bool) → Nat
  | nil, _, _ => 0
  | text contents rest, inValue, waits =>
      rest.interruptions store inValue
        (waits || Text.collapse contents != "")
  | element name own content rest, inValue, waits =>
      let element := Element.ofName name
      (inValue && waits).toNat +
        content.interruptions store (element == .value)
          (element.leadingText store own != "") +
        rest.interruptions store inValue (element == .lineBreak)

def IsText : Forest → Prop
  | nil => True
  | text _ rest => rest.IsText
  | element _ _ _ _ => False

/-- Whether there is nothing but text in the values of a forest. -/
def ValuesHoldText : Forest → Prop
  | nil => True
  | text _ rest => rest.ValuesHoldText
  | element name _ content rest =>
      (Element.ofName name = .value → content.IsText) ∧
        content.ValuesHoldText ∧ rest.ValuesHoldText

variable {store : DataStore}

theorem marked_of_isText {forest : Forest} (h : forest.IsText)
    (outer : Holder) (waits : Bool) :
    forest.marked store outer waits = [] ∧ forest.values outer = [] := by
  induction forest generalizing waits with
  | nil => exact ⟨rfl, rfl⟩
  | text contents rest ih => exact ih h _
  | element name own content rest => exact h.elim

theorem marked_waits {outer : Holder} (houter : outer.isValue = false)
    (forest : Forest) (waits : Bool) :
    forest.marked store outer waits = forest.marked store outer false := by
  induction forest generalizing waits with
  | nil => rfl
  | text contents rest ih =>
      simp only [marked]
      rw [ih, ih (false || _)]
  | element name own content rest =>
      simp [marked, Holder.marked_of_not_isValue houter]

/-- There is a marked chunk for each value and for each interruption. -/
theorem length_marked (forest : Forest) (outer : Holder) (waits : Bool) :
    (forest.marked store outer waits).length =
      (forest.values outer).length +
        forest.interruptions store outer.isValue waits := by
  induction forest generalizing outer waits with
  | nil => rfl
  | text contents rest ih => exact ih outer _
  | element name own content rest ihContent ihRest =>
      let holder := outer.inside (.ofName name) own
      have hflushed : (if waits then outer.marked else []).length =
          (outer.isValue && waits).toNat := by
        cases waits <;> cases hvalue : outer.isValue <;>
          simp [Holder.marked, hvalue]
      simp only [marked, values, interruptions, List.length_append, hflushed,
        ihContent, ihRest]
      change _ = _ + (_ +
        content.interruptions store (outer.inside (.ofName name) own).isValue _
          + _)
      omega

/-- No id has fewer marked chunks than values. -/
theorem count_values_le (forest : Forest) (outer : Holder) (waits : Bool)
    (id? : Option String) :
    (forest.values outer).count id? ≤
      (forest.marked store outer waits).count id? := by
  induction forest generalizing outer waits with
  | nil => exact Nat.le_refl _
  | text contents rest ih => exact ih outer _
  | element name own content rest ihContent ihRest =>
      have hcontent := ihContent (outer.inside (.ofName name) own)
        ((Element.ofName name).leadingText store own != "")
      have hrest := ihRest outer (Element.ofName name == .lineBreak)
      simp only [values, marked, List.count_append]
      omega

/-- Where values hold nothing but text, their chunks are in document order. -/
theorem marked_eq_values {forest : Forest} (h : forest.ValuesHoldText)
    {outer : Holder} (houter : outer.isValue = false) (waits : Bool) :
    forest.marked store outer waits = forest.values outer := by
  induction forest generalizing outer waits with
  | nil => rfl
  | text contents rest ih => exact ih h houter _
  | element name own content rest ihContent ihRest =>
      obtain ⟨hvalue, hcontent, hrest⟩ := h
      let holder := outer.inside (.ofName name) own
      have hflushed : (if waits then outer.marked else []) = [] := by
        rw [Holder.marked_of_not_isValue houter, ite_self]
      have hinside : content.marked store holder
            ((Element.ofName name).leadingText store own != "") ++
              holder.marked =
          holder.marked ++ content.values holder := by
        by_cases helement : Element.ofName name = .value
        · obtain ⟨hmarked, hvalues⟩ :=
            @marked_of_isText store _ (hvalue helement) holder
              ((Element.ofName name).leadingText store own != "")
          rw [hmarked, hvalues, List.nil_append, List.append_nil]
        · have hplain : holder.isValue = false := beq_false_of_ne helement
          rw [ihContent hcontent hplain, Holder.marked_of_not_isValue hplain,
            List.nil_append, List.append_nil]
      simp only [marked, values, hflushed, List.nil_append,
        ihRest hrest houter]
      exact congrArg (· ++ rest.values outer) hinside

end Markup.Forest

/-! ## Inside an open element -/

namespace Composer

variable {composer : Composer} {entry : Chunk} {outer : List Chunk}

theorem marked_filledTop (hentries : composer.entries = entry :: outer) :
    Chunk.marked composer.filledTop = entry.holder.marked := by
  have htop : composer.filledTop =
      [{ entry with contents := composer.pending }] := by
    simp [filledTop, top?, hentries]
  rw [htop, Chunk.marked_singleton]
  rfl

theorem marked_enter (hentries : composer.entries = entry :: outer)
    (own : OwnAttributes) :
    Chunk.marked (composer.enter own).chunks =
      Chunk.marked composer.chunks ++
        if composer.pending != "" then entry.holder.marked else [] := by
  rw [chunks_enter, Chunk.marked_append]
  by_cases hpending : composer.pending = ""
  · simp [hpending]
  · simp [hpending, marked_filledTop hentries]

theorem marked_leave (hentries : composer.entries = entry :: outer)
    (force : Bool) :
    Chunk.marked (composer.leave force).1.chunks =
      Chunk.marked composer.chunks ++
        if force || composer.pending != "" then
          entry.holder.marked
        else
          [] := by
  rw [chunks_leave, Chunk.marked_append]
  by_cases hpending : composer.pending = ""
  · cases force <;> simp [hpending, marked_filledTop hentries]
  · simp [hpending, marked_filledTop hentries]

theorem id_entryWithin (around : Attributes) {own : OwnAttributes}
    (hkeys : UniqueKeys own) :
    (entryWithin around own).attribute? "id" =
      (own.lookup "id").or (around.get? "id") := by
  rw [Chunk.attribute?, entryWithin, Dictionary.get?_insertAll,
    Dictionary.lookup_reverse hkeys]

theorem holder_entryWithin (parent : Chunk) {own : OwnAttributes}
    (hkeys : UniqueKeys own) {element : Element}
    (helement : element ≠ .value) :
    (entryWithin parent.attributes own).holder =
      parent.holder.inside element own := by
  simp only [Chunk.holder, Holder.inside, id_entryWithin _ hkeys,
    beq_false_of_ne helement]
  rfl

theorem holder_enter (hentries : composer.entries = entry :: outer)
    (own : OwnAttributes) :
    ∃ filled, (composer.enter own).entries =
        entryWithin entry.attributes own :: filled :: outer ∧
      filled.holder = entry.holder := by
  simp only [enter, hentries]
  split
  · exact ⟨entry, rfl, rfl⟩
  · exact ⟨_, rfl, rfl⟩

end Composer

/-- A composer has come from another by the start of an inline element with
some holder. -/
structure Composer.Opens (parent : Chunk) (outer : List Chunk)
    (holder : Holder) (text : String) (before after : Composer) : Prop where
  entries : ∃ entry filled, after.entries = entry :: filled :: outer ∧
    entry.holder = holder ∧ filled.holder = parent.holder
  pending_eq : after.pending = text
  marked_eq : Chunk.marked after.chunks = Chunk.marked before.chunks ++
    if before.pending != "" then parent.holder.marked else []

namespace Assembly

open Composer

variable {composer : Composer} {parent : Chunk} {outer : List Chunk}
  {own : OwnAttributes}

theorem opens_enter (hentries : composer.entries = parent :: outer)
    (hkeys : UniqueKeys own) {element : Element}
    (helement : element ≠ .value) :
    Opens parent outer (parent.holder.inside element own) "" composer
      (composer.enter own) where
  entries := by
    obtain ⟨filled, hopened, hfilled⟩ := holder_enter hentries own
    exact ⟨_, filled, hopened, holder_entryWithin parent hkeys helement,
      hfilled⟩
  pending_eq := pending_enter hentries own
  marked_eq := marked_enter hentries own

theorem opens_openSpace (store : DataStore)
    (hentries : composer.entries = parent :: outer)
    (hkeys : UniqueKeys own) :
    Opens parent outer (parent.holder.inside .space own)
      (Element.leadingText store own .space) composer
      (openSpace composer own).1 := by
  have hopens := opens_enter hentries hkeys
    (by decide : Element.space ≠ .value)
  rw [← spaceText_leading]
  unfold openSpace
  cases spaceText own with
  | error problem => exact hopens
  | ok text =>
      refine ⟨hopens.entries, ?_, hopens.marked_eq⟩
      change (composer.enter own).pending ++ text = text
      rw [hopens.pending_eq, String.empty_append]

theorem opens_openValue (store : DataStore)
    (hentries : composer.entries = parent :: outer)
    (hkeys : UniqueKeys own) :
    Opens parent outer (parent.holder.inside .value own)
      (Element.leadingText store own .value) composer
      (openValue store composer own).1 where
  entries := by
    obtain ⟨filled, hentered, hfilled⟩ := holder_enter hentries own
    have hopened := entries_modifyTop hentered
      fun entry => { entry with isPlaceholder := true }
    have hid := id_entryWithin parent.attributes hkeys
    unfold openValue
    cases valueText store own with
    | error problem =>
        exact ⟨_, filled, hopened, congrArg (Holder.mk true) hid, hfilled⟩
    | ok text =>
        dsimp only
        split
        · refine ⟨_, filled, entries_modifyTop hopened _, ?_, hfilled⟩
          -- The emphasis has a key of its own.
          refine congrArg (Holder.mk true) (Eq.trans ?_ hid)
          simp [Chunk.attribute?, Chunk.setAttribute]
        · exact ⟨_, filled, hopened, congrArg (Holder.mk true) hid, hfilled⟩
  pending_eq := by
    rw [pending_openValue, pending_enter hentries, valueText_leading,
      String.empty_append]
  marked_eq := by
    rw [← marked_enter hentries own]
    unfold openValue
    cases valueText store own with
    | error problem => rfl
    | ok text =>
        dsimp only
        split <;> rfl

theorem opens_start (store : DataStore)
    (hentries : composer.entries = parent :: outer) {element : Element}
    (hinline : element.isInline = true) (hkeys : UniqueKeys own) :
    ∃ opened, (start store ⟨composer, none⟩ element own).1 =
        ⟨opened, none⟩ ∧
      Opens parent outer (parent.holder.inside element own)
        (element.leadingText store own) composer opened := by
  cases element with
  | value => exact ⟨_, rfl, opens_openValue store hentries hkeys⟩
  | space => exact ⟨_, rfl, opens_openSpace store hentries hkeys⟩
  | lineBreak | generic =>
      exact ⟨_, rfl, opens_enter hentries hkeys (by decide)⟩
  | block | page | rule | image | table | cell => cases hinline

/-- At the end of an inline element its holder leaves a marked chunk, and text
waits only behind a line break. -/
theorem marked_stop (hentries : composer.entries = parent :: outer)
    {element : Element} (hinline : element.isInline = true)
    (hholder : parent.holder.isValue = (element == .value)) :
    ∃ closed, (stop ⟨composer, none⟩ element).1 = ⟨closed, none⟩ ∧
      closed.entries = outer ∧
      (closed.pending != "") = (element == .lineBreak) ∧
      Chunk.marked closed.chunks =
        Chunk.marked composer.chunks ++ parent.holder.marked := by
  have hleft : ∀ force, (element = .value → force = true) →
      Chunk.marked (composer.leave force).1.chunks =
        Chunk.marked composer.chunks ++ parent.holder.marked := by
    intro force hforce
    rw [marked_leave hentries]
    by_cases hvalue : element = .value
    · simp [hforce hvalue]
    · have hplain : parent.holder.isValue = false :=
        hholder.trans (beq_false_of_ne hvalue)
      rw [Holder.marked_of_not_isValue hplain, ite_self]
  cases element with
  | lineBreak =>
      refine ⟨(composer.addLiteral "\n").discard.1, rfl,
        entries_discard hentries, ?_, ?_⟩
      · simp [addLiteral, Composer.discard, hentries]
      · rw [Holder.marked_of_not_isValue hholder, List.append_nil]
        simp [addLiteral, Composer.discard, hentries]
  | value | space =>
      refine ⟨(composer.leave true).1, ?_, entries_leave hentries _, ?_,
        hleft true fun _ => rfl⟩
      · simp [stop, stopEntry, withComposer, Element.leavesChunk]
      · simp [pending_leave hentries]
  | generic =>
      refine ⟨(composer.leave false).1, ?_, entries_leave hentries _, ?_,
        hleft false fun hvalue => absurd hvalue (by decide)⟩
      · simp [stop, stopEntry, withComposer, Element.leavesChunk]
      · simp [pending_leave hentries]
  | block | page | rule | image | table | cell => cases hinline

/-! ## Contents -/

/-- The assembly behind an event in an open document. -/
def next (store : DataStore) (assembly : Assembly) : Event → Assembly
  | .start name own => (assembly.start store (.ofName name) own).1
  | .stop name => (assembly.stop (.ofName name)).1
  | .text contents => assembly.addText contents

/-- Inline contents leave their marked chunks inside an open element, and keep
its holder. -/
theorem marked_inline {root : String} (store : DataStore) {forest : Forest}
    (hinline : forest.Inline root)
    (hkeys : ∀ event ∈ forest.events, event.UniqueKeys)
    (hentries : composer.entries = parent :: outer) :
    ∃ after top, forest.events.foldl (next store) ⟨composer, none⟩ =
        ⟨after, none⟩ ∧
      after.entries = top :: outer ∧ top.holder = parent.holder ∧
      Chunk.marked after.chunks = Chunk.marked composer.chunks ++
        forest.marked store parent.holder (composer.pending != "") := by
  -- Contents lie one entry higher than their element, and their element is
  -- filled when they start, so the entries have to be general.
  induction forest generalizing composer parent outer with
  | nil =>
      exact ⟨composer, parent, rfl, hentries, rfl, by simp [Forest.marked]⟩
  | text contents rest ih =>
      rw [Forest.events, List.forall_mem_cons] at hkeys
      obtain ⟨after, top, hfold, hafter, htop, hmarked⟩ :=
        @ih (composer.addTemplateText contents) parent outer hinline hkeys.2
          hentries
      refine ⟨after, top, hfold, hafter, htop, ?_⟩
      have hwaits : ((composer.addTemplateText contents).pending != "") =
          (composer.pending != "" || Text.collapse contents != "") := by
        rw [Bool.eq_iff_iff]
        simp [Composer.addTemplateText, ← not_and_or]
      rw [hmarked, hwaits]
      rfl
  | element name own content rest ihContent ihRest =>
      obtain ⟨⟨-, helement⟩, hcontent, hrest⟩ := hinline
      rw [Forest.events, List.forall_mem_cons, List.forall_mem_append,
        List.forall_mem_cons] at hkeys
      obtain ⟨hown, hkeysContent, -, hkeysRest⟩ := hkeys
      obtain ⟨opened, hstart, hopens⟩ :=
        opens_start store hentries helement hown
      obtain ⟨entry, filled, hopened, hentry, hfilled⟩ := hopens.entries
      obtain ⟨inner, top, hfoldContent, hinner, htop, hmarkedContent⟩ :=
        ihContent hcontent hkeysContent hopened
      have hholder : top.holder =
          parent.holder.inside (.ofName name) own := htop.trans hentry
      obtain ⟨closed, hstop, hclosed, hwaits, hmarkedStop⟩ :=
        marked_stop hinner helement (by rw [hholder]; rfl)
      obtain ⟨after, last, hfoldRest, hafter, hlast, hmarkedRest⟩ :=
        ihRest hrest hkeysRest hclosed
      refine ⟨after, last, ?_, hafter, hlast.trans hfilled, ?_⟩
      · simp only [Forest.events, List.foldl_cons, List.foldl_append, next,
          hstart, hfoldContent, hstop, hfoldRest]
      · rw [hmarkedRest, hmarkedStop, hmarkedContent, hopens.marked_eq,
          hopens.pending_eq, hwaits, hholder, hentry, hfilled]
        simp only [Forest.marked, List.append_assoc]

end Assembly

/-! ## Sessions -/

def Markup.Event.IsInner (root : String) : Event → Prop
  | .start name _ | .stop name => Text.lower name ≠ root
  | .text _ => True

theorem Markup.Forest.Inline.isInner {root : String} {forest : Forest}
    (h : forest.Inline root) :
    ∀ event ∈ forest.events, event.IsInner root := by
  induction forest with
  | nil => exact nofun
  | text contents rest ih =>
      rw [Forest.events, List.forall_mem_cons]
      exact ⟨trivial, ih h⟩
  | element name own content rest ihContent ihRest =>
      obtain ⟨⟨hname, -⟩, hcontent, hrest⟩ := h
      rw [Forest.events, List.forall_mem_cons, List.forall_mem_append,
        List.forall_mem_cons]
      exact ⟨hname, ihContent hcontent, hname, ihRest hrest⟩

namespace Session

variable {σ : Type} [Renderer σ] [AcceptingRenderer σ] {session : Session σ}

theorem feed_next (hagree : session.InStep) (hstate : session.state = .opened)
    {event : Event} (hinner : event.IsInner session.root) :
    (session.feed event).state.assembly =
        session.assembly.next session.store event ∧
      (session.feed event).state.state = .opened := by
  rw [assembly_feed, state_feed_accepting hagree]
  have hopen := hagree.mp hstate
  cases event with
  | start name own =>
      have hname : Text.lower name ≠ session.root := hinner
      simp only [reaction, hname, if_false, hstate, hopen, if_true,
        reactionInside, Assembly.next]
      generalize session.assembly.start session.store (.ofName name) own =
        started
      obtain ⟨assembly, requests | misplacement⟩ := started
      · exact ⟨rfl, rfl⟩
      · exact ⟨rfl, rfl⟩
  | stop name =>
      have hname : Text.lower name ≠ session.root := hinner
      simp only [reaction, hname, if_false, hstate, Assembly.next, and_self]
  | text contents =>
      simp only [reaction, still, addText, hstate, Assembly.next, and_self]

theorem feedAll_next (hagree : session.InStep)
    (hstate : session.state = .opened) {events : List Event}
    (hinner : ∀ event ∈ events, event.IsInner session.root)
    (hok : (session.feedAll events).failure? = none) :
    (session.feedAll events).state.assembly =
      events.foldl (Assembly.next session.store) session.assembly := by
  induction events generalizing session with
  | nil => rfl
  | cons event rest ih =>
      have hevent := feed_ok_of_feedAll hok
      obtain ⟨hassembly, hopened⟩ :=
        feed_next hagree hstate (hinner event List.mem_cons_self)
      rw [feedAll_cons_of_ok hevent] at hok ⊢
      have hrest : ∀ later ∈ rest,
          later.IsInner (session.feed event).state.root := by
        rw [root_feed]
        exact fun later hlater => hinner later (List.mem_cons_of_mem _ hlater)
      rw [ih (hagree.feed event) hopened hrest hok, hassembly, store_feed]
      rfl

end Session

/-! ## Blocks -/

namespace Composer

variable {composer : Composer}

/-- Whether text that waits stands in a value. -/
def WaitsInValue (composer : Composer) : Prop :=
  composer.pending ≠ "" ∧
    ∃ entry ∈ composer.top?, entry.isPlaceholder = true

def blockHolder (composer : Composer) (own : OwnAttributes) : Holder :=
  ⟨false, (own.lookup "id").or
    (composer.top?.bind fun parent => parent.attribute? "id")⟩

theorem holder_block (hclear : ¬composer.WaitsInValue) {own : OwnAttributes}
    (hkeys : UniqueKeys own) :
    ∃ entry outer, (composer.restart.enter own).entries = entry :: outer ∧
      entry.holder = composer.blockHolder own ∧
      Chunk.marked (composer.restart.enter own).chunks = [] := by
  cases hentries : composer.entries with
  | nil =>
      have hrestart : composer.restart.entries = [] := hentries
      refine ⟨entryWithin .empty own, [], ?_, ?_, ?_⟩
      · simp only [enter, hrestart]
      · simp [Chunk.holder, id_entryWithin _ hkeys, blockHolder, top?,
          hentries]
        rfl
      · simp [chunks_enter, filledTop, top?, restart, hentries]
  | cons parent outer =>
      have hrestart : composer.restart.entries = parent :: outer := hentries
      have hopens := Assembly.opens_enter hrestart hkeys
        (by decide : Element.generic ≠ .value)
      obtain ⟨entry, filled, hopened, hentry, -⟩ := hopens.entries
      refine ⟨entry, _, hopened, ?_, ?_⟩
      · rw [hentry]
        simp [Holder.inside, blockHolder, top?, hentries, Chunk.holder]
      · rw [hopens.marked_eq]
        by_cases hpending : composer.pending = ""
        · simp [restart, hpending]
        · have hplain : parent.holder.isValue = false := by
            by_contra hvalue
            apply hclear
            have htop : parent ∈ composer.top? := by simp [top?, hentries]
            rw [Bool.not_eq_false] at hvalue
            exact ⟨hpending, parent, htop, hvalue⟩
          simp [restart, Holder.marked_of_not_isValue hplain]

theorem carrier_leave_plain {entry : Chunk} {outer : List Chunk}
    (hentries : composer.entries = entry :: outer)
    (hplain : entry.isPlaceholder = false) (force : Bool) :
    ∃ carrier, (composer.leave force).2 = some carrier ∧
      carrier.isPlaceholder = false := by
  simp only [leave, hentries]
  split
  · exact ⟨_, rfl, hplain⟩
  · exact ⟨entry, rfl, hplain⟩

end Composer

/-- The calls that write a block of a kind with some marked chunks.  There are
none if the block is left out, which has no marked chunks. -/
def WritesMarked (kind : BlockKind) (marked : List (Option String))
    (calls : List RenderCall) : Prop :=
  (calls = [] ∧ marked = []) ∨
    ∃ block, calls = [.block block] ∧ block.kind = kind ∧
      Chunk.marked block.chunks = marked

theorem Assembly.writesMarked_blockRequests {composer : Composer}
    {entry : Chunk} {outer : List Chunk}
    (hentries : composer.entries = entry :: outer)
    (hplain : entry.isPlaceholder = false) (kind : BlockKind) :
    WritesMarked kind (Chunk.marked composer.chunks)
      (Request.calls (blockRequests (composer.leave false).1 kind
        (composer.leave false).2)) := by
  obtain ⟨carrier, hcarrier, hunmarked⟩ :=
    Composer.carrier_leave_plain hentries hplain false
  have hmarked := Composer.marked_leave hentries false
  rw [Holder.marked_of_not_isValue hplain, ite_self, List.append_nil]
    at hmarked
  rw [hcarrier, ← hmarked]
  generalize (composer.leave false).1 = left
  unfold blockRequests Composer.finish Composer.finishedChunks
  by_cases hchunks : left.chunks = []
  · rw [hchunks, Chunk.marked_nil]
    by_cases hkind : kind = .paragraph
    · right
      refine ⟨⟨kind, [Composer.filler (some carrier)]⟩, ?_, rfl, ?_⟩
      · simp [hkind]
      · simp [Chunk.marked, Composer.filler, hunmarked]
    · left
      simp [hkind]
  · right
    exact ⟨⟨kind, left.chunks⟩, by simp [hchunks], rfl, rfl⟩

namespace Session

variable {σ : Type} [Renderer σ] [AcceptingRenderer σ] {session : Session σ}

/-- A block at whose start no text waits in a value is written with the marked
chunks of its content. -/
theorem feedAll_marked (hagree : session.InStep)
    (hstate : session.state = .opened)
    (htable : session.assembly.table = none)
    (hclear : ¬session.assembly.composer.WaitsInValue) {name : String}
    {kind : BlockKind} (hname : Text.lower name ≠ session.root)
    (helement : Element.ofName name = .block kind)
    (hkind : kind ≠ .pageBreak) {own : OwnAttributes}
    (hkeys : UniqueKeys own) {forest : Forest}
    (hinline : forest.Inline session.root)
    (hkeysForest : ∀ event ∈ forest.events, event.UniqueKeys) :
    let outcome :=
      session.feedAll (.start name own :: (forest.events ++ [.stop name]))
    ∃ calls, outcome.failure? = none ∧
      outcome.state.renderer = performAll session.renderer calls ∧
      WritesMarked kind
        (forest.marked session.store
          (session.assembly.composer.blockHolder own) false) calls := by
  intro outcome
  have hstart := feed_start_block session hagree hstate htable hname helement
    hkind own
  obtain ⟨entry, outer, hopened, hentry, hunmarked⟩ :=
    Composer.holder_block hclear hkeys
  generalize session.assembly.composer.restart.enter own = opened
    at hstart hopened hunmarked
  let begun := session.withComposer opened session.diagnostics
  have hagree' : begun.InStep := hagree
  obtain ⟨inner, reported, -, hcontent, -, -⟩ :=
    feedAll_inline begun hagree hstate rfl hopened hinline
  have hassembly := feedAll_next hagree' hstate hinline.isInner
    (by rw [hcontent])
  obtain ⟨after, top, hafter, hentries, htop, hmarked⟩ :=
    Assembly.marked_inline session.store hinline hkeysForest hopened
  have hsame : inner = after := by
    rw [hcontent] at hassembly
    exact congrArg Assembly.composer (hassembly.trans hafter)
  rw [hsame] at hcontent
  have hholder : top.holder =
      session.assembly.composer.blockHolder own := htop.trans hentry
  have hplain : top.isPlaceholder = false := congrArg Holder.isValue hholder
  rw [hunmarked, List.nil_append, hentry,
    Forest.marked_waits (by rfl)] at hmarked
  let filled := begun.withComposer after reported
  have hstate' : filled.state = .opened := hstate
  let requests := Assembly.blockRequests (after.leave false).1 kind
    (after.leave false).2
  have hstop := Assembly.stop_block hentries hkind
  rw [← helement] at hstop
  have hfeed : filled.feed (.stop name) =
      ⟨{ filled with assembly := ⟨{ entries := outer }, none⟩ }.meet requests,
        none⟩ :=
    stop_opened hstate' (hagree.mp hstate) hname hstop
  have houtcome : outcome =
      ⟨{ filled with assembly := ⟨{ entries := outer }, none⟩ }.meet requests,
        none⟩ := by
    simp only [outcome]
    rw [feedAll_cons, hstart, Outcome.andThen_ok, feedAll_append, hcontent,
      Outcome.andThen_ok]
    change filled.feedAll [.stop name] = _
    rw [feedAll_cons, hfeed]
    rfl
  have hwrites := Assembly.writesMarked_blockRequests hentries hplain kind
  rw [hmarked] at hwrites
  rw [houtcome]
  exact ⟨Request.calls requests, rfl, rfl, hwrites⟩

end Session

/-! ## Forms -/

theorem Html.fields_block {options : Html.PageOptions}
    (hmode : options.placeholders ≠ .text) {block : Block}
    (hkind : block.kind ≠ .pageBreak) :
    ∃ fragment tokens,
      bodyText options (.block block) = .ok ("  " ++ fragment ++ "\n") ∧
        tokens? fragment = some tokens ∧
        (fields tokens).map (fun field => field.lookup "id") =
          (Chunk.marked block.chunks).map fun id? => some (id?.getD "") := by
  cases hnode : blockNode options.placeholders block with
  | error error =>
      obtain ⟨kind, chunks⟩ := block
      cases kind with
      | pageBreak => exact absurd rfl hkind
      | title | chapter | sectionHeading | paragraph => cases hnode
  | ok node =>
      have hshows := shows_blockNode hnode
      have hreads := (node.reads_write hshows.names.1).tokens?_eq
      have hfields := hshows.fields_eq
      simp only [tokensAll, List.append_nil] at hfields
      refine ⟨String.ofList node.write, node.tokens, ?_, hreads, ?_⟩
      · rw [bodyText, hnode, ← lineOf_eq]
        rfl
      · rw [hfields, blockFields, if_neg hmode, Chunk.marked, List.map_map,
          List.map_map]
        rfl

/-! ## Templates -/

/-- The marked chunks of a block, at whose start no text waits in a value, are
those of its content: one at the end of each value, and one for each element
that starts in a value while text waits there.  If the values hold nothing but
text, there is one for each of them in document order.  A form has a field for
each marked chunk. -/
theorem compile_marked {template root name : String} {store : DataStore}
    {diagnostics : List Diagnostic} {before after : List Event}
    {own : OwnAttributes} {kind : BlockKind} {forest : Forest}
    (hcompiled : (compile template store ({} : Recorder) root).result =
      .ok diagnostics)
    (hread : (Markup.read template).1 =
      before ++ .start name own :: (forest.events ++ .stop name :: after))
    (hname : Text.lower name ≠ Text.lower root)
    (helement : Element.ofName name = .block kind)
    (hkind : kind ≠ .pageBreak) (hinline : forest.Inline (Text.lower root))
    (hclear : ¬((Session.begin root store ({} : Recorder)).feedAll before
      ).state.assembly.composer.WaitsInValue) :
    let begun := Session.begin root store ({} : Recorder)
    let through :=
      before ++ .start name own :: (forest.events ++ [.stop name])
    let outer := (begun.feedAll before).state
    let holder := outer.assembly.composer.blockHolder own
    let marked := forest.marked store holder false
    let values := forest.values holder
    (∃ written later,
      (begun.feedAll through).state.renderer.calls =
          outer.renderer.calls ++ written ∧
        (compile template store ({} : Recorder) root).renderer.calls =
          outer.renderer.calls ++ written ++ later ∧
        WritesMarked kind marked written ∧
        ∀ block, .block block ∈ written → ∀ options : Html.PageOptions,
          options.placeholders ≠ .text → ∃ fragment tokens,
            Html.bodyText options (.block block) =
                .ok ("  " ++ fragment ++ "\n") ∧
              Html.tokens? fragment = some tokens ∧
              (Html.fields tokens).map (fun field => field.lookup "id") =
                marked.map fun id? => some (id?.getD "")) ∧
      marked.length =
        values.length + forest.interruptions store false false ∧
      (∀ id?, values.count id? ≤ marked.count id?) ∧
      (forest.ValuesHoldText → marked = values) := by
  intro begun through outer holder marked values
  refine ⟨?_, forest.length_marked holder false,
    forest.count_values_le holder false,
    fun htexts => Forest.marked_eq_values htexts rfl false⟩
  let front : List Event := .start name own :: (forest.events ++ [.stop name])
  have hevents : (Markup.read template).1 = before ++ (front ++ after) := by
    rw [hread]
    simp [front]
  have hok : (begun.feedAll (Markup.read template).1).failure? = none :=
    (Compiled.result_ok_iff.mp hcompiled).1
  rw [hevents] at hok
  obtain ⟨hbefore, hlater⟩ := Session.feedAll_append_ok_iff.mp hok
  obtain ⟨hfront, hafter⟩ := Session.feedAll_append_ok_iff.mp hlater
  have hagree : outer.InStep :=
    (Session.inStep_begin rfl root store).feedAll before
  have hroot : outer.root = Text.lower root := begun.root_feedAll before
  have hstore : outer.store = store := begun.store_feedAll before
  rw [← hroot] at hname hinline
  obtain ⟨hstate, hcell⟩ := Session.inside_of_ok hagree hname
    (Session.feed_ok_of_feedAll hfront)
  have htable : outer.assembly.table = none := by
    rw [helement] at hcell
    simpa using hcell
  have hkeys : ∀ event ∈ front, event.UniqueKeys := by
    intro event hevent
    apply @read_unique template
    rw [hevents]
    exact List.mem_append_right _ (List.mem_append_left _ hevent)
  rw [List.forall_mem_cons, List.forall_mem_append] at hkeys
  obtain ⟨hown, hforest, -⟩ := hkeys
  obtain ⟨written, -, hrenderer, hwrites⟩ :=
    Session.feedAll_marked hagree hstate htable hclear hname helement hkind
      hown hinline hforest
  rw [hstore] at hwrites
  let behind := (outer.feedAll front).state
  have hfed : (begun.feedAll through).state = behind :=
    Session.state_feedAll_append hbefore front
  have hinner : ∀ call ∈ written, call.isInner = true := by
    rcases hwrites with ⟨rfl, -⟩ | ⟨_, rfl, -⟩
    · exact nofun
    · exact List.forall_mem_singleton.mpr rfl
  have hcalls : behind.renderer.calls = outer.renderer.calls ++ written := by
    change (outer.feedAll front).state.renderer.calls = _
    rw [hrenderer, Recorder.performAll_inner (hagree.mp hstate) hinner]
  obtain ⟨hall, -⟩ := Session.feedAll_recorder (hagree.feedAll front) after
  refine ⟨written, Request.calls (behind.asked after), ?_, ?_, hwrites, ?_⟩
  · rw [hfed, hcalls]
  · rw [← hcalls, ← hall]
    change (begun.feedAll (Markup.read template).1).state.renderer.calls = _
    rw [hevents, Session.state_feedAll_append hbefore,
      Session.state_feedAll_append hfront]
  · intro block hmem options hmode
    rcases hwrites with ⟨rfl, -⟩ | ⟨filled, rfl, hfilled, hmarked⟩
    · cases hmem
    · obtain rfl : block = filled := by simpa using hmem
      change ∃ fragment tokens, _ ∧ _ ∧ _ =
        (forest.marked store (outer.assembly.composer.blockHolder own) false
          ).map fun id? => some (id?.getD "")
      rw [← hmarked]
      exact Html.fields_block hmode (by rwa [hfilled])

/-- A value with an element in it, and one without an id. -/
theorem compile_marked_interrupted :
    let template := "<doc><para id='p'>Dear <value id='a'><b>x</b></value>" ++
      "<value/></para></doc>"
    let store := DataStore.ofPairs [("a", "A")]
    let forest : Forest :=
      .text "Dear " (.element "value" [("id", "a")]
        (.element "b" [] (.text "x" .nil) .nil)
        (.element "value" [] .nil .nil))
    let compiled := compile template store ({} : Recorder) "doc"
    let begun := Session.begin "doc" store ({} : Recorder)
    let outer := (begun.feedAll [.start "doc" []]).state
    let holder := outer.assembly.composer.blockHolder [("id", "p")]
    compiled.result =
        .ok [⟨.dataBinding, "Placeholder has no 'id' attribute"⟩] ∧
      (Markup.read template).1 = [.start "doc" []] ++
        .start "para" [("id", "p")] ::
          (forest.events ++ .stop "para" :: [.stop "doc"]) ∧
      Text.lower "para" ≠ Text.lower "doc" ∧
      Element.ofName "para" = .block .paragraph ∧
      forest.Inline (Text.lower "doc") ∧
      ¬outer.assembly.composer.WaitsInValue ∧
      forest.marked store holder false = [some "a", some "a", some "p"] ∧
      forest.values holder = [some "a", some "p"] ∧
      ∃ written later,
        compiled.renderer.calls = [.openDocument] ++ written ++ later ∧
          WritesMarked .paragraph [some "a", some "a", some "p"] written := by
  intro template store forest compiled begun outer holder
  let events : List Event := [.start "doc" []] ++
    .start "para" [("id", "p")] ::
      (forest.events ++ .stop "para" :: [.stop "doc"])
  have hread : Markup.read template = (events, none) := by decide +kernel
  have hcompile : compiled = .ofOutcome (begun.feedAll events) none := by
    simp only [compiled, compile, hread, begun]
  have hcompiled : compiled.result =
      .ok [⟨.dataBinding, "Placeholder has no 'id' attribute"⟩] := by
    rw [hcompile]
    decide +kernel
  have hevents : (Markup.read template).1 = events := by rw [hread]
  have hname : Text.lower "para" ≠ Text.lower "doc" := by decide +kernel
  have helement : Element.ofName "para" = .block .paragraph := by
    decide +kernel
  have hinline : forest.Inline (Text.lower "doc") := by
    have hvalue : Text.lower "value" ≠ Text.lower "doc" ∧
        (Element.ofName "value").isInline = true := by
      decide +kernel
    have hbold : Text.lower "b" ≠ Text.lower "doc" ∧
        (Element.ofName "b").isInline = true := by
      decide +kernel
    exact ⟨hvalue, ⟨hbold, trivial, trivial⟩, hvalue, trivial, trivial⟩
  have hclear : ¬outer.assembly.composer.WaitsInValue := fun hwaits =>
    hwaits.1 (by decide +kernel)
  have hmarked : forest.marked store holder false =
      [some "a", some "a", some "p"] := by
    decide +kernel
  have hvalues : forest.values holder = [some "a", some "p"] := by
    decide +kernel
  obtain ⟨⟨written, later, -, hcalls, hwrites, -⟩, -⟩ :=
    compile_marked hcompiled hevents hname helement (by decide) hinline hclear
  rw [hmarked] at hwrites
  exact ⟨hcompiled, hevents, hname, helement, hinline, hclear, hmarked,
    hvalues, written, later, hcalls, hwrites⟩

/-- A single value can leave two marked chunks. -/
theorem not_marked_eq_values :
    let template :=
      "<textpdf><para><value id=\"a\"><b>x</b></value></para></textpdf>"
    let store := DataStore.ofPairs [("a", "A")]
    let forest : Forest :=
      .element "value" [("id", "a")]
        (.element "b" [] (.text "x" .nil) .nil) .nil
    let compiled := compile template store ({} : Recorder)
    compiled.result = .ok [] ∧
      (Markup.read template).1 = .start "textpdf" [] :: .start "para" [] ::
        (forest.events ++ [.stop "para", .stop "textpdf"]) ∧
      forest.values ⟨false, none⟩ = [some "a"] ∧
      ∃ block, compiled.renderer.calls =
          [.openDocument, .block block, .closeDocument] ∧
        (block.chunks.filter Chunk.isPlaceholder).length = 2 ∧
        Chunk.marked block.chunks ≠ forest.values ⟨false, none⟩ := by
  intro template store forest compiled
  let events : List Event := .start "textpdf" [] :: .start "para" [] ::
    (forest.events ++ [.stop "para", .stop "textpdf"])
  have hread : Markup.read template = (events, none) := by decide +kernel
  have hcompile : compiled = .ofOutcome
      ((Session.begin defaultRoot store ({} : Recorder)).feedAll events)
        none := by
    simp only [compiled, compile, hread]
  let style := Dictionary.ofList
    [("font-style", "bold,underline"), ("id", "a")]
  let block : Block := ⟨.paragraph,
    [⟨"A", style, true⟩, ⟨"x", style, false⟩, ⟨"", style, true⟩]⟩
  have hcompiled : compiled.result = .ok [] ∧ compiled.renderer.calls =
      [.openDocument, .block block, .closeDocument] := by
    rw [hcompile]
    decide +kernel
  exact ⟨hcompiled.1, by rw [hread], by decide +kernel, block, hcompiled.2,
    by decide +kernel, by decide +kernel⟩

end DocTemplate
