import DocTemplate.CommandLine.Run
import DocTemplate.Proofs.JsonReading
import DocTemplate.Proofs.Lookups

/-!
# Data files

A data source that is written from a title and a text for each id loads as the
store of that title and these texts.  It does not matter how the text is set
out, in which order the members stand, and which further texts stand beside
them.  In the same way a skeleton loads as a store in which each of its ids
has the empty text.
-/

namespace DocTemplate

/-- A name with a single value is found wherever it stands. -/
theorem Json.member?_eq_some {members : List (String × Json)} {name : String}
    {value : Json} (hmem : (name, value) ∈ members)
    (hunique : ∀ other, (name, other) ∈ members → other = value) :
    member? members name = some value := by
  cases hlookup : member? members name with
  | none =>
      rw [member?, List.lookup_eq_none_iff] at hlookup
      have hdiffers := hlookup _ (List.mem_reverse.mpr hmem)
      exact absurd rfl (bne_iff_ne.mp hdiffers)
  | some other =>
      rw [member?, List.lookup_eq_some_iff] at hlookup
      obtain ⟨later, earlier, hmembers, -⟩ := hlookup
      have hother : (name, other) ∈ members := by
        rw [← List.mem_reverse, hmembers]
        exact List.mem_append_right _ List.mem_cons_self
      rw [hunique other hother]

theorem Dictionary.lookup_map_values {α β : Type} (make : α → β)
    (list : List (String × α)) (key : String) :
    (list.map fun (other, value) => (other, make value)).lookup key =
      (list.lookup key).map make := by
  induction list with
  | nil => rfl
  | cons entry rest ih =>
      rw [List.map_cons, lookup_cons_eq_ite, lookup_cons_eq_ite, ih]
      by_cases hkey : key = entry.1
      · simp [hkey]
      · simp [hkey]

theorem Dictionary.mem_of_mem_insertAll {α : Type} {dictionary : Dictionary α}
    {list : List (String × α)} {entry : String × α}
    (h : entry ∈ (dictionary.insertAll list).entries) :
    entry ∈ dictionary.entries ∨ entry ∈ list := by
  induction list generalizing dictionary with
  | nil => exact .inl h
  | cons first rest ih =>
      rcases ih h with hplaced | hrest
      · rcases mem_place hplaced with rfl | hold
        · exact .inr List.mem_cons_self
        · exact .inl hold
      · exact .inr (List.mem_cons_of_mem _ hrest)

theorem Dictionary.mem_of_mem_ofList {α : Type} {list : List (String × α)}
    {entry : String × α} (h : entry ∈ (ofList list).entries) :
    entry ∈ list :=
  (mem_of_mem_insertAll h).resolve_left List.not_mem_nil

namespace DataStore

/-- Members that hold texts. -/
def textMembers (pairs : List (String × String)) : List (String × Json) :=
  pairs.map fun (name, text) => (name, .string text)

/-- The members of a source with a title, a text for each id, and further
texts beside them. -/
def sourceMembers (title : String) (pairs further : List (String × String)) :
    List (String × Json) :=
  ("title", .string title) :: ("data", .object (textMembers pairs)) ::
    textMembers further

theorem fits_textMembers (pairs : List (String × String)) (room : Nat) :
    Json.MembersFit (textMembers pairs) room := by
  rw [Json.membersFit_iff]
  intro member hmember
  obtain ⟨pair, -, rfl⟩ := List.mem_map.mp hmember
  trivial

theorem fits_sourceMembers (title : String)
    (pairs further : List (String × String)) :
    Json.MembersFit (sourceMembers title pairs further)
      (Json.Reading.maxDepth - 1) := by
  have hinner : (Json.object (textMembers pairs)).Fits
      (Json.Reading.maxDepth - 1) :=
    ⟨by decide, fits_textMembers pairs _⟩
  exact ⟨trivial, hinner, fits_textMembers further _⟩

/-- Further members are neither the title nor the data. -/
theorem mem_sourceMembers {title : String}
    {pairs further : List (String × String)}
    (hfurther : ∀ member ∈ further,
      member.1 ≠ "title" ∧ member.1 ≠ "data")
    {name : String} {value : Json}
    (h : (name, value) ∈ sourceMembers title pairs further) :
    (name = "title" ∧ value = .string title) ∨
      (name = "data" ∧ value = .object (textMembers pairs)) ∨
      (name ≠ "title" ∧ name ≠ "data") := by
  rcases List.mem_cons.mp h with htitle | hrest
  · exact .inl (Prod.mk.inj htitle)
  rcases List.mem_cons.mp hrest with hdata | hother
  · exact .inr (.inl (Prod.mk.inj hdata))
  · obtain ⟨pair, hpair, heq⟩ := List.mem_map.mp hother
    obtain ⟨rfl, -⟩ := Prod.mk.inj heq
    exact .inr (.inr (hfurther pair hpair))

section Members

variable {title : String} {pairs further : List (String × String)}
  (hfurther : ∀ member ∈ further, member.1 ≠ "title" ∧ member.1 ≠ "data")
  {members : List (String × Json)}
  (horder : members.Perm (sourceMembers title pairs further))
include hfurther horder

theorem member?_title :
    Json.member? members "title" = some (.string title) := by
  apply Json.member?_eq_some
  · rw [horder.mem_iff]
    exact List.mem_cons_self
  · intro other hother
    rw [horder.mem_iff] at hother
    rcases mem_sourceMembers hfurther hother with
      ⟨-, rfl⟩ | ⟨hname, -⟩ | ⟨hname, -⟩
    · rfl
    · exact absurd hname (by decide)
    · exact absurd rfl hname

theorem member?_data :
    Json.member? members "data" = some (.object (textMembers pairs)) := by
  apply Json.member?_eq_some
  · rw [horder.mem_iff]
    exact List.mem_cons_of_mem _ List.mem_cons_self
  · intro other hother
    rw [horder.mem_iff] at hother
    rcases mem_sourceMembers hfurther hother with
      ⟨hname, -⟩ | ⟨-, rfl⟩ | ⟨-, hname⟩
    · exact absurd hname (by decide)
    · rfl
    · exact absurd rfl hname

/-- What loads from the members is decided by their title and their data. -/
theorem ofJson_members :
    ofJson (.object members) = .ok ((ofPairs pairs).withTitle title) := by
  simp only [ofJson, member?_title hfurther horder,
    member?_data hfurther horder, loadValues, loadTitle]
  rfl

omit hfurther in
theorem fits_members :
    (Json.object members).Fits Json.Reading.maxDepth := by
  refine ⟨by decide, Json.membersFit_iff.mpr fun member hmember => ?_⟩
  exact Json.membersFit_iff.mp (fits_sourceMembers title pairs further)
    member (horder.mem_iff.mp hmember)

end Members

theorem resolve_ofPairs (pairs : List (String × String)) (title id : String) :
    ((ofPairs pairs).withTitle title).resolve id =
      match (Dictionary.ofList pairs).get? id with
      | some text => .value text
      | none => .missing := by
  have hget : (Dictionary.ofList (textMembers pairs)).get? id =
      ((Dictionary.ofList pairs).get? id).map Json.string := by
    rw [Dictionary.get?_ofList, Dictionary.get?_ofList, textMembers,
      ← List.map_reverse, Dictionary.lookup_map_values]
  have hvalues : ((ofPairs pairs).withTitle title).values =
      some (Dictionary.ofList (textMembers pairs)) := rfl
  rw [resolve, hvalues]
  dsimp only
  rw [hget]
  cases (Dictionary.ofList pairs).get? id <;> rfl

theorem fits_skeleton (ids : List String) :
    (skeleton ids).Fits Json.Reading.maxDepth := by
  refine ⟨by decide, Json.membersFit_iff.mpr fun member hmember => ?_⟩
  rcases List.mem_pair.mp (Dictionary.mem_of_mem_ofList hmember) with
    rfl | rfl
  · trivial
  · refine ⟨by decide, Json.membersFit_iff.mpr fun value hvalue => ?_⟩
    obtain ⟨id, -, rfl⟩ :=
      List.mem_map.mp (Dictionary.mem_of_mem_ofList hvalue)
    trivial

/-- What the skeleton of some ids loads as, with the line feed that ends a
printed one. -/
theorem load_skeleton (ids : List String) (intake : Json.Intake) :
    load ((skeleton ids).text true ++ "\n") intake = .ok (blank ids) := by
  have hblanks : ∀ c ∈ "\n".toList, Text.isSpace c = true :=
    List.forall_mem_singleton.mpr rfl
  rw [load, Json.parse_text_blanks _ (fits_skeleton ids) true intake hblanks]
  exact ofJson_skeleton ids

/-- A data source that is written from a title and some texts loads as their
store, and a skeleton as the store of its ids, each with the empty text. -/
theorem load_written (title : String) (pairs further : List (String × String))
    (hfurther : ∀ member ∈ further,
      member.1 ≠ "title" ∧ member.1 ≠ "data")
    {members : List (String × Json)}
    (horder : members.Perm (sourceMembers title pairs further))
    (pretty : Bool) (intake : Json.Intake) (ids : List String) :
    let store := (ofPairs pairs).withTitle title
    let printed := (skeleton ids).text true ++ "\n"
    load ((Json.object members).text pretty) intake = .ok store ∧
      store.warnings = [] ∧ store.title = some title ∧
      (∀ id, store.resolve id =
        match (Dictionary.ofList pairs).get? id with
        | some text => .value text
        | none => .missing) ∧
      (∀ {m : Type → Type} [Monad m] [LawfulMonad m]
        (files : CommandLine.FileAccess m) (path source : String),
        files.read path = pure (.ok source) →
        placeholderIds source = .ok ids →
        CommandLine.runSkeleton files path = pure { output := printed }) ∧
      ∃ loaded, load printed intake = .ok loaded ∧ loaded.warnings = [] ∧
        ∀ id, loaded.resolve id =
          if id ∈ ids then .value "" else .missing := by
  intro store printed
  refine ⟨?_, rfl, rfl, resolve_ofPairs pairs title, ?_, blank ids,
    load_skeleton ids intake, rfl, resolve_blank ids⟩
  · rw [load, Json.parse_text _ (fits_members horder)]
    exact ofJson_members hfurther horder
  · intro m _ _ files path source hread hids
    simp only [CommandLine.runSkeleton, hread, pure_bind, hids]
    rfl

/-- A source with an empty id, an id that is given twice, and texts that have
to be escaped. -/
theorem load_written_escapes :
    let title := "A \"title\"\\"
    let pairs := [("", "first"), ("é", "\n\x01"), ("", "last")]
    let further := [("note", "/")]
    let members := (sourceMembers title pairs further).reverse
    (∀ member ∈ further, member.1 ≠ "title" ∧ member.1 ≠ "data") ∧
      members.Perm (sourceMembers title pairs further) ∧
      ∃ store, load ((Json.object members).text true) = .ok store ∧
        store.title = some title ∧ store.resolve "" = .value "last" ∧
        store.resolve "é" = .value "\n\x01" ∧
        store.resolve "e" = .missing := by
  intro title pairs further members
  have hfurther : ∀ member ∈ further,
      member.1 ≠ "title" ∧ member.1 ≠ "data" := by decide
  have horder : members.Perm (sourceMembers title pairs further) :=
    List.reverse_perm _
  obtain ⟨hload, -, htitle, hresolve, -, -⟩ :=
    load_written title pairs further hfurther horder true .inMemory []
  refine ⟨hfurther, horder, _, hload, htitle, ?_, ?_, ?_⟩
  · rw [hresolve]
    decide +kernel
  · rw [hresolve]
    decide +kernel
  · rw [hresolve]
    decide +kernel

end DataStore
end DocTemplate
