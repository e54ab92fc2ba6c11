/-!
# Dictionaries with text keys

Attributes of a piece of text, options of a backend and the values of a data
file are finite maps from texts to values in which only the last value of a
key counts.  A dictionary keeps its entries in ascending key order and carries
the proof, so that two dictionaries with the same lookups are equal, and what
is listed or printed from one comes in key order.
-/

universe u

namespace DocTemplate

/-- A finite map from texts to values, listed in ascending key order. -/
structure Dictionary (α : Type u) where
  entries : List (String × α)
  ascending : entries.Pairwise fun first second => first.1 < second.1

namespace Dictionary

variable {α : Type u}

theorem eq_of_entries_eq {first second : Dictionary α}
    (h : first.entries = second.entries) : first = second := by
  cases first
  cases second
  cases h
  rfl

instance [DecidableEq α] : DecidableEq (Dictionary α) := fun first second =>
  if h : first.entries = second.entries then
    isTrue (eq_of_entries_eq h)
  else
    isFalse fun equal => h (equal ▸ rfl)

instance [Repr α] : Repr (Dictionary α) :=
  ⟨fun dictionary precedence => reprPrec dictionary.entries precedence⟩

/-- The dictionary without entries. -/
def empty : Dictionary α := ⟨[], .nil⟩

instance : Inhabited (Dictionary α) := ⟨empty⟩

/-- The keys, in ascending order. -/
def keys (dictionary : Dictionary α) : List String :=
  dictionary.entries.map Prod.fst

/-- The value of a key. -/
def get? (dictionary : Dictionary α) (key : String) : Option α :=
  dictionary.entries.lookup key

def contains (dictionary : Dictionary α) (key : String) : Bool :=
  (dictionary.get? key).isSome

/-- Puts an entry into its place in an ascending list, over an entry of the
same key. -/
def place (key : String) (value : α) : List (String × α) → List (String × α)
  | [] => [(key, value)]
  | entry :: rest =>
      if key < entry.1 then
        (key, value) :: entry :: rest
      else if entry.1 < key then
        entry :: place key value rest
      else
        (key, value) :: rest

theorem mem_place {key : String} {value : α} {list : List (String × α)}
    {entry : String × α} (h : entry ∈ place key value list) :
    entry = (key, value) ∨ entry ∈ list := by
  induction list with
  | nil => simpa [place] using h
  | cons first rest ih =>
      simp only [place] at h
      split at h
      · simpa using h
      · split at h
        · rcases List.mem_cons.1 h with heq | hrest
          · exact .inr (heq ▸ List.mem_cons_self)
          · exact (ih hrest).imp_right (List.mem_cons_of_mem _)
        · rcases List.mem_cons.1 h with heq | hrest
          · exact .inl heq
          · exact .inr (List.mem_cons_of_mem _ hrest)

theorem pairwise_place (key : String) (value : α)
    {list : List (String × α)}
    (h : list.Pairwise fun first second => first.1 < second.1) :
    (place key value list).Pairwise fun first second =>
      first.1 < second.1 := by
  induction list with
  | nil => simp [place]
  | cons first rest ih =>
      obtain ⟨hfirst, hrest⟩ := List.pairwise_cons.1 h
      simp only [place]
      split
      · rename_i hbefore
        refine List.pairwise_cons.2 ⟨fun entry hentry => ?_, h⟩
        rcases List.mem_cons.1 hentry with heq | hmem
        · exact heq ▸ hbefore
        · exact String.lt_trans hbefore (hfirst entry hmem)
      · rename_i hnotBefore
        split
        · rename_i hafter
          refine List.pairwise_cons.2 ⟨fun entry hentry => ?_, ih hrest⟩
          rcases mem_place hentry with heq | hmem
          · exact heq ▸ hafter
          · exact hfirst entry hmem
        · rename_i hnotAfter
          have hsame : key = first.1 :=
            String.le_antisymm
              (String.not_lt.1 hnotAfter) (String.not_lt.1 hnotBefore)
          exact List.pairwise_cons.2
            ⟨fun entry hentry => hsame ▸ hfirst entry hentry, hrest⟩

/-- The dictionary with the value of one key set. -/
def insert (dictionary : Dictionary α) (key : String) (value : α) :
    Dictionary α :=
  ⟨place key value dictionary.entries,
    pairwise_place key value dictionary.ascending⟩

/-- Sets the values of a list of entries, from left to right. -/
def insertAll (dictionary : Dictionary α) (list : List (String × α)) :
    Dictionary α :=
  list.foldl (fun current entry => current.insert entry.1 entry.2) dictionary

/-- The entries of both dictionaries; the second has the last word. -/
def union (first second : Dictionary α) : Dictionary α :=
  first.insertAll second.entries

/-- The dictionary of a list of entries, of which the last of a key counts. -/
def ofList (list : List (String × α)) : Dictionary α :=
  empty.insertAll list

theorem lookup_cons_eq_ite (key : String) (entry : String × α)
    (rest : List (String × α)) :
    (entry :: rest).lookup key =
      if key = entry.1 then some entry.2 else rest.lookup key := by
  obtain ⟨other, value⟩ := entry
  by_cases h : key = other
  · simp [h]
  · have hne : (key == other) = false := beq_false_of_ne h
    simp [List.lookup_cons, h, hne]

theorem lookup_place (key other : String) (value : α)
    (list : List (String × α)) :
    (place key value list).lookup other =
      if other = key then some value else list.lookup other := by
  induction list with
  | nil => simp [place, lookup_cons_eq_ite]
  | cons first rest ih =>
      simp only [place]
      split
      · simp [lookup_cons_eq_ite]
      · split
        · rename_i hafter
          have hne : key ≠ first.1 := fun heq =>
            String.lt_irrefl _ (heq ▸ hafter)
          simp only [lookup_cons_eq_ite, ih]
          by_cases hother : other = key
          · simp [hother, hne]
          · simp [hother]
        · rename_i hnotBefore hnotAfter
          have hsame : key = first.1 :=
            String.le_antisymm
              (String.not_lt.1 hnotAfter) (String.not_lt.1 hnotBefore)
          simp only [lookup_cons_eq_ite, ← hsame]
          split <;> rfl

@[simp] theorem get?_empty (key : String) :
    (empty : Dictionary α).get? key = none := rfl

@[simp] theorem get?_insert (dictionary : Dictionary α)
    (key other : String) (value : α) :
    (dictionary.insert key value).get? other =
      if other = key then some value else dictionary.get? other :=
  lookup_place key other value dictionary.entries

theorem get?_insertAll (dictionary : Dictionary α)
    (list : List (String × α)) (key : String) :
    (dictionary.insertAll list).get? key =
      (list.reverse.lookup key).or (dictionary.get? key) := by
  induction list generalizing dictionary with
  | nil => rfl
  | cons entry rest ih =>
      have hrest := ih (dictionary.insert entry.1 entry.2)
      have hlast : ([entry].lookup key).or (dictionary.get? key) =
          (dictionary.insert entry.1 entry.2).get? key := by
        rw [get?_insert, lookup_cons_eq_ite]
        split <;> rfl
      rw [List.reverse_cons, List.lookup_append, Option.or_assoc, hlast,
        ← hrest]
      rfl

/-- Where no key is used twice it does not matter from which end a list is
searched. -/
theorem lookup_reverse {list : List (String × α)}
    (h : list.Pairwise fun first second => first.1 ≠ second.1)
    (key : String) : list.reverse.lookup key = list.lookup key := by
  induction list with
  | nil => rfl
  | cons first rest ih =>
      obtain ⟨hfirst, hrest⟩ := List.pairwise_cons.1 h
      rw [List.reverse_cons, List.lookup_append, ih hrest,
        lookup_cons_eq_ite, lookup_cons_eq_ite]
      by_cases hkey : key = first.1
      · have hnone : rest.lookup key = none := by
          rw [List.lookup_eq_none_iff]
          intro entry hentry
          rw [hkey]
          exact bne_iff_ne.2 (hfirst entry hentry)
        simp [hkey ▸ hnone, hkey]
      · simp [hkey]

theorem get?_ofList (list : List (String × α)) (key : String) :
    (ofList list).get? key = list.reverse.lookup key := by
  rw [ofList, get?_insertAll, get?_empty, Option.or_none]

theorem distinct_entries (dictionary : Dictionary α) :
    dictionary.entries.Pairwise fun first second => first.1 ≠ second.1 := by
  apply dictionary.ascending.imp
  intro first second hlt heq
  rw [heq] at hlt
  exact String.lt_irrefl _ hlt

@[simp] theorem get?_union (first second : Dictionary α) (key : String) :
    (first.union second).get? key =
      (second.get? key).or (first.get? key) := by
  rw [union, get?_insertAll, lookup_reverse second.distinct_entries]
  rfl

theorem lookup_eq_some_iff {list : List (String × α)}
    (h : list.Pairwise fun first second => first.1 < second.1)
    {key : String} {value : α} :
    list.lookup key = some value ↔ (key, value) ∈ list := by
  induction list with
  | nil => simp
  | cons first rest ih =>
      obtain ⟨hfirst, hrest⟩ := List.pairwise_cons.1 h
      by_cases hkey : key = first.1
      · subst hkey
        simp only [lookup_cons_eq_ite, if_true, Option.some.injEq,
          List.mem_cons]
        constructor
        · intro heq
          exact .inl (by simp [← heq])
        · rintro (heq | hmem)
          · exact (congrArg Prod.snd heq).symm
          · exact (String.lt_irrefl _ (hfirst (first.1, value) hmem)).elim
      · have hne : (key, value) ≠ first := fun heq => hkey (by simp [← heq])
        simp [lookup_cons_eq_ite, hkey, hne, ih hrest]

theorem mem_keys_iff {dictionary : Dictionary α} {key : String} :
    key ∈ dictionary.keys ↔ ∃ value, dictionary.get? key = some value := by
  simp only [keys, get?, List.mem_map, Prod.exists, exists_and_right,
    exists_eq_right, lookup_eq_some_iff dictionary.ascending]

theorem ascending_keys (dictionary : Dictionary α) :
    dictionary.keys.Pairwise (· < ·) :=
  List.pairwise_map.mpr dictionary.ascending

theorem get?_eq_none {dictionary : Dictionary α} {key : String}
    (h : key ∉ dictionary.keys) : dictionary.get? key = none := by
  cases hget : dictionary.get? key with
  | none => rfl
  | some value => exact absurd (mem_keys_iff.mpr ⟨value, hget⟩) h

/-- Dictionaries with the same lookups are equal. -/
theorem ext {first second : Dictionary α}
    (h : ∀ key, first.get? key = second.get? key) : first = second := by
  apply eq_of_entries_eq
  obtain ⟨left, hleft⟩ := first
  obtain ⟨right, hright⟩ := second
  have hmem : ∀ entry, entry ∈ left ↔ entry ∈ right := fun (key, value) => by
    rw [← lookup_eq_some_iff hleft, ← lookup_eq_some_iff hright]
    exact iff_of_eq (congrArg (· = some value) (h key))
  change left = right
  clear h
  induction left generalizing right with
  | nil =>
      cases right with
      | nil => rfl
      | cons entry rest => exact absurd ((hmem entry).2 (by simp)) (by simp)
  | cons entry rest ih =>
      cases right with
      | nil => exact absurd ((hmem entry).1 (by simp)) (by simp)
      | cons other others =>
          obtain ⟨hentry, hrest⟩ := List.pairwise_cons.1 hleft
          obtain ⟨hother, hothers⟩ := List.pairwise_cons.1 hright
          have hhead : entry = other := by
            rcases List.mem_cons.1 ((hmem entry).1 (by simp)) with
              heq | hlate
            · exact heq
            rcases List.mem_cons.1 ((hmem other).2 (by simp)) with
              heq | hlate'
            · exact heq.symm
            exact absurd
              (String.lt_trans (hother _ hlate) (hentry _ hlate'))
              (String.lt_irrefl _)
          subst hhead
          congr 1
          refine ih hrest others hothers fun candidate => ?_
          constructor
          · intro hin
            rcases List.mem_cons.1
                ((hmem candidate).1 (List.mem_cons_of_mem _ hin)) with
              heq | hlate
            · exact absurd (heq ▸ hentry _ hin) (String.lt_irrefl _)
            · exact hlate
          · intro hin
            rcases List.mem_cons.1
                ((hmem candidate).2 (List.mem_cons_of_mem _ hin)) with
              heq | hlate
            · exact absurd (heq ▸ hother _ hin) (String.lt_irrefl _)
            · exact hlate

end Dictionary
end DocTemplate
