import DocTemplate.Proofs.BackendErrors
import DocTemplate.Proofs.FileExtension
import Mathlib.Data.List.Induction

/-!
# Registering one backend after the other

Of several backends that were registered under one name only the last one
stands.  A registry knows the backends that stand and no others, whichever way
it is asked: by a name, for the list of names, or for the extension of a file.
Only the last of these looks through all backends, and the order in which it
does so decides nothing but the choice between backends that share an
extension.
-/

namespace DocTemplate

/-! ## The backends that stand -/

/-- A backend stands in a history of registrations unless a later one has its
name. -/
def Stands (history : List Backend) (backend : Backend) : Prop :=
  ∃ before later, history = before ++ backend :: later ∧
    ∀ other ∈ later, other.name ≠ backend.name

theorem not_stands_nil (backend : Backend) : ¬Stands [] backend := by
  rintro ⟨before, later, hsplit, -⟩
  simp at hsplit

/-- A registration stands, and with it all that stood under other names. -/
theorem stands_concat_iff {history : List Backend}
    {latest backend : Backend} :
    Stands (history ++ [latest]) backend ↔
      backend = latest ∨
        Stands history backend ∧ backend.name ≠ latest.name := by
  constructor
  · rintro ⟨before, later, hsplit, hlater⟩
    rcases List.eq_nil_or_concat later with rfl | ⟨rest, last, rfl⟩
    · have hlast := List.append_inj_right' hsplit rfl
      exact .inl (List.cons.inj hlast).1.symm
    · rw [List.concat_eq_append] at hsplit hlater
      have hparts : history ++ [latest] =
          (before ++ backend :: rest) ++ [last] := by
        rw [hsplit, List.append_assoc, List.cons_append]
      obtain ⟨rfl, hlast⟩ := List.append_inj' hparts rfl
      obtain rfl := (List.cons.inj hlast).1
      refine .inr ⟨⟨before, rest, rfl, fun other hother => ?_⟩, ?_⟩
      · exact hlater other (List.mem_append_left _ hother)
      · exact (hlater latest (by simp)).symm
  · rintro (rfl | ⟨⟨before, later, rfl, hlater⟩, hname⟩)
    · exact ⟨history, [], rfl, by simp⟩
    · refine ⟨before, later ++ [latest], by simp, fun other hother => ?_⟩
      rcases List.mem_append.mp hother with hearlier | hlatest
      · exact hlater other hearlier
      · rw [List.mem_singleton.mp hlatest]
        exact hname.symm

theorem exists_stands_iff {history : List Backend} {name : String} :
    (∃ backend, Stands history backend ∧ backend.name = name) ↔
      ∃ backend ∈ history, backend.name = name := by
  induction history using List.reverseRecOn with
  | nil => simp [not_stands_nil]
  | append_singleton history latest ih =>
      by_cases hlatest : latest.name = name
      · exact iff_of_true
          ⟨latest, stands_concat_iff.mpr (.inl rfl), hlatest⟩
          ⟨latest, by simp, hlatest⟩
      · have hstands : (∃ backend, Stands (history ++ [latest]) backend ∧
            backend.name = name) ↔
            ∃ backend, Stands history backend ∧ backend.name = name := by
          refine exists_congr fun backend => ?_
          rw [stands_concat_iff]
          constructor
          · rintro ⟨rfl | hstands, hname⟩
            · exact absurd hname hlatest
            · exact ⟨hstands.1, hname⟩
          · rintro ⟨hstands, rfl⟩
            exact ⟨.inr ⟨hstands, Ne.symm hlatest⟩, rfl⟩
        rw [hstands, ih]
        simp [hlatest]

/-! ## What a registry knows -/

namespace Registry

/-- The registry that a history of registrations leads to. -/
def ofHistory (history : List Backend) : Registry :=
  history.foldl register empty

theorem ofHistory_concat (history : List Backend) (latest : Backend) :
    ofHistory (history ++ [latest]) = (ofHistory history).register latest := by
  rw [ofHistory, List.foldl_append]
  rfl

theorem get?_register (registry : Registry) (backend : Backend)
    (name : String) :
    (registry.register backend).backends.get? name =
      if name = backend.name then some backend
      else registry.backends.get? name :=
  Dictionary.get?_insert registry.backends backend.name name backend

theorem get?_ofHistory {history : List Backend} {name : String}
    {backend : Backend} :
    (ofHistory history).backends.get? name = some backend ↔
      Stands history backend ∧ backend.name = name := by
  induction history using List.reverseRecOn with
  | nil =>
      have hnone : (ofHistory []).backends.get? name = none := rfl
      simp [hnone, not_stands_nil]
  | append_singleton history latest ih =>
      rw [ofHistory_concat, get?_register, stands_concat_iff]
      by_cases hname : name = latest.name
      · rw [if_pos hname]
        constructor
        · intro hsome
          obtain rfl := Option.some.inj hsome
          exact ⟨.inl rfl, hname.symm⟩
        · rintro ⟨rfl | ⟨-, hother⟩, hbackend⟩
          · rfl
          · exact absurd (hbackend.trans hname) hother
      · rw [if_neg hname, ih]
        constructor
        · rintro ⟨hstands, rfl⟩
          exact ⟨.inr ⟨hstands, hname⟩, rfl⟩
        · rintro ⟨rfl | ⟨hstands, -⟩, rfl⟩
          · exact absurd rfl hname
          · exact ⟨hstands, rfl⟩

theorem get_eq_ok_iff {history : List Backend} {name : String}
    {backend : Backend} :
    (ofHistory history).get name = .ok backend ↔
      Stands history backend ∧ backend.name = name := by
  rw [← get?_ofHistory, get]
  cases (ofHistory history).backends.get? name with
  | none => simp
  | some found => simp

theorem has_iff {history : List Backend} {name : String} :
    (ofHistory history).has name = true ↔
      ∃ backend ∈ history, backend.name = name := by
  rw [has, Dictionary.contains, Option.isSome_iff_exists,
    ← exists_stands_iff]
  exact exists_congr fun backend => get?_ofHistory

theorem get_eq_error_iff {registry : Registry} {name : String}
    {error : CompileError} :
    registry.get name = .error error ↔
      registry.has name = false ∧ error = .backendNotFound name := by
  rw [get, has, Dictionary.contains]
  cases registry.backends.get? name with
  | none => simp [eq_comm]
  | some found => simp

theorem mem_names_iff {history : List Backend} {name : String} :
    name ∈ (ofHistory history).names ↔
      ∃ backend ∈ history, backend.name = name := by
  rw [names, Dictionary.mem_keys_iff, ← exists_stands_iff]
  exact exists_congr fun backend => get?_ofHistory

/-- What is listed under a name is the backend that stands under it. -/
theorem mem_entries_iff {history : List Backend}
    {entry : String × Backend} :
    entry ∈ (ofHistory history).backends.entries ↔
      Stands history entry.2 ∧ entry.2.name = entry.1 := by
  rw [← get?_ofHistory, Dictionary.get?]
  exact (Dictionary.lookup_eq_some_iff
    (ofHistory history).backends.ascending).symm

/-! ## Looking through all backends -/

/-- The names of some entries, put in order. -/
def sortedNames (order : List (String × Backend)) : List String :=
  (order.map Prod.fst).mergeSort

theorem pairwise_sortedNames (order : List (String × Backend)) :
    (sortedNames order).Pairwise (· ≤ ·) := by
  have htrans : ∀ first second third : String,
      decide (first ≤ second) = true → decide (second ≤ third) = true →
        decide (first ≤ third) = true := by
    simp only [decide_eq_true_eq]
    exact fun first second third => String.le_trans
  have htotal : ∀ first second : String,
      (decide (first ≤ second) || decide (second ≤ first)) = true := by
    simp only [Bool.or_eq_true, decide_eq_true_eq]
    exact String.le_total
  apply (List.pairwise_mergeSort htrans htotal (order.map Prod.fst)).imp
  exact of_decide_eq_true

/-- The first backend among some entries that has the extension of a file
name. -/
def detectIn (order : List (String × Backend)) (fileName : String) :
    Option Backend :=
  (extension? fileName).bind fun extension =>
    (order.map Prod.snd).find? fun backend =>
      backend.extensions.contains extension

theorem detect?_eq_detectIn (registry : Registry) (fileName : String) :
    registry.detect? fileName =
      detectIn registry.backends.entries fileName := rfl

section

variable {history : List Backend} {order : List (String × Backend)}
  (horder : order.Perm (ofHistory history).backends.entries)
include horder

theorem sortedNames_eq : sortedNames order = (ofHistory history).names := by
  have hsorted := pairwise_sortedNames order
  have hascending : (ofHistory history).names.Pairwise (· ≤ ·) := by
    apply (ofHistory history).backends.ascending_keys.imp
    intro first second hlt
    exact String.not_lt.mp fun hgt =>
      String.lt_irrefl first (String.lt_trans hlt hgt)
  have hperm : (sortedNames order).Perm (ofHistory history).names :=
    (List.mergeSort_perm _ _).trans (horder.map Prod.fst)
  exact hperm.eq_of_pairwise
    (fun first second _ _ h h' => String.le_antisymm h h') hsorted hascending

theorem mem_backends_iff {backend : Backend} :
    backend ∈ order.map Prod.snd ↔ Stands history backend := by
  rw [List.mem_map]
  constructor
  · rintro ⟨entry, hentry, rfl⟩
    exact (mem_entries_iff.mp (horder.mem_iff.mp hentry)).1
  · intro hstands
    refine ⟨(backend.name, backend), horder.mem_iff.mpr ?_, rfl⟩
    exact mem_entries_iff.mpr ⟨hstands, rfl⟩

/-- A detected backend stands and has the extension of the file. -/
theorem detectIn_sound {fileName : String} {backend : Backend}
    (h : detectIn order fileName = some backend) :
    Stands history backend ∧
      ∃ extension, HasExtension fileName extension ∧
        extension ∈ backend.extensions := by
  obtain ⟨extension, hextension, hfound⟩ := Option.bind_eq_some_iff.mp h
  refine ⟨(mem_backends_iff horder).mp (List.mem_of_find?_eq_some hfound),
    extension, extension?_eq_some_iff.mp hextension, ?_⟩
  simpa using List.find?_some hfound

theorem detectIn_isSome_iff {fileName : String} :
    (detectIn order fileName).isSome = true ↔
      ∃ extension, HasExtension fileName extension ∧
        ∃ backend, Stands history backend ∧
          extension ∈ backend.extensions := by
  constructor
  · intro hsome
    obtain ⟨backend, hbackend⟩ := Option.isSome_iff_exists.mp hsome
    obtain ⟨hstands, extension, hextension, hlists⟩ :=
      detectIn_sound horder hbackend
    exact ⟨extension, hextension, backend, hstands, hlists⟩
  · rintro ⟨extension, hextension, backend, hstands, hlists⟩
    rw [detectIn, extension?_eq_some_iff.mpr hextension, Option.bind_some,
      List.find?_isSome]
    exact ⟨backend, (mem_backends_iff horder).mpr hstands, by simpa using
      hlists⟩

/-- The only backend that stands and has the extension of a file is the one
that is detected. -/
theorem detectIn_of_unique {fileName extension : String}
    (hextension : HasExtension fileName extension) {backend : Backend}
    (hstands : Stands history backend)
    (hlists : extension ∈ backend.extensions)
    (hunique : ∀ other, Stands history other →
      extension ∈ other.extensions → other = backend) :
    detectIn order fileName = some backend := by
  have hsome := (detectIn_isSome_iff horder).mpr
    ⟨extension, hextension, backend, hstands, hlists⟩
  obtain ⟨found, hfound⟩ := Option.isSome_iff_exists.mp hsome
  obtain ⟨hfoundStands, other, hother, hfoundLists⟩ :=
    detectIn_sound horder hfound
  have hsame : some other = some extension :=
    (extension?_eq_some_iff.mpr hother).symm.trans
      (extension?_eq_some_iff.mpr hextension)
  rw [Option.some.inj hsame] at hfoundLists
  rw [hfound, hunique found hfoundStands hfoundLists]

/-- Where no two backends share an extension, the order in which they are
looked through decides nothing. -/
theorem detectIn_eq_of_unique {other : List (String × Backend)}
    (hother : other.Perm (ofHistory history).backends.entries)
    (hunique : ∀ extension first second,
      Stands history first → Stands history second →
        extension ∈ first.extensions → extension ∈ second.extensions →
          first = second)
    (fileName : String) :
    detectIn order fileName = detectIn other fileName := by
  cases hfound : detectIn other fileName with
  | some backend =>
      obtain ⟨hstands, extension, hextension, hlists⟩ :=
        detectIn_sound hother hfound
      exact detectIn_of_unique horder hextension hstands hlists
        fun found hfoundStands hfoundLists =>
          hunique extension found backend hfoundStands hstands hfoundLists
            hlists
  | none =>
      rw [← Option.not_isSome_iff_eq_none, detectIn_isSome_iff horder,
        ← detectIn_isSome_iff hother, hfound]
      simp

end

/-! ## Rendering by name -/

section

variable {registry : Registry} {name : String}

theorem render_of_error {error : CompileError}
    (hget : registry.get name = .error error) (template : String)
    (store : DataStore) (options : BackendOptions) :
    registry.render template store name options = .error error := by
  rw [render, hget]
  rfl

theorem render_of_ok {backend : Backend}
    (hget : registry.get name = .ok backend) (template : String)
    (store : DataStore) (options : BackendOptions) :
    registry.render template store name options =
      backend.render template store options := by
  rw [render, hget, ok_bind]

theorem render_notFound_iff {history : List Backend}
    (hbackends : ∀ backend ∈ history, backend.NeverMissing)
    (template : String) (store : DataStore) (name : String)
    (options : BackendOptions) (missing : String) :
    (ofHistory history).render template store name options =
        .error (.backendNotFound missing) ↔
      (ofHistory history).get name = .error (.backendNotFound missing) := by
  cases hget : (ofHistory history).get name with
  | error error =>
      rw [render_of_error hget]
      simp
  | ok backend =>
      rw [render_of_ok hget]
      refine iff_of_false (fun hrender => ?_) (by simp)
      obtain ⟨before, later, hsplit, -⟩ := (get_eq_ok_iff.mp hget).1
      have hmem : backend ∈ history := by
        rw [hsplit]
        simp
      exact hbackends backend hmem template store options _ hrender

end

/-! ## Histories of registrations -/

/-- A registry knows of each name the backend that was registered last.  It is
the one that is found by its name and that renders, its name is listed, and it
alone counts when a backend is looked for that has the extension of a file,
in whatever order the backends are looked through. -/
theorem knows_last_registrations (history : List Backend)
    (order : List (String × Backend))
    (horder : order.Perm (ofHistory history).backends.entries) :
    let registry := ofHistory history
    -- Looking up a name.
    (∀ name backend, registry.get name = .ok backend ↔
        Stands history backend ∧ backend.name = name) ∧
      (∀ name error, registry.get name = .error error ↔
        registry.has name = false ∧ error = .backendNotFound name) ∧
      (∀ name, registry.has name = true ↔
        ∃ backend ∈ history, backend.name = name) ∧
      -- Listing the names.
      registry.names = sortedNames order ∧
      registry.names.Pairwise (· < ·) ∧
      (∀ name, name ∈ registry.names ↔
        ∃ backend ∈ history, backend.name = name) ∧
      -- Looking for an extension.
      (∀ fileName, registry.detect? fileName =
        detectIn registry.backends.entries fileName) ∧
      (∀ fileName, (detectIn order fileName).isSome = true ↔
        ∃ extension, HasExtension fileName extension ∧
          ∃ backend, Stands history backend ∧
            extension ∈ backend.extensions) ∧
      (∀ fileName backend, detectIn order fileName = some backend →
        registry.get backend.name = .ok backend ∧
          ∃ extension, HasExtension fileName extension ∧
            extension ∈ backend.extensions) ∧
      ((∀ extension first second,
          Stands history first → Stands history second →
            extension ∈ first.extensions → extension ∈ second.extensions →
              first = second) →
        ∀ fileName, detectIn order fileName = registry.detect? fileName) ∧
      (∀ latest later,
        later.Perm (registry.register latest).backends.entries →
          ∀ fileName, (detectIn later fileName).isSome = true ↔
            ∃ extension, HasExtension fileName extension ∧
              (extension ∈ latest.extensions ∨
                ∃ backend, Stands history backend ∧
                  backend.name ≠ latest.name ∧
                  extension ∈ backend.extensions)) ∧
      -- Rendering by name.
      (∀ name error template store options,
        registry.get name = .error error →
          registry.render template store name options = .error error) ∧
      (∀ name backend template store options,
        registry.get name = .ok backend →
          registry.render template store name options =
            backend.render template store options) ∧
      ((∀ backend ∈ history, backend.NeverMissing) →
        ∀ name template store options missing,
          registry.render template store name options =
              .error (.backendNotFound missing) ↔
            registry.get name = .error (.backendNotFound missing)) := by
  intro registry
  refine ⟨fun _ _ => get_eq_ok_iff, fun _ _ => get_eq_error_iff,
    fun _ => has_iff, (sortedNames_eq horder).symm,
    registry.backends.ascending_keys, fun _ => mem_names_iff,
    detect?_eq_detectIn registry, fun _ => detectIn_isSome_iff horder,
    ?_, ?_, ?_,
    fun _ _ _ _ _ hget => render_of_error hget _ _ _,
    fun _ _ _ _ _ hget => render_of_ok hget _ _ _,
    fun hbackends _ _ _ _ _ => render_notFound_iff hbackends _ _ _ _ _⟩
  · intro fileName backend hfound
    obtain ⟨hstands, hextension⟩ := detectIn_sound horder hfound
    exact ⟨get_eq_ok_iff.mpr ⟨hstands, rfl⟩, hextension⟩
  · intro hunique
    exact detectIn_eq_of_unique horder (List.Perm.refl _) hunique
  · intro latest later hlater fileName
    rw [← ofHistory_concat] at hlater
    rw [detectIn_isSome_iff hlater]
    refine exists_congr fun extension => and_congr_right fun _ => ?_
    simp only [stands_concat_iff, or_and_right, exists_or, exists_eq_left,
      and_assoc]

/-- The standard backends, with the one for pages replaced by one for plain
texts and all of them looked through from the last to the first. -/
theorem knows_last_registrations_replaced :
    let plain : Backend :=
      { name := "html", extensions := ["txt"], render := fun template _ _ =>
          .ok ⟨template, []⟩ }
    let history := [htmlBackend, blocksBackend, plain]
    let order := (ofHistory history).backends.entries.reverse
    (standard).register plain = ofHistory history ∧
      order.Perm (ofHistory history).backends.entries ∧
      (∀ backend ∈ history, backend.NeverMissing) ∧
      sortedNames order = ["blocks", "html"] ∧
      (ofHistory history).get "html" = .ok plain ∧
      (detectIn order "out/page.html").isSome = false ∧
      (detectIn order "out/page.txt/.").map Backend.name = some "html" ∧
      ∀ name template store options missing,
        (ofHistory history).render template store name options =
            .error (.backendNotFound missing) ↔
          (ofHistory history).get name = .error (.backendNotFound missing) := by
  intro plain history order
  have horder : order.Perm (ofHistory history).backends.entries :=
    List.reverse_perm _
  have hplain : plain.NeverMissing := nofun
  have hbackends : ∀ backend ∈ history, backend.NeverMissing := by
    intro backend hbackend
    simp only [history, List.mem_cons, List.not_mem_nil, or_false] at hbackend
    rcases hbackend with rfl | rfl | rfl
    · exact htmlBackend_neverMissing {}
    · exact blocksBackend_neverMissing false
    · exact hplain
  obtain ⟨hget, -, -, hnames, -, -, -, -, -, -, -, -, -, hrender⟩ :=
    knows_last_registrations history order horder
  refine ⟨rfl, horder, hbackends, ?_, ?_, by decide +kernel, by decide +kernel,
    hrender hbackends⟩
  · rw [← hnames]
    decide +kernel
  · have hstands : Stands history plain :=
      ⟨[htmlBackend, blocksBackend], [], rfl, by simp⟩
    exact (hget "html" plain).mpr ⟨hstands, rfl⟩

end Registry
end DocTemplate
