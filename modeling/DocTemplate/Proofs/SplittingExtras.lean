import DocTemplate.CommandLine.Extras
import Mathlib.Data.List.Basic

/-!
# Splitting options for backends off a command line

A list of arguments falls into parts from left to right.  An argument with one
of the two prefixes is a part, together with the argument behind it if that
can be its value; any other argument is a part of its own.  There is only one
way to do so, and it does not lose an argument.  Splitting keeps the parts of
the second kind and makes the options of those of the first.
-/

namespace DocTemplate
namespace CommandLine

/-! ## What an argument is -/

def NamesExtra (argument key : String) : Prop :=
  argument = "--extra-" ++ key ∨ argument = "--extras-" ++ key

/-- The argument starts with a dash, so that it is not a value. -/
def StartsWithDash (argument : String) : Prop :=
  ∃ rest, argument = "-" ++ rest

theorem eq_append_of_isPrefixOf {before argument : String}
    (hstart : before.toList.isPrefixOf argument.toList = true) :
    argument =
      before ++ String.ofList (argument.toList.drop before.toList.length) := by
  rw [List.isPrefixOf_iff_prefix] at hstart
  obtain ⟨rest, hrest⟩ := hstart
  apply String.toList_injective
  rw [String.toList_append, String.toList_ofList, ← hrest,
    List.drop_left]

theorem extraKey?_eq_some_iff {argument key : String} :
    extraKey? argument = some key ↔ NamesExtra argument key := by
  constructor
  · intro hkey
    unfold extraKey? at hkey
    dsimp only at hkey
    split at hkey
    · rename_i hextra
      cases hkey
      exact .inl (eq_append_of_isPrefixOf hextra)
    · split at hkey
      · rename_i hextras
        cases hkey
        exact .inr (eq_append_of_isPrefixOf hextras)
      · cases hkey
  · rintro (rfl | rfl) <;> simp [extraKey?, String.toList_append]

theorem extraKey?_eq_none_iff {argument : String} :
    extraKey? argument = none ↔ ∀ key, ¬NamesExtra argument key := by
  rw [Option.eq_none_iff_forall_ne_some]
  simp only [ne_eq, extraKey?_eq_some_iff]

theorem isDashed_iff {argument : String} :
    isDashed argument = true ↔ StartsWithDash argument := by
  rw [isDashed, decide_eq_true_eq]
  constructor
  · intro hfirst
    refine ⟨String.ofList argument.toList.tail, ?_⟩
    apply String.toList_injective
    rw [String.toList_append]
    change argument.toList =
      '-' :: (String.ofList argument.toList.tail).toList
    rw [String.toList_ofList]
    exact (List.cons_head?_tail hfirst).symm
  · rintro ⟨rest, rfl⟩
    simp [String.toList_append]

theorem NamesExtra.unique {argument key other : String}
    (hkey : NamesExtra argument key) (hother : NamesExtra argument other) :
    key = other := by
  rw [← extraKey?_eq_some_iff] at hkey hother
  exact Option.some.inj (hkey.symm.trans hother)

/-! ## Parts -/

/-- A part of a list of arguments: one that is kept, or the flag of a key with
its value if there is one. -/
inductive Part
  | kept (argument : String)
  | flag (argument key : String) (value? : Option String)

namespace Part

def arguments : Part → List String
  | kept argument => [argument]
  | flag argument _ value? => argument :: value?.toList

def kept? : Part → Option String
  | kept argument => some argument
  | flag _ _ _ => none

def option? : Part → Option (String × String)
  | kept _ => none
  | flag _ key value? => some (key, value?.getD "true")

end Part

/-- How a list of arguments falls into parts from left to right. -/
inductive FallsInto : List String → List Part → Prop
  | nil : FallsInto [] []
  | kept {argument : String} {rest : List String} {parts : List Part}
      (hkept : ∀ key, ¬NamesExtra argument key)
      (hrest : FallsInto rest parts) :
      FallsInto (argument :: rest) (.kept argument :: parts)
  | valued {argument key value : String} {rest : List String}
      {parts : List Part} (hflag : NamesExtra argument key)
      (hvalue : ¬StartsWithDash value) (hrest : FallsInto rest parts) :
      FallsInto (argument :: value :: rest)
        (.flag argument key (some value) :: parts)
  | bare {argument key : String} {rest : List String} {parts : List Part}
      (hflag : NamesExtra argument key)
      (hnext : ∀ next ∈ rest.head?, StartsWithDash next)
      (hrest : FallsInto rest parts) :
      FallsInto (argument :: rest) (.flag argument key none :: parts)

namespace FallsInto

variable {arguments : List String} {parts others : List Part}

theorem unique (hparts : FallsInto arguments parts)
    (hothers : FallsInto arguments others) : others = parts := by
  induction hparts generalizing others with
  | nil =>
      cases hothers
      rfl
  | kept hkept hrest ih =>
      cases hothers with
      | kept _ hother => rw [ih hother]
      | valued hflag => exact absurd hflag (hkept _)
      | bare hflag => exact absurd hflag (hkept _)
  | valued hflag hvalue hrest ih =>
      cases hothers with
      | kept hkept => exact absurd hflag (hkept _)
      | valued hsame _ hother => rw [ih hother, hflag.unique hsame]
      | bare _ hnext => exact absurd (hnext _ rfl) hvalue
  | bare hflag hnext hrest ih =>
      cases hothers with
      | kept hkept => exact absurd hflag (hkept _)
      | valued _ hvalue => exact absurd (hnext _ rfl) hvalue
      | bare hsame _ hother => rw [ih hother, hflag.unique hsame]

theorem arguments_eq (hparts : FallsInto arguments parts) :
    parts.flatMap Part.arguments = arguments := by
  induction hparts with
  | nil => rfl
  | kept hkept hrest ih => rw [List.flatMap_cons, ih]; rfl
  | valued hflag hvalue hrest ih => rw [List.flatMap_cons, ih]; rfl
  | bare hflag hnext hrest ih => rw [List.flatMap_cons, ih]; rfl

theorem dashed_kept (hparts : FallsInto arguments parts) :
    (parts.filterMap Part.kept?).filter isDashed =
      arguments.filter fun argument =>
        isDashed argument && (extraKey? argument).isNone := by
  induction hparts with
  | nil => rfl
  | @kept argument rest parts hkept hrest ih =>
      have hnone := extraKey?_eq_none_iff.mpr hkept
      simp only [List.filterMap_cons, Part.kept?, List.filter_cons, hnone, ih,
        Option.isNone_none, Bool.and_true]
  | @valued argument key value rest parts hflag hvalue hrest ih =>
      have hsome := extraKey?_eq_some_iff.mpr hflag
      -- the value is lost, but it is no argument with a dash
      have hundashed : isDashed value = false := by
        rw [← Bool.not_eq_true, isDashed_iff]
        exact hvalue
      simp [List.filterMap_cons, Part.kept?, hsome, hundashed, ih]
  | @bare argument key rest parts hflag hnext hrest ih =>
      have hsome := extraKey?_eq_some_iff.mpr hflag
      simp [List.filterMap_cons, Part.kept?, hsome, ih]

theorem not_namesExtra_of_kept (hparts : FallsInto arguments parts)
    {argument : String} (hkept : argument ∈ parts.filterMap Part.kept?) :
    ∀ key, ¬NamesExtra argument key := by
  induction hparts with
  | nil => cases hkept
  | kept hfirst hrest ih =>
      change argument ∈ _ :: _ at hkept
      rcases List.mem_cons.mp hkept with rfl | hlater
      · exact hfirst
      · exact ih hlater
  | valued hflag hvalue hrest ih => exact ih hkept
  | bare hflag hnext hrest ih => exact ih hkept

end FallsInto

/-! ## Splitting -/

theorem splitExtras_fallsInto (arguments : List String) :
    ∃ parts, FallsInto arguments parts ∧
      splitExtras arguments =
        ⟨parts.filterMap Part.kept?, parts.filterMap Part.option?⟩ := by
  induction arguments using splitExtras.induct with
  | case1 => exact ⟨[], .nil, rfl⟩
  | case2 argument rest hnone ih =>
      obtain ⟨parts, hparts, hsplit⟩ := ih
      refine ⟨.kept argument :: parts, ?_, ?_⟩
      · exact .kept (extraKey?_eq_none_iff.mp hnone) hparts
      · rw [splitExtras, hnone]
        simp only [hsplit]
        rfl
  | case3 argument key hkey value behind hdashed ih =>
      obtain ⟨parts, hparts, hsplit⟩ := ih
      refine ⟨.flag argument key none :: parts, ?_, ?_⟩
      · refine .bare (extraKey?_eq_some_iff.mp hkey) ?_ hparts
        rintro next ⟨⟩
        exact isDashed_iff.mp hdashed
      · rw [splitExtras, hkey]
        simp only [hdashed, if_true, hsplit]
        rfl
  | case4 argument key hkey value behind hundashed ih =>
      obtain ⟨parts, hparts, hsplit⟩ := ih
      refine ⟨.flag argument key (some value) :: parts, ?_, ?_⟩
      · refine .valued (extraKey?_eq_some_iff.mp hkey) ?_ hparts
        rwa [← isDashed_iff]
      · rw [splitExtras, hkey]
        simp only [hundashed, hsplit]
        rfl
  | case5 argument key hkey =>
      refine ⟨[.flag argument key none], ?_, ?_⟩
      · exact .bare (extraKey?_eq_some_iff.mp hkey) nofun .nil
      · rw [splitExtras, hkey]
        rfl

theorem splitExtras_of_no_flags {arguments : List String}
    (hkept : ∀ argument ∈ arguments, ∀ key, ¬NamesExtra argument key) :
    splitExtras arguments = ⟨arguments, []⟩ := by
  induction arguments with
  | nil => rfl
  | cons argument rest ih =>
      rw [List.forall_mem_cons] at hkept
      rw [splitExtras, extraKey?_eq_none_iff.mpr hkept.1, ih hkept.2]

theorem lookup_options_eq_some_iff {parts : List Part} {key value : String} :
    (Dictionary.ofList (parts.filterMap Part.option?)).get? key =
        some value ↔
      ∃ before argument value? after,
        parts = before ++ .flag argument key value? :: after ∧
        (∀ argument value?, Part.flag argument key value? ∉ after) ∧
        value?.getD "true" = value := by
  rw [Dictionary.get?_ofList]
  constructor
  · intro hlookup
    obtain ⟨later, earlier, hreverse, hlater⟩ :=
      List.lookup_eq_some_iff.mp hlookup
    have hlist : parts.filterMap Part.option? =
        earlier.reverse ++ (key, value) :: later.reverse := by
      apply List.reverse_injective
      rw [hreverse]
      simp
    obtain ⟨before, behind, rfl, -, hbehind⟩ :=
      List.filterMap_eq_append_iff.mp hlist
    obtain ⟨between, part, after, rfl, -, hpart, hafter⟩ :=
      List.filterMap_eq_cons_iff.mp hbehind
    cases part with
    | kept argument => cases hpart
    | flag argument own value? =>
        cases hpart
        refine ⟨before ++ between, argument, value?, after, by simp, ?_, rfl⟩
        intro other otherValue? hflag
        have hoption : (key, otherValue?.getD "true") ∈ later := by
          rw [← List.mem_reverse, ← hafter]
          exact List.mem_filterMap.mpr ⟨_, hflag, rfl⟩
        exact absurd rfl (bne_iff_ne.mp (hlater _ hoption))
  · rintro ⟨before, argument, value?, after, rfl, hlast, rfl⟩
    have hnone :
        (after.filterMap Part.option?).reverse.lookup key = none := by
      rw [List.lookup_eq_none_iff]
      intro entry hentry
      obtain ⟨part, hpart, hoption⟩ :=
        List.mem_filterMap.mp (List.mem_reverse.mp hentry)
      cases part with
      | kept other => cases hoption
      | flag other otherKey otherValue? =>
          cases hoption
          apply bne_iff_ne.mpr
          rintro rfl
          exact hlast _ _ hpart
    have hhere : Part.option? (.flag argument key value?) =
        some (key, value?.getD "true") := rfl
    rw [List.filterMap_append, List.filterMap_cons_some hhere,
      List.reverse_append, List.reverse_cons, List.append_assoc,
      List.lookup_append, hnone, Option.none_or]
    exact List.lookup_cons_self

/-- Every list of arguments falls into parts in one way.  Splitting keeps those
that are no flags, in their order, and each flag key has the value of its last
flag.  What is kept has no flag in it and nothing more to split off, and only
a value of a flag can be missing in it. -/
theorem splitExtras_parts (arguments : List String) :
    let split := splitExtras arguments
    ∃ parts, FallsInto arguments parts ∧
      (∀ others, FallsInto arguments others → others = parts) ∧
      parts.flatMap Part.arguments = arguments ∧
      split.kept = parts.filterMap Part.kept? ∧
      (∀ argument ∈ split.kept, ∀ key, ¬NamesExtra argument key) ∧
      (∀ argument, StartsWithDash argument →
        (∀ key, ¬NamesExtra argument key) →
          split.kept.count argument = arguments.count argument) ∧
      (∀ key value, split.options.get? key = some value ↔
        ∃ before argument value? after,
          parts = before ++ .flag argument key value? :: after ∧
          (∀ argument value?, Part.flag argument key value? ∉ after) ∧
          value?.getD "true" = value) ∧
      splitExtras split.kept = ⟨split.kept, []⟩ ∧
      (splitExtras split.kept).options = .empty := by
  intro split
  obtain ⟨parts, hparts, hsplit⟩ := splitExtras_fallsInto arguments
  have hkept : split.kept = parts.filterMap Part.kept? :=
    congrArg Split.kept hsplit
  have hplain : ∀ argument ∈ split.kept, ∀ key,
      ¬NamesExtra argument key := by
    intro argument hargument
    rw [hkept] at hargument
    exact hparts.not_namesExtra_of_kept hargument
  have hagain := splitExtras_of_no_flags hplain
  refine ⟨parts, hparts, fun others hothers => hparts.unique hothers,
    hparts.arguments_eq, hkept, hplain, ?_, ?_, hagain, ?_⟩
  · intro argument hdash hargument
    have hdashed := isDashed_iff.mpr hdash
    have hnone := extraKey?_eq_none_iff.mpr hargument
    have hboth := congrArg (List.count argument) hparts.dashed_kept
    rwa [← hkept, List.count_filter hdashed,
      List.count_filter (by simp [hdashed, hnone])] at hboth
  · intro key value
    have hoptions : split.options =
        .ofList (parts.filterMap Part.option?) :=
      congrArg Split.options hsplit
    rw [hoptions]
    exact lookup_options_eq_some_iff
  · rw [hagain]
    rfl

example :
    let split := splitExtras
      ["doc.xml", "--extra-css", "a.css", "--extras-pretty", "-o", "out.html",
        "--extra-css"]
    split.kept = ["doc.xml", "-o", "out.html"] ∧
      split.options.entries = [("css", "true"), ("pretty", "true")] := by
  decide +kernel

end CommandLine
end DocTemplate
