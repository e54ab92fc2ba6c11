import DocTemplate.Backend.Registry
import DocTemplate.Proofs.Declarations
import Mathlib.Data.List.TakeWhile

/-!
# The extension of a path

A path names its last part, whatever separators and parts for the directory
itself stand behind it, unless that part leads to the parent directory.  The
extension of a name is what stands behind its last dot, and there must be
something in front of that dot.  Both are said here without cutting a path to
pieces, and a path is shown to have the extension that is read from it, and no
other.
-/

namespace DocTemplate

/-! ## The last name of a path -/

/-- What can stand behind the last name of a path. -/
inductive TrailsName : List Char → Prop
  | nil : TrailsName []
  | separator {rest : List Char} (hrest : TrailsName rest) :
      TrailsName ('/' :: rest)
  | here {rest : List Char} (hrest : TrailsName rest) :
      TrailsName ('/' :: '.' :: rest)

/-- A name is the last one of a path.  It is a whole part of the path, and not
one for the directory itself. -/
def IsLastName (path name : List Char) : Prop :=
  ∃ front behind, path = front ++ name ++ behind ∧
    (front = [] ∨ ∃ outer, front = outer ++ ['/']) ∧
    '/' ∉ name ∧ name ≠ [] ∧ name ≠ ['.'] ∧ TrailsName behind

/-- The parts of a path other than those for the directory itself. -/
def namedParts (path : List Char) : List (List Char) :=
  (Text.pieces '/' path).filter fun part => part != [] && part != ['.']

theorem namedParts_append (first second : List Char) :
    namedParts (first ++ '/' :: second) =
      namedParts first ++ namedParts second := by
  rw [namedParts, Text.pieces_append, List.filter_append]
  rfl

theorem namedParts_single {part : List Char} (h : '/' ∉ part) :
    namedParts part =
      if part = [] ∨ part = ['.'] then [] else [part] := by
  rw [namedParts, Text.pieces_eq_singleton h]
  by_cases hpart : part = [] ∨ part = ['.']
  · rcases hpart with rfl | rfl <;> rfl
  · rw [if_neg hpart]
    rw [not_or] at hpart
    simp [hpart.1, hpart.2]

theorem namedParts_separator (path : List Char) :
    namedParts ('/' :: path) = namedParts path :=
  namedParts_append [] path

/-- Nothing behind a part of a path names anything. -/
theorem TrailsName.namedParts_append {behind : List Char}
    (h : TrailsName behind) {part : List Char} (hpart : '/' ∉ part) :
    namedParts (part ++ behind) = namedParts part := by
  induction h generalizing part with
  | nil => rw [List.append_nil]
  | @separator rest _ ih =>
      have hrest : namedParts ([] ++ rest) = [] := ih List.not_mem_nil
      rw [List.nil_append] at hrest
      rw [DocTemplate.namedParts_append, hrest, List.append_nil]
  | @here rest _ ih =>
      have hrest : namedParts (['.'] ++ rest) = namedParts ['.'] :=
        ih (by decide)
      have hdot : namedParts ['.'] = [] := by decide
      rw [DocTemplate.namedParts_append, ← List.singleton_append, hrest, hdot,
        List.append_nil]

theorem IsLastName.getLast?_namedParts {path name : List Char}
    (h : IsLastName path name) : (namedParts path).getLast? = some name := by
  obtain ⟨front, behind, rfl, hfront, hname, hnil, hdot, htrails⟩ := h
  have hlast : namedParts (name ++ behind) = [name] := by
    rw [htrails.namedParts_append hname, namedParts_single hname, if_neg]
    exact not_or.mpr ⟨hnil, hdot⟩
  rcases hfront with rfl | ⟨outer, rfl⟩
  · rw [List.nil_append, hlast]
    rfl
  · have hpath : outer ++ ['/'] ++ name ++ behind =
        outer ++ '/' :: (name ++ behind) := by
      simp
    rw [hpath, namedParts_append, hlast, List.getLast?_concat]

/-- A path that does not name anything consists of what can stand behind a
name. -/
theorem exists_isLastName_or_trails (path : List Char) :
    (∃ name, IsLastName path name) ∨ TrailsName ('/' :: path) := by
  induction path with
  | nil => exact .inr (.separator .nil)
  | cons c rest ih =>
      rcases ih with ⟨name, front, behind, rfl, hfront, hname, hnil, hdot,
        htrails⟩ | htrails
      · by_cases hseparator : c = '/' ∨ front ≠ []
        · -- The name is still a part of its own.
          refine .inl ⟨name, c :: front, behind, rfl, .inr ?_, hname, hnil,
            hdot, htrails⟩
          rcases hfront with rfl | ⟨outer, rfl⟩
          · have hc : c = '/' := by simpa using hseparator
            exact ⟨[], by rw [hc, List.nil_append]⟩
          · exact ⟨c :: outer, rfl⟩
        · rw [not_or, not_not] at hseparator
          obtain ⟨hc, rfl⟩ := hseparator
          refine .inl ⟨c :: name, [], behind, rfl, .inl rfl, ?_, by simp, ?_,
            htrails⟩
          · rw [List.mem_cons, not_or]
            exact ⟨Ne.symm hc, hname⟩
          · intro heq
            exact hnil (List.cons.inj heq).2
      · by_cases hc : c = '/'
        · exact .inr (hc ▸ .separator htrails)
        · cases htrails with
          | separator hrest =>
              by_cases hdot : c = '.'
              · exact .inr (hdot ▸ .here hrest)
              · refine .inl ⟨[c], [], rest, rfl, .inl rfl, ?_, by simp, ?_,
                  hrest⟩
                · simpa using Ne.symm hc
                · simpa using hdot
          | @here rest hrest =>
              refine .inl ⟨[c, '.'], [], rest, rfl, .inl rfl, ?_, by simp,
                by simp, hrest⟩
              simpa using Ne.symm hc

theorem getLast?_namedParts_eq_some_iff {path name : List Char} :
    (namedParts path).getLast? = some name ↔ IsLastName path name := by
  refine ⟨fun hlast => ?_, IsLastName.getLast?_namedParts⟩
  rcases exists_isLastName_or_trails path with ⟨other, hother⟩ | htrails
  · have hsame : some other = some name :=
      hother.getLast?_namedParts.symm.trans hlast
    exact Option.some.inj hsame ▸ hother
  · have hnone : namedParts ([] ++ '/' :: path) = [] :=
      htrails.namedParts_append List.not_mem_nil
    rw [List.nil_append, namedParts_separator] at hnone
    rw [hnone] at hlast
    cases hlast

theorem lastComponent?_eq_some_iff {path name : List Char} :
    lastComponent? path = some name ↔
      IsLastName path name ∧ name ≠ ['.', '.'] := by
  rw [← getLast?_namedParts_eq_some_iff]
  unfold lastComponent?
  dsimp only
  rw [← namedParts]
  split
  · rename_i hparent
    simp [hparent, eq_comm]
  · rename_i hother
    constructor
    · intro hlast
      exact ⟨hlast, fun hname => hother (hname ▸ hlast)⟩
    · exact And.left

/-! ## The extension of a name -/

theorem extensionOfName?_eq_some_iff {name extension : List Char} :
    extensionOfName? name = some extension ↔
      ∃ stem, stem ≠ [] ∧ name = stem ++ '.' :: extension ∧
        '.' ∉ extension := by
  constructor
  · intro hextension
    unfold extensionOfName? at hextension
    dsimp only at hextension
    split at hextension
    · rename_i dot last before hbehind
      obtain rfl := Option.some.inj hextension
      have hdot : dot = '.' := by
        have hhead := List.head?_dropWhile_not (· != '.') name.reverse
        rw [hbehind] at hhead
        simpa using hhead
      rw [hdot] at hbehind
      have hname : name.reverse =
          name.reverse.takeWhile (· != '.') ++ '.' :: last :: before := by
        rw [← hbehind, List.takeWhile_append_dropWhile]
      refine ⟨(last :: before).reverse, by simp, ?_, ?_⟩
      · calc
          name = name.reverse.reverse := (List.reverse_reverse name).symm
          _ = (name.reverse.takeWhile (· != '.') ++
                '.' :: last :: before).reverse := congrArg _ hname
          _ = (last :: before).reverse ++
                '.' :: (name.reverse.takeWhile (· != '.')).reverse := by
              simp
      · intro hmem
        exact absurd (List.mem_takeWhile_imp (List.mem_reverse.mp hmem))
          (by decide)
    · cases hextension
  · rintro ⟨stem, hstem, rfl, hdot⟩
    have hreverse : (stem ++ '.' :: extension).reverse =
        extension.reverse ++ '.' :: stem.reverse := by
      simp
    have hrun : ∀ c ∈ extension.reverse, (c != '.') = true := by
      intro c hc
      rw [bne_iff_ne]
      rintro rfl
      exact hdot (List.mem_reverse.mp hc)
    have hend : ∀ c ∈ ('.' :: stem.reverse).head?, (c != '.') = false := by
      simp
    unfold extensionOfName?
    dsimp only
    rw [hreverse, Text.takeWhile_run hrun hend, Text.dropWhile_run hrun hend]
    cases hbefore : stem.reverse with
    | nil => exact absurd (List.reverse_eq_nil_iff.mp hbefore) hstem
    | cons last before => rw [List.reverse_reverse]

/-! ## The extension of a path -/

/-- A path has an extension if its last name has one. -/
def HasExtension (path extension : String) : Prop :=
  ∃ name stem, IsLastName path.toList name ∧ name ≠ ['.', '.'] ∧
    stem ≠ [] ∧ name = stem ++ '.' :: extension.toList ∧
    '.' ∉ extension.toList

/-- A path has the extension that is read from it, and no other. -/
theorem extension?_eq_some_iff {path extension : String} :
    extension? path = some extension ↔ HasExtension path extension := by
  rw [extension?, Option.map_eq_some_iff]
  constructor
  · rintro ⟨found, hfound, rfl⟩
    obtain ⟨name, hname, hextension⟩ := Option.bind_eq_some_iff.mp hfound
    obtain ⟨hlast, hparent⟩ := lastComponent?_eq_some_iff.mp hname
    obtain ⟨stem, hstem, hsplit, hdot⟩ :=
      extensionOfName?_eq_some_iff.mp hextension
    refine ⟨name, stem, hlast, hparent, hstem, ?_, ?_⟩
    · rw [String.toList_ofList, hsplit]
    · rwa [String.toList_ofList]
  · rintro ⟨name, stem, hlast, hparent, hstem, hsplit, hdot⟩
    have hname := lastComponent?_eq_some_iff.mpr ⟨hlast, hparent⟩
    have hextension :=
      extensionOfName?_eq_some_iff.mpr ⟨stem, hstem, hsplit, hdot⟩
    refine ⟨extension.toList, ?_, String.ofList_toList⟩
    rw [hname, Option.bind_some, hextension]

example : extension? "out.d/page.tar.gz/./" = some "gz" := by decide +kernel

example : extension? "out.d/.html" = none := by decide +kernel

end DocTemplate
