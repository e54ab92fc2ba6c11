import DocTemplate.Text.Collapse
import Mathlib.Data.List.DropRight
import Mathlib.Data.List.SplitBy

/-!
# What collapsing deletes

The layout of a text is deleted by a pattern: layout characters, line feeds
and layout characters again, as many of each as there are, where the leftmost
match counts and backtracking gives up characters only where it has to.  Its
matches are exactly the maximal runs of layout characters that hold a line
feed, so collapsing is the deletion of these runs and then of the low
characters around what is left.  All that stands between two characters that
can be seen is told by the piece of text between them.
-/

namespace DocTemplate
namespace Text

/-! ## Patterns -/

/-- As many characters of a class as there are, but not fewer than some. -/
structure Repetition where
  accepts : Char → Bool
  least : Nat

/-- What may be left of a text behind some characters of a class, in the order
in which it is tried: going on is preferred to stopping. -/
def greedyRests (accepts : Char → Bool) (least : Nat) :
    List Char → List (List Char)
  | [] => if least = 0 then [[]] else []
  | c :: rest =>
      (if accepts c then greedyRests accepts (least - 1) rest else []) ++
        if least = 0 then [c :: rest] else []

/-- Repetitions one after the other. -/
abbrev Pattern := List Repetition

namespace Pattern

/-- What may be left of a text behind a match at its front, in the order in
which it is tried: a later part is tried anew before an earlier one is. -/
def rests : Pattern → List Char → List (List Char)
  | [], text => [text]
  | part :: others, text =>
      (greedyRests part.accepts part.least text).flatMap (rests others)

/-- What is left behind the match at the front of a text. -/
def match? (pattern : Pattern) (text : List Char) : Option (List Char) :=
  (pattern.rests text).head?

/-- Deletes the matches of a pattern from the left to the right.  An empty
match deletes nothing. -/
def deleteAll (pattern : Pattern) (text : List Char) : List Char :=
  match text with
  | [] => []
  | c :: rest =>
      match pattern.match? (c :: rest) with
      | some behind =>
          if behind.length ≤ rest.length then
            pattern.deleteAll behind
          else
            c :: pattern.deleteAll rest
      | none => c :: pattern.deleteAll rest
  termination_by text.length

end Pattern

/-- Layout characters around at least one line feed. -/
def lineBreakRun : Pattern := [⟨isLayout, 0⟩, ⟨(· == '\n'), 1⟩, ⟨isLayout, 0⟩]

theorem head?_greedyRests (accepts : Char → Bool) (text : List Char) :
    (greedyRests accepts 0 text).head? = some (text.dropWhile accepts) := by
  induction text with
  | nil => rfl
  | cons c rest ih =>
      by_cases haccepts : accepts c = true
      · simp [greedyRests, haccepts, ih]
      · simp [greedyRests, haccepts]

theorem isLayout_lineFeed : isLayout '\n' = true := by decide

theorem dropWhile_lineFeeds (text : List Char) :
    (text.dropWhile (· == '\n')).dropWhile isLayout =
      text.dropWhile isLayout := by
  induction text with
  | nil => rfl
  | cons c rest ih =>
      by_cases hfeed : c = '\n'
      · subst hfeed
        simpa [isLayout_lineFeed] using ih
      · simp [hfeed]

/-- A line feed and what follows it: nothing has to be given up. -/
theorem match?_lineFeeds (text : List Char) :
    Pattern.match? [⟨(· == '\n'), 1⟩, ⟨isLayout, 0⟩] text =
      if text.head? = some '\n' then some (text.dropWhile isLayout)
      else none := by
  cases text with
  | nil => rfl
  | cons c rest =>
      by_cases hfeed : c = '\n'
      · subst hfeed
        have hfeeds := head?_greedyRests (· == '\n') rest
        obtain ⟨others, hothers⟩ := List.head?_eq_some_iff.mp hfeeds
        have hlayout := head?_greedyRests isLayout (rest.dropWhile (· == '\n'))
        obtain ⟨later, hlater⟩ := List.head?_eq_some_iff.mp hlayout
        simp [Pattern.match?, Pattern.rests, greedyRests, hothers, hlater,
          isLayout_lineFeed, dropWhile_lineFeeds]
      · simp [Pattern.match?, Pattern.rests, greedyRests, hfeed]

/-- The first part of the pattern gives up what it has taken until a line feed
follows, so a match takes the whole run, and there is one if the run holds a
line feed. -/
theorem match?_lineBreakRun (text : List Char) :
    lineBreakRun.match? text =
      if '\n' ∈ text.takeWhile isLayout then some (text.dropWhile isLayout)
      else none := by
  have hparts : lineBreakRun.match? text =
      ((greedyRests isLayout 0 text).flatMap
        (Pattern.rests [⟨(· == '\n'), 1⟩, ⟨isLayout, 0⟩])).head? := rfl
  rw [hparts]
  induction text with
  | nil => rfl
  | cons c rest ih =>
      have hhere := match?_lineFeeds (c :: rest)
      rw [Pattern.match?] at hhere
      by_cases hlayout : isLayout c = true
      · rw [greedyRests, if_pos hlayout, if_pos rfl, Nat.zero_sub,
          List.flatMap_append, List.head?_append, ih rfl, List.flatMap_singleton,
          hhere, List.takeWhile_cons_of_pos hlayout,
          List.dropWhile_cons_of_pos hlayout]
        by_cases hlater : '\n' ∈ rest.takeWhile isLayout
        · simp [hlater]
        · simp [hlater, eq_comm]
      · have hother : c ≠ '\n' := by
          rintro rfl
          exact hlayout isLayout_lineFeed
        rw [greedyRests, if_neg hlayout, if_pos rfl, List.nil_append,
          List.flatMap_singleton, hhere, List.takeWhile_cons_of_neg hlayout]
        simp [hother]

/-- Matching from the left to the right comes to the runs that the scan
drops. -/
theorem deleteAll_lineBreakRun (text : List Char) :
    lineBreakRun.deleteAll text = dropBrokenRuns text := by
  fun_induction dropBrokenRuns text with
  | case1 => rw [Pattern.deleteAll]
  | case2 c rest hbroken ih =>
      rw [Bool.and_eq_true, decide_eq_true_iff] at hbroken
      have hbehind : ((c :: rest).dropWhile isLayout).length ≤ rest.length := by
        rw [List.dropWhile_cons_of_pos hbroken.1]
        exact (List.dropWhile_sublist isLayout).length_le
      rw [Pattern.deleteAll, match?_lineBreakRun, if_pos hbroken.2]
      simp only [hbehind, if_true]
      rw [List.dropWhile_cons_of_pos hbroken.1, ih]
  | case3 c rest hplain ih =>
      have hnone : '\n' ∉ (c :: rest).takeWhile isLayout := by
        intro hfeed
        apply hplain
        rw [Bool.and_eq_true, decide_eq_true_iff]
        refine ⟨?_, hfeed⟩
        by_contra hother
        rw [List.takeWhile_cons_of_neg hother] at hfeed
        cases hfeed
      rw [Pattern.deleteAll, match?_lineBreakRun, if_neg hnone]
      simp only [ih]

/-! ## Runs -/

/-- The maximal runs of layout characters and of other characters. -/
def runs (text : List Char) : List (List Char) :=
  text.splitBy fun first second => isLayout first == isLayout second

/-- Whether a run is layout with a line feed in it. -/
def isBroken (run : List Char) : Bool :=
  run.all isLayout && decide ('\n' ∈ run)

theorem dropBrokenRuns_of_isBroken {run behind : List Char}
    (hbroken : isBroken run = true) :
    dropBrokenRuns (run ++ behind) =
      dropBrokenRuns (behind.dropWhile isLayout) := by
  simp only [isBroken, Bool.and_eq_true, decide_eq_true_iff,
    List.all_eq_true] at hbroken
  obtain ⟨hlayout, hfeed⟩ := hbroken
  cases run with
  | nil => cases hfeed
  | cons c rest =>
      have htake : '\n' ∈ (c :: rest ++ behind).takeWhile isLayout := by
        rw [List.takeWhile_append_of_pos hlayout]
        exact List.mem_append_left _ hfeed
      have hfirst := hlayout c List.mem_cons_self
      rw [List.cons_append] at htake ⊢
      rw [dropBrokenRuns, hfirst, decide_eq_true htake, Bool.and_self,
        if_pos rfl, List.dropWhile_append_of_pos]
      exact fun other hother => hlayout other (List.mem_cons_of_mem _ hother)

theorem dropBrokenRuns_broken {run : List Char}
    (hbroken : isBroken run = true) : dropBrokenRuns run = [] := by
  have hrun : dropBrokenRuns (run ++ []) =
      dropBrokenRuns (List.dropWhile isLayout []) :=
    dropBrokenRuns_of_isBroken hbroken
  rwa [List.append_nil, List.dropWhile_nil, dropBrokenRuns] at hrun

/-- A character that is no layout is kept, and parts what stands around it. -/
theorem dropBrokenRuns_append_cons {mark : Char}
    (hmark : isLayout mark = false) (front back : List Char) :
    dropBrokenRuns (front ++ mark :: back) =
      dropBrokenRuns front ++ mark :: dropBrokenRuns back := by
  have hparts {text : List Char} :
      (text ++ mark :: back).takeWhile isLayout = text.takeWhile isLayout ∧
        (text ++ mark :: back).dropWhile isLayout =
          text.dropWhile isLayout ++ mark :: back := by
    induction text with
    | nil => simp [hmark]
    | cons c rest ih =>
        by_cases hlayout : isLayout c = true <;> simp [hlayout, ih]
  fun_induction dropBrokenRuns front with
  | case1 => rw [List.nil_append, dropBrokenRuns, hmark]; rfl
  | case2 c rest hbroken ih =>
      rw [List.cons_append, dropBrokenRuns, ← List.cons_append, hparts.1,
        if_pos hbroken, hparts.2, ih]
  | case3 c rest hplain ih =>
      rw [List.cons_append, dropBrokenRuns, ← List.cons_append, hparts.1,
        if_neg hplain, ih, List.cons_append]

theorem dropBrokenRuns_cons {mark : Char} (hmark : isLayout mark = false)
    (back : List Char) :
    dropBrokenRuns (mark :: back) = mark :: dropBrokenRuns back := by
  rw [dropBrokenRuns, hmark]
  rfl

theorem not_mem_dropBrokenRuns (text : List Char) :
    '\n' ∉ dropBrokenRuns text := by
  fun_induction dropBrokenRuns text with
  | case1 => exact List.not_mem_nil
  | case2 c rest hbroken ih => exact ih
  | case3 c rest hplain ih =>
      rw [List.mem_cons, not_or]
      refine ⟨?_, ih⟩
      rintro rfl
      apply hplain
      simp [isLayout_lineFeed]

theorem dropBrokenRuns_eq_self {text : List Char} (h : '\n' ∉ text) :
    dropBrokenRuns text = text := by
  fun_induction dropBrokenRuns text with
  | case1 => rfl
  | case2 c rest hbroken ih =>
      rw [Bool.and_eq_true, decide_eq_true_iff] at hbroken
      exact absurd ((List.takeWhile_sublist isLayout).mem hbroken.2) h
  | case3 c rest hplain ih =>
      rw [List.mem_cons, not_or] at h
      rw [ih h.2]

theorem dropBrokenRuns_append_of_layout {run behind : List Char}
    (hrun : '\n' ∉ run) (hbehind : ∀ c ∈ behind.head?, isLayout c = false) :
    dropBrokenRuns (run ++ behind) = run ++ dropBrokenRuns behind := by
  cases behind with
  | nil => rw [List.append_nil, dropBrokenRuns_eq_self hrun, dropBrokenRuns,
      List.append_nil]
  | cons mark back =>
      have hmark := hbehind mark rfl
      rw [dropBrokenRuns_append_cons hmark, dropBrokenRuns_eq_self hrun,
        dropBrokenRuns_cons hmark]

theorem dropBrokenRuns_append_of_words {run behind : List Char}
    (hrun : ∀ c ∈ run, isLayout c = false) :
    dropBrokenRuns (run ++ behind) = run ++ dropBrokenRuns behind := by
  induction run with
  | nil => rfl
  | cons c rest ih =>
      rw [List.forall_mem_cons] at hrun
      rw [List.cons_append, dropBrokenRuns_cons hrun.1, ih hrun.2,
        List.cons_append]

/-- A run is layout as a whole or not at all. -/
theorem all_isLayout_or_none {run : List Char}
    (hrun : run.IsChain fun first second => isLayout first == isLayout second) :
    (∀ c ∈ run, isLayout c = true) ∨ ∀ c ∈ run, isLayout c = false := by
  induction run with
  | nil => exact .inl nofun
  | cons c rest ih =>
      obtain ⟨hnext, hrest⟩ := List.isChain_cons.mp hrun
      have hsame : ∀ kind, (∀ other ∈ rest, isLayout other = kind) →
          rest ≠ [] → ∀ other ∈ c :: rest, isLayout other = kind := by
        intro kind hall hne
        obtain ⟨next, others, rfl⟩ := List.exists_cons_of_ne_nil hne
        have hfirst : isLayout c = isLayout next :=
          eq_of_beq (hnext next rfl)
        rw [List.forall_mem_cons]
        exact ⟨hfirst.trans (hall next List.mem_cons_self), hall⟩
      by_cases hnil : rest = []
      · subst hnil
        cases hkind : isLayout c with
        | true => exact .inl (List.forall_mem_singleton.mpr hkind)
        | false => exact .inr (List.forall_mem_singleton.mpr hkind)
      · rcases ih hrest with hlayout | hwords
        · exact .inl (hsame true hlayout hnil)
        · exact .inr (hsame false hwords hnil)

theorem dropWhile_of_head {α : Type} {p : α → Bool} {items : List α}
    (hhead : ∀ item ∈ items.head?, p item = false) :
    items.dropWhile p = items := by
  cases items with
  | nil => rfl
  | cons first rest =>
      have hfirst : p first = false := hhead first rfl
      exact List.dropWhile_cons_of_neg (by simp [hfirst])

/-- Layout is followed by a run of other characters, or by nothing. -/
theorem head?_flatten_runs {run : List Char} {others : List (List Char)}
    (hlayout : ∀ c ∈ run, isLayout c = true)
    (hchange : (run :: others).IsChain fun first second =>
      ∃ hfirst hsecond, (isLayout (first.getLast hfirst) ==
        isLayout (second.head hsecond)) = false) :
    ∀ c ∈ others.flatten.head?, isLayout c = false := by
  cases others with
  | nil => nofun
  | cons next later =>
      obtain ⟨hfirst, hsecond, hdiffer⟩ := (List.isChain_cons_cons.mp hchange).1
      rw [hlayout _ (List.getLast_mem hfirst), Bool.true_beq] at hdiffer
      intro c hc
      rw [List.flatten_cons, List.head?_append, List.head?_eq_some_head hsecond]
        at hc
      rw [← Option.some.inj hc]
      exact hdiffer

/-- The scan drops the broken runs of a text and keeps all others. -/
theorem dropBrokenRuns_eq_runs (text : List Char) :
    dropBrokenRuns text =
      ((runs text).filter fun run => !isBroken run).flatten := by
  have hflatten : (runs text).flatten = text := List.flatten_splitBy _ text
  have hchange := List.isChain_getLast_head_splitBy
    (fun first second => isLayout first == isLayout second) text
  have hchains : ∀ run ∈ runs text,
      run.IsChain fun first second => isLayout first == isLayout second :=
    fun run hrun => List.isChain_of_mem_splitBy hrun
  change (runs text).IsChain _ at hchange
  rw [← hflatten]
  conv_rhs => rw [hflatten]
  -- the runs alone matter, whatever text they come from
  generalize runs text = list at hchange hchains
  induction list with
  | nil => rw [List.flatten_nil, dropBrokenRuns]; rfl
  | cons run others ih =>
      rw [List.forall_mem_cons] at hchains
      have hlater := ih hchange.tail hchains.2
      by_cases hbroken : isBroken run = true
      · have hlayout : ∀ c ∈ run, isLayout c = true := by
          rw [isBroken, Bool.and_eq_true] at hbroken
          exact List.all_eq_true.mp hbroken.1
        have hhead := head?_flatten_runs hlayout hchange
        have hdrop : others.flatten.dropWhile isLayout = others.flatten :=
          dropWhile_of_head hhead
        rw [List.flatten_cons, dropBrokenRuns_of_isBroken hbroken, hdrop,
          hlater, List.filter_cons_of_neg (by simp [hbroken])]
      · rw [List.flatten_cons, List.filter_cons_of_pos (by simp [hbroken]),
          List.flatten_cons, ← hlater]
        rcases all_isLayout_or_none hchains.1 with hlayout | hwords
        · have hfeed : '\n' ∉ run := by
            intro hmem
            apply hbroken
            rw [isBroken, List.all_eq_true.mpr hlayout, decide_eq_true hmem]
            rfl
          exact dropBrokenRuns_append_of_layout hfeed
            (head?_flatten_runs hlayout hchange)
        · exact dropBrokenRuns_append_of_words hwords

/-! ## Trimming -/

theorem isLow_of_isLayout {c : Char} (h : isLayout c = true) :
    isLow c = true := by
  simp only [isLayout, isLow, Bool.or_eq_true, Bool.and_eq_true,
    decide_eq_true_iff, beq_iff_eq] at h ⊢
  omega

theorem isLayout_of_seen {c : Char} (h : isLow c = false) :
    isLayout c = false := by
  rw [← Bool.not_eq_true]
  intro hlayout
  rw [isLow_of_isLayout hlayout] at h
  cases h

theorem dropWhile_append_cons {α : Type} {p : α → Bool} {mark : α}
    (hmark : p mark = false) (front back : List α) :
    (front ++ mark :: back).dropWhile p = front.dropWhile p ++ mark :: back := by
  rw [List.dropWhile_append]
  cases hdrop : front.dropWhile p with
  | nil => simp [hmark]
  | cons first rest => rfl

theorem dropTrailing_append_cons {α : Type} {p : α → Bool} {mark : α}
    (hmark : p mark = false) (front back : List α) :
    dropTrailing p (front ++ mark :: back) =
      front ++ mark :: dropTrailing p back := by
  have hreverse : (front ++ mark :: back).reverse =
      back.reverse ++ mark :: front.reverse := by simp
  rw [dropTrailing, hreverse, dropWhile_append_cons hmark, dropTrailing]
  simp

/-- A text without low characters at its ends. -/
structure Trimmed (text : List Char) : Prop where
  head : ∀ c ∈ text.head?, isLow c = false
  last : ∀ c ∈ text.getLast?, isLow c = false

/-- Trimming takes nothing but low characters from both ends, and leaves none
there. -/
theorem exists_dropAround (text : List Char) :
    Trimmed (dropAround isLow text) ∧
      ∃ before behind, text = before ++ dropAround isLow text ++ behind ∧
        ∀ c ∈ before ++ behind, isLow c = true := by
  have hright : dropAround isLow text ++
      (text.dropWhile isLow).rtakeWhile isLow = text.dropWhile isLow :=
    List.rdropWhile_append_rtakeWhile ..
  refine ⟨⟨fun c hc => ?_, fun c hc => ?_⟩, text.takeWhile isLow,
    (text.dropWhile isLow).rtakeWhile isLow, ?_, fun c hc => ?_⟩
  · have hfirst : (text.dropWhile isLow).head? = some c := by
      rw [← hright, List.head?_append, hc]
      rfl
    have hhead := List.head?_dropWhile_not isLow text
    rw [hfirst] at hhead
    simpa using hhead
  · obtain ⟨hne, rfl⟩ := List.mem_getLast?_eq_getLast hc
    exact eq_false_of_ne_true
      (List.rdropWhile_last_not isLow (text.dropWhile isLow) hne)
  · rw [List.append_assoc, hright, List.takeWhile_append_dropWhile]
  · rcases List.mem_append.mp hc with hleft | hright
    · exact List.mem_takeWhile_imp hleft
    · exact List.mem_rtakeWhile_imp hright

theorem Trimmed.dropAround_eq {text : List Char} (h : Trimmed text) :
    dropAround isLow text = text := by
  have hfront : text.dropWhile isLow = text :=
    dropWhile_of_head h.head
  rw [dropAround, hfront]
  apply List.rdropWhile_eq_self_iff.mpr
  intro hne hlow
  rw [h.last _ (List.getLast?_eq_some_getLast hne)] at hlow
  cases hlow

/-! ## Collapsed texts -/

theorem toList_collapse (text : List Char) :
    (collapse (String.ofList text)).toList =
      dropAround isLow (dropBrokenRuns text) := by
  rw [collapse, String.toList_ofList, String.toList_ofList]

/-- What is kept of a text with something to be seen behind it. -/
def keptBefore (front : List Char) : List Char :=
  (dropBrokenRuns front).dropWhile isLow

/-- What is kept of a text with something to be seen before it. -/
def keptBehind (back : List Char) : List Char :=
  dropTrailing isLow (dropBrokenRuns back)

theorem keptBehind_append_cons {mark : Char} (hmark : isLow mark = false)
    (front back : List Char) :
    keptBehind (front ++ mark :: back) =
      dropBrokenRuns front ++ mark :: keptBehind back := by
  rw [keptBehind, dropBrokenRuns_append_cons (isLayout_of_seen hmark),
    dropTrailing_append_cons hmark]
  rfl

/-- A character that can be seen is kept, and parts what stands around it. -/
theorem toList_collapse_cons {mark : Char} (hmark : isLow mark = false)
    (front back : List Char) :
    (collapse (String.ofList (front ++ mark :: back))).toList =
      keptBefore front ++ mark :: keptBehind back := by
  rw [toList_collapse, dropBrokenRuns_append_cons (isLayout_of_seen hmark),
    dropAround, dropWhile_append_cons hmark, dropTrailing_append_cons hmark]
  rfl

theorem dropBrokenRuns_sublist (text : List Char) :
    (dropBrokenRuns text).Sublist text := by
  rw [dropBrokenRuns_eq_runs]
  conv_rhs => rw [← List.flatten_splitBy
    (fun first second => isLayout first == isLayout second) text]
  exact (List.filter_sublist ..).flatten

/-- Nothing is left of what cannot be seen. -/
theorem collapse_low {text : List Char} (h : ∀ c ∈ text, isLow c = true) :
    collapse (String.ofList text) = "" := by
  have hlow : ∀ c ∈ dropBrokenRuns text, isLow c = true :=
    fun c hc => h c ((dropBrokenRuns_sublist text).mem hc)
  rw [← String.toList_inj, toList_collapse, dropAround,
    List.dropWhile_eq_nil_iff.mpr hlow]
  rfl

theorem collapse_empty : collapse "" = "" := collapse_low nofun

theorem filter_dropBrokenRuns (text : List Char) :
    (dropBrokenRuns text).filter (!isLow ·) = text.filter (!isLow ·) := by
  fun_induction dropBrokenRuns text with
  | case1 => rfl
  | case2 c rest hbroken ih =>
      rw [Bool.and_eq_true] at hbroken
      have hrun : ∀ other ∈ rest.takeWhile isLayout,
          ¬(!isLow other) = true := by
        intro other hother
        simp [isLow_of_isLayout (List.mem_takeWhile_imp hother)]
      conv_rhs => rw [← List.takeWhile_append_dropWhile (p := isLayout)
        (l := rest)]
      rw [ih, List.filter_cons_of_neg (by simp [isLow_of_isLayout hbroken.1]),
        List.filter_append, List.filter_eq_nil_iff.mpr hrun, List.nil_append]
  | case3 c rest hplain ih => rw [List.filter_cons, List.filter_cons, ih]

/-- A list consists of items of a kind, or one that is not comes last but for
such items. -/
theorem forall_or_exists_last {α : Type} (p : α → Bool) (items : List α) :
    (∀ item ∈ items, p item = true) ∨
      ∃ front mark back, items = front ++ mark :: back ∧ p mark = false ∧
        ∀ item ∈ back, p item = true := by
  induction items with
  | nil => exact .inl nofun
  | cons first rest ih =>
      rcases ih with hall | ⟨front, mark, back, rfl, hmark, hback⟩
      · cases hfirst : p first with
        | true => exact .inl (List.forall_mem_cons.mpr ⟨hfirst, hall⟩)
        | false => exact .inr ⟨[], first, rest, rfl, hfirst, hall⟩
      · exact .inr ⟨first :: front, mark, back, rfl, hmark, hback⟩

theorem forall_or_exists_first {α : Type} (p : α → Bool) (items : List α) :
    (∀ item ∈ items, p item = true) ∨
      ∃ front mark back, items = front ++ mark :: back ∧ p mark = false ∧
        ∀ item ∈ front, p item = true := by
  cases hdrop : items.dropWhile p with
  | nil => exact .inl (List.dropWhile_eq_nil_iff.mp hdrop)
  | cons mark back =>
      have hhead := List.head?_dropWhile_not p items
      rw [hdrop] at hhead
      refine .inr ⟨items.takeWhile p, mark, back, ?_, by simpa using hhead,
        fun item hitem => List.mem_takeWhile_imp hitem⟩
      rw [← hdrop, List.takeWhile_append_dropWhile]

theorem collapse_eq_empty {text : String} (h : collapse text = "") :
    ∀ c ∈ text.toList, isLow c = true := by
  rcases forall_or_exists_first isLow text.toList with
    hlow | ⟨front, mark, back, htext, hmark, -⟩
  · exact hlow
  · have hcons := toList_collapse_cons hmark front back
    rw [← htext, String.ofList_toList, h, String.toList_empty] at hcons
    exact absurd hcons.symm (by simp)

theorem isBroken_append {before run : List Char}
    (hbefore : ∀ c ∈ before, isLayout c = true)
    (hbroken : isBroken run = true) : isBroken (before ++ run) = true := by
  simp only [isBroken, Bool.and_eq_true, decide_eq_true_iff] at hbroken ⊢
  rw [List.all_append, List.all_eq_true.mpr hbefore, hbroken.1]
  exact ⟨rfl, List.mem_append_right _ hbroken.2⟩

/-- Of a run around a line feed nothing is kept, whatever layout it consists
of, and so what it is joins nothing around it. -/
theorem dropBrokenRuns_insert {run : List Char}
    (hbroken : isBroken run = true) (front back : List Char) :
    dropBrokenRuns (front ++ (run ++ back)) =
      dropBrokenRuns (front ++ ['\n']) ++
        dropBrokenRuns (back.dropWhile isLayout) := by
  have hfeed : isBroken ['\n'] = true := by decide
  have hlayout {before : List Char} (hall : ∀ c ∈ before, isLayout c = true) :
      dropBrokenRuns (before ++ (run ++ back)) =
          dropBrokenRuns (back.dropWhile isLayout) ∧
        dropBrokenRuns (before ++ ['\n']) = [] := by
    rw [← List.append_assoc,
      dropBrokenRuns_of_isBroken (isBroken_append hall hbroken)]
    exact ⟨rfl, dropBrokenRuns_broken (isBroken_append hall hfeed)⟩
  rcases forall_or_exists_last isLayout front with
    hall | ⟨words, mark, before, rfl, hmark, hbefore⟩
  · rw [(hlayout hall).1, (hlayout hall).2, List.nil_append]
  · rw [List.append_assoc, List.cons_append, dropBrokenRuns_append_cons hmark,
      List.append_assoc, List.cons_append, dropBrokenRuns_append_cons hmark,
      (hlayout hbefore).1, (hlayout hbefore).2, List.append_assoc,
      List.cons_append, List.nil_append]

/-! ## Texts that meet -/

/-- What stands between the last character that can be seen of one text and
the first of the next. -/
def seam (left right : List Char) : List Char :=
  left.rtakeWhile isLow ++ right.takeWhile isLow

/-- Whether two texts come to the same when they are collapsed one by one as
when they are collapsed together: nothing can be seen of one of them, or
between what can be seen nothing is kept. -/
def Partable (left right : List Char) : Prop :=
  (∀ c ∈ left, isLow c = true) ∨ (∀ c ∈ right, isLow c = true) ∨
    seam left right = [] ∨ isBroken (seam left right) = true

instance (left right : List Char) : Decidable (Partable left right) :=
  decidable_of_iff ((left.all isLow || right.all isLow ||
      (seam left right).isEmpty || isBroken (seam left right)) = true)
    (by simp [Partable, or_assoc])

theorem keptBefore_low {front : List Char}
    (h : ∀ c ∈ front, isLow c = true) : keptBefore front = [] :=
  List.dropWhile_eq_nil_iff.mpr fun c hc =>
    h c ((dropBrokenRuns_sublist front).mem hc)

theorem keptBehind_low {back : List Char}
    (h : ∀ c ∈ back, isLow c = true) : keptBehind back = [] :=
  List.rdropWhile_eq_nil_iff.mpr fun c hc =>
    h c ((dropBrokenRuns_sublist back).mem hc)

theorem dropBrokenRuns_eq_nil_iff {run : List Char} :
    dropBrokenRuns run = [] ↔ run = [] ∨ isBroken run = true := by
  constructor
  · intro hnil
    cases run with
    | nil => exact .inl rfl
    | cons c rest =>
        right
        rw [dropBrokenRuns] at hnil
        split at hnil
        · rename_i hbroken
          rw [Bool.and_eq_true, decide_eq_true_iff] at hbroken
          cases hdrop : rest.dropWhile isLayout with
          | nil =>
              have hall : ∀ other ∈ c :: rest, isLayout other = true :=
                List.forall_mem_cons.mpr
                  ⟨hbroken.1, List.dropWhile_eq_nil_iff.mp hdrop⟩
              rw [isBroken, List.all_eq_true.mpr hall, Bool.true_and,
                decide_eq_true_iff]
              exact (List.takeWhile_sublist isLayout).mem hbroken.2
          | cons mark back =>
              have hhead := List.head?_dropWhile_not isLayout rest
              rw [hdrop] at hhead
              have hmark : isLayout mark = false := by simpa using hhead
              rw [hdrop, dropBrokenRuns_cons hmark] at hnil
              cases hnil
        · cases hnil
  · rintro (rfl | hbroken)
    · rw [dropBrokenRuns]
    · exact dropBrokenRuns_broken hbroken

/-- Low characters before a text and behind it are all trimmed away. -/
theorem collapse_low_append {front : List Char}
    (hfront : ∀ c ∈ front, isLow c = true) (text : List Char) :
    collapse (String.ofList (front ++ text)) =
      collapse (String.ofList text) := by
  rcases forall_or_exists_first isLow text with
    htext | ⟨before, mark, back, rfl, hmark, hbefore⟩
  · rw [collapse_low htext,
      collapse_low (List.forall_mem_append.mpr ⟨hfront, htext⟩)]
  · have hall := List.forall_mem_append.mpr ⟨hfront, hbefore⟩
    rw [← String.toList_inj, ← List.append_assoc, toList_collapse_cons hmark,
      toList_collapse_cons hmark, keptBefore_low hall, keptBefore_low hbefore]

theorem collapse_append_low {back : List Char}
    (hback : ∀ c ∈ back, isLow c = true) (text : List Char) :
    collapse (String.ofList (text ++ back)) =
      collapse (String.ofList text) := by
  rcases forall_or_exists_last isLow text with
    htext | ⟨front, mark, behind, rfl, hmark, hbehind⟩
  · rw [collapse_low htext,
      collapse_low (List.forall_mem_append.mpr ⟨htext, hback⟩)]
  · have hall := List.forall_mem_append.mpr ⟨hbehind, hback⟩
    rw [← String.toList_inj, List.append_assoc, List.cons_append,
      toList_collapse_cons hmark, toList_collapse_cons hmark,
      keptBehind_low hall, keptBehind_low hbehind]

section Seam

variable {first last : Char} (hfirst : isLow first = false)
  (hlast : isLow last = false) {before behind : List Char}
  (hbefore : ∀ c ∈ before, isLow c = true)
  (hbehind : ∀ c ∈ behind, isLow c = true) (front back : List Char)
include hfirst hlast hbefore hbehind

theorem seam_eq : seam (front ++ first :: before) (behind ++ last :: back) =
    before ++ behind := by
  have hright : (behind ++ last :: back).takeWhile isLow = behind :=
    takeWhile_run hbehind (by rintro c ⟨⟩; exact hlast)
  have hreverse : (front ++ first :: before).reverse =
      before.reverse ++ first :: front.reverse := by simp
  have hleft : (before.reverse ++ first :: front.reverse).takeWhile isLow =
      before.reverse :=
    takeWhile_run (fun c hc => hbefore c (List.mem_reverse.mp hc))
      (by rintro c ⟨⟩; exact hfirst)
  rw [seam, hright, List.rtakeWhile, hreverse, hleft, List.reverse_reverse]

/-- Of what stands between two characters that can be seen, that is kept which
is kept of it alone. -/
theorem collapse_append_seen :
    collapse (String.ofList
        ((front ++ first :: before) ++ (behind ++ last :: back))) =
      collapse (String.ofList (front ++ first :: before)) ++
        collapse (String.ofList (behind ++ last :: back)) ↔
      dropBrokenRuns (before ++ behind) = [] := by
  have hwhole : (front ++ first :: before) ++ (behind ++ last :: back) =
      front ++ first :: ((before ++ behind) ++ last :: back) := by simp
  rw [hwhole, ← String.toList_inj, String.toList_append,
    toList_collapse_cons hfirst, keptBehind_append_cons hlast,
    toList_collapse_cons hfirst, toList_collapse_cons hlast,
    keptBehind_low hbefore, keptBefore_low hbehind]
  simp

end Seam

/-- Two texts can be collapsed one by one exactly if they are partable. -/
theorem collapse_append_iff (left right : List Char) :
    collapse (String.ofList (left ++ right)) =
        collapse (String.ofList left) ++ collapse (String.ofList right) ↔
      Partable left right := by
  rcases forall_or_exists_last isLow left with
    hleft | ⟨front, first, before, rfl, hfirst, hbefore⟩
  · rw [collapse_low_append hleft, collapse_low hleft, String.empty_append]
    exact iff_of_true rfl (.inl hleft)
  · rcases forall_or_exists_first isLow right with
      hright | ⟨behind, last, back, rfl, hlast, hbehind⟩
    · rw [collapse_append_low hright, collapse_low hright, String.append_empty]
      exact iff_of_true rfl (.inr (.inl hright))
    · have hseen {c : Char} {text : List Char} (hmem : c ∈ text)
          (hc : isLow c = false) : ¬∀ c ∈ text, isLow c = true := by
        intro hall
        rw [hall c hmem] at hc
        cases hc
      rw [collapse_append_seen hfirst hlast hbefore hbehind,
        dropBrokenRuns_eq_nil_iff, Partable,
        seam_eq hfirst hlast hbefore hbehind]
      simp only [hseen (List.mem_append_right _ List.mem_cons_self) hfirst,
        hseen (List.mem_append_right _ List.mem_cons_self) hlast, false_or]

/-- Collapsing deletes exactly the maximal runs of layout that hold a line
feed, which are what the pattern matches from the left to the right, and then
the low characters at both ends.  So no line feed is left, collapsing again
changes nothing, all that can be seen is kept in its order, layout without a
line feed stays as it is between two characters that can be seen, and it does
not matter which layout stands around a line feed. -/
theorem collapse_deletes_broken_runs (text : String) :
    let kept := ((runs text.toList).filter fun run => !isBroken run).flatten
    let collapsed := (collapse text).toList
    lineBreakRun.deleteAll text.toList = kept ∧
      (Trimmed collapsed ∧
        ∃ before behind, kept = before ++ collapsed ++ behind ∧
          ∀ c ∈ before ++ behind, isLow c = true) ∧
      '\n' ∉ collapsed ∧
      collapse (collapse text) = collapse text ∧
      collapsed.filter (!isLow ·) = text.toList.filter (!isLow ·) ∧
      (∀ front first run last back,
        text.toList = front ++ first :: (run ++ last :: back) →
          isLow first = false → isLow last = false → '\n' ∉ run →
          collapsed =
            keptBefore front ++ first :: (run ++ last :: keptBehind back)) ∧
      ∀ front run other back, text.toList = front ++ (run ++ back) →
        isBroken run = true → isBroken other = true →
        collapse (String.ofList (front ++ (other ++ back))) =
          collapse text := by
  intro kept collapsed
  have hkept : dropBrokenRuns text.toList = kept :=
    dropBrokenRuns_eq_runs text.toList
  have hcollapsed : collapsed = dropAround isLow kept := by
    rw [← hkept, ← toList_collapse, String.ofList_toList]
  obtain ⟨htrimmed, hcut⟩ := exists_dropAround kept
  rw [← hcollapsed] at htrimmed hcut
  obtain ⟨before, behind, hwhole, hlow⟩ := hcut
  have hfeed : '\n' ∉ collapsed := by
    intro hmem
    apply not_mem_dropBrokenRuns text.toList
    rw [hkept, hwhole]
    exact List.mem_append_left _ (List.mem_append_right _ hmem)
  have hagain : collapse (collapse text) = collapse text := by
    rw [← String.toList_inj]
    conv_lhs => rw [← String.ofList_toList (s := collapse text)]
    rw [toList_collapse, dropBrokenRuns_eq_self hfeed, htrimmed.dropAround_eq]
  have hseen : collapsed.filter (!isLow ·) =
      text.toList.filter (!isLow ·) := by
    have hnone : ∀ list : List Char, (∀ c ∈ list, isLow c = true) →
        list.filter (!isLow ·) = [] := by
      intro list hall
      exact List.filter_eq_nil_iff.mpr fun c hc => by simp [hall c hc]
    rw [List.forall_mem_append] at hlow
    rw [← filter_dropBrokenRuns text.toList, hkept, hwhole, List.filter_append,
      List.filter_append, hnone _ hlow.1, hnone _ hlow.2, List.append_nil,
      List.nil_append]
  refine ⟨(deleteAll_lineBreakRun _).trans hkept,
    ⟨htrimmed, before, behind, hwhole, hlow⟩, hfeed, hagain, hseen, ?_, ?_⟩
  · intro front first run last back htext hfirst hlast hrun
    have hcons := toList_collapse_cons hfirst front (run ++ last :: back)
    rw [← htext, String.ofList_toList, keptBehind_append_cons hlast,
      dropBrokenRuns_eq_self hrun] at hcons
    exact hcons
  · intro front run other back htext hrun hother
    conv_rhs => rw [← String.ofList_toList (s := text), htext]
    rw [← String.toList_inj, toList_collapse, toList_collapse,
      dropBrokenRuns_insert hrun, dropBrokenRuns_insert hother]

/-- Layout of several kinds around a line feed, a control character between
words, and an ideographic space at the end. -/
theorem collapse_deletes_broken_runs_mixed :
    let text := "\n  one two\t\r\n \x01 three\u3000 "
    let front := "\n  on".toList
    let back := "wo\t\r\n \x01 three\u3000 ".toList
    (text.toList = front ++ 'e' :: ([' '] ++ 't' :: back) ∧
        '\n' ∉ [' '] ∧
        (collapse text).toList =
          keptBefore front ++ 'e' :: ([' '] ++ 't' :: keptBehind back)) ∧
      collapse text = "one two\x01 three\u3000" ∧
      (isBroken "\t\r\n ".toList = true ∧ isBroken ['\n'] = true ∧
        collapse "\n  one two\n\x01 three\u3000 " = collapse text) := by
  intro text front back
  have htext : text.toList = front ++ 'e' :: ([' '] ++ 't' :: back) := by
    decide +kernel
  have hparts : text.toList = "\n  one two".toList ++
      ("\t\r\n ".toList ++ "\x01 three\u3000 ".toList) := by decide +kernel
  have hrun : isBroken "\t\r\n ".toList = true := by decide +kernel
  have hfeed : isBroken ['\n'] = true := by decide +kernel
  have hspace : '\n' ∉ [' '] := by decide
  obtain ⟨-, -, -, -, -, hbetween, hreplaced⟩ :=
    collapse_deletes_broken_runs text
  have hkept := hbetween _ _ _ _ _ htext (by decide) (by decide) hspace
  refine ⟨⟨htext, hspace, hkept⟩, ?_, hrun, hfeed, ?_⟩
  · rw [← String.toList_inj, hkept]
    decide +kernel
  · have hother : "\n  one two\n\x01 three\u3000 " =
        String.ofList ("\n  one two".toList ++
          (['\n'] ++ "\x01 three\u3000 ".toList)) := by decide +kernel
    rw [hother, hreplaced _ _ _ _ hparts hrun hfeed]

end Text
end DocTemplate
