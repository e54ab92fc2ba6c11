import DocTemplate.Proofs.Printing
import Mathlib.Data.List.Infix
import Mathlib.Data.List.TakeWhile

/-!
# How far cutting looks

A piece that is cut off the front of a text ends at its own last character, and
what stands behind it has no part in how it is cut.  Character data is the only
exception: it goes on to the next angle bracket.  So a template can be changed
behind some of its pieces, and these pieces stay the same.
-/

namespace DocTemplate
namespace Markup

/-- What is cut behind a character that is kept begins with this character. -/
theorem exists_kept {c : Char} {cut : Option (List Char × List Char)}
    {before behind : List Char}
    (h : (cut.map fun parts => (c :: parts.1, parts.2)) =
      some (before, behind)) :
    ∃ inside, before = c :: inside ∧ cut = some (inside, behind) := by
  obtain ⟨⟨inside, tail⟩, hcut, hpair⟩ := Option.map_eq_some_iff.mp h
  obtain ⟨rfl, rfl⟩ := Prod.mk.inj hpair
  exact ⟨inside, rfl, hcut⟩

theorem cutAt?_other {mark : List Char} (hmark : mark ≠ [])
    {text before behind : List Char}
    (h : cutAt? mark text = some (before, behind)) (other : List Char) :
    cutAt? mark (before ++ mark ++ other) = some (before, other) := by
  induction text generalizing before behind with
  | nil => cases h
  | cons c rest ih =>
      rw [cutAt?] at h
      split at h
      · obtain ⟨rfl, -⟩ := Prod.mk.inj (Option.some.inj h)
        obtain ⟨first, others, rfl⟩ := List.exists_cons_of_ne_nil hmark
        have hfirst : (first :: others).isPrefixOf
            (first :: (others ++ other)) = true :=
          List.isPrefixOf_iff_prefix.mpr (List.prefix_append _ _)
        rw [List.nil_append, List.cons_append, cutAt?, if_pos hfirst,
          List.length_cons, List.drop_succ_cons, List.drop_left]
      · rename_i hplain
        obtain ⟨inner, rfl, hcut⟩ := exists_kept h
        -- a mark at the front would end before what stands behind
        have hlength : mark.length ≤ (c :: (inner ++ mark)).length := by
          rw [List.length_cons, List.length_append]
          omega
        have hother : ¬mark.isPrefixOf
            (c :: (inner ++ mark ++ other)) = true := by
          rw [eq_of_cutAt? hcut, List.isPrefixOf_iff_prefix,
            ← List.cons_append, List.isPrefix_append_of_length hlength]
            at hplain
          rw [List.isPrefixOf_iff_prefix, ← List.cons_append,
            List.isPrefix_append_of_length hlength]
          exact hplain
        rw [List.cons_append, List.cons_append, cutAt?, if_neg hother, ih hcut]
        rfl

theorem cutTag?_other {quote : Option Char} {text before behind : List Char}
    (h : cutTag? quote text = some (before, behind)) (other : List Char) :
    cutTag? quote (before ++ '>' :: other) = some (before, other) := by
  induction text generalizing quote before behind with
  | nil => cases h
  | cons c rest ih =>
      simp only [cutTag?] at h
      split at h
      · obtain ⟨inside, rfl, hcut⟩ := exists_kept h
        simp only [List.cons_append, cutTag?, ih hcut, Option.map_some]
      · split at h
        · obtain ⟨rfl, -⟩ := Prod.mk.inj (Option.some.inj h)
          simp [cutTag?]
        · rename_i hbracket
          split at h
          · rename_i hquote
            obtain ⟨inside, rfl, hcut⟩ := exists_kept h
            simp only [List.cons_append, cutTag?, if_neg hbracket, if_pos hquote,
              ih hcut, Option.map_some]
          · rename_i hplain
            obtain ⟨inside, rfl, hcut⟩ := exists_kept h
            simp only [List.cons_append, cutTag?, if_neg hbracket, if_neg hplain,
              ih hcut, Option.map_some]

theorem cutBalanced?_other {depth : Nat} {text before behind : List Char}
    (h : cutBalanced? depth text = some (before, behind))
    (other : List Char) :
    cutBalanced? depth (before ++ '>' :: other) = some (before, other) := by
  induction text generalizing depth before behind with
  | nil => cases h
  | cons c rest ih =>
      simp only [cutBalanced?] at h
      split at h
      · rename_i hopening
        obtain ⟨inside, rfl, hcut⟩ := exists_kept h
        simp only [List.cons_append, cutBalanced?, if_pos hopening, ih hcut,
          Option.map_some]
      · rename_i hopening
        split at h
        · rename_i hclosing
          cases depth with
          | zero =>
              obtain ⟨rfl, -⟩ := Prod.mk.inj (Option.some.inj h)
              simp [cutBalanced?]
          | succ outer =>
              obtain ⟨inside, rfl, hcut⟩ := exists_kept h
              simp only [List.cons_append, cutBalanced?, if_neg hopening,
                if_pos hclosing, ih hcut, Option.map_some]
        · rename_i hclosing
          obtain ⟨inside, rfl, hcut⟩ := exists_kept h
          simp only [List.cons_append, cutBalanced?, if_neg hopening,
            if_neg hclosing, ih hcut, Option.map_some]

/-! ## Pieces in brackets -/

theorem cutComment_other {text behind : List Char} {piece : Piece}
    (h : cutComment text = .ok (piece, behind)) :
    ∃ inside, piece.source = '<' :: '!' :: '-' :: inside ∧
      ∀ other, cutComment ('-' :: (inside ++ other)) = .ok (piece, other) := by
  unfold cutComment at h
  split at h
  · split at h
    · rename_i before tail hcut
      obtain ⟨rfl, -⟩ := Prod.mk.inj (Except.ok.inj h)
      refine ⟨'-' :: (before ++ ['-', '-', '>']), by simp [Piece.source], ?_⟩
      intro other
      simp only [List.cons_append, cutComment,
        cutAt?_other (List.cons_ne_nil _ _) hcut other]
    · cases h
  · cases h

theorem cutLiteral_other {text behind : List Char} {piece : Piece}
    (h : cutLiteral text = .ok (piece, behind)) :
    ∃ inside, piece.source = '<' :: (literalMark ++ inside) ∧
      ∀ other, cutLiteral (literalMark ++ (inside ++ other)) =
        .ok (piece, other) := by
  unfold cutLiteral at h
  split at h
  · split at h
    · rename_i before tail hcut
      obtain ⟨rfl, -⟩ := Prod.mk.inj (Except.ok.inj h)
      refine ⟨before ++ literalEnd, by simp [Piece.source], fun other => ?_⟩
      have hmark : literalMark.isPrefixOf
          (literalMark ++ (before ++ literalEnd ++ other)) = true :=
        List.isPrefixOf_iff_prefix.mpr (List.prefix_append _ _)
      have hother : cutAt? literalEnd (before ++ literalEnd ++ other) =
          some (before, other) := cutAt?_other (List.cons_ne_nil _ _) hcut other
      rw [cutLiteral, if_pos hmark, List.drop_left, hother]
    · cases h
  · cases h

theorem cutDoctype_other {text behind : List Char} {piece : Piece}
    (h : cutDoctype text = .ok (piece, behind)) :
    ∃ before, piece.source = '<' :: '!' :: (before ++ ['>']) ∧
      text = before ++ '>' :: behind ∧
      ∀ other, cutDoctype (before ++ '>' :: other) = .ok (piece, other) := by
  unfold cutDoctype at h
  split at h
  · cases h
  · rename_i before tail hcut
    split at h
    · rename_i hname
      split at h
      · cases h
      · rename_i hrest
        obtain ⟨rfl, rfl⟩ := Prod.mk.inj (Except.ok.inj h)
        refine ⟨before, by simp [Piece.source], eq_of_cutBalanced? hcut, ?_⟩
        intro other
        simp only [cutDoctype, cutBalanced?_other hcut other, if_pos hname,
          if_neg hrest]
    · cases h

theorem cutInstruction_other {text behind : List Char} {piece : Piece}
    (h : cutInstruction text = .ok (piece, behind)) :
    ∃ inside, piece.source = '<' :: '?' :: inside ∧
      ∀ other, cutInstruction (inside ++ other) = .ok (piece, other) := by
  unfold cutInstruction at h
  split at h
  · cases h
  · rename_i hfirst
    split at h
    · rename_i before tail hcut
      obtain ⟨rfl, -⟩ := Prod.mk.inj (Except.ok.inj h)
      refine ⟨before ++ ['?', '>'], by simp [Piece.source], fun other => ?_⟩
      have hother := cutAt?_other (List.cons_ne_nil _ _) hcut other
      rw [cutInstruction, hother]
      rintro rest heq
      -- what is cut begins like the text that it was cut from
      rw [eq_of_cutAt? hcut] at hfirst
      cases before with
      | nil => cases heq
      | cons first others =>
          obtain ⟨rfl, -⟩ := List.cons.inj heq
          exact hfirst _ rfl
    · cases h

theorem cutTagged_other {text content behind : List Char}
    (hbang : ∀ rest, text ≠ '!' :: rest)
    (hquestion : ∀ rest, text ≠ '?' :: rest)
    (hcut : cutTag? none text = some (content, behind))
    (other : List Char) :
    cutBracketed (content ++ ['>'] ++ other) =
      .ok (tagPiece content, other) := by
  have hother := cutTag?_other hcut other
  have hsource : content ++ ['>'] ++ other = content ++ '>' :: other := by simp
  have hhead : ∀ mark rest, mark ≠ '>' → content ++ '>' :: other = mark :: rest →
      ∃ rest, text = mark :: rest := by
    intro mark rest hmark heq
    rw [eq_of_cutTag? hcut]
    cases content with
    | nil => exact absurd (List.cons.inj heq).1.symm hmark
    | cons first others =>
        obtain ⟨rfl, -⟩ := List.cons.inj heq
        exact ⟨_, rfl⟩
  rw [hsource]
  unfold cutBracketed
  split
  · rename_i rest heq
    obtain ⟨rest, htext⟩ := hhead _ _ (by decide) heq
    exact absurd htext (hbang rest)
  · rename_i rest heq
    obtain ⟨rest, htext⟩ := hhead _ _ (by decide) heq
    exact absurd htext (hquestion rest)
  · rw [hother]

theorem cutDeclared_other {mark : Char} (hmark : mark = 'D' ∨ mark = 'd')
    {rest behind : List Char} {piece : Piece}
    (h : cutDoctype (mark :: rest) = .ok (piece, behind)) :
    ∃ inside, piece.source = '<' :: inside ∧
      ∀ other, cutBracketed (inside ++ other) = .ok (piece, other) := by
  obtain ⟨before, hsource, htext, hother⟩ := cutDoctype_other h
  cases before with
  | nil =>
      obtain ⟨rfl, -⟩ := List.cons.inj htext
      rcases hmark with hmark | hmark <;> cases hmark
  | cons first others =>
      obtain ⟨rfl, -⟩ := List.cons.inj htext
      refine ⟨_, hsource, fun tail => ?_⟩
      have hdoctype := hother tail
      rw [List.cons_append, List.append_assoc, List.singleton_append]
      rcases hmark with rfl | rfl <;> exact hdoctype

theorem cutBracketed_other {text behind : List Char} {piece : Piece}
    (h : cutBracketed text = .ok (piece, behind)) :
    ∃ inside, piece.source = '<' :: inside ∧
      ∀ other, cutBracketed (inside ++ other) = .ok (piece, other) := by
  unfold cutBracketed at h
  split at h
  · split at h
    · obtain ⟨inside, hsource, hother⟩ := cutComment_other h
      exact ⟨_, hsource, hother⟩
    · obtain ⟨inside, hsource, hother⟩ := cutLiteral_other h
      exact ⟨_, hsource, fun other => by rw [List.append_assoc]; exact hother other⟩
    · exact cutDeclared_other (.inl rfl) h
    · exact cutDeclared_other (.inr rfl) h
    · cases h
  · obtain ⟨inside, hsource, hother⟩ := cutInstruction_other h
    exact ⟨_, hsource, hother⟩
  · rename_i hbang hquestion
    split at h
    · rename_i content tail hcut
      obtain ⟨rfl, -⟩ := Prod.mk.inj (Except.ok.inj h)
      exact ⟨content ++ ['>'], source_tagPiece content,
        cutTagged_other hbang hquestion hcut⟩
    · cases h

/-! ## Pieces of a template -/

/-- What stands in brackets is no character data. -/
theorem cutBracketed_ne_text {text behind contents : List Char} :
    cutBracketed text ≠ .ok (.text contents, behind) := by
  intro h
  simp only [cutBracketed, cutComment, cutLiteral, cutDoctype, cutInstruction,
    tagPiece] at h
  repeat' split at h
  all_goals cases h

theorem pieces_of_cut {first : Char} {rest behind : List Char} {piece : Piece}
    (hcut : cutPiece first rest = .ok (piece, behind)) :
    pieces (first :: rest) = (piece :: (pieces behind).1, (pieces behind).2) := by
  rw [pieces]
  split
  · rename_i hfound
    cases hcut.symm.trans hfound
  · rename_i hfound
    cases hcut.symm.trans hfound
    rfl

theorem exists_cut_of_pieces {text : List Char} {piece : Piece}
    {others : List Piece} {fault : Option PieceFault}
    (h : pieces text = (piece :: others, fault)) :
    ∃ first rest behind, text = first :: rest ∧
      cutPiece first rest = .ok (piece, behind) ∧
      pieces behind = (others, fault) := by
  cases text with
  | nil =>
      rw [pieces] at h
      cases h
  | cons first rest =>
      cases hcut : cutPiece first rest with
      | error problem =>
          rw [pieces] at h
          split at h
          · cases h
          · rename_i hfound
            cases hcut.symm.trans hfound
      | ok taken =>
          obtain ⟨found, behind⟩ := taken
          rw [pieces_of_cut hcut] at h
          obtain ⟨hpieces, hfault⟩ := Prod.mk.inj h
          obtain ⟨rfl, hothers⟩ := List.cons.inj hpieces
          exact ⟨first, rest, behind, rfl, hcut, Prod.ext hothers hfault⟩

theorem eq_of_cutPiece_text {first : Char} {rest behind contents : List Char}
    (h : cutPiece first rest = .ok (.text contents, behind)) :
    '<' ∉ contents ∧ ∀ c ∈ behind.head?, c = '<' := by
  unfold cutPiece at h
  split at h
  · exact absurd h cutBracketed_ne_text
  · rename_i hfirst
    obtain ⟨hpiece, rfl⟩ := Prod.mk.inj (Except.ok.inj h)
    obtain rfl := Piece.text.inj hpiece
    constructor
    · rw [List.mem_cons, not_or]
      refine ⟨Ne.symm hfirst, fun hmem => ?_⟩
      have hplain := List.mem_takeWhile_imp hmem
      simp at hplain
    · intro c hc
      have hhead := List.head?_dropWhile_not (· != '<') rest
      rw [hc] at hhead
      simpa using hhead

/-- A piece is cut in the same way from all texts that go on with an angle
bracket, or as the text does that it is cut from. -/
theorem cutPiece_other {first : Char} {rest behind : List Char}
    {piece : Piece} (h : cutPiece first rest = .ok (piece, behind)) :
    ∃ inside, piece.source = first :: inside ∧ rest = inside ++ behind ∧
      ∀ other, (∀ c ∈ other.head?, c = '<' ∨ c ∈ behind.head?) →
        cutPiece first (inside ++ other) = .ok (piece, other) := by
  obtain ⟨inside, hsource, hrest⟩ := source_of_cutPiece h
  refine ⟨inside, hsource, hrest, fun other hother => ?_⟩
  by_cases hfirst : first = '<'
  · subst hfirst
    rw [cutPiece, if_pos rfl] at h ⊢
    obtain ⟨same, hsame, hcut⟩ := cutBracketed_other h
    obtain rfl := (List.cons.inj (hsame.symm.trans hsource)).2
    exact hcut other
  · have htext := h
    rw [cutPiece, if_neg hfirst] at htext
    obtain ⟨rfl, -⟩ := Prod.mk.inj (Except.ok.inj htext)
    obtain rfl := (List.cons.inj hsource).2
    obtain ⟨hplain, hbehind⟩ := eq_of_cutPiece_text h
    apply cutPiece_text hplain
    intro c hc
    rcases hother c hc with hmark | hsame
    · exact hmark
    · exact hbehind c hsame

/-- A template can be changed behind some of its pieces. -/
theorem pieces_front {front later : List Piece} {rest : List Char}
    {fault : Option PieceFault}
    (h : pieces (front.flatMap Piece.source ++ rest) = (front ++ later, fault)) :
    pieces rest = (later, fault) ∧
      ∀ other, (∀ c ∈ other.head?, c = '<' ∨ c ∈ rest.head?) →
        pieces (front.flatMap Piece.source ++ other) =
          (front ++ (pieces other).1, (pieces other).2) := by
  induction front with
  | nil => exact ⟨h, fun _ _ => rfl⟩
  | cons piece others ih =>
      obtain ⟨first, tail, behind, htext, hcut, hpieces⟩ :=
        exists_cut_of_pieces h
      obtain ⟨inside, hsource, rfl, hsame⟩ := cutPiece_other hcut
      rw [List.flatMap_cons, hsource, List.cons_append, List.cons_append,
        List.append_assoc] at htext
      obtain rfl := List.append_cancel_left (List.cons.inj htext).2
      obtain ⟨hrest, hlater⟩ := ih hpieces
      refine ⟨hrest, fun other hother => ?_⟩
      have hhead : ∀ c ∈ (others.flatMap Piece.source ++ other).head?,
          c = '<' ∨ c ∈ (others.flatMap Piece.source ++ rest).head? := by
        intro c hc
        cases hothers : others.flatMap Piece.source with
        | nil =>
            rw [hothers] at hc
            exact hother c hc
        | cons next _ =>
            rw [hothers] at hc
            exact .inr hc
      rw [List.flatMap_cons, hsource, List.cons_append, List.cons_append,
        List.append_assoc, pieces_of_cut (hsame _ hhead),
        hlater other hother]
      rfl

end Markup
end DocTemplate
