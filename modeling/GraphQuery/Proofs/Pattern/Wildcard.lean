import GraphQuery.Constraint
import GraphQuery.Proofs.Pattern.Library
import Mathlib.Data.List.Forall2

/-!
# What wildcards match

A wildcard matches a text that can be cut into pieces, one for each character of the pattern, so
that each piece is what its character stands for. Where the pattern has several `%` there may be
many ways to cut a text; the expression of the pattern matches if there is one.
-/

namespace GraphQuery

namespace Wildcard

/-- What the characters of a pattern stand for: any run, any one character, or themselves. -/
inductive Stands : Char → List Char → Prop
  | anyRun (run : List Char) : Stands '%' run
  | anyOne (c : Char) : Stands '?' [c]
  | itself {c : Char} (hrun : c ≠ '%') (hone : c ≠ '?') : Stands c [c]

/-- The text can be cut along the pattern. -/
def Splits (pattern text : List Char) : Prop :=
  ∃ pieces, List.Forall₂ Stands pattern pieces ∧ pieces.flatten = text

theorem stands_one_iff {piece : List Char} : Stands '?' piece ↔ ∃ c, piece = [c] := by
  constructor
  · intro h
    generalize hq : '?' = q at h
    cases h with
    | anyRun => exact absurd hq (by decide)
    | anyOne c => exact ⟨c, rfl⟩
    | itself hrun hone => exact absurd hq.symm hone
  · rintro ⟨c, rfl⟩
    exact .anyOne c

theorem stands_itself_iff {c : Char} {piece : List Char} (hrun : c ≠ '%') (hone : c ≠ '?') :
    Stands c piece ↔ piece = [c] := by
  constructor
  · intro h
    cases h with
    | anyRun => exact absurd rfl hrun
    | anyOne => exact absurd rfl hone
    | itself => rfl
  · rintro rfl
    exact .itself hrun hone

theorem splits_nil {text : List Char} : Splits [] text ↔ text = [] := by
  constructor
  · rintro ⟨pieces, h, rfl⟩
    cases h
    rfl
  · rintro rfl
    exact ⟨[], .nil, rfl⟩

theorem splits_cons {c : Char} {pattern text : List Char} :
    Splits (c :: pattern) text ↔
      ∃ piece rest, text = piece ++ rest ∧ Stands c piece ∧ Splits pattern rest := by
  constructor
  · rintro ⟨pieces, h, rfl⟩
    cases h with
    | @cons _ piece _ pieces hc hpieces =>
        exact ⟨piece, pieces.flatten, rfl, hc, pieces, hpieces, rfl⟩
  · rintro ⟨piece, _, rfl, hc, pieces, hpieces, rfl⟩
    exact ⟨piece :: pieces, .cons hc hpieces, rfl⟩

/-! ## The elements of a pattern -/

open RegexLibrary

def element (c : Char) : Element :=
  if c = '%' then .anyRun else if c = '?' then .anyOne else .literal (String.singleton c)

theorem spell_element (L : RegexLibrary) (c : Char) : (element c).spell L = spell L c := by
  unfold element spell
  split
  · rfl
  · split <;> rfl

theorem expression_eq (L : RegexLibrary) (pattern : String) :
    expression L pattern = "(?s)" ++
      String.join ((.textStart :: (pattern.toList.map element ++ [.textEnd])).map
        (Element.spell L)) := by
  have hspell : (pattern.toList.map element).map (Element.spell L) =
      pattern.toList.map (spell L) := by
    rw [List.map_map]
    exact List.map_congr_left fun c _ => spell_element L c
  apply String.toList_injective
  simp [expression, hspell, Element.spell]

section Positions

variable {text : List Char} {c : Char} {i j : Nat}

/-- The element of a character is found where a piece begins that the character stands for. -/
theorem spans_element_iff (hi : i ≤ text.length) :
    (element c).Spans text i j ↔
      ∃ piece, piece <+: text.drop i ∧ Stands c piece ∧ j = i + piece.length := by
  unfold element
  split
  next hrun =>
    subst hrun
    constructor
    · rintro ⟨hij, hj⟩
      refine ⟨(text.drop i).take (j - i), List.take_prefix _ _, .anyRun _, ?_⟩
      rw [List.length_take, List.length_drop]
      omega
    · rintro ⟨piece, hpiece, -, rfl⟩
      have hlength := hpiece.length_le
      rw [List.length_drop] at hlength
      exact ⟨Nat.le_add_right _ _, by omega⟩
  next hrun =>
    split
    next hone =>
      subst hone
      simp only [stands_one_iff]
      constructor
      · rintro ⟨rfl, hlt⟩
        refine ⟨[text[i]], ?_, ⟨text[i], rfl⟩, rfl⟩
        rw [List.drop_eq_getElem_cons hlt]
        exact List.prefix_append [text[i]] _
      · rintro ⟨_, hpiece, ⟨d, rfl⟩, rfl⟩
        have hlength := hpiece.length_le
        rw [List.length_drop, List.length_singleton] at hlength
        exact ⟨rfl, by omega⟩
    next hone =>
      simp only [stands_itself_iff hrun hone]
      constructor
      · rintro ⟨rfl, hpiece⟩
        exact ⟨[c], by simpa using hpiece, rfl, by simp⟩
      · rintro ⟨_, hpiece, rfl, rfl⟩
        exact ⟨by simp, by simpa using hpiece⟩

theorem spansInTurn_elements_iff (pattern : List Char) (hi : i ≤ text.length) :
    (∃ j, SpansInTurn text (pattern.map element ++ [.textEnd]) i j) ↔
      Splits pattern (text.drop i) := by
  induction pattern generalizing i with
  | nil =>
      rw [splits_nil, List.drop_eq_nil_iff]
      constructor
      · rintro ⟨_, _, ⟨-, rfl⟩, -⟩
        exact Nat.le_refl _
      · exact fun h => ⟨i, i, ⟨rfl, Nat.le_antisymm hi h⟩, rfl⟩
  | cons c pattern ih =>
      have hnext : ∀ {piece rest}, text.drop i = piece ++ rest →
          i + piece.length ≤ text.length ∧ text.drop (i + piece.length) = rest := by
        intro piece rest htext
        have hlength := congrArg List.length htext
        rw [List.length_drop, List.length_append] at hlength
        rw [← List.drop_drop, htext, List.drop_left]
        exact ⟨by omega, rfl⟩
      rw [splits_cons]
      constructor
      · rintro ⟨j, k, hk, hj⟩
        obtain ⟨piece, ⟨rest, htext⟩, hstands, rfl⟩ := (spans_element_iff hi).1 hk
        obtain ⟨hle, hrest⟩ := hnext htext.symm
        exact ⟨piece, rest, htext.symm, hstands, hrest ▸ (ih hle).1 ⟨j, hj⟩⟩
      · rintro ⟨piece, rest, htext, hstands, hsplits⟩
        obtain ⟨hle, hrest⟩ := hnext htext
        obtain ⟨j, hj⟩ := (ih hle).2 (hrest.symm ▸ hsplits)
        exact ⟨j, i + piece.length,
          (spans_element_iff hi).2 ⟨piece, ⟨rest, htext.symm⟩, hstands, rfl⟩, hj⟩

end Positions

/-- The expression of a pattern is found in the texts that can be cut along the pattern. -/
theorem isMatch_iff {L : RegexLibrary} (hL : L.Documented) {pattern : String}
    {isMatch : String → Bool} (h : L.compile? (expression L pattern) = some isMatch)
    (text : String) : isMatch text = true ↔ Splits pattern.toList text.toList := by
  have hsplits := spansInTurn_elements_iff pattern.toList (Nat.zero_le text.toList.length)
  rw [List.drop_zero] at hsplits
  rw [expression_eq] at h
  rw [hL _ _ h, ← hsplits]
  constructor
  · rintro ⟨i, j, -, _, ⟨rfl, rfl⟩, hj⟩
    exact ⟨j, hj⟩
  · rintro ⟨j, hj⟩
    exact ⟨0, j, Nat.zero_le _, 0, ⟨rfl, rfl⟩, hj⟩

end Wildcard

namespace Constraint

open Wildcard

/-- A wildcard holds of the values that have a text, the whole of which can be cut along the
pattern: a run of any length and of any characters for each `%`, one character for each `?`, and for
any other character itself. -/
theorem holds_like_iff {L : RegexLibrary} (hL : L.Documented) {pattern : String} {c : Constraint}
    (hc : like? L pattern = .ok c) (v : Value) :
    c.holds v = true ↔ ∃ text, v.text? = some text ∧ Splits pattern.toList text.toList := by
  unfold like? at hc
  split at hc
  next isMatch hcompile =>
    obtain rfl : .like ⟨pattern, isMatch⟩ = c := Except.ok.inj hc
    rw [holds, Option.any_eq_true]
    simp only [Wildcard.isMatch_iff hL hcompile]
  next => exact nomatch hc

/-- Two ways to cut the text, across its lines; nothing without a text is cut. -/
theorem holds_like_across_lines : Regex.library.Documented ∧
    ∃ c, like? Regex.library "%.%(?" = .ok c ∧
      c.holds (.str "a\n.b.\n(é") = true ∧ c.holds (.int 5) = false := by
  have hspelled : (Regex.library.compile? (expression Regex.library "%.%(?")).isSome = true := by
    rw [expression_eq]
    show (Option.map _ (Regex.parse? _)).isSome = true
    rw [Pattern.parse?_spelled]
    decide +kernel
  obtain ⟨isMatch, hcompile⟩ := Option.isSome_iff_exists.1 hspelled
  have hc : like? Regex.library "%.%(?" = .ok (.like ⟨"%.%(?", isMatch⟩) := by
    rw [like?, hcompile]
  have hholds := holds_like_iff Regex.library_documented hc
  refine ⟨Regex.library_documented, _, hc, (hholds _).2 ⟨_, rfl, ?_⟩, ?_⟩
  · refine ⟨[['a', '\n'], ['.'], ['b', '.', '\n'], ['('], ['é']], ?_, by decide⟩
    refine .cons (.anyRun _) (.cons (.itself ?_ ?_) (.cons (.anyRun _) (.cons (.itself ?_ ?_)
      (.cons (.anyOne 'é') .nil))))
    all_goals decide
  · rw [Bool.eq_false_iff, Ne, hholds]
    rintro ⟨text, htext, -⟩
    exact nomatch htext

end Constraint

end GraphQuery
