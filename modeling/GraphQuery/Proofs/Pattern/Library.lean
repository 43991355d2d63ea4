import GraphQuery.Proofs.Pattern.Matching
import GraphQuery.Proofs.Pattern.Translated

/-!
# The library does what is documented

An element is read as items that match just where it is found, and a concatenation of items matches
where they do so one after the other.
-/

namespace GraphQuery

theorem CharClass.mem_single_iff {c d : Char} : (single c).mem d = true ↔ d = c := by
  rw [single, mem, Bool.and_eq_true, decide_eq_true_iff, decide_eq_true_iff]
  constructor
  · exact fun h => Char.le_antisymm h.2 h.1
  · rintro rfl
    exact ⟨Char.le_refl d, Char.le_refl d⟩

namespace Pattern

variable {text : List Char} {i j : Nat}

def inTurn (items : List Item) : Regex :=
  items.foldr (fun item r => .seq item.regex r) .empty

theorem spans_inTurn_one {item : Item} :
    (inTurn [item]).Spans text.toArray i j ↔ item.regex.Spans text.toArray i j := by
  constructor
  · rintro ⟨k, hk, rfl⟩
    exact hk
  · exact fun h => ⟨j, h, rfl⟩

theorem spans_inTurn_append {items more : List Item} :
    (inTurn (items ++ more)).Spans text.toArray i j ↔
      ∃ k, (inTurn items).Spans text.toArray i k ∧ (inTurn more).Spans text.toArray k j := by
  induction items generalizing i with
  | nil =>
      constructor
      · exact fun h => ⟨i, rfl, h⟩
      · rintro ⟨k, rfl, h⟩
        exact h
  | cons item items ih =>
      constructor
      · rintro ⟨l, hl, h⟩
        obtain ⟨k, hk, hj⟩ := ih.1 h
        exact ⟨k, ⟨l, hl, hk⟩, hj⟩
      · rintro ⟨k, ⟨l, hl, hk⟩, hj⟩
        exact ⟨l, hl, ih.2 ⟨k, hk, hj⟩⟩

theorem spans_concat_iff {items : List Item} :
    (Branches.concat ⟨[], items.reverse⟩).regex.Spans text.toArray i j ↔
      (inTurn items).Spans text.toArray i j := by
  unfold Branches.concat
  rw [List.reverse_reverse]
  match items with
  | [] => rfl
  | [item] => exact spans_inTurn_one.symm
  | _ :: _ :: _ => rfl

end Pattern

namespace RegexLibrary

open Pattern

variable {text : List Char} {i j : Nat}

/-! ## One element -/

theorem spans_textStart_iff (hi : i ≤ text.length) :
    (Regex.anchor .textStart).Spans text.toArray i j ↔ j = i ∧ i = 0 := by
  refine and_congr_right fun _ => ?_
  cases i with
  | zero => simp [Anchor.holds, Regex.before?]
  | succ i =>
      have hbefore : Regex.before? text.toArray (i + 1) = some text[i] := by
        simp [Regex.before?, Nat.lt_of_succ_le hi]
      simp [Anchor.holds, hbefore]

theorem spans_textEnd_iff (hi : i ≤ text.length) :
    (Regex.anchor .textEnd).Spans text.toArray i j ↔ j = i ∧ i = text.length := by
  refine and_congr_right fun _ => ?_
  rw [Anchor.holds, Option.isNone_iff_eq_none, List.getElem?_toArray, List.getElem?_eq_none_iff]
  exact ⟨Nat.le_antisymm hi, fun h => Nat.le_of_eq h.symm⟩

theorem spans_any_iff :
    (Regex.chars .any).Spans text.toArray i j ↔ j = i + 1 ∧ i < text.length := by
  refine and_congr_right fun _ => ?_
  rw [List.getElem?_toArray, Option.any_eq_true]
  constructor
  · rintro ⟨c, hc, -⟩
    exact (List.getElem?_eq_some_iff.1 hc).1
  · exact fun h => ⟨text[i], List.getElem?_eq_getElem h, rfl⟩

theorem spans_anyRun_iff (hi : i ≤ text.length) :
    (Regex.times (.chars .any) 0 none).Spans text.toArray i j ↔ i ≤ j ∧ j ≤ text.length := by
  constructor
  · exact fun h => ⟨h.le, by simpa using h.le_size (by simpa using hi)⟩
  · rintro ⟨hij, hj⟩
    obtain ⟨n, rfl⟩ := Nat.exists_eq_add_of_le hij
    refine ⟨n, Nat.zero_le n, by simp, ?_⟩
    clear hij hi
    induction n generalizing i with
    | zero => rfl
    | succ n ih =>
        have hrest := ih (i := i + 1) (by omega)
        rw [Nat.add_right_comm] at hrest
        exact ⟨i + 1, spans_any_iff.2 ⟨rfl, by omega⟩, hrest⟩

/-- Characters that stand for themselves are found where the text goes on with them. -/
theorem spans_literal_iff (cs : List Char) :
    (inTurn (cs.flatMap fun c => [⟨.chars (.single c), 0, false⟩])).Spans text.toArray i j ↔
      j = i + cs.length ∧ cs <+: text.drop i := by
  induction cs generalizing i with
  | nil => simp [inTurn, Regex.Spans]
  | cons c cs ih =>
      rw [List.flatMap_cons, spans_inTurn_append]
      simp only [spans_inTurn_one, ih, Regex.Spans, List.getElem?_toArray, Option.any_eq_true,
        CharClass.mem_single_iff, List.length_cons]
      by_cases hi : i < text.length
      · rw [List.drop_eq_getElem_cons hi, List.cons_prefix_cons, List.getElem?_eq_getElem hi]
        constructor
        · rintro ⟨_, ⟨rfl, d, hd, rfl⟩, rfl, hrest⟩
          exact ⟨by omega, (Option.some.inj hd).symm, hrest⟩
        · rintro ⟨rfl, rfl, hrest⟩
          exact ⟨i + 1, ⟨rfl, _, rfl, rfl⟩, by omega, hrest⟩
      · rw [List.drop_eq_nil_of_le (Nat.le_of_not_lt hi),
          List.getElem?_eq_none (Nat.le_of_not_lt hi)]
        simp

/-! ## All elements -/

theorem spans_items_iff (e : Element) (hi : i ≤ text.length) :
    (inTurn e.items).Spans text.toArray i j ↔ e.Spans text i j := by
  cases e with
  | textStart => exact spans_inTurn_one.trans (spans_textStart_iff hi)
  | textEnd => exact spans_inTurn_one.trans (spans_textEnd_iff hi)
  | anyOne => exact spans_inTurn_one.trans spans_any_iff
  | anyRun => exact spans_inTurn_one.trans (spans_anyRun_iff hi)
  | literal s => exact spans_literal_iff s.toList

theorem spans_flatMap_items_iff (es : List Element) (hi : i ≤ text.length) :
    (inTurn (es.flatMap Element.items)).Spans text.toArray i j ↔ SpansInTurn text es i j := by
  induction es generalizing i with
  | nil => rfl
  | cons e es ih =>
      rw [List.flatMap_cons, spans_inTurn_append]
      refine exists_congr fun k => ?_
      rw [spans_items_iff e hi]
      refine and_congr_right fun hk => ih ?_
      simpa using ((spans_items_iff e hi).2 hk).le_size (by simpa using hi)

end RegexLibrary

/-- The library that queries are run with does what is documented. -/
theorem Regex.library_documented : Regex.library.Documented := by
  intro es isMatch hcompile text
  obtain ⟨r, hr, rfl⟩ := Option.map_eq_some_iff.1 hcompile
  rw [Pattern.parse?_spelled] at hr
  obtain ⟨-, hr⟩ := Option.ite_none_right_eq_some.1 hr
  rw [Regex.isMatch_iff, ← Option.some.inj hr]
  refine exists_congr fun i => exists_congr fun j => and_congr_right fun hi => ?_
  rw [Pattern.spans_concat_iff, ← RegexLibrary.spans_flatMap_items_iff es hi]
  constructor
  · rintro ⟨_, rfl, h⟩
    exact h
  · exact fun h => ⟨i, rfl, h⟩

end GraphQuery
