import GraphQuery.Provided.Regex.Library

/-!
# Reading spelled elements

An expression that is spelled element by element is read back step by step: the mode, and for each
element the items that it stands for. Escaping makes a literal of every character that would mean
something else, and nothing that follows a star is taken for its mark of laziness.
-/

namespace GraphQuery

namespace Pattern

def metas : List Char :=
  ['\\', '.', '+', '*', '?', '(', ')', '|', '[', ']', '\x7b', '\x7d', '^', '$', '#', '&', '-', '~']

theorem isMeta_iff {c : Char} : isMeta c = true ↔ c ∈ metas := by
  rw [isMeta, String.contains_char_eq, decide_eq_true_iff]
  rfl

/-- Escaped, a character with a meaning of its own stands for itself. -/
theorem escape?_of_isMeta {c : Char} (hc : isMeta c = true) (m : Mode) (rest : List Char) :
    escape? m (c :: rest) = some (.char c, rest) := by
  have hescapable : isEscapable c = true := by simp [isEscapable, hc]
  -- None of these characters is a digit or a letter, so no other escape begins with one.
  have hplain : metas.all (fun c => !isDigit c && !c.isAlpha) = true := by decide
  have hother := List.all_eq_true.1 hplain c (isMeta_iff.1 hc)
  rw [Bool.and_eq_true, Bool.not_eq_true', Bool.not_eq_true'] at hother
  have hne : ∀ d : Char, d.isAlpha = true → c ≠ d := by
    rintro d hd rfl
    rw [hother.2] at hd
    exact Bool.false_ne_true hd
  simp [escape?, hother.1, hescapable, hne]

namespace Place

/-! ## One step -/

/-- Outside all groups, where newlines are characters like others. The items are in reverse. -/
def reading (items : List Item) (rest : List Char) : Place :=
  { here := ⟨[], items⟩, mode := { dotAll := true }, rest }

variable {items : List Item} {rest rest' : List Char} {c : Char}

theorem run?_reading (rounds : Nat) :
    run? (rounds + 1) (reading items (c :: rest)) =
      ((reading items (c :: rest)).step? c rest).bind (run? rounds) :=
  rfl

theorem step?_dot : (reading items rest').step? '.' rest =
    some (reading (⟨.chars .any, 0, false⟩ :: items) rest) :=
  rfl

theorem step?_caret : (reading items rest').step? '^' rest =
    some (reading (⟨.anchor .textStart, 0, false⟩ :: items) rest) :=
  rfl

theorem step?_dollar : (reading items rest').step? '$' rest =
    some (reading (⟨.anchor .textEnd, 0, false⟩ :: items) rest) :=
  rfl

theorem skipLazy_of_head? (h : rest.head? ≠ some '?') : skipLazy rest = rest := by
  unfold skipLazy
  split
  · simp at h
  · rfl

theorem step?_star {item : Item} (hitem : item.isModeChange = false)
    (h : rest.head? ≠ some '?') :
    (reading (item :: items) rest').step? '*' rest =
      some (reading (⟨.times item.regex 0 none, 1 + item.depth, false⟩ :: items) rest) := by
  simp [step?, reading, skipLazy_of_head? h, Branches.repeatLast?, hitem]

theorem step?_escaped (hc : isMeta c = true) :
    (reading items rest').step? '\\' (c :: rest) =
      some (reading (⟨.chars (.single c), 0, false⟩ :: items) rest) := by
  simp only [step?, escape?_of_isMeta hc]
  rfl

theorem step?_literal (hc : isMeta c = false) :
    (reading items rest').step? c rest =
      some (reading (⟨.chars (.single c), 0, false⟩ :: items) rest) := by
  have hmem : c ∉ metas := by
    rw [← isMeta_iff, hc]
    exact Bool.false_ne_true
  -- Each character that a step does not read as itself is one of these.
  unfold step?
  dsimp only
  split
  all_goals first | exact absurd (by decide) hmem | rfl

/-! ## Runs of characters -/

/-- Wherever they stand, the characters are read as these items, in no more rounds than there are
characters, if no mark of laziness follows them. -/
def Reads (cs : List Char) (read : List Item) : Prop :=
  ∀ (items : List Item) (rest : List Char), rest.head? ≠ some '?' →
    ∃ turns ≤ cs.length, ∀ rounds,
      run? (rounds + turns) (reading items (cs ++ rest)) =
        run? rounds (reading (read.reverse ++ items) rest)

theorem head?_append_ne {cs ds : List Char} (hc : cs.head? ≠ some '?')
    (hd : ds.head? ≠ some '?') : (cs ++ ds).head? ≠ some '?' := by
  cases cs with
  | nil => exact hd
  | cons c cs => exact hc

theorem head?_flatMap_ne {α : Type} {f : α → List Char} (h : ∀ a, (f a).head? ≠ some '?')
    (as : List α) : (as.flatMap f).head? ≠ some '?' := by
  induction as with
  | nil => simp
  | cons a as ih => exact head?_append_ne (h a) ih

namespace Reads

theorem one {cs : List Char} {item : Item}
    (h : ∀ items rest rest', (reading items rest').step? c (cs ++ rest) =
      some (reading (item :: items) rest)) : Reads (c :: cs) [item] := by
  refine fun items rest _ => ⟨1, Nat.le_add_left 1 _, fun rounds => ?_⟩
  rw [List.cons_append, run?_reading, h, Option.bind_some]
  rfl

theorem append {cs ds : List Char} {is js : List Item} (hc : Reads cs is) (hd : Reads ds js)
    (hhead : ds.head? ≠ some '?') : Reads (cs ++ ds) (is ++ js) := by
  intro items rest hrest
  obtain ⟨m, hm, hfirst⟩ := hc items (ds ++ rest) (head?_append_ne hhead hrest)
  obtain ⟨n, hn, hsecond⟩ := hd (is.reverse ++ items) rest hrest
  refine ⟨n + m, ?_, fun rounds => ?_⟩
  · rw [List.length_append]
    omega
  · rw [List.append_assoc, ← Nat.add_assoc, hfirst, hsecond, List.reverse_append,
      List.append_assoc]

theorem flatMap {α : Type} {f : α → List Char} {g : α → List Item} (h : ∀ a, Reads (f a) (g a))
    (hhead : ∀ a, (f a).head? ≠ some '?') (as : List α) :
    Reads (as.flatMap f) (as.flatMap g) := by
  induction as with
  | nil => exact fun _ _ _ => ⟨0, Nat.le_refl 0, fun _ => rfl⟩
  | cons a as ih => exact (h a).append ih (head?_flatMap_ne hhead as)

theorem escape (c : Char) : Reads (Regex.escape c) [⟨.chars (.single c), 0, false⟩] := by
  unfold Regex.escape
  split
  next hc => exact .one fun _ _ _ => step?_escaped hc
  next hc => exact .one fun _ _ _ => step?_literal (Bool.not_eq_true _ ▸ hc)

theorem anyRun : Reads ['.', '*'] [⟨.times (.chars .any) 0 none, 1, false⟩] := by
  refine fun items rest hrest => ⟨2, Nat.le_refl 2, fun rounds => ?_⟩
  show run? (rounds + 2) (reading items ('.' :: '*' :: rest)) = _
  rw [run?_reading, step?_dot, Option.bind_some, run?_reading, step?_star rfl hrest,
    Option.bind_some]
  rfl

end Reads

end Place

end Pattern

namespace RegexLibrary.Element

open Pattern

def items : Element → List Item
  | .textStart => [⟨.anchor .textStart, 0, false⟩]
  | .textEnd => [⟨.anchor .textEnd, 0, false⟩]
  | .anyOne => [⟨.chars .any, 0, false⟩]
  | .anyRun => [⟨.times (.chars .any) 0 none, 1, false⟩]
  | .literal s => s.toList.flatMap fun c => [⟨.chars (.single c), 0, false⟩]

theorem head?_escape_ne (c : Char) : (Regex.escape c).head? ≠ some '?' := by
  unfold Regex.escape
  split
  next => simp
  next hc =>
    rintro h
    obtain rfl : c = '?' := by simpa using h
    exact hc (Pattern.isMeta_iff.2 (by decide))

theorem toList_spell_literal (s : String) :
    ((literal s).spell Regex.library).toList = s.toList.flatMap Regex.escape :=
  String.toList_ofList

theorem head?_spell_ne (e : Element) : (e.spell Regex.library).toList.head? ≠ some '?' := by
  cases e with
  | literal s =>
      rw [toList_spell_literal]
      exact Place.head?_flatMap_ne head?_escape_ne s.toList
  | _ => decide

theorem reads_spell (e : Element) : Place.Reads (e.spell Regex.library).toList e.items := by
  cases e with
  | textStart => exact .one fun _ _ _ => Place.step?_caret
  | textEnd => exact .one fun _ _ _ => Place.step?_dollar
  | anyOne => exact .one fun _ _ _ => Place.step?_dot
  | anyRun => exact .anyRun
  | literal s =>
      rw [toList_spell_literal]
      exact .flatMap .escape head?_escape_ne s.toList

end RegexLibrary.Element

namespace Pattern

open RegexLibrary (Element)

def readItems (es : List Element) : List Item :=
  ⟨.empty, 0, true⟩ :: es.flatMap Element.items

theorem run?_mode (rounds : Nat) (rest : List Char) :
    Place.run? (rounds + 1) { rest := "(?s)".toList ++ rest } =
      Place.run? rounds (Place.reading [⟨.empty, 0, true⟩] rest) := by
  simp [Place.run?, skipSpace, Place.step?, Place.parenthesis?, ModeChange.read?]
  rfl

/-- An expression that is spelled element by element is read as its elements, if it is not too
large. -/
theorem parse?_spelled (es : List Element) :
    Regex.parse? ("(?s)" ++ String.join (es.map (Element.spell Regex.library))) =
      let item := Branches.concat ⟨[], (readItems es).reverse⟩
      if item.depth ≤ Regex.maxDepth && item.regex.unfoldedSize ≤ Regex.maxUnfoldedSize then
        some item.regex
      else none := by
  have htext : ("(?s)" ++ String.join (es.map (Element.spell Regex.library))).toList =
      "(?s)".toList ++ es.flatMap fun e => (e.spell Regex.library).toList := by
    rw [String.toList_append, String.toList_join, List.flatMap_map]
  obtain ⟨turns, hturns, hread⟩ := Place.Reads.flatMap Element.reads_spell Element.head?_spell_ne es
    [⟨.empty, 0, true⟩] [] (by simp)
  have hlength := congrArg List.length htext
  rw [String.length_toList, List.length_append] at hlength
  obtain ⟨spare, hspare⟩ := Nat.exists_eq_add_of_le'
    (show turns + 2 ≤ ("(?s)" ++ String.join (es.map (Element.spell Regex.library))).length + 1 by
      rw [hlength]
      show turns + 2 ≤ 4 + _ + 1
      omega)
  have hrun : Place.run? (spare + 1 + turns + 1)
      { rest := ("(?s)" ++ String.join (es.map (Element.spell Regex.library))).toList } =
        some (Branches.concat ⟨[], (readItems es).reverse⟩) := by
    rw [htext, run?_mode, ← List.append_nil (es.flatMap _), hread, readItems, List.reverse_cons]
    rfl
  rw [Regex.parse?, hspare, show spare + (turns + 2) = spare + 1 + turns + 1 by omega, hrun]
  rfl

end Pattern

end GraphQuery
