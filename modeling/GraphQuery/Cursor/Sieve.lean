import GraphQuery.Cursor.Basic
import GraphQuery.Store

/-!
# Sieves

A cursor that shows the results of another cursor that a judge accepts. The judge may remember what
it has seen, and may fail. A scanner judges the results it pulls; an index judges a candidate before
it is looked for.
-/

namespace GraphQuery

/-- Shows what `C` shows, with a memory kept beside it. -/
def Cursor.beside (C : Cursor) {κ : Type} (memory : κ) (forget : κ → κ) : Cursor where
  Body := C.State × κ
  start := (C.fresh, memory)
  shown b := C.result b.1
  binds b := C.tags b.1
  canTurn _ := true
  turn b t := (C.nextPath b.1 t).inState fun s => (s, b.2)
  release b := (C.close b.1, forget b.2)
  turns_end := by
    refine Subrelation.wf ?_ (InvImage.wf Prod.fst C.paths_end)
    rintro _ b ⟨t, hf, rfl⟩
    exact ⟨t, hf, rfl⟩

/-- A judge that finds the handle it accepts. -/
def accepting {κ : Type} (judge : Handle → κ → Token → Outcome Unit κ) (h : Handle) (k : κ)
    (t : Token) : Outcome Handle κ :=
  (judge h k t).mapValue fun _ => h

/-- The results that the judge accepts. -/
def Scanner.sieve (S : Scanner) {κ : Type} (memory : κ) (forget : κ → κ)
    (judge : Handle → κ → Token → Outcome Unit κ) : Scanner where
  toCursor := S.toCursor.beside memory forget
  clear := id
  canPull _ := true
  pull b t := S.sift (accepting judge) b.1 b.2 t
  descent := S.order.comap Prod.fst
  clear_le b := S.order.refl b.1
  turn_le b t := S.nextPath_le b.1 t
  pull_le b t := S.sift_le _ b.1 b.2 t
  pull_lt _ _ _ := Scanner.sift_lt

/-- The results among the candidates that the judge accepts. -/
def Index.sieve (I : Index) {κ : Type} (memory : κ) (forget : κ → κ)
    (judge : Handle → κ → Token → Outcome Unit κ) : Index where
  toCursor := I.toCursor.beside memory forget
  aim _ := id
  probe h b t :=
    (judge h b.2 t).andThen (fun _ k t => (I.contains h b.1 t).inState fun s => (s, k))
      fun k => (b.1, k)

/-! ## Judging by the handle alone -/

/-- A judge without memory. -/
def judging (verdict : Handle → Answer Unit) (h : Handle) (x : Unit) (t : Token) :
    Outcome Unit Unit :=
  ⟨verdict h, x, t⟩

/-- The verdict of a test on the value of a handle. `unknown` is the verdict on a handle that the
store does not resolve. -/
def verdictOn (store : QuadStore) (test : Value → Except String Bool)
    (unknown : Handle → Answer Unit) (h : Handle) : Answer Unit :=
  match store.resolve h with
  | none => unknown h
  | some v =>
      match test v with
      | .ok true => .found ()
      | .ok false => .nothing
      | .error reason => .failed (.callback reason)

/-- The results whose values pass a test. A result that does not resolve is a failure; a candidate
that does not is no result. -/
def Roles.testing (R : Roles) (store : QuadStore) (test : Value → Except String Bool) : Roles where
  scanner := R.scanner.sieve () id
    (judging (verdictOn store test fun h => .failed (.unknownHandle h)))
  index := R.index.sieve () id (judging (verdictOn store test fun _ => .nothing))

/-! ## What another index does not hold -/

/-- Accepts what the index does not hold. -/
def Index.forbid (I : Index) (h : Handle) (s : I.State) (t : Token) : Outcome Unit I.State :=
  let o := I.contains h s t
  match o.answer with
  | .found _ => ⟨.nothing, o.state, o.token⟩
  | .nothing => ⟨.found (), o.state, o.token⟩
  | .failed e => ⟨.failed e, o.state, o.token⟩

/-- The results that are none of the forbidden ones. -/
def Roles.without (whole forbidden : Roles) : Roles where
  scanner := whole.scanner.sieve forbidden.index.fresh forbidden.index.close forbidden.index.forbid
  index := whole.index.sieve forbidden.index.fresh forbidden.index.close forbidden.index.forbid

/-! ## What has not been seen before -/

/-- Accepts a handle that is new and remembers it. -/
def acceptNew (h : Handle) (seen : List Handle) (t : Token) : Outcome Unit (List Handle) :=
  if seen.contains h then ⟨.nothing, seen, t⟩ else ⟨.found (), h :: seen, t⟩

/-- The first result with each handle. -/
def Scanner.firsts (S : Scanner) : Scanner :=
  S.sieve [] (fun _ => []) acceptNew

end GraphQuery
