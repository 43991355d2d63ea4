import GraphQuery.Cursor.Join
import GraphQuery.Cursor.Listing

/-!
# Steps along quads

From every handle of a source to the other end of the quads it is an end of. The predicate and the
label of the quads walked may be restricted to the results of further plans, whose bindings come
with the walk. A scanner walks the quads of each source; an index walks the quads of a target back.
-/

namespace GraphQuery

/-- What a walk demands of its quads: their predicate held by `via` and their label by `labels`,
where there is such an index. `names` are bound to the predicate. -/
structure QuadTest where
  via : Option Index
  names : List String
  labels : Option Index

/-- A state for an index that there may be. -/
def OptionalState : Option Index → Type
  | none => Unit
  | some I => I.State

namespace OptionalState

def fresh : (I : Option Index) → OptionalState I
  | none => ()
  | some I => I.fresh

def close : (I : Option Index) → OptionalState I → OptionalState I
  | none, x => x
  | some I, s => I.close s

/-- The binding sets the index has for a handle. Where there is no index there is no demand. -/
def bindings : (I : Option Index) → Handle → OptionalState I → Token →
    Outcome (List (List Tags)) (OptionalState I)
  | none, _, x, t => ⟨.found [], x, t⟩
  | some I, h, s, t =>
      (I.contains h s t).andThen
        (fun _ s t => ((I.alternates s t).complete).mapValue fun sets => [sets]) id

end OptionalState

namespace QuadTest

abbrev State (Q : QuadTest) : Type :=
  OptionalState Q.via × OptionalState Q.labels

def fresh (Q : QuadTest) : Q.State :=
  (.fresh Q.via, .fresh Q.labels)

def close (Q : QuadTest) (s : Q.State) : Q.State :=
  (.close Q.via s.1, .close Q.labels s.2)

/-- What the names bind. -/
def named (Q : QuadTest) (predicate : Handle) : List (List Tags) :=
  if Q.names.isEmpty then [] else [[.ofNames Q.names predicate]]

/-- The binding sets of the label; a quad without a label fails any demand on it. -/
def labelBindings (Q : QuadTest) (label : Option Handle) (s : OptionalState Q.labels) (t : Token) :
    Outcome (List (List Tags)) (OptionalState Q.labels) :=
  match Q.labels.isSome, label with
  | true, some l => OptionalState.bindings Q.labels l s t
  | true, none => ⟨.nothing, s, t⟩
  | false, _ => ⟨.found [], s, t⟩

/-- The binding sets that come with a quad, unless the test rejects it. -/
def bindings (Q : QuadTest) (quad : Quad) (s : Q.State) (t : Token) :
    Outcome (List (List Tags)) Q.State :=
  (OptionalState.bindings Q.via quad.predicate s.1 t).andThen
    (fun via v t =>
      ((Q.labelBindings quad.label s.2 t).mapValue fun labels =>
        via ++ Q.named quad.predicate ++ labels).inState fun l => (v, l))
    fun v => (v, s.2)

end QuadTest

/-- A way along quads, from one end to another. -/
structure Walk where
  store : QuadStore
  fromEnd : Direction
  toEnd : Direction
  test : QuadTest

namespace Walk

/-- The target of a quad and the binding sets that come with it. Quads that the store does not know
or that lack an end are passed over. -/
def follow (W : Walk) (id : QuadId) (s : W.test.State) (t : Token) :
    Outcome (Handle × List (List Tags)) W.test.State :=
  match W.store.quad id with
  | none => ⟨.nothing, s, t⟩
  | some quad =>
      match quad.at W.toEnd with
      | none => ⟨.nothing, s, t⟩
      | some target => (W.test.bindings quad s t).mapValue fun sets => (target, sets)

end Walk

/-! ## Forwards -/

/-- The source being walked from, its binding sets, and its quads still to be walked. -/
structure Walking (S : Scanner) (W : Walk) where
  source : S.State
  sets : List Tags
  quads : List QuadId
  test : W.test.State

namespace Walking

variable {S : Scanner} {W : Walk}

/-- Each source, and each of its quads, is walked once. -/
def descent (S : Scanner) (W : Walk) : Descent (Walking S W) :=
  (S.order.lex .nat).comap fun b => (b.source, b.quads.length)

/-- Walks on to a target: along the quads at hand, and when there are none left, along those of the
next source. Every quad rejected and every new source is followed by a check of the token. -/
def advance (b : Walking S W) (t : Token) :
    Outcome (Handle × List (List Tags)) (Walking S W) :=
  match _hq : b.quads with
  | id :: quads =>
      let o := W.follow id b.test t
      let b' : Walking S W := { b with quads, test := o.state }
      match o.answer with
      | .found (target, sets) => ⟨.found (target, b.sets :: sets), b', o.token⟩
      | .failed e => ⟨.failed e, b', o.token⟩
      | .nothing =>
          match o.token.check with
          | (some e, t) => ⟨.failed e, b', t⟩
          | (none, t) => advance b' t
  | [] =>
      let o := S.next b.source t
      match _ho : o.answer with
      | .nothing => ⟨.nothing, { b with source := o.state }, o.token⟩
      | .failed e => ⟨.failed e, { b with source := o.state }, o.token⟩
      | .found h =>
          let a := S.alternates o.state o.token
          match a.error with
          | some e => ⟨.failed e, { b with source := a.state }, a.token⟩
          | none =>
              let b' : Walking S W :=
                ⟨a.state, a.items, W.store.quadsWith W.fromEnd h, b.test⟩
              match a.token.check with
              | (some e, t) => ⟨.failed e, b', t⟩
              | (none, t) => advance b' t
termination_by (descent S W).wf.wrap b
decreasing_by
  · refine .inr ⟨S.order.refl _, ?_⟩
    show quads.length < b.quads.length
    simp [_hq]
  · exact .inl (S.order.lt_of_le_of_lt (S.alternates_le _ _) (Scanner.next_lt _ho))

theorem advance_le (b : Walking S W) (t : Token) : (descent S W).le (b.advance t).state b := by
  fun_induction advance b t with
  | case1 b t id quads hq _ b' => exact .inr ⟨S.order.refl _, by simp [Descent.nat, b', hq]⟩
  | case2 b t id quads hq _ b' => exact .inr ⟨S.order.refl _, by simp [Descent.nat, b', hq]⟩
  | case3 b t id quads hq _ b' => exact .inr ⟨S.order.refl _, by simp [Descent.nat, b', hq]⟩
  | case4 b t id quads hq o b' _ t' _ ih =>
      refine (descent S W).trans ih (.inr ⟨S.order.refl _, ?_⟩)
      simp [Descent.nat, b', hq]
  | case5 b t hq => exact .inr ⟨S.next_le _ _, Nat.le_refl _⟩
  | case6 b t hq => exact .inr ⟨S.next_le _ _, Nat.le_refl _⟩
  | case7 b t hq o h ho =>
      exact .inl (S.order.lt_of_le_of_lt (S.alternates_le _ _) (Scanner.next_lt ho))
  | case8 b t hq o h ho =>
      exact .inl (S.order.lt_of_le_of_lt (S.alternates_le _ _) (Scanner.next_lt ho))
  | case9 b t hq o h ho a _ b' t' _ ih =>
      refine (descent S W).trans ih (.inl ?_)
      exact S.order.lt_of_le_of_lt (S.alternates_le _ _) (Scanner.next_lt ho)

theorem advance_lt {b : Walking S W} {t : Token} {r : Handle × List (List Tags)}
    (hf : (b.advance t).answer = .found r) : (descent S W).lt (b.advance t).state b := by
  fun_induction advance b t with
  | case1 b t id quads hq _ b' => exact .inr ⟨S.order.refl _, by simp [Descent.nat, b', hq]⟩
  | case4 b t id quads hq o b' _ t' _ ih =>
      refine (descent S W).lt_of_lt_of_le (ih hf) (.inr ⟨S.order.refl _, ?_⟩)
      simp [Descent.nat, b', hq]
  | case9 b t hq o h ho a _ b' t' _ ih =>
      refine (descent S W).lt_of_lt_of_le (ih hf) (.inl ?_)
      exact S.order.lt_of_le_of_lt (S.alternates_le _ _) (Scanner.next_lt ho)
  | _ => simp at hf

end Walking

namespace Scanner

variable {S : Scanner} {W : Walk}

/-- The target of the next quad. -/
def pullWalked (b : Combining (Walking S W)) (t : Token) :
    Outcome Handle (Combining (Walking S W)) :=
  (b.sources.advance t).andThen
    (fun r s t => ⟨.found r.1, ⟨s, .ofSets r.2, some r.1⟩, t⟩)
    fun s => { b with sources := s }

theorem pullWalked_le (b : Combining (Walking S W)) (t : Token) :
    (Walking.descent S W).le (pullWalked b t).state.sources b.sources :=
  Outcome.state_andThen
    (P := fun c : Combining (Walking S W) => (Walking.descent S W).le c.sources b.sources)
    (fun _ _ => b.sources.advance_le t) (b.sources.advance_le t)

theorem pullWalked_lt {b : Combining (Walking S W)} {t : Token} {h : Handle}
    (hf : (pullWalked b t).answer = .found h) :
    (Walking.descent S W).lt (pullWalked b t).state.sources b.sources := by
  unfold pullWalked at hf ⊢
  obtain ⟨r, hr, heq⟩ := Outcome.found_andThen hf
  rw [heq]
  exact Walking.advance_lt hr

/-- The targets of the quads of every source, once for each quad. -/
def step (S : Scanner) (W : Walk) : Scanner where
  toCursor := .combining (⟨S.fresh, [], [], W.test.fresh⟩ : Walking S W) fun b =>
    { b with source := S.close b.source, test := W.test.close b.test }
  clear b := { b with current := none }
  canPull _ := true
  pull := pullWalked
  descent := (Walking.descent S W).comap Combining.sources
  clear_le b := (Walking.descent S W).refl b.sources
  turn_le b t := Combining.turn_le (Walking.descent S W) b t
  pull_le := pullWalked_le
  pull_lt _ _ _ := pullWalked_lt

end Scanner

/-! ## Backwards -/

namespace Walk

variable (W : Walk) (I : Index)

/-- The binding sets with which one quad is walked from a source that the index holds. -/
def comeFrom (quad : Quad) (source : Handle) (s : I.State × W.test.State) (t : Token) :
    Outcome (List Tags) (I.State × W.test.State) :=
  (W.test.bindings quad s.2 t).andThen
    (fun sets q t =>
      ((I.contains source s.1 t).andThen
        (fun _ r t =>
          (I.alternates r t).complete.mapValue fun own => Combinations.all (own :: sets))
        id).inState fun r => (r, q))
    fun q => (s.1, q)

/-- The binding sets with which the quads are walked from sources that the index holds. The token is
checked before each quad. -/
def retrace : List QuadId → I.State × W.test.State → Token →
    Outcome (List Tags) (I.State × W.test.State)
  | [], s, t => ⟨.found [], s, t⟩
  | id :: quads, s, t =>
      match t.check with
      | (some e, t) => ⟨.failed e, s, t⟩
      | (none, t) =>
          match (W.store.quad id).bind fun quad => (quad.at W.fromEnd).map (quad, ·) with
          | none => retrace quads s t
          | some (quad, source) =>
              let o := W.comeFrom I quad source s t
              match o.answer with
              | .failed e => ⟨.failed e, o.state, o.token⟩
              | .nothing => retrace quads o.state o.token
              | .found sets => (retrace quads o.state o.token).mapValue (sets ++ ·)

end Walk

/-- The handles that a quad leads to from a source that the index holds. -/
def Index.step (I : Index) (W : Walk) : Index where
  toCursor := .listing (I.fresh, W.test.fresh) (fun b => b.current.isSome) fun b =>
    ⟨(I.close b.source.1, W.test.close b.source.2), none, []⟩
  aim _ b := { b with current := none, sets := [] }
  probe h b t :=
    let o := W.retrace I (W.store.quadsWith W.toEnd h) b.source t
    match o.answer with
    | .found [] | .nothing => ⟨.nothing, { b with source := o.state }, o.token⟩
    | .found sets => ⟨.found (), ⟨o.state, some h, sets⟩, o.token⟩
    | .failed e => ⟨.failed e, { b with source := o.state }, o.token⟩

/-- What is reached along quads from what a plan gives. -/
def Roles.step (R : Roles) (W : Walk) : Roles :=
  ⟨R.scanner.step W, R.index.step W⟩

end GraphQuery
