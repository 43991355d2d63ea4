import GraphQuery.Store.Memory

/-!
# A small social graph

People who follow each other, two statuses, one of them filed under a label, and a node that lists
the predicates.
-/

namespace GraphQuery

/-- Alice follows Bob, Bob Fred, Charlie Bob and Dani, Dani Bob and Greg, Emily Fred, Fred Greg.
Bob, Dani and Greg are cool; Emily and Greg are smart, as far as the smart graph goes. -/
def MemoryStore.social : MemoryStore :=
  let follows := [("alice", "bob"), ("bob", "fred"), ("charlie", "bob"), ("charlie", "dani"),
    ("dani", "bob"), ("dani", "greg"), ("emily", "fred"), ("fred", "greg")]
  let triple (s : MemoryStore) (t : Value × Value × Value) := (s.addTriple t.1 t.2.1 t.2.2).2
  let smart (s : MemoryStore) (who : String) :=
    (s.addQuad (.iri who) (.iri "status") (.str "smart_person") (some (.iri "smart_graph"))).2
  let triples :=
    follows.map (fun (a, b) => (.iri a, .iri "follows", .iri b)) ++
    ["bob", "dani", "greg"].map (fun who => (.iri who, .iri "status", .str "cool_person")) ++
    ["follows", "status"].map (fun p => (.iri "predicates", .iri "are", .iri p))
  ["emily", "greg"].foldl smart (triples.foldl triple .empty)

end GraphQuery
