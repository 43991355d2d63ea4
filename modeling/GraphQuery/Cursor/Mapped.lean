import GraphQuery.Cursor.Basic
import GraphQuery.Store

/-!
# Mapped results

A scanner that shows the images of the results of another scanner. An image that the store does not
hold is passed over.
-/

namespace GraphQuery

/-- What a mapped scanner works on: the scanner it maps, and the image shown. -/
structure MappedPlace (S : Scanner) where
  source : S.State
  current : Option Handle

/-- The image of a result. -/
def imageOf (store : QuadStore) (f : Value → Except String Value) (h : Handle) : Answer Handle :=
  match store.resolve h with
  | none => .failed (.unknownHandle h)
  | some v =>
      match f v with
      | .error reason => .failed (.callback reason)
      | .ok w =>
          match store.intern w with
          | none => .nothing
          | some image => .found image

/-- Shows the images of the results, with the bindings of what they are images of. -/
def Scanner.mapped (S : Scanner) (store : QuadStore) (f : Value → Except String Value) :
    Scanner where
  Body := MappedPlace S
  start := ⟨S.fresh, none⟩
  shown b := b.current
  binds b := S.tags b.source
  canTurn b := b.current.isSome
  turn b t := (S.nextPath b.source t).inState fun s => { b with source := s }
  release b := ⟨S.close b.source, none⟩
  turns_end := by
    refine Subrelation.wf ?_ (InvImage.wf MappedPlace.source S.paths_end)
    rintro _ b ⟨t, hf, rfl⟩
    exact ⟨t, hf, rfl⟩
  clear b := { b with current := none }
  canPull _ := true
  pull b t :=
    let o := S.sift (fun h x t => ⟨imageOf store f h, x, t⟩) b.source () t
    o.inState fun s => ⟨s.1, o.answer.value?⟩
  descent := S.order.comap MappedPlace.source
  clear_le b := S.order.refl b.source
  turn_le b t := S.nextPath_le b.source t
  pull_le b t := S.sift_le _ b.source () t
  pull_lt _ _ _ := Scanner.sift_lt

end GraphQuery
