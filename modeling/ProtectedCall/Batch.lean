import ProtectedCall.Value

/-!
# Batches

* `Batch`: a shared handle to the requests that are collapsed into one call. Resolution hands it on
  and never looks inside.
* `Batch.same`: whether two handles share one batch, which equal arguments alone do not tell.
-/

namespace ProtectedCall

/-- A handle to collapsed requests, each known by its argument. -/
structure Batch where
  handle : Nat
  arguments : List Value
  deriving Inhabited

namespace Batch

/-- The number of requests. -/
def size (b : Batch) : Nat := b.arguments.length

/-- There are no requests. -/
def isEmpty (b : Batch) : Bool := b.arguments.isEmpty

/-- Both handles share one batch. -/
def same (a b : Batch) : Bool := a.handle == b.handle

end Batch

end ProtectedCall
