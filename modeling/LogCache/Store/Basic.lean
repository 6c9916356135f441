import LogCache.Tree
import LogCache.Envelope

/-!
# The store

`internal/store`: an in-memory store of envelopes, one ordered index per source id, a global
size bound, a per-source bound, and `oldestValueTree`, which orders the indexes by their
oldest timestamp so that the globally oldest envelope can be dropped first.

The indexes are `*avltree.Tree` pointers shared between the `indexes` map and
`oldestValueTree`, and `Put` mutates them in place. The model keeps them in a heap
(`trees`) addressed by `Ptr`, with a fresh pointer per `avltree.NewWith`. A Go runtime panic
(a nil-node dereference, an index out of range) is `none`. The metric callbacks are not
modelled except the running total passed to `incExpired`.
-/

namespace LogCache

/-- An `*avltree.Tree` pointer. -/
abbrev Ptr := Nat

/-- `envelopeWrapper`: what an index stores under a timestamp. -/
structure EnvelopeWrapper where
  e : Envelope
  index : String

/-! ### `treeStorage` -/

/-- `treeStorage.Put`: append a tree to the list kept under `key`. -/
def treeStoragePut (s : Tree (List Ptr)) (key : Int) (t : Ptr) : Tree (List Ptr) :=
  s.put key ((s.get key).getD [] ++ [t])

/-- `treeStorage.Remove`: drop the first occurrence of a tree from the list under `key`, and
    the key itself once its list is empty. -/
def treeStorageRemove (s : Tree (List Ptr)) (key : Int) (t : Ptr) : Tree (List Ptr) :=
  let values := ((s.get key).getD []).erase t
  if values.length = 0 then s.remove key else s.put key values

/-- `treeStorage.Left`: the oldest key and the first tree under it. Both the nil node of an
    empty storage and `[0]` of an empty list panic. -/
def treeStorageLeft (s : Tree (List Ptr)) : Option (Int × Ptr) := do
  let (key, values) ← s.left
  let t ← values.head?
  pure (key, t)

/-! ### The store and `Put` -/

/-- `Store`, without its lock and metric callbacks; `expired` is the running total of the
    deltas passed to `incExpired`. -/
structure Store where
  size : Int
  maxPerSource : Int
  indexes : AList (fun _ : String => Ptr)
  trees : Ptr → Tree EnvelopeWrapper
  nextPtr : Ptr
  oldestValueTree : Tree (List Ptr)
  count : Int
  expired : Nat

/-- `NewStore`: neither bound is checked. -/
def newStore (size maxPerSource : Int) : Store where
  size := size
  maxPerSource := maxPerSource
  indexes := ∅
  trees := fun _ => .nil
  nextPtr := 0
  oldestValueTree := .nil
  count := 0
  expired := 0

namespace Store

/-- Lines 66–73 of `Store.Put`: the index's tree; a new one is registered in
    `oldestValueTree` under the envelope's timestamp while still empty. -/
def locate (s : Store) (index : String) (timestamp : Int) : Store × Ptr :=
  match s.indexes.lookup index with
  | some t => (s, t)
  | none =>
      ({ s with
          indexes := s.indexes.insert index s.nextPtr
          trees := Function.update s.trees s.nextPtr .nil
          nextPtr := s.nextPtr + 1
          oldestValueTree := treeStoragePut s.oldestValueTree timestamp s.nextPtr },
        s.nextPtr)

/-- Lines 75–91 of `Store.Put`: the tree's oldest key, its size, and the tree after the
    per-source eviction, which removes the oldest key when the tree is at its quota. -/
def evict (s : Store) (tree : Tree EnvelopeWrapper) :
    Option ((Int × Bool) × Int × Tree EnvelopeWrapper × Nat) := do
  let (oldest, hasOldest) ←
    if tree.size > 0 then tree.left.map fun entry => (entry.1, true) else some (0, false)
  let preSize : Int := tree.size
  if preSize ≥ s.maxPerSource then
    pure ((oldest, hasOldest), preSize, tree.remove oldest, s.expired + 1)
  else
    pure ((oldest, hasOldest), preSize, tree, s.expired)

/-- Lines 93–102 of `Store.Put`: insertion, the count update and the move of the tree in
    `oldestValueTree` when its oldest key changed. -/
def insert (s : Store) (t : Ptr) (e : Envelope) (index : String) : Option Store := do
  let ((oldest, hasOldest), preSize, tree, expired) ← s.evict (s.trees t)
  let tree := tree.put e.timestamp ⟨e, index⟩
  let (newOldest, _) ← tree.left
  pure { s with
    trees := Function.update s.trees t tree
    count := s.count + tree.size - preSize
    expired := expired
    oldestValueTree :=
      if oldest ≠ newOldest ∧ hasOldest then
        treeStoragePut (treeStorageRemove s.oldestValueTree oldest t) newOldest t
      else s.oldestValueTree }

/-- `Store.truncate`: above the size bound, drop the oldest envelope of the tree that
    `oldestValueTree` names first, and the tree's index once it is empty. -/
def truncate (s : Store) : Option Store :=
  if s.count ≤ s.size then some s
  else do
    let (key, oldTree) ← treeStorageLeft s.oldestValueTree
    let (_, left) ← (s.trees oldTree).left
    let tree := (s.trees oldTree).remove key
    let s' := { s with
      count := s.count - 1
      expired := s.expired + 1
      oldestValueTree := treeStorageRemove s.oldestValueTree key oldTree
      trees := Function.update s.trees oldTree tree }
    if tree.size = 0 then
      pure { s' with indexes := s'.indexes.erase left.index }
    else do
      let (newKey, _) ← tree.left
      pure { s' with oldestValueTree := treeStoragePut s'.oldestValueTree newKey oldTree }

/-- Lines 66–102 of `Store.Put`: everything before the call to `truncate`. -/
def putIndex (s : Store) (e : Envelope) (index : String) : Option Store :=
  let (s, t) := s.locate index e.timestamp
  s.insert t e index

/-- `Store.Put`; the last step is the read of `oldestValueTree.Left()` for the cache-period
    gauge. -/
def put (s : Store) (e : Envelope) (index : String) : Option Store := do
  let s ← s.putIndex e index
  let s ← s.truncate
  let _ ← treeStorageLeft s.oldestValueTree
  pure s

/-- A sequence of `Put` calls; `none` once one of them panics. -/
def run (s : Store) : List (Envelope × String) → Option Store
  | [] => some s
  | (e, index) :: puts => (s.put e index).bind fun s' => s'.run puts

/-! ### `Get` -/

/-- `Store.treeTraverse`: in-order walk that skips subtrees below `start`, stops at the first
    key at or after `end`, and stops when the visitor asks to. The visitor's captured result
    slice is the state `σ`; the `Bool` is the stop flag. -/
def treeTraverse {σ : Type} (f : σ → EnvelopeWrapper → σ × Bool) (start end_ : Int) :
    Tree EnvelopeWrapper → σ → σ × Bool
  | .nil, acc => (acc, false)
  | .node l t w r, acc =>
      if t ≥ start then
        match treeTraverse f start end_ l acc with
        | (acc, true) => (acc, true)
        | (acc, false) =>
            if t ≥ end_ then (acc, true)
            else
              match f acc w with
              | (acc, true) => (acc, true)
              | (acc, false) => treeTraverse f start end_ r acc
      else treeTraverse f start end_ r acc

/-- `Store.checkEnvelopeType`; `none` is a `nil` filter. -/
def checkEnvelopeType (e : Envelope) : Option EnvelopeType → Bool
  | none => true
  | some t => e.message.any (·.isType t)

/-- The visitor of `Store.Get`: append a matching envelope, then stop once the result holds
    `limit` envelopes. -/
def getVisitor (index : String) (envelopeType : Option EnvelopeType) (limit : Int)
    (res : List Envelope) (w : EnvelopeWrapper) : List Envelope × Bool :=
  let res := if w.index = index ∧ checkEnvelopeType w.e envelopeType then res ++ [w.e] else res
  (res, decide (res.length ≥ limit))

/-- `Store.Get` over `[start, end)`, times in Unix nanoseconds. -/
def get (s : Store) (index : String) (start end_ : Int) (envelopeType : Option EnvelopeType)
    (limit : Int) : List Envelope :=
  match s.indexes.lookup index with
  | none => []
  | some t => (treeTraverse (getVisitor index envelopeType limit) start end_ (s.trees t) []).1

end Store

end LogCache
