import LogCache.Store.TreeStorage
import Mathlib.Data.List.Nodup
import Mathlib.Algebra.BigOperators.Group.List
import Mathlib.Algebra.Order.Ring.Nat

/-!
# The store's representation invariant

`Store.Inv` is what every `Put` keeps true: the indexes point to distinct trees that are
ordered, non-empty and hold only their own source's envelopes under their own timestamps;
`count` is the number of envelopes held; and `oldestValueTree` lists each of those trees
exactly once, under its oldest key.

Three structural lemmas carry the invariant across the three ways a `Put` changes the
indexes: one tree is replaced (`Inv.replaceTree`), an index is added (`Inv.addIndex`), an
index is dropped (`Inv.dropIndex`). Each states what the new `oldestValueTree` must count.
-/

namespace LogCache

/-- What `Put` keeps true of the tree of the index `src`. -/
structure IndexTree (src : String) (t : Tree EnvelopeWrapper) : Prop where
  ordered : t.Ordered
  nonempty : t.toList ≠ []
  wrapper : ∀ x ∈ t.toList, x.2.index = src ∧ x.2.e.timestamp = x.1

namespace Store

/-- The tree pointers held by `indexes`. -/
def ptrs (s : Store) : List Ptr := s.indexes.entries.map (·.2)

/-- The oldest key of a tree, as `Put` and `truncate` read it through `Left()`. -/
def oldestKey (t : Tree EnvelopeWrapper) : Option Int := t.left.map Prod.fst

/-- The number of envelopes held across all indexes. -/
def held (s : Store) : Nat := (s.ptrs.map fun p => (s.trees p).size).sum

/-- Every envelope held, with its timestamp. -/
def contents (s : Store) : List (Int × EnvelopeWrapper) :=
  s.indexes.entries.flatMap fun x => (s.trees x.2).toList

theorem held_eq_length (s : Store) : s.held = s.contents.length := by
  simp [held, contents, ptrs, List.length_flatMap, Tree.size_eq_length, Function.comp_def]

/-- The representation invariant of the store. -/
structure Inv (s : Store) : Prop where
  nodup : s.ptrs.Nodup
  fresh : ∀ p ∈ s.ptrs, p < s.nextPtr
  trees : ∀ x ∈ s.indexes.entries, IndexTree x.1 (s.trees x.2)
  count : s.count = s.held
  ovtOrdered : s.oldestValueTree.Ordered
  ovtNonempty : ListsNonempty s.oldestValueTree
  listed : ∀ k q, ovtCount s.oldestValueTree k q =
    if q ∈ s.ptrs ∧ oldestKey (s.trees q) = some k then 1 else 0

theorem oldestKey_eq_head (t : Tree EnvelopeWrapper) :
    oldestKey t = t.toList.head?.map Prod.fst := by
  rw [oldestKey, Tree.left_eq_head]

theorem inv_newStore (size maxPerSource : Int) : (newStore size maxPerSource).Inv where
  nodup := by simp [ptrs, newStore]
  fresh := by simp [ptrs, newStore]
  trees := by simp [newStore]
  count := by simp [held, ptrs, newStore]
  ovtOrdered := by simp [Tree.Ordered, KeySorted, newStore]
  ovtNonempty := by simp [ListsNonempty, newStore, Tree.get]
  listed := by simp [ovtCount, newStore, Tree.get, oldestKey, Tree.left]

section Structure

variable {s s' : Store}

/-- Two entries of `indexes` with one pointer are one entry. -/
theorem Inv.entry_eq (hs : s.Inv) {x y : Sigma fun _ : String => Ptr}
    (hx : x ∈ s.indexes.entries) (hy : y ∈ s.indexes.entries) (h : x.2 = y.2) : x = y :=
  List.inj_on_of_nodup_map hs.nodup hx hy h

theorem mem_ptrs {p : Ptr} : p ∈ s.ptrs ↔ ∃ src, ⟨src, p⟩ ∈ s.indexes.entries := by
  simp [ptrs]

/-- An entry of `indexes` splits the pointer list around it. -/
theorem Inv.split (hs : s.Inv) {src : String} {p : Ptr}
    (hp : ⟨src, p⟩ ∈ s.indexes.entries) :
    ∃ l₁ l₂, s.indexes.entries = l₁ ++ ⟨src, p⟩ :: l₂ ∧
      p ∉ l₁.map (·.2) ∧ p ∉ l₂.map (·.2) := by
  obtain ⟨l₁, l₂, hsplit⟩ := List.append_of_mem hp
  have hnd := hs.nodup
  rw [ptrs, hsplit, List.map_append, List.map_cons, List.nodup_append, List.nodup_cons] at hnd
  refine ⟨l₁, l₂, hsplit, fun h => hnd.2.2 h (.head _), hnd.2.1.1⟩

theorem map_size_update_of_not_mem {trees : Ptr → Tree EnvelopeWrapper}
    {l : List (Sigma fun _ : String => Ptr)} {p : Ptr} (T : Tree EnvelopeWrapper)
    (h : p ∉ l.map (·.2)) :
    (l.map fun x => (Function.update trees p T x.2).size) = l.map fun x => (trees x.2).size :=
  List.map_congr_left fun x hx => by
    rw [Function.update_noteq]
    rintro rfl
    exact h (List.mem_map_of_mem _ hx)

theorem flatMap_update_of_not_mem {trees : Ptr → Tree EnvelopeWrapper}
    {l : List (Sigma fun _ : String => Ptr)} {p : Ptr} (T : Tree EnvelopeWrapper)
    (h : p ∉ l.map (·.2)) :
    (l.flatMap fun x => (Function.update trees p T x.2).toList) =
      l.flatMap fun x => (trees x.2).toList := by
  refine List.flatMap_congr fun x hx => ?_
  rw [Function.update_noteq]
  rintro rfl
  exact h (List.mem_map_of_mem _ hx)

/-- **Replacing the tree of one index.** -/
theorem Inv.replaceTree (hs : s.Inv) {src : String} {p : Ptr} {T : Tree EnvelopeWrapper}
    (hp : ⟨src, p⟩ ∈ s.indexes.entries) (hT : IndexTree src T)
    (hidx : s'.indexes = s.indexes) (hnext : s'.nextPtr = s.nextPtr)
    (htrees : s'.trees = Function.update s.trees p T)
    (hcount : s'.count = s.count + T.size - (s.trees p).size)
    (hord : s'.oldestValueTree.Ordered) (hne : ListsNonempty s'.oldestValueTree)
    (hovt : ∀ k q, ovtCount s'.oldestValueTree k q =
      if q = p then (if oldestKey T = some k then 1 else 0)
      else ovtCount s.oldestValueTree k q) :
    s'.Inv := by
  have hptrs : s'.ptrs = s.ptrs := by rw [ptrs, hidx, ptrs]
  obtain ⟨l₁, l₂, hsplit, h₁, h₂⟩ := hs.split hp
  refine ⟨hptrs ▸ hs.nodup, hptrs ▸ hnext ▸ hs.fresh, fun x hx => ?_, ?_, hord, hne,
    fun k q => ?_⟩
  · rw [hidx] at hx
    rw [htrees]
    by_cases hxp : x.2 = p
    · obtain rfl := hs.entry_eq hx hp hxp
      simpa using hT
    · rw [Function.update_noteq hxp]
      exact hs.trees x hx
  · have hc := hs.count
    simp only [held, ptrs, hidx, htrees, hsplit, List.map_append, List.map_cons,
      List.sum_append, List.sum_cons, List.map_map, Function.comp_def,
      map_size_update_of_not_mem T h₁, map_size_update_of_not_mem T h₂,
      Function.update_same] at hc ⊢
    rw [hcount, hc]
    push_cast
    omega
  · rw [hovt, hptrs, htrees]
    by_cases hq : q = p
    · subst hq
      simp [mem_ptrs.2 ⟨src, hp⟩]
    · rw [if_neg hq, hs.listed, Function.update_noteq hq]

/-- **Adding an index under a fresh pointer.** -/
theorem Inv.addIndex (hs : s.Inv) {index : String} {T : Tree EnvelopeWrapper}
    (hnew : s.indexes.lookup index = none) (hT : IndexTree index T)
    (hidx : s'.indexes = s.indexes.insert index s.nextPtr) (hnext : s'.nextPtr = s.nextPtr + 1)
    (htrees : s'.trees = Function.update s.trees s.nextPtr T)
    (hcount : s'.count = s.count + T.size)
    (hord : s'.oldestValueTree.Ordered) (hne : ListsNonempty s'.oldestValueTree)
    (hovt : ∀ k q, ovtCount s'.oldestValueTree k q =
      if q = s.nextPtr then (if oldestKey T = some k then 1 else 0)
      else ovtCount s.oldestValueTree k q) :
    s'.Inv := by
  have hentries : s'.indexes.entries = ⟨index, s.nextPtr⟩ :: s.indexes.entries := by
    rw [hidx, AList.insert_entries_of_neg (AList.lookup_eq_none.1 hnew)]
  have hptrs : s'.ptrs = s.nextPtr :: s.ptrs := by rw [ptrs, hentries]; rfl
  have hfresh : s.nextPtr ∉ s.ptrs := fun h => lt_irrefl _ (hs.fresh _ h)
  refine ⟨?_, ?_, fun x hx => ?_, ?_, hord, hne, fun k q => ?_⟩
  · rw [hptrs]; exact List.nodup_cons.2 ⟨hfresh, hs.nodup⟩
  · intro p hp
    rw [hptrs] at hp
    rw [hnext]
    rcases List.mem_cons.1 hp with rfl | hp
    · exact Nat.lt_succ_self _
    · exact Nat.lt_succ_of_lt (hs.fresh p hp)
  · rw [hentries] at hx
    rw [htrees]
    rcases List.mem_cons.1 hx with rfl | hx
    · simpa using hT
    · have hne : x.2 ≠ s.nextPtr := fun h => hfresh (h ▸ List.mem_map_of_mem _ hx)
      rw [Function.update_noteq hne]
      exact hs.trees x hx
  · have hfresh' : s.nextPtr ∉ s.indexes.entries.map (·.2) := hfresh
    simp only [hcount, hs.count, held, ptrs, hentries, htrees, List.map_cons, List.sum_cons,
      List.map_map, Function.comp_def, Function.update_same,
      map_size_update_of_not_mem T hfresh']
    push_cast
    omega
  · rw [hovt, hptrs, htrees]
    by_cases hq : q = s.nextPtr
    · subst hq; simp
    · rw [if_neg hq, hs.listed, Function.update_noteq hq]
      simp [hq]

/-- The key of a split entry occurs on neither side. -/
theorem keys_of_split {src : String} {p : Ptr} {l₁ l₂ : List (Sigma fun _ : String => Ptr)}
    (hsplit : s.indexes.entries = l₁ ++ ⟨src, p⟩ :: l₂) : src ∉ l₁.keys ∧ src ∉ l₂.keys := by
  have hnd := s.indexes.nodupKeys
  rw [hsplit, List.NodupKeys, List.keys, List.map_append, List.map_cons, List.nodup_append,
    List.nodup_cons] at hnd
  exact ⟨fun h => hnd.2.2 h (.head _), hnd.2.1.1⟩

theorem entries_erase_of_split {src : String} {p : Ptr}
    {l₁ l₂ : List (Sigma fun _ : String => Ptr)}
    (hsplit : s.indexes.entries = l₁ ++ ⟨src, p⟩ :: l₂) :
    (s.indexes.erase src).entries = l₁ ++ l₂ := by
  change List.kerase src s.indexes.entries = _
  rw [hsplit, List.kerase_append_right (keys_of_split hsplit).1,
    List.kerase_cons_eq (show src = (⟨src, p⟩ : Sigma fun _ : String => Ptr).1 from rfl)]

/-- **Dropping the index whose tree became empty.** -/
theorem Inv.dropIndex (hs : s.Inv) {src : String} {p : Ptr} {T : Tree EnvelopeWrapper}
    (hp : ⟨src, p⟩ ∈ s.indexes.entries)
    (hidx : s'.indexes = s.indexes.erase src) (hnext : s'.nextPtr = s.nextPtr)
    (htrees : s'.trees = Function.update s.trees p T)
    (hcount : s'.count = s.count - (s.trees p).size)
    (hord : s'.oldestValueTree.Ordered) (hne : ListsNonempty s'.oldestValueTree)
    (hovt : ∀ k q, ovtCount s'.oldestValueTree k q =
      if q = p then 0 else ovtCount s.oldestValueTree k q) :
    s'.Inv := by
  obtain ⟨l₁, l₂, hsplit, h₁, h₂⟩ := hs.split hp
  have hentries : s'.indexes.entries = l₁ ++ l₂ := by
    rw [hidx, entries_erase_of_split hsplit]
  have hnd := hs.nodup
  rw [ptrs, hsplit, List.map_append, List.map_cons, List.nodup_middle] at hnd
  have hptrs : ∀ q, q ∈ s'.ptrs ↔ q ∈ s.ptrs ∧ q ≠ p := by
    intro q
    simp only [ptrs, hentries, hsplit, List.map_append, List.map_cons, List.mem_append,
      List.mem_cons]
    constructor
    · rintro (h | h) <;> refine ⟨by tauto, ?_⟩ <;> rintro rfl <;> contradiction
    · rintro ⟨h | rfl | h, hq⟩ <;> tauto
  refine ⟨?_, fun q hq => hnext ▸ hs.fresh q ((hptrs q).1 hq).1, fun x hx => ?_, ?_, hord, hne,
    fun k q => ?_⟩
  · rw [ptrs, hentries, List.map_append]; exact hnd.of_cons
  · have hx' : x ∈ s.indexes.entries := by
      rw [hsplit]; rw [hentries] at hx; simp only [List.mem_append, List.mem_cons] at hx ⊢; tauto
    have hxp : x.2 ≠ p := fun h =>
      ((hptrs p).1 (by rw [ptrs, List.mem_map]; exact ⟨x, hidx ▸ hx, h⟩)).2 rfl
    rw [htrees, Function.update_noteq hxp]
    exact hs.trees x hx'
  · have hc := hs.count
    simp only [held, ptrs, hentries, htrees, hsplit, List.map_append, List.map_cons,
      List.sum_append, List.sum_cons, List.map_map, Function.comp_def,
      map_size_update_of_not_mem T h₁, map_size_update_of_not_mem T h₂] at hc ⊢
    rw [hcount, hc]
    push_cast
    omega
  · rw [hovt, htrees]
    by_cases hq : q = p
    · subst hq; simp [hptrs]
    · rw [if_neg hq, hs.listed, Function.update_noteq hq]
      simp [hptrs, hq]

end Structure

end Store

end LogCache
