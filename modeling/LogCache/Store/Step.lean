import LogCache.Store.Invariant

/-!
# One `Put`, phase by phase

What `evict`, `insert`, `putIndex` and `truncate` do to a store that satisfies `Store.Inv`,
each stated once: the invariant is kept, and the counters move as the accounting and the
eviction order need.
-/

namespace LogCache

namespace Store

variable {s : Store}

/-- Every index tree holds at most `maxPerSource` envelopes. -/
def Bounded (s : Store) : Prop := ∀ p ∈ s.ptrs, ((s.trees p).size : Int) ≤ s.maxPerSource

/-- Not a function of the source: whether `Put` replaces an envelope, because the timestamp is
    still a key of the index after the per-source eviction. -/
def overwrites (s : Store) (e : Envelope) (index : String) : Bool :=
  match s.indexes.lookup index with
  | none => false
  | some t =>
      match s.evict (s.trees t) with
      | some (_, _, tree, _) => (tree.get e.timestamp).isSome
      | none => false

/-! ### The tree of one index -/

theorem size_pos_of_cons {T : Tree EnvelopeWrapper} {x : Int × EnvelopeWrapper} {rest}
    (h : T.toList = x :: rest) : T.size = rest.length + 1 := by
  rw [Tree.size_eq_length, h, List.length_cons]

/-- Removing the smallest key of an ordered tree leaves the rest of its list. -/
theorem toList_remove_head {T : Tree EnvelopeWrapper} (hT : T.Ordered) {m : Int}
    {w : EnvelopeWrapper} {rest} (h : T.toList = (m, w) :: rest) :
    (T.remove m).toList = rest := by
  have hsorted : KeySorted T.toList := hT
  rw [h] at hsorted
  rw [Tree.toList_remove hT, h, List.filter_cons_of_neg (by simp)]
  simpa using filter_ne_of_lt (KeySorted.cons_iff.1 hsorted).1

/-- The head of an ordered tree's list holds its least key. -/
theorem head_le {T : Tree EnvelopeWrapper} (hT : T.Ordered) {m : Int} {w : EnvelopeWrapper}
    {rest} (h : T.toList = (m, w) :: rest) : ∀ y ∈ T.toList, m ≤ y.1 := by
  have hsorted : KeySorted T.toList := hT
  rw [h] at hsorted ⊢
  rintro y (_ | ⟨_, hy⟩)
  · exact le_rfl
  · exact ((KeySorted.cons_iff.1 hsorted).1 y hy).le

/-- `evict` on a non-empty tree: its oldest key, and the tree without it at quota. -/
theorem evict_of_cons {T : Tree EnvelopeWrapper} {m : Int} {w : EnvelopeWrapper} {rest}
    (h : T.toList = (m, w) :: rest) :
    s.evict T = if (T.size : Int) ≥ s.maxPerSource
      then some ((m, true), (T.size : Int), T.remove m, s.expired + 1)
      else some ((m, true), (T.size : Int), T, s.expired) := by
  have hsize : 0 < T.size := by rw [size_pos_of_cons h]; omega
  have hleft : T.left = some (m, w) := by rw [Tree.left_eq_head, h]; rfl
  simp only [evict, hsize, hleft]
  split_ifs <;> rfl

/-- `evict` on the empty tree of a new index: nothing to remove. -/
theorem evict_nil (s : Store) :
    s.evict .nil = some ((0, false), 0, .nil,
      if (0 : Int) ≥ s.maxPerSource then s.expired + 1 else s.expired) := by
  by_cases h : (0 : Int) ≥ s.maxPerSource <;> simp [evict, Tree.size, Tree.remove, h]

/-- **`insert` once `evict` is known**: put, count, and move in `oldestValueTree`. -/
theorem insert_eq {p : Ptr} {e : Envelope} {index : String} {oldest newOldest preSize : Int}
    {hasOldest : Bool} {T : Tree EnvelopeWrapper} {expired : Nat} {w : EnvelopeWrapper}
    (hev : s.evict (s.trees p) = some ((oldest, hasOldest), preSize, T, expired))
    (hleft : (T.put e.timestamp ⟨e, index⟩).left = some (newOldest, w)) :
    s.insert p e index = some { s with
      trees := Function.update s.trees p (T.put e.timestamp ⟨e, index⟩)
      count := s.count + (T.put e.timestamp ⟨e, index⟩).size - preSize
      expired := expired
      oldestValueTree :=
        if oldest ≠ newOldest ∧ hasOldest then
          treeStoragePut (treeStorageRemove s.oldestValueTree oldest p) newOldest p
        else s.oldestValueTree } := by
  simp [insert, hev, hleft]

/-- An ordered tree after `Put` has a leftmost entry, the head of its list. -/
theorem left_put {T : Tree EnvelopeWrapper} (hT : T.Ordered) (key : Int) (value : EnvelopeWrapper) :
    ∃ x rest, (T.put key value).toList = x :: rest ∧ (T.put key value).left = some x := by
  obtain ⟨x, rest, h⟩ := List.exists_cons_of_ne_nil
    (Tree.toList_put hT key value ▸ (putEntry_ne_nil : putEntry T.toList key value ≠ []))
  exact ⟨x, rest, h, by rw [Tree.left_eq_head, h]; rfl⟩

/-- The tree `Put` builds for an index keeps `IndexTree`. -/
theorem IndexTree.put {index : String} {T : Tree EnvelopeWrapper} (hT : T.Ordered)
    (hw : ∀ x ∈ T.toList, x.2.index = index ∧ x.2.e.timestamp = x.1) (e : Envelope) :
    IndexTree index (T.put e.timestamp ⟨e, index⟩) where
  ordered := hT.put _ _
  nonempty := by rw [Tree.toList_put hT]; exact putEntry_ne_nil
  wrapper := by
    intro x hx
    rw [Tree.toList_put hT, mem_putEntry hT] at hx
    rcases hx with rfl | ⟨hx, -⟩
    · exact ⟨rfl, rfl⟩
    · exact hw x hx

/-! ### `oldestValueTree` upkeep -/

/-- Moving a tree listed once, under `m`, to `m'`. -/
theorem ovtCount_move {ovt : Tree (List Ptr)} (ho : ovt.Ordered) {p : Ptr} {m m' : Int}
    (hp : ∀ k, ovtCount ovt k p = if m = k then 1 else 0) (k : Int) (q : Ptr) :
    ovtCount (treeStoragePut (treeStorageRemove ovt m p) m' p) k q =
      if q = p then (if m' = k then 1 else 0) else ovtCount ovt k q := by
  rw [ovtCount_treeStoragePut (ordered_treeStorageRemove ho _ _), ovtCount_treeStorageRemove ho]
  by_cases hq : q = p
  · subst hq
    simp only [hp, and_true, if_true]
    split_ifs <;> omega
  · simp [hq]

/-- The pointer of an index is listed under its tree's oldest key. -/
theorem Inv.listed_of_mem (hs : s.Inv) {src : String} {p : Ptr}
    (hp : ⟨src, p⟩ ∈ s.indexes.entries) {m : Int} (hm : oldestKey (s.trees p) = some m) (k : Int) :
    ovtCount s.oldestValueTree k p = if m = k then 1 else 0 := by
  rw [hs.listed, hm]
  simp [mem_ptrs.2 ⟨src, hp⟩]

/-- Replacing a tree by one no larger, and dropping indexes, keeps the per-source bound. -/
theorem Bounded.update {s' : Store} (hb : s.Bounded) (hptrs : ∀ q ∈ s'.ptrs, q ∈ s.ptrs)
    (hmax : s'.maxPerSource = s.maxPerSource) {p : Ptr} {T : Tree EnvelopeWrapper}
    (htrees : s'.trees = Function.update s.trees p T) (hT : T.size ≤ (s.trees p).size) :
    s'.Bounded := by
  intro q hq
  rw [htrees, hmax]
  by_cases hqp : q = p
  · subst hqp
    have := hb q (hptrs q hq)
    rw [Function.update_same]
    omega
  · rw [Function.update_noteq hqp]
    exact hb q (hptrs q hq)

/-! ### Lines 66–102 of `Put` -/

/-- What lines 66–102 of `Put` keep and change. -/
structure PutIndexStep (s : Store) (e : Envelope) (index : String) (s' : Store) : Prop where
  inv : s'.Inv
  size : s'.size = s.size
  maxPerSource : s'.maxPerSource = s.maxPerSource
  count_le : s'.count ≤ s.count + 1
  stored : ∃ p, s'.indexes.lookup index = some p ∧
    (s'.trees p).get e.timestamp = some ⟨e, index⟩
  evicts : ∀ p, s.indexes.lookup index = some p → s.maxPerSource ≤ (s.trees p).size →
    ∃ m w, (m, w) ∈ (s.trees p).toList ∧ (∀ y ∈ (s.trees p).toList, m ≤ y.1) ∧
      s'.trees p = ((s.trees p).remove m).put e.timestamp ⟨e, index⟩
  bounded : 1 ≤ s.maxPerSource → s.Bounded → s'.Bounded
  accounting : 1 ≤ s.maxPerSource →
    s'.count + s'.expired + (if s.overwrites e index then 1 else 0) = s.count + s.expired + 1

/-- **`Put` into an existing index.** -/
theorem Inv.putIndex_of_lookup (hs : s.Inv) {index : String} {p : Ptr}
    (hp : s.indexes.lookup index = some p) (e : Envelope) :
    ∃ s', s.putIndex e index = some s' ∧ PutIndexStep s e index s' := by
  have hmem : ⟨index, p⟩ ∈ s.indexes.entries := AList.mem_lookup_iff.1 hp
  have hT : IndexTree index (s.trees p) := hs.trees _ hmem
  obtain ⟨⟨m, w₀⟩, rest, hlist⟩ := List.exists_cons_of_ne_nil hT.nonempty
  have hsize := size_pos_of_cons hlist
  -- the tree after the per-source eviction
  have hev : s.evict (s.trees p) = some ((m, true), ((s.trees p).size : Int),
      if ((s.trees p).size : Int) ≥ s.maxPerSource then (s.trees p).remove m else s.trees p,
      if ((s.trees p).size : Int) ≥ s.maxPerSource then s.expired + 1 else s.expired) := by
    rw [evict_of_cons hlist]; split_ifs <;> rfl
  generalize hT₁ : (if ((s.trees p).size : Int) ≥ s.maxPerSource
    then (s.trees p).remove m else s.trees p) = T₁ at hev
  have hT₁list : T₁.toList = if ((s.trees p).size : Int) ≥ s.maxPerSource
      then rest else (m, w₀) :: rest := by
    subst hT₁; split_ifs
    · exact toList_remove_head hT.ordered hlist
    · exact hlist
  have hT₁ord : T₁.Ordered := by
    subst hT₁; split_ifs
    · exact hT.ordered.remove m
    · exact hT.ordered
  have hT₁sub : ∀ x ∈ T₁.toList, x ∈ (s.trees p).toList := by
    intro x hx; rw [hT₁list] at hx; rw [hlist]; split_ifs at hx <;> simp_all
  -- the tree after insertion
  obtain ⟨⟨m', w'⟩, rest', hlist₂, hleft₂⟩ := left_put hT₁ord e.timestamp ⟨e, index⟩
  have hT₁size : T₁.size + (if ((s.trees p).size : Int) ≥ s.maxPerSource then 1 else 0) =
      (s.trees p).size := by
    rw [Tree.size_eq_length, hT₁list, hsize]; split_ifs <;> simp
  have hT₂size := Tree.size_put hT₁ord e.timestamp ⟨e, index⟩
  have hov : s.overwrites e index = decide (e.timestamp ∈ T₁.toList.map Prod.fst) := by
    simp only [overwrites, hp, hev]
    rw [Bool.eq_iff_iff, Tree.get_isSome_iff hT₁ord]
    simp
  have hloc : s.putIndex e index = s.insert p e index := by simp only [putIndex, locate, hp]
  refine ⟨_, hloc.trans (insert_eq hev hleft₂), ⟨?_, rfl, rfl, ?_, ⟨p, hp, ?_⟩, ?_, ?_, ?_⟩⟩
  · have hm : oldestKey (s.trees p) = some m := by rw [oldestKey_eq_head, hlist]; rfl
    have hm' : oldestKey (T₁.put e.timestamp ⟨e, index⟩) = some m' := by
      rw [oldestKey, hleft₂]; rfl
    refine hs.replaceTree hmem (IndexTree.put hT₁ord (fun x hx => hT.wrapper x (hT₁sub x hx)) e)
      rfl rfl rfl rfl ?_ ?_ fun k q => ?_
    · dsimp only; split
      · exact ordered_treeStoragePut (ordered_treeStorageRemove hs.ovtOrdered _ _) _ _
      · exact hs.ovtOrdered
    · dsimp only; split
      · exact listsNonempty_treeStoragePut (ordered_treeStorageRemove hs.ovtOrdered _ _)
          (listsNonempty_treeStorageRemove hs.ovtOrdered hs.ovtNonempty _ _) _ _
      · exact hs.ovtNonempty
    · dsimp only
      rw [hm']
      simp only [Option.some.injEq]
      by_cases hmove : m = m'
      · subst hmove
        simp only [ne_eq, not_true_eq_false, false_and, if_false]
        by_cases hq : q = p
        · subst hq; rw [hs.listed_of_mem hmem hm, if_pos rfl]
        · rw [if_neg hq]
      · simp only [ne_eq, hmove, not_false_eq_true, and_true, if_true]
        exact ovtCount_move hs.ovtOrdered (hs.listed_of_mem hmem hm) k q
  · show s.count + _ - _ ≤ s.count + 1
    split_ifs at hT₁size hT₂size <;> omega
  · show (Function.update s.trees p _ p).get _ = _
    rw [Function.update_same, Tree.get_put hT₁ord, if_pos rfl]
  · intro p' hp' hmax
    obtain rfl : p' = p := Option.some.inj (hp'.symm.trans hp)
    refine ⟨m, w₀, by rw [hlist]; exact .head _, head_le hT.ordered hlist, ?_⟩
    show Function.update s.trees p' _ p' = _
    rw [Function.update_same, ← hT₁, if_pos hmax]
  · intro _ hb q hq
    show ((Function.update s.trees p _ q).size : Int) ≤ s.maxPerSource
    by_cases hqp : q = p
    · subst hqp
      rw [Function.update_same]
      have := hb q hq
      split_ifs at hT₁size hT₂size <;> omega
    · rw [Function.update_noteq hqp]; exact hb q hq
  · intro hmax
    show s.count + _ - _ + ((if _ then s.expired + 1 else s.expired : Nat) : Int) + _ = _
    simp only [hov, decide_eq_true_eq]
    split_ifs at hT₁size hT₂size ⊢ <;> push_cast <;> omega

/-- `insert` into the empty tree of a new index. -/
theorem insert_of_nil {p : Ptr} {e : Envelope} {index : String} (h : s.trees p = .nil) :
    s.insert p e index = some { s with
      trees := Function.update s.trees p (Tree.nil.put e.timestamp ⟨e, index⟩)
      count := s.count + 1
      expired := if (0 : Int) ≥ s.maxPerSource then s.expired + 1 else s.expired } := by
  have hev : s.evict (s.trees p) = some ((0, false), 0, .nil,
      if (0 : Int) ≥ s.maxPerSource then s.expired + 1 else s.expired) := by
    rw [h]; exact evict_nil s
  rw [insert_eq hev rfl]
  simp [Tree.size]

/-- **`Put` into a new index**: a fresh tree holding the one envelope. -/
theorem Inv.putIndex_of_lookup_none (hs : s.Inv) {index : String}
    (hnew : s.indexes.lookup index = none) (e : Envelope) :
    ∃ s', s.putIndex e index = some s' ∧ PutIndexStep s e index s' := by
  have hloc : s.putIndex e index = Store.insert { s with
      indexes := s.indexes.insert index s.nextPtr
      trees := Function.update s.trees s.nextPtr .nil
      nextPtr := s.nextPtr + 1
      oldestValueTree := treeStoragePut s.oldestValueTree e.timestamp s.nextPtr }
      s.nextPtr e index := by
    simp only [putIndex, locate, hnew]
  have hfresh : s.nextPtr ∉ s.ptrs := fun h => lt_irrefl _ (hs.fresh _ h)
  have hT : IndexTree index (Tree.nil.put e.timestamp ⟨e, index⟩) :=
    IndexTree.put (by simp [Tree.Ordered, KeySorted]) (by simp) e
  refine ⟨_, hloc.trans (insert_of_nil (Function.update_same _ _ _)),
    ⟨?_, rfl, rfl, ?_, ⟨s.nextPtr, ?_, ?_⟩, fun p hp => by simp [hnew] at hp, ?_, ?_⟩⟩
  · refine hs.addIndex hnew hT rfl rfl (Function.update_idem _ _ _) (by simp [Tree.size])
      (ordered_treeStoragePut hs.ovtOrdered _ _)
      (listsNonempty_treeStoragePut hs.ovtOrdered hs.ovtNonempty _ _) fun k q => ?_
    rw [ovtCount_treeStoragePut hs.ovtOrdered]
    by_cases hq : q = s.nextPtr
    · subst hq
      rw [hs.listed]
      simp [hfresh, oldestKey, Tree.put, Tree.left, eq_comm]
    · simp [hq]
  · exact le_rfl
  · exact AList.lookup_insert _
  · show (Function.update (Function.update s.trees s.nextPtr .nil) s.nextPtr _ _).get _ = _
    simp [Tree.put, Tree.get]
  · intro hmax hb q hq
    simp only [ptrs, AList.insert_entries_of_neg (AList.lookup_eq_none.1 hnew), List.map_cons,
      List.mem_cons] at hq
    show ((Function.update (Function.update s.trees s.nextPtr .nil) s.nextPtr _ q).size : Int) ≤
      s.maxPerSource
    rw [Function.update_idem]
    rcases hq with rfl | hq
    · simpa [Tree.size, Tree.put] using hmax
    · rw [Function.update_noteq (ne_of_mem_of_not_mem hq hfresh)]
      exact hb q hq
  · intro hmax
    have : ¬(0 : Int) ≥ s.maxPerSource := by omega
    simp [overwrites, hnew, this]
    omega

/-- **Lines 66–102 of `Put`** on a store satisfying the invariant. -/
theorem Inv.putIndex (hs : s.Inv) (e : Envelope) (index : String) :
    ∃ s', s.putIndex e index = some s' ∧ PutIndexStep s e index s' := by
  cases hp : s.indexes.lookup index with
  | none => exact hs.putIndex_of_lookup_none hp e
  | some p => exact hs.putIndex_of_lookup hp e

/-! ### `truncate` -/

/-- Some index exists while the store holds an envelope. -/
theorem Inv.exists_entry (hs : s.Inv) (h : 0 < s.count) : ∃ x, x ∈ s.indexes.entries := by
  cases hx : s.indexes.entries with
  | nil => rw [hs.count, held, ptrs, hx] at h; simp at h
  | cons x _ => exact ⟨x, .head _⟩

/-- The store holds an envelope while it has an index. -/
theorem Inv.count_pos (hs : s.Inv) {x : Sigma fun _ : String => Ptr}
    (hx : x ∈ s.indexes.entries) : 0 < s.count := by
  obtain ⟨y, rest, hy⟩ := List.exists_cons_of_ne_nil (hs.trees x hx).nonempty
  rw [hs.count, held_eq_length]
  exact_mod_cast List.length_pos_of_mem (List.mem_flatMap.2 ⟨x, hx, hy ▸ List.mem_cons_self _ _⟩)

/-- A listed tree is the tree of an index, listed under its oldest key. -/
theorem Inv.mem_of_ovtCount_pos (hs : s.Inv) {k : Int} {q : Ptr}
    (h : 0 < ovtCount s.oldestValueTree k q) : q ∈ s.ptrs ∧ oldestKey (s.trees q) = some k := by
  rw [hs.listed] at h
  by_contra hc
  rw [if_neg hc] at h
  exact lt_irrefl _ h

/-- No index holds more than the store's `count`. -/
theorem Inv.size_le_count (hs : s.Inv) {src : String} {p : Ptr}
    (hp : ⟨src, p⟩ ∈ s.indexes.entries) : ((s.trees p).size : Int) ≤ s.count := by
  obtain ⟨l₁, l₂, hsplit, -, -⟩ := hs.split hp
  rw [hs.count, held_eq_length, contents, hsplit, List.flatMap_append, List.flatMap_cons,
    Tree.size_eq_length]
  simp only [List.length_append]
  omega

/-- The pointer of an index is listed under its oldest key. -/
theorem Inv.listed_pos (hs : s.Inv) {x : Sigma fun _ : String => Ptr}
    (hx : x ∈ s.indexes.entries) {y : Int × EnvelopeWrapper} {rest}
    (hy : (s.trees x.2).toList = y :: rest) : 0 < ovtCount s.oldestValueTree y.1 x.2 := by
  rw [hs.listed, if_pos ⟨List.mem_map_of_mem _ hx, by rw [oldestKey_eq_head, hy]; rfl⟩]
  exact Nat.one_pos

/-- `oldestValueTree.Left()` does not panic while the store holds an envelope. -/
theorem Inv.left_isSome (hs : s.Inv) (h : 0 < s.count) :
    ∃ key p, treeStorageLeft s.oldestValueTree = some (key, p) := by
  obtain ⟨x, hx⟩ := hs.exists_entry h
  obtain ⟨y, rest, hy⟩ := List.exists_cons_of_ne_nil (hs.trees x hx).nonempty
  exact treeStorageLeft_isSome hs.ovtOrdered hs.ovtNonempty (hs.listed_pos hx hy)

/-- **The key `treeStorage.Left` returns is at most every key held.** -/
theorem Inv.le_of_treeStorageLeft (hs : s.Inv) {key : Int} {p : Ptr}
    (hl : treeStorageLeft s.oldestValueTree = some (key, p)) :
    ∀ y ∈ s.contents, key ≤ y.1 := by
  intro y hy
  obtain ⟨x, hx, hyx⟩ := List.mem_flatMap.1 hy
  obtain ⟨z, rest, hlist⟩ := List.exists_cons_of_ne_nil (hs.trees x hx).nonempty
  have hz : key ≤ z.1 := (treeStorageLeft_spec hs.ovtOrdered hl).2 _ _ (hs.listed_pos hx hlist)
  exact hz.trans (head_le (hs.trees x hx).ordered hlist y hyx)

/-- `truncate` when the dropped envelope was the last of its index. -/
theorem truncate_of_empty {key key' : Int} {p : Ptr} {w : EnvelopeWrapper}
    (hlt : s.size < s.count) (hl : treeStorageLeft s.oldestValueTree = some (key, p))
    (hleft : (s.trees p).left = some (key', w)) (hempty : ((s.trees p).remove key).size = 0) :
    s.truncate = some { s with
      count := s.count - 1
      expired := s.expired + 1
      oldestValueTree := treeStorageRemove s.oldestValueTree key p
      trees := Function.update s.trees p ((s.trees p).remove key)
      indexes := s.indexes.erase w.index } := by
  simp [truncate, not_le.2 hlt, hl, hleft, hempty]

/-- `truncate` when the index keeps envelopes: its tree is listed again under its new oldest
    key. -/
theorem truncate_of_left {key key' newKey : Int} {p : Ptr} {w w' : EnvelopeWrapper}
    (hlt : s.size < s.count) (hl : treeStorageLeft s.oldestValueTree = some (key, p))
    (hleft : (s.trees p).left = some (key', w))
    (hleft' : ((s.trees p).remove key).left = some (newKey, w')) :
    s.truncate = some { s with
      count := s.count - 1
      expired := s.expired + 1
      oldestValueTree := treeStoragePut (treeStorageRemove s.oldestValueTree key p) newKey p
      trees := Function.update s.trees p ((s.trees p).remove key) } := by
  have hsize : ((s.trees p).remove key).size ≠ 0 := by
    rw [Tree.left_eq_head] at hleft'
    rw [Tree.size_eq_length]
    cases h : ((s.trees p).remove key).toList <;> simp_all
  simp [truncate, not_le.2 hlt, hl, hleft, hleft', hsize]

/-- What `truncate` does above the size bound: it drops the envelope `(key, w)`. -/
structure TruncateStep (s s' : Store) (key : Int) (w : EnvelopeWrapper) : Prop where
  inv : s'.Inv
  size : s'.size = s.size
  maxPerSource : s'.maxPerSource = s.maxPerSource
  count : s'.count = s.count - 1
  expired : s'.expired = s.expired + 1
  contents : s.contents.Perm ((key, w) :: s'.contents)
  least : ∀ y ∈ s.contents, key ≤ y.1
  dropped : s'.indexes.lookup w.index = none ↔ ∀ y ∈ s'.contents, y.2.index ≠ w.index
  bounded : s.Bounded → s'.Bounded

/-- Beside the entry of `src`, no tree of `indexes` holds an envelope of index `src`. -/
theorem Inv.index_ne_of_split (hs : s.Inv) {src : String} {p : Ptr}
    {l₁ l₂ : List (Sigma fun _ : String => Ptr)}
    (hsplit : s.indexes.entries = l₁ ++ ⟨src, p⟩ :: l₂) :
    ∀ x ∈ l₁ ++ l₂, ∀ y ∈ (s.trees x.2).toList, y.2.index ≠ src := by
  intro x hx y hy
  have hx' : x ∈ s.indexes.entries := hsplit ▸ (List.mem_append.1 hx).elim
    (List.mem_append_left _) fun h => List.mem_append_right _ (List.mem_cons_of_mem _ h)
  rw [(hs.trees x hx').wrapper y hy |>.1]
  rintro rfl
  obtain ⟨h₁, h₂⟩ := keys_of_split hsplit
  rcases List.mem_append.1 hx with hx | hx
  · exact h₁ (List.mem_map_of_mem _ hx)
  · exact h₂ (List.mem_map_of_mem _ hx)

/-- **`truncate` above the size bound** drops the envelope of least key held, from the tree
    `oldestValueTree` names first, and that tree's index with its last envelope. -/
theorem Inv.truncate_of_lt (hs : s.Inv) (hpos : 0 < s.count) (hlt : s.size < s.count) :
    ∃ s' key w, s.truncate = some s' ∧ TruncateStep s s' key w := by
  obtain ⟨key, p, hl⟩ := hs.left_isSome hpos
  obtain ⟨hp, hkey⟩ := hs.mem_of_ovtCount_pos (treeStorageLeft_spec hs.ovtOrdered hl).1
  obtain ⟨src, hmem⟩ := mem_ptrs.1 hp
  have hT : IndexTree src (s.trees p) := hs.trees _ hmem
  obtain ⟨⟨key', w⟩, rest, hlist⟩ := List.exists_cons_of_ne_nil hT.nonempty
  obtain rfl : key' = key := by
    rw [oldestKey_eq_head, hlist] at hkey; simpa using hkey
  have hleft : (s.trees p).left = some (key', w) := by rw [Tree.left_eq_head, hlist]; rfl
  have hrest : ((s.trees p).remove key').toList = rest := toList_remove_head hT.ordered hlist
  have hwi : w.index = src := (hT.wrapper _ (by rw [hlist]; exact .head _)).1
  have hm := hs.listed_of_mem hmem hkey
  obtain ⟨l₁, l₂, hsplit, h₁, h₂⟩ := hs.split hmem
  have hcontents : s.contents = l₁.flatMap (fun x => (s.trees x.2).toList) ++
      ((key', w) :: rest ++ l₂.flatMap fun x => (s.trees x.2).toList) := by
    rw [contents, hsplit, List.flatMap_append, List.flatMap_cons, hlist]
  have hwsrc := hs.index_ne_of_split hsplit
  cases rest with
  | nil =>
      have hempty : ((s.trees p).remove key').size = 0 := by
        rw [Tree.size_eq_length, hrest]; rfl
      refine ⟨_, key', w, truncate_of_empty hlt hl hleft hempty, ?_⟩
      have hentries : (s.indexes.erase src).entries = l₁ ++ l₂ := entries_erase_of_split hsplit
      have hcontents' : (l₁ ++ l₂).flatMap
          (fun x => (Function.update s.trees p ((s.trees p).remove key') x.2).toList) =
          l₁.flatMap (fun x => (s.trees x.2).toList) ++
            l₂.flatMap (fun x => (s.trees x.2).toList) := by
        rw [List.flatMap_append, flatMap_update_of_not_mem _ h₁, flatMap_update_of_not_mem _ h₂]
      refine ⟨?_, rfl, rfl, rfl, rfl, ?_, hs.le_of_treeStorageLeft hl, ?_, ?_⟩
      · refine hs.dropIndex hmem (by rw [hwi]) rfl rfl ?_
          (ordered_treeStorageRemove hs.ovtOrdered _ _)
          (listsNonempty_treeStorageRemove hs.ovtOrdered hs.ovtNonempty _ _) fun k q => ?_
        · show s.count - 1 = s.count - ((s.trees p).size : Int)
          rw [size_pos_of_cons hlist]; rfl
        · rw [ovtCount_treeStorageRemove hs.ovtOrdered]
          by_cases hq : q = p
          · subst hq
            rw [hm]
            by_cases h : k = key'
            · subst h; simp
            · simp [h, Ne.symm h]
          · simp [hq]
      · rw [hcontents]
        simp only [contents, hwi, hentries, hcontents']
        exact List.perm_middle
      · simp only [AList.lookup_erase, true_iff]
        simp only [contents, hwi, hentries, hcontents', List.mem_append, List.mem_flatMap]
        rintro y (⟨x, hx, hy⟩ | ⟨x, hx, hy⟩)
        · exact hwsrc x (List.mem_append_left _ hx) y hy
        · exact hwsrc x (List.mem_append_right _ hx) y hy
      · refine fun hb => hb.update (fun q hq => ?_) rfl rfl (by rw [hempty]; exact Nat.zero_le _)
        simp only [ptrs, hwi, hentries, List.map_append, List.mem_append] at hq
        rw [ptrs, hsplit, List.map_append, List.mem_append]
        exact hq.imp id (List.mem_cons_of_mem _)
  | cons z rest' =>
      obtain ⟨zk, zw⟩ := z
      have hleft' : ((s.trees p).remove key').left = some (zk, zw) := by
        rw [Tree.left_eq_head, hrest]; rfl
      have hk' : oldestKey ((s.trees p).remove key') = some zk := by
        rw [oldestKey_eq_head, hrest]; rfl
      have hT' : IndexTree src ((s.trees p).remove key') :=
        ⟨hT.ordered.remove _, by rw [hrest]; exact List.cons_ne_nil _ _,
          fun x hx => hT.wrapper x (by rw [hlist]; rw [hrest] at hx; exact .tail _ hx)⟩
      have hcontents' : (s.indexes.entries.flatMap fun x =>
          (Function.update s.trees p ((s.trees p).remove key') x.2).toList) =
          l₁.flatMap (fun x => (s.trees x.2).toList) ++
            ((zk, zw) :: rest' ++ l₂.flatMap fun x => (s.trees x.2).toList) := by
        rw [hsplit, List.flatMap_append, List.flatMap_cons, flatMap_update_of_not_mem _ h₁,
          flatMap_update_of_not_mem _ h₂, Function.update_same, hrest]
      have hzi : zw.index = src := (hT.wrapper (zk, zw) (by rw [hlist]; simp)).1
      refine ⟨_, key', w, truncate_of_left hlt hl hleft hleft', ?_⟩
      refine ⟨?_, rfl, rfl, rfl, rfl, ?_, hs.le_of_treeStorageLeft hl, ?_, ?_⟩
      · refine hs.replaceTree hmem hT' rfl rfl rfl ?_
          (ordered_treeStoragePut (ordered_treeStorageRemove hs.ovtOrdered _ _) _ _)
          (listsNonempty_treeStoragePut (ordered_treeStorageRemove hs.ovtOrdered _ _)
            (listsNonempty_treeStorageRemove hs.ovtOrdered hs.ovtNonempty _ _) _ _) fun k q => ?_
        · show s.count - 1 = s.count + (((s.trees p).remove key').size : Int) - (s.trees p).size
          rw [size_pos_of_cons hlist, size_pos_of_cons hrest, List.length_cons]
          push_cast; omega
        · rw [ovtCount_move hs.ovtOrdered hm, hk']
          simp only [Option.some.injEq]
      · rw [hcontents]
        refine List.perm_middle.trans ?_
        rw [contents, hcontents']
        exact List.Perm.refl _
      · refine iff_of_false (fun h => ?_) fun h => h (zk, zw) ?_ (by rw [hzi, hwi])
        · rw [AList.lookup_eq_none, hwi] at h
          exact h (List.mem_keys_of_mem hmem)
        · show (zk, zw) ∈ s.indexes.entries.flatMap _
          rw [hcontents']; simp
      · exact fun hb => hb.update (fun q hq => hq) rfl rfl
          (by rw [Tree.size_eq_length, Tree.size_eq_length, hrest, hlist]; simp)

end Store

end LogCache
