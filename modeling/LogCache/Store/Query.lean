import LogCache.Store.Run

/-!
# `Get`

`treeTraverse` is an in-order walk of an index tree that prunes the subtrees below `start`. On
an ordered tree it is a walk over the in-order list of entries at or after `start`, which stops
at the first key at or after `end` or when the visitor asks it to (`treeTraverse_eq`). The
visitor of `Get` appends a matching envelope and then asks to stop once the result holds
`limit` envelopes. It asks after every entry in range, matching or not. So with `limit ≥ 1`
`Get` returns the first `limit` matching envelopes in key order (`get_eq_take`). With
`limit ≤ 0` it stops after the first entry in range and returns that entry's envelope if it
matches (`get_of_limit_nonpos`).

No two envelopes held share an index and a timestamp (`Inv.nodup_keys`). So a `Put` is either
kept under its timestamp or dropped by `truncate` as the oldest envelope, and then nothing of
its index and timestamp is left (`Valid.put_stored_or_oldest`). A `Get` of that one timestamp
reads back the envelope or nothing (`run_put_get`).

`Put` changes one tree, by a `Remove` and a `Put` of the envelope, and `truncate` only removes:
every envelope held was put, under the index it is held in (`Valid.contents_run`). So every
envelope a `Get` of an index returns was put to that index (`run_get_mem_puts`).
-/

namespace LogCache

namespace Store

variable {σ : Type} {s : Store}

/-! ### The walk `treeTraverse` performs -/

/-- The walk of `treeTraverse` over an in-order entry list: stop at the first key at or after
    `end`, or when the visitor returns `true`. -/
def walk (f : σ → EnvelopeWrapper → σ × Bool) (end_ : Int) :
    List (Int × EnvelopeWrapper) → σ → σ × Bool
  | [], acc => (acc, false)
  | (k, w) :: xs, acc =>
      if k ≥ end_ then (acc, true)
      else if (f acc w).2 then f acc w else walk f end_ xs (f acc w).1

theorem walk_append (f : σ → EnvelopeWrapper → σ × Bool) (end_ : Int)
    (xs ys : List (Int × EnvelopeWrapper)) (acc : σ) :
    walk f end_ (xs ++ ys) acc =
      if (walk f end_ xs acc).2 then walk f end_ xs acc
      else walk f end_ ys (walk f end_ xs acc).1 := by
  induction xs generalizing acc with
  | nil => rfl
  | cons x xs ih =>
      obtain ⟨k, w⟩ := x
      simp only [List.cons_append, walk]
      split_ifs <;> simp_all

/-- **On an ordered tree `treeTraverse` walks the in-order entries at or after `start`.** -/
theorem treeTraverse_eq (f : σ → EnvelopeWrapper → σ × Bool) (start end_ : Int)
    {T : Tree EnvelopeWrapper} (hT : T.Ordered) (acc : σ) :
    treeTraverse f start end_ T acc = walk f end_ (T.toList.filter fun x => start ≤ x.1) acc := by
  induction T generalizing acc with
  | nil => rfl
  | node l t w r ihl ihr =>
      obtain ⟨hl, hr, hlt, -⟩ := Tree.ordered_node.1 hT
      rw [Tree.toList_node, List.filter_append]
      by_cases hstart : start ≤ t
      · rw [List.filter_cons_of_pos (by simpa using hstart), walk_append, treeTraverse,
          if_pos hstart, ihl hl]
        rcases walk f end_ (l.toList.filter fun x => start ≤ x.1) acc with ⟨acc', _ | _⟩
        · by_cases hend : t ≥ end_
          · simp [walk, hend]
          · rcases hf : f acc' w with ⟨acc'', _ | _⟩
            · simp [walk, hend, hf, ihr hr]
            · simp [walk, hend, hf]
        · rfl
      · have hnil : l.toList.filter (fun x => start ≤ x.1) = [] :=
          List.filter_eq_nil_iff.2 fun x hx => by simpa using (hlt x hx).trans (not_le.1 hstart)
        rw [List.filter_cons_of_neg (by simpa using hstart), hnil, treeTraverse, if_neg hstart,
          ihr hr]
        rfl

/-! ### The visitor of `Get` -/

/-- The envelopes of an entry list that the visitor keeps: of the index, and of the type. -/
def picks (index : String) (envelopeType : Option EnvelopeType)
    (xs : List (Int × EnvelopeWrapper)) : List Envelope :=
  (xs.filter fun x => x.2.index = index ∧ checkEnvelopeType x.2.e envelopeType).map (·.2.e)

theorem picks_cons (index : String) (envelopeType : Option EnvelopeType)
    (x : Int × EnvelopeWrapper) (xs : List (Int × EnvelopeWrapper)) :
    picks index envelopeType (x :: xs) =
      if x.2.index = index ∧ checkEnvelopeType x.2.e envelopeType
      then x.2.e :: picks index envelopeType xs else picks index envelopeType xs := by
  unfold picks
  by_cases h : x.2.index = index ∧ checkEnvelopeType x.2.e envelopeType
  · rw [List.filter_cons_of_pos (by simpa using h), if_pos h, List.map_cons]
  · rw [List.filter_cons_of_neg (by simpa using h), if_neg h]

/-- **Below the limit, the walk appends the first matching envelopes in range until the limit
    is reached.** -/
theorem walk_getVisitor {index : String} {envelopeType : Option EnvelopeType} {limit : Int}
    (end_ : Int) (xs : List (Int × EnvelopeWrapper)) {res : List Envelope}
    (hres : (res.length : Int) < limit) :
    (walk (getVisitor index envelopeType limit) end_ xs res).1 =
      res ++ (picks index envelopeType (xs.takeWhile fun x => x.1 < end_)).take
        (limit - res.length).toNat := by
  induction xs generalizing res with
  | nil => simp [walk, picks]
  | cons x xs ih =>
      obtain ⟨k, w⟩ := x
      by_cases hk : k ≥ end_
      · simp [walk, hk, List.takeWhile_cons, picks]
      · rw [walk, if_neg hk, List.takeWhile_cons_of_pos (by simpa using hk), picks_cons]
        by_cases hw : w.index = index ∧ checkEnvelopeType w.e envelopeType
        · have hlen : (limit - res.length).toNat = (limit - (res ++ [w.e]).length).toNat + 1 := by
            simp only [List.length_append, List.length_singleton]
            omega
          simp only [getVisitor, if_pos hw, hlen, List.take_succ_cons]
          split_ifs with hstop
          · have : (limit - (res ++ [w.e]).length).toNat = 0 := by
              simp only [decide_eq_true_eq] at hstop
              omega
            rw [this, List.take_zero]
          · rw [ih (by simpa using hstop)]
            simp
        · simp only [getVisitor, if_neg hw, decide_eq_true_eq, if_neg (not_le.2 hres)]
          exact ih hres

/-! ### `Get` on a valid store -/

/-- The entries of index `index` with a key in `[start, end)`, in key order. -/
def inRange (s : Store) (index : String) (start end_ : Int) : List (Int × EnvelopeWrapper) :=
  match s.indexes.lookup index with
  | none => []
  | some p => (s.trees p).toList.filter fun x => start ≤ x.1 ∧ x.1 < end_

/-- The envelopes of index `index` with a key in `[start, end)` that pass the type filter, in
    key order. -/
def matching (s : Store) (index : String) (start end_ : Int)
    (envelopeType : Option EnvelopeType) : List Envelope :=
  ((s.inRange index start end_).filter fun x => checkEnvelopeType x.2.e envelopeType).map (·.2.e)

/-- On a key-sorted list, the entries below a bound are a prefix. -/
theorem takeWhile_eq_filter {xs : List (Int × EnvelopeWrapper)} (hxs : KeySorted xs)
    (end_ : Int) : xs.takeWhile (fun x => x.1 < end_) = xs.filter fun x => x.1 < end_ := by
  induction xs with
  | nil => rfl
  | cons x xs ih =>
      rw [KeySorted.cons_iff] at hxs
      by_cases hx : x.1 < end_
      · rw [List.takeWhile_cons_of_pos (by simpa using hx),
          List.filter_cons_of_pos (by simpa using hx), ih hxs.2]
      · rw [List.takeWhile_cons_of_neg (by simpa using hx),
          List.filter_cons_of_neg (by simpa using hx), eq_comm, List.filter_eq_nil_iff]
        intro y hy
        have := hxs.1 y hy
        simp only [decide_eq_true_eq]
        omega

/-- `Get` reads the walk over the entries of the index at or after `start`. -/
theorem get_eq_walk (s : Store) (index : String) (start end_ : Int)
    (envelopeType : Option EnvelopeType) (limit : Int) {p : Ptr}
    (hp : s.indexes.lookup index = some p) (hT : (s.trees p).Ordered) :
    s.get index start end_ envelopeType limit =
      (walk (getVisitor index envelopeType limit) end_
        ((s.trees p).toList.filter fun x => start ≤ x.1) []).1 := by
  rw [get, hp]
  exact congrArg Prod.fst (treeTraverse_eq _ _ _ hT [])

/-- The entries in range are the prefix below `end` of the entries at or after `start`. -/
theorem inRange_eq {index : String} {p : Ptr} (hp : s.indexes.lookup index = some p)
    (hT : (s.trees p).Ordered) (start end_ : Int) :
    s.inRange index start end_ =
      ((s.trees p).toList.filter fun x => start ≤ x.1).takeWhile fun x => x.1 < end_ := by
  simp only [inRange, hp, takeWhile_eq_filter (hT.filter _), List.filter_filter]
  exact List.filter_congr fun x _ => by rw [Bool.and_comm, Bool.decide_and]

/-- What the visitor keeps of the entries in range of a valid store's index: the ones of the
    type, since every entry of the index is of the index. -/
theorem Inv.picks_inRange (hs : s.Inv) {index : String} {p : Ptr}
    (hp : s.indexes.lookup index = some p) (start end_ : Int)
    (envelopeType : Option EnvelopeType) :
    picks index envelopeType (s.inRange index start end_) =
      s.matching index start end_ envelopeType := by
  have hT := hs.trees _ (AList.mem_lookup_iff.1 hp)
  rw [matching, picks]
  congr 1
  refine List.filter_congr fun x hx => ?_
  simp only [inRange, hp, List.mem_filter] at hx
  simp [(hT.wrapper x hx.1).1]

/-- **`Get` with `limit ≥ 1` on a valid store**: the first `limit` matching envelopes, in key
    order; the keys strictly increase. -/
theorem Valid.get_eq_take (hs : s.Valid) (index : String) (start end_ : Int)
    (envelopeType : Option EnvelopeType) {limit : Int} (hlimit : 1 ≤ limit) :
    s.get index start end_ envelopeType limit =
      (s.matching index start end_ envelopeType).take limit.toNat := by
  cases hp : s.indexes.lookup index with
  | none => simp [get, matching, inRange, hp]
  | some p =>
      have hT := (hs.inv.trees _ (AList.mem_lookup_iff.1 hp)).ordered
      rw [get_eq_walk s index start end_ envelopeType limit hp hT,
        walk_getVisitor end_ _ (by simpa using hlimit), ← inRange_eq hp hT,
        hs.inv.picks_inRange hp]
      simp

/-- The matching envelopes of a valid store come in strictly increasing timestamp order. -/
theorem Inv.matching_sorted (hs : s.Inv) (index : String) (start end_ : Int)
    (envelopeType : Option EnvelopeType) :
    ((s.matching index start end_ envelopeType).map (·.timestamp)).Pairwise (· < ·) := by
  unfold matching inRange
  cases hp : s.indexes.lookup index with
  | none => simp
  | some p =>
      have hT := hs.trees _ (AList.mem_lookup_iff.1 hp)
      have hsorted : KeySorted (((s.trees p).toList.filter fun x => start ≤ x.1 ∧ x.1 < end_).filter
          fun x => checkEnvelopeType x.2.e envelopeType) := (hT.ordered.filter _).filter _
      rw [List.map_map, List.pairwise_map]
      refine hsorted.imp_of_mem fun {a b} ha hb hab => ?_
      simp only [List.mem_filter] at ha hb
      simpa [(hT.wrapper a ha.1.1).2, (hT.wrapper b hb.1.1).2] using hab

/-- `Get` with `limit ≤ 0` on a valid store: the first entry in range, if it passes the type
    filter. -/
theorem Valid.get_of_limit_nonpos (hs : s.Valid) (index : String) (start end_ : Int)
    (envelopeType : Option EnvelopeType) {limit : Int} (hlimit : limit ≤ 0) :
    s.get index start end_ envelopeType limit =
      (((s.inRange index start end_).take 1).filter
        fun x => checkEnvelopeType x.2.e envelopeType).map (·.2.e) := by
  cases hp : s.indexes.lookup index with
  | none => simp [get, inRange, hp]
  | some p =>
      have hT := hs.inv.trees _ (AList.mem_lookup_iff.1 hp)
      rw [get_eq_walk s index start end_ envelopeType limit hp hT.ordered,
        inRange_eq hp hT.ordered]
      generalize hxs : (s.trees p).toList.filter (fun x => start ≤ x.1) = xs
      have hidx : ∀ x ∈ xs, x.2.index = index := fun x hx =>
        (hT.wrapper x (List.mem_filter.1 (hxs ▸ hx)).1).1
      cases xs with
      | nil => rfl
      | cons x xs =>
          obtain ⟨k, w⟩ := x
          have hw : w.index = index := hidx _ (List.mem_cons_self _ _)
          by_cases hk : k < end_
          · have hk' : ¬ k ≥ end_ := not_le.2 hk
            by_cases hc : checkEnvelopeType w.e envelopeType
            · simp [walk, hk', hk, getVisitor, hw, hc, List.takeWhile_cons_of_pos, hlimit,
                le_trans hlimit]
            · simp [walk, hk', hk, getVisitor, hc, List.takeWhile_cons_of_pos, hlimit]
          · simp [walk, not_lt.1 hk, List.takeWhile_cons_of_neg, hk]

/-! ### `Get` after any run -/

/-- **`Get` with `limit ≥ 1` is a bounded, ordered range query** on every store `Put` reaches
    from `NewStore` with `size ≥ 1`: the first `limit` of the envelopes of the index with a key
    in `[start, end)` that pass the type filter, whose timestamps strictly increase. -/
theorem run_get_eq_take {size maxPerSource : Int} (hsize : 1 ≤ size)
    (puts : List (Envelope × String)) (index : String) (start end_ : Int)
    (envelopeType : Option EnvelopeType) {limit : Int} (hlimit : 1 ≤ limit) :
    ∃ s, (newStore size maxPerSource).run puts = some s ∧
      s.get index start end_ envelopeType limit =
        (s.matching index start end_ envelopeType).take limit.toNat ∧
      ((s.matching index start end_ envelopeType).map (·.timestamp)).Pairwise (· < ·) := by
  obtain ⟨s, hrun, hv, -⟩ := (valid_newStore hsize maxPerSource).run (fun _ => True) trivial
    (fun _ _ _ _ _ _ _ => trivial) puts
  exact ⟨s, hrun, hv.get_eq_take index start end_ envelopeType hlimit,
    hv.inv.matching_sorted index start end_ envelopeType⟩

theorem run_get_eq_take_two :
    (1 : Int) ≤ 2 ∧ (1 : Int) ≤ 2 ∧ ∃ s, (newStore 2 2).run
      [(⟨1, "a", ∅, some .log⟩, "a"), (⟨2, "a", ∅, some .log⟩, "a")] = some s ∧
      s.get "a" 0 9999 none 2 = (s.matching "a" 0 9999 none).take (2 : Int).toNat ∧
      ((s.matching "a" 0 9999 none).map (·.timestamp)).Pairwise (· < ·) :=
  ⟨by decide, by decide, run_get_eq_take (by decide) _ _ _ _ _ (by decide)⟩

/-- **`Get` with `limit ≤ 0` returns the first envelope in range when it passes the type
    filter**, on every store `Put` reaches from `NewStore` with `size ≥ 1`: the visitor appends
    before it compares the result's length with the limit. -/
theorem run_get_of_limit_nonpos {size maxPerSource : Int} (hsize : 1 ≤ size)
    (puts : List (Envelope × String)) (index : String) (start end_ : Int)
    (envelopeType : Option EnvelopeType) {limit : Int} (hlimit : limit ≤ 0) :
    ∃ s, (newStore size maxPerSource).run puts = some s ∧
      s.get index start end_ envelopeType limit =
        (((s.inRange index start end_).take 1).filter
          fun x => checkEnvelopeType x.2.e envelopeType).map (·.2.e) := by
  obtain ⟨s, hrun, hv, -⟩ := (valid_newStore hsize maxPerSource).run (fun _ => True) trivial
    (fun _ _ _ _ _ _ _ => trivial) puts
  exact ⟨s, hrun, hv.get_of_limit_nonpos index start end_ envelopeType hlimit⟩

theorem run_get_limit_zero :
    ∃ s, (newStore 2 2).run [(⟨1, "a", ∅, some .log⟩, "a")] = some s ∧
      (s.get "a" 0 9999 none 0).length = 1 := by
  obtain ⟨s, hrun, hget⟩ : ∃ s, (newStore 2 2).run [(⟨1, "a", ∅, some .log⟩, "a")] = some s ∧
      s.get "a" 0 9999 none 0 = (((s.inRange "a" 0 9999).take 1).filter
        fun x => checkEnvelopeType x.2.e none).map (·.2.e) :=
    run_get_of_limit_nonpos (by decide) _ _ _ _ _ le_rfl
  have hlen : ((newStore 2 2).run [(⟨1, "a", ∅, some .log⟩, "a")]).map (fun s =>
      ((((s.inRange "a" 0 9999).take 1).filter fun x => checkEnvelopeType x.2.e none).map
        (·.2.e)).length) = some 1 := by decide
  rw [hrun, Option.map_some', Option.some.injEq] at hlen
  exact ⟨s, hrun, hget ▸ hlen⟩

/-! ### Reading back a `Put` -/

/-- An envelope held by a valid store sits in the tree of its own index. -/
theorem Inv.mem_contents_iff (hs : s.Inv) {k : Int} {w : EnvelopeWrapper} :
    (k, w) ∈ s.contents ↔
      ∃ p, s.indexes.lookup w.index = some p ∧ (k, w) ∈ (s.trees p).toList := by
  constructor
  · intro h
    obtain ⟨x, hx, hk⟩ := List.mem_flatMap.1 h
    have hidx := ((hs.trees x hx).wrapper _ hk).1
    exact ⟨x.2, by rw [hidx]; exact AList.mem_lookup_iff.2 hx, hk⟩
  · rintro ⟨p, hp, hk⟩
    exact List.mem_flatMap.2 ⟨_, AList.mem_lookup_iff.1 hp, hk⟩

/-- No two envelopes held share an index and a timestamp. -/
theorem Inv.nodup_keys (hs : s.Inv) : (s.contents.map fun y => (y.1, y.2.index)).Nodup := by
  rw [contents, List.map_flatMap, List.nodup_flatMap]
  refine ⟨fun x hx => ?_, ?_⟩
  · refine List.pairwise_map.2 ((hs.trees x hx).ordered.imp fun h hab => ?_)
    exact ne_of_lt h (Prod.mk.inj hab).1
  · refine (List.nodupKeys_iff_pairwise.1 s.indexes.nodupKeys).imp_of_mem fun ha hb hne => ?_
    intro z hza hzb
    obtain ⟨y, hy, rfl⟩ := List.mem_map.1 hza
    obtain ⟨y', hy', hyy⟩ := List.mem_map.1 hzb
    have h₁ := ((hs.trees _ ha).wrapper y hy).1
    have h₂ := ((hs.trees _ hb).wrapper y' hy').1
    exact hne (h₁ ▸ h₂ ▸ (congrArg Prod.snd hyy).symm)

/-- **`Put` keeps its envelope unless it was the oldest**: after a `Put` on a valid store, the
    envelope is in its index under its timestamp, or `truncate` dropped it, and then no envelope
    of that index and timestamp is left and every envelope left is at or after it. -/
theorem Valid.put_stored_or_oldest (hs : s.Valid) {e : Envelope} {index : String} {s' : Store}
    (h : s.put e index = some s') :
    (∃ p, s'.indexes.lookup index = some p ∧ (e.timestamp, ⟨e, index⟩) ∈ (s'.trees p).toList) ∨
      (e.timestamp, index) ∉ s'.contents.map (fun y => (y.1, y.2.index)) ∧
        ∀ y ∈ s'.contents, e.timestamp ≤ y.1 := by
  obtain ⟨s₁, h₁, hp⟩ := hs.inv.putIndex e index
  have ht := truncate_of_put h h₁
  obtain ⟨p, hp₁, hget⟩ := hp.stored
  have hT := (hp.inv.trees _ (AList.mem_lookup_iff.1 hp₁)).ordered
  rw [Tree.get_eq_some_iff hT] at hget
  by_cases hfit : s₁.count ≤ s₁.size
  · rw [truncate_of_le hfit] at ht
    cases ht
    exact .inl ⟨p, hp₁, hget⟩
  · obtain ⟨s'', key, w, h₂, hts⟩ :=
      hp.inv.truncate_of_lt (hp.inv.count_pos (AList.mem_lookup_iff.1 hp₁)) (not_le.1 hfit)
    rw [h₂] at ht
    cases ht
    have hmem : (e.timestamp, (⟨e, index⟩ : EnvelopeWrapper)) ∈ (key, w) :: s'.contents :=
      hts.contents.subset (hp.inv.mem_contents_iff.2 ⟨p, hp₁, hget⟩)
    rcases List.mem_cons.1 hmem with heq | hmem
    · obtain ⟨hkey, rfl⟩ := Prod.mk.inj heq
      have hnd := (hts.contents.map fun y => (y.1, y.2.index)).nodup_iff.1 hp.inv.nodup_keys
      refine .inr ⟨hkey ▸ (List.nodup_cons.1 hnd).1, fun y hy => hkey ▸ ?_⟩
      exact hts.least y (hts.contents.symm.subset (List.mem_cons_of_mem _ hy))
    · exact .inl (hts.inv.mem_contents_iff.1 hmem :)

/-- In a key-sorted list, the entries with key `k` are the one entry there. -/
theorem filter_key_eq {xs : List (Int × EnvelopeWrapper)} (hxs : KeySorted xs) {k : Int}
    {w : EnvelopeWrapper} (hk : (k, w) ∈ xs) :
    xs.filter (fun x => decide (k ≤ x.1 ∧ x.1 < k + 1)) = [(k, w)] := by
  induction xs with
  | nil => cases hk
  | cons x xs ih =>
      rw [KeySorted.cons_iff] at hxs
      rcases List.mem_cons.1 hk with rfl | hk
      · rw [List.filter_cons_of_pos (by simp), List.filter_eq_nil_iff.2 fun y hy => ?_]
        have := hxs.1 y hy
        simp only [decide_eq_true_eq]
        omega
      · have := hxs.1 _ hk
        rw [List.filter_cons_of_neg (by simp only [decide_eq_true_eq]; omega), ih hxs.2 hk]

/-- `Get` of one timestamp with `limit ≥ 1` and no type filter reads the envelope held there. -/
theorem Valid.get_of_mem (hs : s.Valid) {index : String} {p : Ptr} {k : Int}
    {w : EnvelopeWrapper} (hp : s.indexes.lookup index = some p)
    (hk : (k, w) ∈ (s.trees p).toList) {limit : Int} (hlimit : 1 ≤ limit) :
    s.get index k (k + 1) none limit = [w.e] := by
  have hT := (hs.inv.trees _ (AList.mem_lookup_iff.1 hp)).ordered
  rw [hs.get_eq_take index k (k + 1) none hlimit, matching, inRange, hp]
  dsimp only
  rw [filter_key_eq hT hk]
  obtain ⟨n, hn⟩ : ∃ n, limit.toNat = n + 1 := ⟨limit.toNat - 1, by omega⟩
  simp [checkEnvelopeType, hn]
/-- `Get` of one timestamp reads nothing where no envelope of the index has it. -/
theorem Valid.get_of_not_mem (hs : s.Valid) {index : String} {k : Int}
    (hk : (k, index) ∉ s.contents.map (fun y => (y.1, y.2.index))) {limit : Int}
    (hlimit : 1 ≤ limit) : s.get index k (k + 1) none limit = [] := by
  rw [hs.get_eq_take index k (k + 1) none hlimit, matching, inRange]
  rcases hp : s.indexes.lookup index with _ | p
  · simp
  · rw [List.filter_eq_nil_iff.2 fun y hy => ?_]
    · simp
    have hy' := List.mem_filter.1 hy
    simp only [decide_eq_true_eq] at hy'
    have hidx := ((hs.inv.trees _ (AList.mem_lookup_iff.1 hp)).wrapper y hy'.1).1
    refine absurd (List.mem_map.2 ⟨y, hs.inv.mem_contents_iff.2 ⟨p, hidx ▸ hp, hy'.1⟩, ?_⟩) hk
    rw [hidx, show y.1 = k by omega]
/-- **A `Put` is read back by `Get` unless it was evicted as the oldest**: on every store `Put`
    reaches from `NewStore` with `size ≥ 1`, after a `Put` of `e` to `index`, a `Get` of that
    index from the timestamp of `e` to a nanosecond later, in `int64` arithmetic, with no type
    filter and `limit ≥ 1`, returns `[e]`; or it returns nothing, and then every envelope left
    is at or after `e`. The timestamp is an `int64` below the greatest, where that end does not
    wrap. -/
theorem run_put_get {size maxPerSource : Int} (hsize : 1 ≤ size) (puts : List (Envelope × String))
    (e : Envelope) (index : String)
    (hts : -9223372036854775808 ≤ e.timestamp ∧ e.timestamp < 9223372036854775807) {limit : Int}
    (hlimit : 1 ≤ limit) :
    ∃ s s', (newStore size maxPerSource).run puts = some s ∧ s.put e index = some s' ∧
      (s'.get index e.timestamp ((e.timestamp + 1).bmod 18446744073709551616) none limit = [e] ∨
        s'.get index e.timestamp ((e.timestamp + 1).bmod 18446744073709551616) none limit = [] ∧
          ∀ y ∈ s'.contents, e.timestamp ≤ y.1) := by
  have hend : (e.timestamp + 1).bmod 18446744073709551616 = e.timestamp + 1 := by
    rw [Int.bmod_def]
    split_ifs <;> omega
  obtain ⟨s, hrun, hv, -⟩ := (valid_newStore hsize maxPerSource).run (fun _ => True) trivial
    (fun _ _ _ _ _ _ _ => trivial) puts
  obtain ⟨s', hput, hstep⟩ := hv.put e index
  refine ⟨s, s', hrun, hput, ?_⟩
  rw [hend]
  rcases hv.put_stored_or_oldest hput with ⟨p, hp, hk⟩ | ⟨hgone, hle⟩
  · exact .inl (hstep.valid.get_of_mem hp hk hlimit)
  · exact .inr ⟨hstep.valid.get_of_not_mem hgone hlimit, hle⟩

theorem run_put_get_one :
    (1 : Int) ≤ 1 ∧ ((-9223372036854775808 : Int) ≤ 2 ∧ (2 : Int) < 9223372036854775807) ∧
      (1 : Int) ≤ 1 ∧
      ∃ s s', (newStore 1 1).run [(⟨1, "a", ∅, some .log⟩, "a")] = some s ∧
        s.put ⟨2, "a", ∅, some .log⟩ "a" = some s' ∧
        (s'.get "a" 2 ((2 + 1 : Int).bmod 18446744073709551616) none 1 = [⟨2, "a", ∅, some .log⟩] ∨
          s'.get "a" 2 ((2 + 1 : Int).bmod 18446744073709551616) none 1 = [] ∧
            ∀ y ∈ s'.contents, 2 ≤ y.1) :=
  ⟨le_rfl, by decide, le_rfl,
    run_put_get le_rfl _ ⟨2, "a", ∅, some .log⟩ _ (by decide) le_rfl⟩

/-! ### Nothing but what was `Put` -/

/-- `evict` keeps the tree or removes one key from it. -/
theorem evict_tree {T T' : Tree EnvelopeWrapper} {o : Int × Bool} {pre : Int} {ex : Nat}
    (h : s.evict T = some (o, pre, T', ex)) : T' = T ∨ ∃ k, T' = T.remove k := by
  rw [evict] at h
  split at h <;>
  · obtain ⟨⟨oldest, has⟩, -, h⟩ := Option.bind_eq_some.1 h
    dsimp only at h
    split_ifs at h <;> cases h
    exacts [.inr ⟨_, rfl⟩, .inl rfl]

/-- `insert` changes only the tree it inserts into, and adds only the envelope to it. -/
theorem insert_spec {p : Ptr} {e : Envelope} {index : String} {s₁ : Store}
    (hT : (s.trees p).Ordered) (h : s.insert p e index = some s₁) :
    s₁.indexes = s.indexes ∧ (∀ q, q ≠ p → s₁.trees q = s.trees q) ∧
      ∀ y ∈ (s₁.trees p).toList, y ∈ (s.trees p).toList ∨ y = (e.timestamp, ⟨e, index⟩) := by
  obtain ⟨⟨o, pre, T, ex⟩, hev, h⟩ := Option.bind_eq_some.1 h
  obtain ⟨⟨k, w⟩, -, h⟩ := Option.bind_eq_some.1 h
  cases h
  refine ⟨rfl, fun q hq => Function.update_noteq hq _ _, fun y hy => ?_⟩
  have hsub : T.Ordered ∧ ∀ y ∈ T.toList, y ∈ (s.trees p).toList := by
    rcases evict_tree hev with rfl | ⟨k, rfl⟩
    · exact ⟨hT, fun _ => id⟩
    · exact ⟨hT.remove k, fun y hy => List.mem_of_mem_filter (Tree.toList_remove hT k ▸ hy)⟩
  dsimp only at hy
  rw [Function.update_same, Tree.toList_put hsub.1, mem_putEntry hsub.1] at hy
  exact hy.elim .inr fun hy => .inl (hsub.2 y hy.1)
/-- **Lines 66–102 of `Put` add only the envelope put**: every envelope held after them was
    held before, or is the one put. -/
theorem Inv.contents_putIndex (hs : s.Inv) {e : Envelope} {index : String} {s₁ : Store}
    (h : s.putIndex e index = some s₁) :
    ∀ y ∈ s₁.contents, y ∈ s.contents ∨ y = (e.timestamp, ⟨e, index⟩) := by
  intro y hy
  obtain ⟨x, hx, hy⟩ := List.mem_flatMap.1 hy
  cases hp : s.indexes.lookup index with
  | some p =>
      have hmem := AList.mem_lookup_iff.1 hp
      rw [show s.putIndex e index = s.insert p e index by
        simp only [Store.putIndex, locate, hp]] at h
      obtain ⟨hidx, hother, hnew⟩ := insert_spec (hs.trees _ hmem).ordered h
      rw [hidx] at hx
      by_cases hxp : x.2 = p
      · exact (hnew y (hxp ▸ hy)).imp_left fun hy => List.mem_flatMap.2 ⟨_, hmem, hy⟩
      · exact .inl (List.mem_flatMap.2 ⟨x, hx, hother _ hxp ▸ hy⟩)
  | none =>
      rw [show s.putIndex e index = (s.locate index e.timestamp).1.insert s.nextPtr e index by
        simp only [Store.putIndex, locate, hp]] at h
      obtain ⟨hidx, hother, hnew⟩ :=
        insert_spec (by simp [locate, hp, Tree.Ordered, KeySorted]) h
      simp only [locate, hp] at hidx hother hnew
      rw [hidx, AList.insert_entries_of_neg (AList.lookup_eq_none.1 hp)] at hx
      by_cases hxp : x.2 = s.nextPtr
      · exact (hnew y (hxp ▸ hy)).imp_left fun hy => by simp at hy
      · rcases List.mem_cons.1 hx with rfl | hx
        · exact absurd rfl hxp
        · refine .inl (List.mem_flatMap.2 ⟨x, hx, ?_⟩)
          rw [hother _ hxp] at hy
          simpa [Function.update_noteq hxp] using hy
/-- **`Put` adds only its envelope**: every envelope held after a `Put` on a valid store was held
    before, or is the one put. -/
theorem Valid.contents_put (hs : s.Valid) {e : Envelope} {index : String} {s' : Store}
    (h : s.put e index = some s') :
    ∀ y ∈ s'.contents, y ∈ s.contents ∨ y = (e.timestamp, ⟨e, index⟩) := by
  obtain ⟨s₁, h₁, hp⟩ := hs.inv.putIndex e index
  have ht := truncate_of_put h h₁
  have hsub : ∀ y ∈ s'.contents, y ∈ s₁.contents := by
    by_cases hfit : s₁.count ≤ s₁.size
    · rw [truncate_of_le hfit] at ht
      cases ht
      exact fun _ => id
    · obtain ⟨p, hp₁, -⟩ := hp.stored
      obtain ⟨s'', key, w, h₂, hts⟩ :=
        hp.inv.truncate_of_lt (hp.inv.count_pos (AList.mem_lookup_iff.1 hp₁)) (not_le.1 hfit)
      obtain rfl : s'' = s' := Option.some.inj (h₂.symm.trans ht)
      exact fun y hy => hts.contents.symm.subset (List.mem_cons_of_mem _ hy)
  exact fun y hy => hs.inv.contents_putIndex h₁ y (hsub y hy)

/-- Every envelope held after a run of `Put` from a valid store was held before, or was put,
    under the index it is held in. -/
theorem Valid.contents_run (hs : s.Valid) {puts : List (Envelope × String)} {s' : Store}
    (h : s.run puts = some s') : ∀ y ∈ s'.contents, y ∈ s.contents ∨ (y.2.e, y.2.index) ∈ puts := by
  induction puts generalizing s with
  | nil =>
      cases h
      exact fun y hy => .inl hy
  | cons x puts ih =>
      obtain ⟨e, index⟩ := x
      obtain ⟨s₁, h₁, hp⟩ := hs.put e index
      rw [Store.run, h₁, Option.some_bind] at h
      intro y hy
      rcases ih hp.valid h y hy with hy | hy
      · rcases hs.contents_put h₁ y hy with hy | rfl
        · exact .inl hy
        · exact .inr (List.mem_cons_self _ _)
      · exact .inr (List.mem_cons_of_mem _ hy)

/-- The entries `Get` reads from are held, in the index read. -/
theorem Inv.mem_inRange (hs : s.Inv) {index : String} {start end_ : Int}
    {x : Int × EnvelopeWrapper} (hx : x ∈ s.inRange index start end_) :
    x ∈ s.contents ∧ x.2.index = index := by
  rw [inRange] at hx
  split at hx
  · cases hx
  · rename_i p hp
    have hx := (List.mem_filter.1 hx).1
    have hidx := ((hs.trees _ (AList.mem_lookup_iff.1 hp)).wrapper x hx).1
    exact ⟨hs.mem_contents_iff.2 ⟨p, hidx ▸ hp, hx⟩, hidx⟩

/-- Every envelope `Get` returns from a valid store is held in the index read. -/
theorem Valid.mem_get (hs : s.Valid) {index : String} {start end_ : Int}
    {envelopeType : Option EnvelopeType} {limit : Int} {e : Envelope}
    (he : e ∈ s.get index start end_ envelopeType limit) :
    ∃ x ∈ s.contents, x.2 = ⟨e, index⟩ := by
  obtain ⟨x, hx, rfl⟩ : ∃ x ∈ s.inRange index start end_, x.2.e = e := by
    by_cases hlimit : 1 ≤ limit
    · rw [hs.get_eq_take index start end_ envelopeType hlimit, matching] at he
      obtain ⟨x, hx, rfl⟩ := List.mem_map.1 (List.mem_of_mem_take he)
      exact ⟨x, (List.mem_filter.1 hx).1, rfl⟩
    · rw [hs.get_of_limit_nonpos index start end_ envelopeType (by omega)] at he
      obtain ⟨x, hx, rfl⟩ := List.mem_map.1 he
      exact ⟨x, List.mem_of_mem_take (List.mem_filter.1 hx).1, rfl⟩
  obtain ⟨hmem, hidx⟩ := hs.inv.mem_inRange hx
  exact ⟨x, hmem, by rw [← hidx]⟩

/-- **`Get` returns only envelopes `Put` to its index**: on every store `Put` reaches from
    `NewStore` with `size ≥ 1`, every envelope a `Get` of an index returns, for any range, type
    filter and limit, was put to that index. -/
theorem run_get_mem_puts {size maxPerSource : Int} (hsize : 1 ≤ size)
    (puts : List (Envelope × String)) (index : String) (start end_ : Int)
    (envelopeType : Option EnvelopeType) (limit : Int) :
    ∃ s, (newStore size maxPerSource).run puts = some s ∧
      ∀ e ∈ s.get index start end_ envelopeType limit, (e, index) ∈ puts := by
  obtain ⟨s, hrun, hv, -⟩ := (valid_newStore hsize maxPerSource).run (fun _ => True) trivial
    (fun _ _ _ _ _ _ _ => trivial) puts
  refine ⟨s, hrun, fun e he => ?_⟩
  obtain ⟨x, hx, hxe⟩ := hv.mem_get he
  rcases (valid_newStore hsize maxPerSource).contents_run hrun x hx with hx | hx
  · simp [contents, newStore] at hx
  · rwa [hxe] at hx

theorem run_get_mem_puts_two :
    (1 : Int) ≤ 2 ∧ ∃ s, (newStore 2 2).run
      [(⟨1, "a", ∅, some .log⟩, "a"), (⟨2, "b", ∅, some .log⟩, "b")] = some s ∧
      ∀ e ∈ s.get "a" 0 9999 none 10,
        (e, "a") ∈ [(⟨1, "a", ∅, some .log⟩, "a"), (⟨2, "b", ∅, some .log⟩, "b")] :=
  ⟨by decide, run_get_mem_puts (by decide) _ _ _ _ _ _⟩

end Store

end LogCache
