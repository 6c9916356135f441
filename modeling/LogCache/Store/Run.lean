import LogCache.Store.Step

/-!
# Runs of `Put`

A store reached from `NewStore` by `Put` calls. With `size ≥ 1` every `Put` returns, whatever
`maxPerSource`, and the store it leaves is `Valid`: the representation invariant holds and
`count` stays within `size` (`Valid.put`, and `Valid.run` for whole runs). With `size ≤ 0` the
very first `Put` panics. `Get` only reads the store, so reads interleaved with the `Put` calls
change none of this.

`RepInvariant` restates the invariant over the data the source keeps, `indexes`, the trees and
`oldestValueTree`, with no ghost definitions: it is what every run from `NewStore` with
`size ≥ 1` and `maxPerSource ≥ 1` ends in (`run_repInvariant`).
-/

namespace LogCache

namespace Store

variable {s : Store}

/-! ### One `Put` -/

/-- What every store that `Put` reaches from `NewStore` with `size ≥ 1` satisfies. -/
structure Valid (s : Store) : Prop where
  inv : s.Inv
  size_pos : 1 ≤ s.size
  count_le : s.count ≤ s.size

theorem valid_newStore {size : Int} (h : 1 ≤ size) (maxPerSource : Int) :
    (newStore size maxPerSource).Valid :=
  ⟨inv_newStore _ _, h, by show (0 : Int) ≤ size; omega⟩

theorem truncate_of_le (h : s.count ≤ s.size) : s.truncate = some s := by
  simp [truncate, h]

/-- `Put` from its phases: it returns the truncated store unless the last read panics. -/
theorem put_eq {e : Envelope} {index : String} {s₁ s' : Store}
    (h₁ : s.putIndex e index = some s₁) (h₂ : s₁.truncate = some s') :
    s.put e index = (treeStorageLeft s'.oldestValueTree).map fun _ => s' := by
  simp only [put, h₁, h₂, Option.bind_eq_bind, Option.some_bind]
  cases treeStorageLeft s'.oldestValueTree <;> rfl

/-- What `Put` returns is what `truncate` returned. -/
theorem truncate_of_put {e : Envelope} {index : String} {s₁ s' : Store}
    (h : s.put e index = some s') (h₁ : s.putIndex e index = some s₁) :
    s₁.truncate = some s' := by
  cases h₂ : s₁.truncate with
  | none => simp [put, h₁, h₂] at h
  | some s'' =>
      rw [put_eq h₁ h₂] at h
      obtain ⟨_, -, rfl⟩ := Option.map_eq_some'.1 h
      rfl

/-- A store that holds nothing has an empty `oldestValueTree`, so `Left()` on it panics. -/
theorem Inv.treeStorageLeft_eq_none (hs : s.Inv) (h : s.count = 0) :
    treeStorageLeft s.oldestValueTree = none := by
  cases hl : treeStorageLeft s.oldestValueTree with
  | none => rfl
  | some kp =>
      obtain ⟨key, p⟩ := kp
      obtain ⟨hp, -⟩ := hs.mem_of_ovtCount_pos (treeStorageLeft_spec hs.ovtOrdered hl).1
      obtain ⟨src, hmem⟩ := mem_ptrs.1 hp
      exact absurd h (hs.count_pos hmem).ne'

/-- What one `Put` on a valid store keeps and changes. -/
structure PutStep (s : Store) (e : Envelope) (index : String) (s' : Store) : Prop where
  valid : s'.Valid
  size : s'.size = s.size
  maxPerSource : s'.maxPerSource = s.maxPerSource
  bounded : 1 ≤ s.maxPerSource → s.Bounded → s'.Bounded
  accounting : 1 ≤ s.maxPerSource →
    s'.count + s'.expired + (if s.overwrites e index then 1 else 0) = s.count + s.expired + 1
  stored : s.count < s.size →
    ∃ p, s'.indexes.lookup index = some p ∧ (s'.trees p).get e.timestamp = some ⟨e, index⟩

/-- **`Put` on a valid store returns**, and leaves a valid store. -/
theorem Valid.put (hs : s.Valid) (e : Envelope) (index : String) :
    ∃ s', s.put e index = some s' ∧ PutStep s e index s' := by
  obtain ⟨s₁, h₁, hp⟩ := hs.inv.putIndex e index
  obtain ⟨p, hp₁, hget⟩ := hp.stored
  have hpos₁ := hp.inv.count_pos (AList.mem_lookup_iff.1 hp₁)
  have hsize := hs.size_pos
  have hle := hs.count_le
  have hc₁ := hp.count_le
  have hsize₁ := hp.size
  by_cases hfit : s₁.count ≤ s₁.size
  · obtain ⟨key, q, hl⟩ := hp.inv.left_isSome hpos₁
    refine ⟨s₁, ?_, ⟨hp.inv, by omega, hfit⟩, hp.size, hp.maxPerSource, hp.bounded,
      hp.accounting, fun _ => hp.stored⟩
    rw [put_eq h₁ (truncate_of_le hfit), hl]
    rfl
  · -- `truncate` drops one envelope
    obtain ⟨s', key, w, h₂, ht⟩ := hp.inv.truncate_of_lt hpos₁ (not_le.1 hfit)
    have hcount := ht.count
    have hsize' := ht.size
    obtain ⟨key', q, hl⟩ := ht.inv.left_isSome (by omega)
    refine ⟨s', ?_, ⟨ht.inv, by omega, by omega⟩, by omega,
      ht.maxPerSource.trans hp.maxPerSource, fun hm hb => ht.bounded (hp.bounded hm hb),
      fun hm => ?_, fun hroom => absurd hfit (by omega)⟩
    · rw [put_eq h₁ h₂, hl]
      rfl
    · have := hp.accounting hm
      rw [ht.count, ht.expired]
      push_cast
      omega

/-- **A run of `Put` from a valid store returns**, and a property that every `Put` keeps
    holds at its end. -/
theorem Valid.run (hs : s.Valid) (P : Store → Prop) (h0 : P s)
    (hstep : ∀ s₁ e index s₂, s₁.Valid → PutStep s₁ e index s₂ → P s₁ → P s₂)
    (puts : List (Envelope × String)) : ∃ s', s.run puts = some s' ∧ s'.Valid ∧ P s' := by
  induction puts generalizing s with
  | nil => exact ⟨s, rfl, hs, h0⟩
  | cons x puts ih =>
      obtain ⟨e, index⟩ := x
      obtain ⟨s₁, h₁, hp⟩ := hs.put e index
      obtain ⟨s', h', hv, hP⟩ := ih hp.valid (hstep _ _ _ _ hs hp h0)
      exact ⟨s', by simp only [Store.run, h₁, Option.some_bind, h'], hv, hP⟩

/-! ### Panics -/

/-- **With `size ≤ 0` the first `Put` panics**: `truncate` drops the envelope just stored, which
    empties `oldestValueTree`, and the cache-period read of its `Left()` dereferences nil. -/
theorem put_newStore_of_size_nonpos {size : Int} (hsize : size ≤ 0) (maxPerSource : Int)
    (e : Envelope) (index : String) : (newStore size maxPerSource).put e index = none := by
  obtain ⟨s₁, h₁, hp⟩ := (inv_newStore size maxPerSource).putIndex e index
  obtain ⟨p, hp₁, -⟩ := hp.stored
  have hpos := hp.inv.count_pos (AList.mem_lookup_iff.1 hp₁)
  have hc : s₁.count ≤ 1 := by simpa [newStore] using hp.count_le
  have hsize₁ : s₁.size = size := hp.size
  obtain ⟨s', key, w, h₂, ht⟩ := hp.inv.truncate_of_lt hpos (by omega)
  rw [put_eq h₁ h₂, ht.inv.treeStorageLeft_eq_none (by rw [ht.count]; omega)]
  rfl

theorem put_newStore_zero :
    (0 : Int) ≤ 0 ∧ (newStore 0 1).put ⟨1, "a", ∅, some .log⟩ "a" = none :=
  ⟨le_rfl, put_newStore_of_size_nonpos le_rfl 1 _ _⟩

/-- **No `Put` panics on a store built with `size ≥ 1`**, whatever `maxPerSource` is. -/
theorem run_newStore_isSome {size : Int} (hsize : 1 ≤ size) (maxPerSource : Int)
    (puts : List (Envelope × String)) : ((newStore size maxPerSource).run puts).isSome := by
  obtain ⟨s, h, -⟩ := (valid_newStore hsize maxPerSource).run (fun _ => True) trivial
    (fun _ _ _ _ _ _ _ => trivial) puts
  rw [h]
  rfl

theorem run_newStore_isSome_zero_quota :
    (1 : Int) ≤ 1 ∧ ((newStore 1 0).run [(⟨1, "a", ∅, some .log⟩, "a")]).isSome :=
  ⟨le_rfl, run_newStore_isSome le_rfl 0 _⟩

/-! ### The representation invariant -/

/-- The pairs (smallest key of the tree, tree) over the trees of `indexes`. -/
def indexPairs (s : Store) : List (Int × Ptr) :=
  s.ptrs.filterMap fun p => ((s.trees p).toList.map Prod.fst).min?.map (·, p)

/-- The store's representation invariant, read off `indexes`, the trees and
    `oldestValueTree` alone. -/
structure RepInvariant (s : Store) : Prop where
  nonempty : ∀ src p, s.indexes.lookup src = some p →
    0 < (s.trees p).size ∧ ∀ x ∈ (s.trees p).toList, x.2.index = src
  bounded : ∀ src p, s.indexes.lookup src = some p →
    ((s.trees p).size : Int) ≤ s.maxPerSource
  count : s.count = ((s.indexes.entries.map fun x => (s.trees x.2).size).sum : Nat)
  count_le : s.count ≤ s.size
  ovtNonempty : ∀ kv ∈ s.oldestValueTree.toList, kv.2 ≠ []
  pairs : (ovtPairs s.oldestValueTree : Multiset (Int × Ptr)) = indexPairs s
  once : ∀ p ∈ s.ptrs, ((ovtPairs s.oldestValueTree).map Prod.snd).count p = 1

theorem min?_eq_some {xs : List Int} {a : Int} (h : a ∈ xs) (hle : ∀ b ∈ xs, a ≤ b) :
    xs.min? = some a :=
  haveI : Std.Antisymm (· ≤ · : Int → Int → Prop) := ⟨Int.le_antisymm⟩
  (List.min?_eq_some_iff Int.le_refl (fun a b => by omega) (fun _ _ _ => Int.le_min)).2 ⟨h, hle⟩

/-- The oldest key `Left()` reads is the smallest key of the tree. -/
theorem IndexTree.min?_eq {src : String} {T : Tree EnvelopeWrapper} (hT : IndexTree src T) :
    (T.toList.map Prod.fst).min? = oldestKey T := by
  obtain ⟨⟨m, w⟩, rest, hlist⟩ := List.exists_cons_of_ne_nil hT.nonempty
  rw [oldestKey_eq_head, hlist]
  refine min?_eq_some (by simp) fun b hb => ?_
  obtain ⟨y, hy, rfl⟩ := List.mem_map.1 hb
  exact head_le hT.ordered hlist y (hlist ▸ hy)

theorem Inv.min?_eq (hs : s.Inv) {p : Ptr} (hp : p ∈ s.ptrs) :
    ((s.trees p).toList.map Prod.fst).min? = oldestKey (s.trees p) := by
  obtain ⟨src, hmem⟩ := mem_ptrs.1 hp
  exact IndexTree.min?_eq (hs.trees _ hmem)

theorem Inv.mem_indexPairs (hs : s.Inv) {k : Int} {q : Ptr} :
    (k, q) ∈ s.indexPairs ↔ q ∈ s.ptrs ∧ oldestKey (s.trees q) = some k := by
  simp only [indexPairs, List.mem_filterMap, Option.map_eq_some', Prod.mk.injEq]
  constructor
  · rintro ⟨p, hp, k', hk', rfl, rfl⟩
    exact ⟨hp, (hs.min?_eq hp).symm.trans hk'⟩
  · rintro ⟨hq, hk⟩
    exact ⟨q, hq, k, (hs.min?_eq hq).trans hk, rfl, rfl⟩

theorem Inv.map_snd_indexPairs (hs : s.Inv) : s.indexPairs.map Prod.snd = s.ptrs := by
  rw [indexPairs, List.map_filterMap]
  refine (List.filterMap_congr fun p hp => ?_).trans (List.filterMap_some _)
  obtain ⟨src, hmem⟩ := mem_ptrs.1 hp
  obtain ⟨y, rest, hy⟩ := List.exists_cons_of_ne_nil (hs.trees _ hmem).nonempty
  simp [hy]

/-- **`oldestValueTree` lists exactly the pairs (smallest key, tree) of the indexes.** -/
theorem Inv.ovtPairs_eq (hs : s.Inv) :
    (ovtPairs s.oldestValueTree : Multiset (Int × Ptr)) = s.indexPairs := by
  have hnd : s.indexPairs.Nodup := by
    have h := hs.nodup
    rw [← hs.map_snd_indexPairs] at h
    exact List.Nodup.of_map _ h
  refine Multiset.ext' fun ⟨k, q⟩ => ?_
  rw [count_ovtPairs hs.ovtOrdered, hs.listed, Multiset.coe_count, List.count_eq_of_nodup hnd]
  by_cases h : q ∈ s.ptrs ∧ oldestKey (s.trees q) = some k
  · rw [if_pos h, if_pos (hs.mem_indexPairs.2 h)]
  · rw [if_neg h, if_neg (mt hs.mem_indexPairs.1 h)]

theorem Valid.repInvariant (hs : s.Valid) (hb : s.Bounded) : s.RepInvariant := by
  have hpairs := hs.inv.ovtPairs_eq
  refine ⟨fun src p hp => ?_, fun src p hp => hb p (mem_ptrs.2 ⟨src, AList.mem_lookup_iff.1 hp⟩),
    ?_, hs.count_le, fun kv hkv => ?_, hpairs, fun p hp => ?_⟩
  · have hT := hs.inv.trees _ (AList.mem_lookup_iff.1 hp)
    refine ⟨?_, fun x hx => (hT.wrapper x hx).1⟩
    rw [Tree.size_eq_length]
    exact List.length_pos.2 hT.nonempty
  · rw [hs.inv.count, held, ptrs, List.map_map]
    rfl
  · exact hs.inv.ovtNonempty kv.1 kv.2 ((Tree.get_eq_some_iff hs.inv.ovtOrdered).2 hkv)
  · have hperm := (Multiset.coe_eq_coe.1 (hpairs.trans rfl)).map Prod.snd
    rw [hperm.count_eq, hs.inv.map_snd_indexPairs, List.count_eq_of_nodup hs.inv.nodup, if_pos hp]

/-- **The representation invariant holds after every run of `Put` from `NewStore`.** -/
theorem run_repInvariant {size maxPerSource : Int} (hsize : 1 ≤ size) (hmax : 1 ≤ maxPerSource)
    (puts : List (Envelope × String)) :
    ∃ s, (newStore size maxPerSource).run puts = some s ∧ s.RepInvariant := by
  obtain ⟨s, hrun, hv, -, hb⟩ := (valid_newStore hsize maxPerSource).run
    (fun s => s.maxPerSource = maxPerSource ∧ s.Bounded) ⟨rfl, by simp [Bounded, ptrs, newStore]⟩
    (fun _ _ _ _ _ hp ⟨hm, hb⟩ => ⟨hp.maxPerSource.trans hm, hp.bounded (hm ▸ hmax) hb⟩) puts
  exact ⟨s, hrun, hv.repInvariant hb⟩

theorem run_repInvariant_one :
    (1 : Int) ≤ 1 ∧ (1 : Int) ≤ 1 ∧ ∃ s, (newStore 1 1).run
      [(⟨1, "a", ∅, some .log⟩, "a"), (⟨2, "a", ∅, some .log⟩, "a")] = some s ∧ s.RepInvariant :=
  ⟨le_rfl, le_rfl, run_repInvariant le_rfl le_rfl _⟩

end Store

end LogCache
