import LogCache.Store.Run

/-!
# What leaves the store

Two ways take an envelope out of the store, and each passes 1 to `incExpired`: the per-source
eviction before insertion, which removes the index's oldest envelope, and `truncate`, which
removes the globally oldest one. A third way counts nothing: `t.Put` at a timestamp the index
already holds replaces the envelope stored there, and `count` does not move.

`Valid.run_balance` balances the books over any run: calls = held + expired + overwrites.
-/

namespace LogCache

namespace Store

variable {s : Store}

/-! ### Accounting -/

/-- Not a function of the source: how many `Put` calls of a run replace an envelope. -/
def overwriteCount (s : Store) : List (Envelope × String) → Nat
  | [] => 0
  | (e, index) :: puts =>
      (if s.overwrites e index then 1 else 0) +
        match s.put e index with
        | some s' => s'.overwriteCount puts
        | none => 0

theorem overwrites_of_lookup_none {e : Envelope} {index : String}
    (h : s.indexes.lookup index = none) : s.overwrites e index = false := by
  simp [overwrites, h]

/-- Below its quota an index is not evicted from, so `Put` overwrites exactly when the
    timestamp is a key of the index. -/
theorem Inv.overwrites_of_lt (hs : s.Inv) {e : Envelope} {index : String} {p : Ptr}
    (hp : s.indexes.lookup index = some p) (hlt : ((s.trees p).size : Int) < s.maxPerSource) :
    s.overwrites e index = ((s.trees p).get e.timestamp).isSome := by
  obtain ⟨⟨m, w⟩, rest, hlist⟩ :=
    List.exists_cons_of_ne_nil (hs.trees _ (AList.mem_lookup_iff.1 hp)).nonempty
  simp only [overwrites, hp, evict_of_cons hlist, ge_iff_le, if_neg (not_le.2 hlt)]

/-- **Calls = held + expired + overwrites** over a run from a valid store with
    `maxPerSource ≥ 1`. -/
theorem Valid.run_balance (hs : s.Valid) (hmax : 1 ≤ s.maxPerSource)
    (puts : List (Envelope × String)) :
    ∃ s', s.run puts = some s' ∧ s'.Valid ∧
      s'.count + s'.expired + s.overwriteCount puts = s.count + s.expired + puts.length := by
  induction puts generalizing s with
  | nil => exact ⟨s, rfl, hs, by simp [overwriteCount]⟩
  | cons x puts ih =>
      obtain ⟨e, index⟩ := x
      obtain ⟨s₁, h₁, hp⟩ := hs.put e index
      obtain ⟨s', h', hv, hacc⟩ := ih hp.valid (hp.maxPerSource ▸ hmax)
      refine ⟨s', by simp only [Store.run, h₁, Option.some_bind, h'], hv, ?_⟩
      have := hp.accounting hmax
      simp only [overwriteCount, h₁, List.length_cons]
      push_cast
      split_ifs at this ⊢ <;> omega

/-- **Every `Put` is held, expired or overwritten**: over any run from `NewStore`, the number of
    calls is the envelopes held, plus the total passed to `incExpired`, plus the calls that
    replaced an envelope at an equal timestamp. -/
theorem run_accounting {size maxPerSource : Int} (hsize : 1 ≤ size) (hmax : 1 ≤ maxPerSource)
    (puts : List (Envelope × String)) :
    ∃ s, (newStore size maxPerSource).run puts = some s ∧
      s.held + s.expired + (newStore size maxPerSource).overwriteCount puts = puts.length := by
  obtain ⟨s, hrun, hv, hacc⟩ := (valid_newStore hsize maxPerSource).run_balance hmax puts
  refine ⟨s, hrun, ?_⟩
  rw [hv.inv.count, show (newStore size maxPerSource).count = 0 from rfl,
    show (newStore size maxPerSource).expired = 0 from rfl] at hacc
  omega

theorem run_accounting_two :
    (1 : Int) ≤ 2 ∧ (1 : Int) ≤ 1 ∧ ∃ s, (newStore 2 1).run
      [(⟨1, "a", ∅, some .log⟩, "a"), (⟨2, "a", ∅, some .log⟩, "a")] = some s ∧
      s.held + s.expired + (newStore 2 1).overwriteCount
        [(⟨1, "a", ∅, some .log⟩, "a"), (⟨2, "a", ∅, some .log⟩, "a")] = 2 :=
  ⟨by decide, le_rfl, run_accounting (by decide) le_rfl _⟩

/-- **Two `Put` calls at one timestamp into one index leave one envelope and count no expiry**
    when the quota leaves room for both: the second `t.Put` replaces the first envelope. -/
theorem run_equal_timestamps {size maxPerSource : Int} (hsize : 1 ≤ size)
    (hmax : 2 ≤ maxPerSource) (e e' : Envelope) (hts : e'.timestamp = e.timestamp)
    (index : String) :
    ∃ s, (newStore size maxPerSource).run [(e, index), (e', index)] = some s ∧
      s.held + s.expired = 1 := by
  have hv := valid_newStore hsize maxPerSource
  obtain ⟨s₁, h₁, hp₁⟩ := hv.put e index
  obtain ⟨p, hlk, hget⟩ := hp₁.stored (by show (0 : Int) < size; omega)
  have hacc₁ := hp₁.accounting (by show (1 : Int) ≤ maxPerSource; omega)
  rw [overwrites_of_lookup_none (s := newStore size maxPerSource) (AList.lookup_empty _),
    show (newStore size maxPerSource).count = 0 from rfl,
    show (newStore size maxPerSource).expired = 0 from rfl] at hacc₁
  simp only [Bool.false_eq_true, if_false] at hacc₁
  have hmax₁ : s₁.maxPerSource = maxPerSource := hp₁.maxPerSource
  have hle := hp₁.valid.inv.size_le_count (AList.mem_lookup_iff.1 hlk)
  have hov : s₁.overwrites e' index = true := by
    rw [hp₁.valid.inv.overwrites_of_lt hlk (by omega), hts, hget]
    rfl
  obtain ⟨s₂, h₂, hp₂⟩ := hp₁.valid.put e' index
  have hacc₂ := hp₂.accounting (by omega)
  rw [hov, if_pos rfl] at hacc₂
  refine ⟨s₂, by simp only [Store.run, h₁, h₂, Option.some_bind], ?_⟩
  have hc := hp₂.valid.inv.count
  omega

theorem run_equal_timestamps_one :
    (1 : Int) ≤ 2 ∧ (2 : Int) ≤ 2 ∧ (⟨1, "a", ∅, some .log⟩ : Envelope).timestamp = 1 ∧
      ∃ s, (newStore 2 2).run
        [(⟨1, "a", ∅, some .log⟩, "a"), (⟨1, "a", ∅, some .log⟩, "a")] = some s ∧
        s.held + s.expired = 1 :=
  ⟨by decide, le_rfl, rfl, run_equal_timestamps (by decide) le_rfl _ _ rfl _⟩

/-! ### Which envelope leaves -/

/-- **Oldest-first eviction.** On every store `Put` reaches from `NewStore`, with `size ≥ 1`,
    a `Put` that finds its index at quota removes the index's envelope of least key before
    inserting; and when the store is over `size` after insertion, `truncate` removes one
    envelope whose key is at most every key still held, and drops its index exactly when no
    envelope of that index is left. -/
theorem put_evicts_oldest {size maxPerSource : Int} (hsize : 1 ≤ size)
    (puts : List (Envelope × String)) (e : Envelope) (index : String) :
    ∃ s, (newStore size maxPerSource).run puts = some s ∧
      ∃ s₁ s', s.putIndex e index = some s₁ ∧ s₁.truncate = some s' ∧ s.put e index = some s' ∧
        (∀ p, s.indexes.lookup index = some p → s.maxPerSource ≤ (s.trees p).size →
          ∃ m w, (m, w) ∈ (s.trees p).toList ∧ (∀ y ∈ (s.trees p).toList, m ≤ y.1) ∧
            s₁.trees p = ((s.trees p).remove m).put e.timestamp ⟨e, index⟩) ∧
        (s₁.size < s₁.count → ∃ key w, s₁.contents.Perm ((key, w) :: s'.contents) ∧
          (∀ y ∈ s'.contents, key ≤ y.1) ∧
          (s'.indexes.lookup w.index = none ↔ ∀ y ∈ s'.contents, y.2.index ≠ w.index)) := by
  obtain ⟨s, hrun, hv, -⟩ := (valid_newStore hsize maxPerSource).run (fun _ => True) trivial
    (fun _ _ _ _ _ _ _ => trivial) puts
  obtain ⟨s₁, h₁, hp⟩ := hv.inv.putIndex e index
  obtain ⟨s', hput, -⟩ := hv.put e index
  have h₂ := truncate_of_put hput h₁
  refine ⟨s, hrun, s₁, s', h₁, h₂, hput, hp.evicts, fun hlt => ?_⟩
  obtain ⟨p, hp₁, -⟩ := hp.stored
  obtain ⟨s'', key, w, h₂', ht⟩ :=
    hp.inv.truncate_of_lt (hp.inv.count_pos (AList.mem_lookup_iff.1 hp₁)) hlt
  obtain rfl : s'' = s' := Option.some.inj (h₂'.symm.trans h₂)
  exact ⟨key, w, ht.contents,
    fun y hy => ht.least y (ht.contents.symm.subset (List.mem_cons_of_mem _ hy)), ht.dropped⟩

theorem put_evicts_oldest_two_sources :
    (1 : Int) ≤ 1 ∧
    (∃ s s₁, (newStore 1 2).run [(⟨1, "a", ∅, some .log⟩, "a")] = some s ∧
      s.putIndex ⟨2, "b", ∅, some .log⟩ "b" = some s₁ ∧ s₁.size < s₁.count) ∧
    ∃ s, (newStore 1 2).run [(⟨1, "a", ∅, some .log⟩, "a")] = some s ∧
      ∃ s₁ s', s.putIndex ⟨2, "b", ∅, some .log⟩ "b" = some s₁ ∧ s₁.truncate = some s' ∧
        s.put ⟨2, "b", ∅, some .log⟩ "b" = some s' ∧
        (∀ p, s.indexes.lookup "b" = some p → s.maxPerSource ≤ (s.trees p).size →
          ∃ m w, (m, w) ∈ (s.trees p).toList ∧ (∀ y ∈ (s.trees p).toList, m ≤ y.1) ∧
            s₁.trees p = ((s.trees p).remove m).put 2 ⟨⟨2, "b", ∅, some .log⟩, "b"⟩) ∧
        (s₁.size < s₁.count → ∃ key w, s₁.contents.Perm ((key, w) :: s'.contents) ∧
          (∀ y ∈ s'.contents, key ≤ y.1) ∧
          (s'.indexes.lookup w.index = none ↔ ∀ y ∈ s'.contents, y.2.index ≠ w.index)) :=
  ⟨le_rfl, ⟨_, _, rfl, rfl, by decide⟩, put_evicts_oldest le_rfl _ _ _⟩

end Store

end LogCache
