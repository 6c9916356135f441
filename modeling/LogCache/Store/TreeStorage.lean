import LogCache.Store.Basic
import Mathlib.Data.Multiset.Basic

/-!
# `treeStorage` as a multiset of (key, tree) pairs

`oldestValueTree` is read through one number: how often a tree is listed under a key
(`ovtCount`). `treeStoragePut` adds one to it, `treeStorageRemove` takes one away, and
`treeStorageLeft` returns a listed pair of least key. These three facts, with the ordering
and the non-emptiness of every list, are all the store's invariant uses.
-/

namespace LogCache

/-- How often the tree `t` is listed under `key`. -/
def ovtCount (s : Tree (List Ptr)) (key : Int) (t : Ptr) : Nat :=
  ((s.get key).getD []).count t

/-- Every (key, tree) pair the storage lists, once per occurrence in a list. -/
def ovtPairs (s : Tree (List Ptr)) : List (Int × Ptr) :=
  s.toList.flatMap fun kv => kv.2.map (kv.1, ·)

/-- Every key of the storage holds a non-empty list, so `[0]` of a found list never panics. -/
def ListsNonempty (s : Tree (List Ptr)) : Prop :=
  ∀ key values, s.get key = some values → values ≠ []

section

variable {s : Tree (List Ptr)}

theorem ordered_treeStoragePut (hs : s.Ordered) (key : Int) (t : Ptr) :
    (treeStoragePut s key t).Ordered :=
  hs.put _ _

theorem ordered_treeStorageRemove (hs : s.Ordered) (key : Int) (t : Ptr) :
    (treeStorageRemove s key t).Ordered := by
  simp only [treeStorageRemove]
  split
  · exact hs.remove _
  · exact hs.put _ _

theorem listsNonempty_treeStoragePut (hs : s.Ordered) (hne : ListsNonempty s) (key : Int)
    (t : Ptr) : ListsNonempty (treeStoragePut s key t) := by
  intro k values h
  rw [treeStoragePut, Tree.get_put hs] at h
  split_ifs at h
  · cases h; simp
  · exact hne k values h

theorem listsNonempty_treeStorageRemove (hs : s.Ordered) (hne : ListsNonempty s) (key : Int)
    (t : Ptr) : ListsNonempty (treeStorageRemove s key t) := by
  intro k values h
  simp only [treeStorageRemove] at h
  split_ifs at h with hlen
  · rw [Tree.get_remove hs] at h
    split_ifs at h
    exact hne k values h
  · rw [Tree.get_put hs] at h
    split_ifs at h
    · cases h; exact List.ne_nil_of_length_pos (Nat.pos_of_ne_zero hlen)
    · exact hne k values h

theorem ovtCount_treeStoragePut (hs : s.Ordered) (key : Int) (t : Ptr) (k : Int) (q : Ptr) :
    ovtCount (treeStoragePut s key t) k q = ovtCount s k q + if k = key ∧ q = t then 1 else 0 := by
  unfold ovtCount treeStoragePut
  rw [Tree.get_put hs]
  by_cases hk : k = key
  · subst hk
    by_cases hq : q = t <;> simp [hq, List.count_singleton, eq_comm]
  · simp [hk]

theorem ovtCount_treeStorageRemove (hs : s.Ordered) (key : Int) (t : Ptr) (k : Int) (q : Ptr) :
    ovtCount (treeStorageRemove s key t) k q =
      ovtCount s k q - if k = key ∧ q = t then 1 else 0 := by
  by_cases hlen : (((s.get key).getD []).erase t).length = 0
  · have herase := List.count_erase q t ((s.get key).getD [])
    rw [List.length_eq_zero.1 hlen, List.count_nil] at herase
    simp only [ovtCount, treeStorageRemove, hlen, if_true, Tree.get_remove hs]
    by_cases hk : k = key
    · subst hk
      by_cases hq : q = t
      · subst hq; simpa using herase
      · simpa [hq, Ne.symm hq] using herase
    · simp [hk]
  · simp only [ovtCount, treeStorageRemove, hlen, if_false, Tree.get_put hs]
    by_cases hk : k = key
    · subst hk
      by_cases hq : q = t
      · subst hq; simp
      · simp [hq]
    · simp [hk]

/-! ### The multiset of listed pairs -/

theorem count_pairs_of_not_mem {L : List (Int × List Ptr)} {k : Int}
    (h : ∀ v, (k, v) ∉ L) (q : Ptr) :
    Multiset.count (k, q) (L.flatMap fun kv => kv.2.map (kv.1, ·) : Multiset (Int × Ptr)) = 0 := by
  refine Multiset.count_eq_zero.2 fun hm => ?_
  obtain ⟨kv, hkv, hm⟩ := List.mem_flatMap.1 (Multiset.mem_coe.1 hm)
  obtain ⟨t, -, ht⟩ := List.mem_map.1 hm
  rw [Prod.mk.injEq] at ht
  exact h kv.2 (ht.1 ▸ hkv)

theorem count_pairs_of_mem {L : List (Int × List Ptr)} (hL : KeySorted L) {k : Int}
    {v : List Ptr} (h : (k, v) ∈ L) (q : Ptr) :
    Multiset.count (k, q) (L.flatMap fun kv => kv.2.map (kv.1, ·) : Multiset (Int × Ptr)) =
      v.count q := by
  induction L with
  | nil => simp at h
  | cons x L ih =>
      rw [KeySorted.cons_iff] at hL
      rw [List.flatMap_cons, ← Multiset.coe_add, Multiset.count_add, ← Multiset.map_coe]
      rcases List.mem_cons.1 h with rfl | h
      · rw [count_pairs_of_not_mem (fun v' hv' => lt_irrefl k (hL.1 (k, v') hv')),
          Multiset.count_map_eq_count' _ _ (Prod.mk.inj_left k), Multiset.coe_count, add_zero]
      · have hne : x.1 ≠ k := ne_of_lt (hL.1 _ h)
        rw [ih hL.2 h, Multiset.count_eq_zero.2 (by simp [hne]), zero_add]

/-- **`ovtCount` is the multiplicity of a pair among all listed pairs.** -/
theorem count_ovtPairs (hs : s.Ordered) (k : Int) (q : Ptr) :
    Multiset.count (k, q) (ovtPairs s : Multiset (Int × Ptr)) = ovtCount s k q := by
  unfold ovtPairs ovtCount
  cases hg : s.get k with
  | none =>
      refine count_pairs_of_not_mem (fun v hv => ?_) q
      rw [(Tree.get_eq_some_iff hs).2 hv] at hg
      cases hg
  | some v => exact count_pairs_of_mem hs ((Tree.get_eq_some_iff hs).1 hg) q

/-- A listed pair is found under its key. -/
theorem get_of_ovtCount_pos (h : 0 < ovtCount s k q) :
    ∃ values, s.get k = some values ∧ q ∈ values := by
  unfold ovtCount at h
  cases hg : s.get k with
  | none => simp [hg] at h
  | some values => exact ⟨values, rfl, List.count_pos_iff.1 (by simpa [hg] using h)⟩

/-- **`treeStorage.Left` returns a listed pair of least key.** -/
theorem treeStorageLeft_spec (hs : s.Ordered) {key : Int} {t : Ptr}
    (h : treeStorageLeft s = some (key, t)) :
    0 < ovtCount s key t ∧ ∀ k q, 0 < ovtCount s k q → key ≤ k := by
  simp only [treeStorageLeft, Option.bind_eq_bind, Option.bind_eq_some] at h
  obtain ⟨⟨key', values⟩, hleft, h⟩ := h
  simp only [Option.bind_eq_bind, Option.bind_eq_some, Option.some.injEq, Prod.mk.injEq] at h
  obtain ⟨t', hhead, rfl, rfl⟩ := h
  rw [Tree.left_eq_head] at hleft
  obtain ⟨rest, hlist⟩ : ∃ rest, s.toList = (key, values) :: rest := by
    cases hl : s.toList with
    | nil => simp [hl] at hleft
    | cons x rest => simp [hl] at hleft; exact ⟨rest, by rw [hleft]⟩
  have hget : s.get key = some values := (Tree.get_eq_some_iff hs).2 (by simp [hlist])
  refine ⟨?_, fun k q hq => ?_⟩
  · simp [ovtCount, hget, List.count_pos_iff, List.mem_of_mem_head? hhead]
  · obtain ⟨values', hk, -⟩ := get_of_ovtCount_pos hq
    have hmem := (Tree.get_eq_some_iff hs).1 hk
    have hsorted : KeySorted s.toList := hs
    rw [hlist] at hmem hsorted
    rcases List.mem_cons.1 hmem with heq | hmem
    · cases heq; exact le_rfl
    · exact ((KeySorted.cons_iff.1 hsorted).1 _ hmem).le

/-- `treeStorage.Left` does not panic while some pair is listed. -/
theorem treeStorageLeft_isSome (hs : s.Ordered) (hne : ListsNonempty s)
    (h : 0 < ovtCount s k q) : ∃ key t, treeStorageLeft s = some (key, t) := by
  obtain ⟨values, hk, -⟩ := get_of_ovtCount_pos h
  have hmem := (Tree.get_eq_some_iff hs).1 hk
  cases hl : s.toList with
  | nil => simp [hl] at hmem
  | cons x rest =>
      have hx : s.get x.1 = some x.2 := (Tree.get_eq_some_iff hs).2 (by simp [hl])
      obtain ⟨t, ht⟩ := List.exists_mem_of_ne_nil _ (hne _ _ hx)
      cases hv : x.2 with
      | nil => exact absurd hv (hne _ _ hx)
      | cons t rest' =>
          refine ⟨x.1, t, ?_⟩
          simp [treeStorageLeft, Tree.left_eq_head, hl, hv]

end

end LogCache
