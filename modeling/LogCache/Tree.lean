import Mathlib.Data.List.Basic
import Mathlib.Data.Int.Order.Basic

/-!
# The ordered index

The store keeps every source's envelopes, and its table of oldest keys, in a
`github.com/emirpasic/gods/trees/avltree` tree keyed by `int64` under
`utils.Int64Comparator`. This module models the part of that library the store calls:
`Put` (which replaces the value of an equal key), `Remove`, `Get`, `Left`, `Size`, and the
node links `Children[0]`/`Children[1]` that `Store.treeTraverse` walks.

The library rebalances after each update. Rotations change the shape of a tree and never its
in-order sequence, so they are left out: every result here holds for every shape of an
ordered tree. Each operation is characterised once by what it does to the in-order list
`toList`; the store's proofs use only those characterisations.
-/

namespace LogCache

/-! ### Key-sorted entry lists -/

/-- The entries of a tree in order strictly increase in key. -/
def KeySorted {α : Type} (xs : List (Int × α)) : Prop :=
  xs.Pairwise (fun a b => a.1 < b.1)

/-- Insertion into a key-sorted list, replacing the value of an equal key: what
    `avltree.Tree.Put` does to the in-order sequence. -/
def putEntry {α : Type} : List (Int × α) → Int → α → List (Int × α)
  | [], key, value => [(key, value)]
  | (k, v) :: xs, key, value =>
      if key < k then (key, value) :: (k, v) :: xs
      else if k < key then (k, v) :: putEntry xs key value
      else (key, value) :: xs

section Entries

variable {α : Type} {xs ys : List (Int × α)} {key : Int} {value : α}

theorem KeySorted.cons_iff {x : Int × α} :
    KeySorted (x :: xs) ↔ (∀ y ∈ xs, x.1 < y.1) ∧ KeySorted xs :=
  List.pairwise_cons

theorem KeySorted.filter (p : Int × α → Bool) (h : KeySorted xs) : KeySorted (xs.filter p) :=
  List.Pairwise.filter p h

/-- Nothing above a key is dropped by removing that key. -/
theorem filter_ne_of_lt (h : ∀ y ∈ xs, key < y.1) : xs.filter (fun y => !decide (y.1 = key)) = xs :=
  List.filter_eq_self.2 fun y hy => by simpa using (h y hy).ne'

theorem filter_ne_of_gt (h : ∀ y ∈ xs, y.1 < key) : xs.filter (fun y => !decide (y.1 = key)) = xs :=
  List.filter_eq_self.2 fun y hy => by simpa using (h y hy).ne

/-- **`putEntry` is removal of the key followed by one new entry.** -/
theorem putEntry_perm (h : KeySorted xs) :
    (putEntry xs key value).Perm ((key, value) :: xs.filter (fun y => y.1 ≠ key)) := by
  induction xs with
  | nil => simp [putEntry]
  | cons x xs ih =>
      obtain ⟨k, v⟩ := x
      obtain ⟨hlt, hxs⟩ := KeySorted.cons_iff.1 h
      simp only [putEntry]
      split_ifs with h1 h2
      · have : k ≠ key := by omega
        simp [this, filter_ne_of_lt fun y hy => h1.trans (hlt y hy)]
      · have : k ≠ key := by omega
        simpa [this] using ((ih hxs).cons (k, v)).trans (List.Perm.swap _ _ _)
      · have hk : k = key := by omega
        subst hk
        simp [filter_ne_of_lt hlt]

theorem mem_putEntry (h : KeySorted xs) {y : Int × α} :
    y ∈ putEntry xs key value ↔ y = (key, value) ∨ (y ∈ xs ∧ y.1 ≠ key) := by
  simp [(putEntry_perm h).mem_iff]

theorem putEntry_sorted (h : KeySorted xs) : KeySorted (putEntry xs key value) := by
  induction xs with
  | nil => simp [putEntry, KeySorted]
  | cons x xs ih =>
      obtain ⟨k, v⟩ := x
      obtain ⟨hlt, hxs⟩ := KeySorted.cons_iff.1 h
      simp only [putEntry]
      split_ifs with h1 h2
      · refine KeySorted.cons_iff.2 ⟨fun y hy => ?_, h⟩
        rcases List.mem_cons.1 hy with rfl | hy
        · exact h1
        · exact h1.trans (hlt y hy)
      · refine KeySorted.cons_iff.2 ⟨fun y hy => ?_, ih hxs⟩
        rcases (mem_putEntry hxs).1 hy with rfl | ⟨hy, -⟩
        · exact h2
        · exact hlt y hy
      · have hk : key = k := by omega
        subst hk
        exact KeySorted.cons_iff.2 ⟨hlt, hxs⟩

/-- A key-sorted list holds a key at most once, so removing it drops one entry exactly when
    the key is present. -/
theorem length_filter_ne (h : KeySorted xs) :
    (xs.filter (fun y => y.1 ≠ key)).length + (if key ∈ xs.map Prod.fst then 1 else 0) =
      xs.length := by
  induction xs with
  | nil => simp
  | cons x xs ih =>
      obtain ⟨hlt, hxs⟩ := KeySorted.cons_iff.1 h
      by_cases hx : x.1 = key
      · have hnot : key ∉ xs.map Prod.fst := by
          simp only [List.mem_map, not_exists, not_and]
          intro y hy hy'
          have := hlt y hy
          omega
        simp [hx, filter_ne_of_lt (fun y hy => hx ▸ hlt y hy), hnot]
      · have hmem : key ∈ (x :: xs).map Prod.fst ↔ key ∈ xs.map Prod.fst := by
          simp [Ne.symm hx]
        have := ih hxs
        rw [List.filter_cons_of_pos (by simpa using hx), List.length_cons, List.length_cons,
          if_congr hmem rfl rfl]
        omega

/-- **The new length of an entry list**, by whether the key was already there. -/
theorem length_putEntry (h : KeySorted xs) :
    (putEntry xs key value).length + (if key ∈ xs.map Prod.fst then 1 else 0) =
      xs.length + 1 := by
  have := @length_filter_ne _ xs key h
  rw [(putEntry_perm h).length_eq, List.length_cons]
  omega

theorem putEntry_ne_nil : putEntry xs key value ≠ [] := by
  cases xs with
  | nil => simp [putEntry]
  | cons x xs => simp only [putEntry]; split_ifs <;> simp

end Entries

/-! ### Trees -/

/-- An `avltree.Tree` node: `Children[0]`, `Key`, `Value`, `Children[1]`. -/
inductive Tree (α : Type) where
  | nil
  | node (left : Tree α) (key : Int) (value : α) (right : Tree α)
deriving Repr

namespace Tree

variable {α : Type}

/-- The in-order sequence of entries. -/
def toList : Tree α → List (Int × α)
  | nil => []
  | node l k v r => l.toList ++ (k, v) :: r.toList

/-- `Tree.Size`. -/
def size : Tree α → Nat
  | nil => 0
  | node l _ _ r => l.size + 1 + r.size

/-- `Tree.Get`: the value under a key, found by descending the search path. -/
def get : Tree α → Int → Option α
  | nil, _ => none
  | node l k v r, key =>
      if key < k then l.get key else if k < key then r.get key else some v

/-- `Tree.Put`: insert, or replace the value of an equal key. -/
def put : Tree α → Int → α → Tree α
  | nil, key, value => node nil key value nil
  | node l k v r, key, value =>
      if key < k then node (l.put key value) k v r
      else if k < key then node l k v (r.put key value)
      else node l key value r

/-- `Tree.Left`: the leftmost node, `nil` (here `none`) on an empty tree. -/
def left : Tree α → Option (Int × α)
  | nil => none
  | node l k v _ =>
      match l.left with
      | none => some (k, v)
      | some entry => some entry

/-- The library's `removeMin`: detach the leftmost node and return its entry. -/
def popMin : Tree α → Option (Int × α × Tree α)
  | nil => none
  | node l k v r =>
      match l.popMin with
      | none => some (k, v, r)
      | some (k', v', l') => some (k', v', node l' k v r)

/-- `Tree.Remove`: a found node without a right child is replaced by its left child;
    otherwise it takes the key and value of the leftmost node of its right subtree, which is
    detached. -/
def remove : Tree α → Int → Tree α
  | nil, _ => nil
  | node l k v r, key =>
      if key < k then node (l.remove key) k v r
      else if k < key then node l k v (r.remove key)
      else
        match r.popMin with
        | none => l
        | some (k', v', r') => node l k' v' r'

/-- The search-tree invariant: in-order keys strictly increase. -/
def Ordered (t : Tree α) : Prop := KeySorted t.toList

@[simp] theorem toList_nil : (nil : Tree α).toList = [] := rfl

@[simp] theorem toList_node (l r : Tree α) (k : Int) (v : α) :
    (node l k v r).toList = l.toList ++ (k, v) :: r.toList := rfl

theorem size_eq_length (t : Tree α) : t.size = t.toList.length := by
  induction t with
  | nil => rfl
  | node l k v r ihl ihr => simp [size, ihl, ihr]; omega

theorem left_eq_head (t : Tree α) : t.left = t.toList.head? := by
  induction t with
  | nil => rfl
  | node l k v r ihl _ =>
      simp only [left, ihl, toList_node]
      cases l.toList <;> rfl

theorem popMin_eq_none {t : Tree α} (h : t.popMin = none) : t = nil := by
  cases t with
  | nil => rfl
  | node l k v r => simp only [popMin] at h; split at h <;> cases h

theorem toList_of_popMin {t t' : Tree α} {k : Int} {v : α} (h : t.popMin = some (k, v, t')) :
    t.toList = (k, v) :: t'.toList := by
  induction t generalizing k v t' with
  | nil => cases h
  | node l k₀ v₀ r ihl _ =>
      simp only [popMin] at h
      split at h <;> rename_i hl
      · cases h
        simp [popMin_eq_none hl]
      · cases h
        simp [ihl hl]

/-- Splitting the ordering of a node into its two subtrees and the bounds around its key. -/
theorem ordered_node {l r : Tree α} {k : Int} {v : α} :
    (node l k v r).Ordered ↔ l.Ordered ∧ r.Ordered ∧
      (∀ y ∈ l.toList, y.1 < k) ∧ (∀ y ∈ r.toList, k < y.1) := by
  simp only [Ordered, KeySorted, toList_node, List.pairwise_append, List.pairwise_cons,
    List.mem_cons]
  constructor
  · rintro ⟨hl, ⟨hk, hr⟩, hlr⟩
    exact ⟨hl, hr, fun y hy => hlr y hy _ (.inl rfl), hk⟩
  · rintro ⟨hl, hr, hlk, hkr⟩
    refine ⟨hl, ⟨hkr, hr⟩, fun y hy z hz => ?_⟩
    rcases hz with rfl | hz
    · exact hlk y hy
    · exact (hlk y hy).trans (hkr z hz)

theorem putEntry_append_of_lt {xs : List (Int × α)} {key k : Int} {value v : α}
    (h : key < k) (ys : List (Int × α)) :
    putEntry (xs ++ (k, v) :: ys) key value = putEntry xs key value ++ (k, v) :: ys := by
  induction xs with
  | nil => simp [putEntry, h]
  | cons x xs ih =>
      obtain ⟨a, b⟩ := x
      simp only [List.cons_append, putEntry]
      split_ifs <;> simp [ih]

theorem putEntry_append_of_gt {xs : List (Int × α)} {key : Int} {value : α}
    (h : ∀ y ∈ xs, y.1 < key) (ys : List (Int × α)) :
    putEntry (xs ++ ys) key value = xs ++ putEntry ys key value := by
  induction xs with
  | nil => rfl
  | cons x xs ih =>
      obtain ⟨a, b⟩ := x
      have ha : a < key := h _ (.head _)
      rw [List.cons_append, putEntry, if_neg (by omega), if_pos ha,
        ih fun y hy => h y (.tail _ hy)]
      rfl

/-- **`Put` on an ordered tree is `putEntry` on its in-order list.** -/
theorem toList_put {t : Tree α} (ht : t.Ordered) (key : Int) (value : α) :
    (t.put key value).toList = putEntry t.toList key value := by
  induction t with
  | nil => rfl
  | node l k v r ihl ihr =>
      obtain ⟨hl, hr, hlk, hkr⟩ := ordered_node.1 ht
      simp only [put]
      split_ifs with h1 h2
      · simp [ihl hl, putEntry_append_of_lt h1]
      · simp [ihr hr, putEntry_append_of_gt (fun y hy => (hlk y hy).trans h2), putEntry, h2,
          not_lt.2 h2.le]
      · have hk : key = k := by omega
        subst hk
        simp [putEntry_append_of_gt hlk, putEntry]

/-- **`Remove` on an ordered tree filters its key out of the in-order list.** -/
theorem toList_remove {t : Tree α} (ht : t.Ordered) (key : Int) :
    (t.remove key).toList = t.toList.filter (fun y => y.1 ≠ key) := by
  induction t with
  | nil => rfl
  | node l k v r ihl ihr =>
      obtain ⟨hl, hr, hlk, hkr⟩ := ordered_node.1 ht
      simp only [remove]
      split_ifs with h1 h2
      · have : k ≠ key := by omega
        simp [ihl hl, this, filter_ne_of_lt fun y hy => h1.trans (hkr y hy)]
      · have : k ≠ key := by omega
        simp [ihr hr, this, filter_ne_of_gt fun y hy => (hlk y hy).trans h2]
      · have hk : k = key := by omega
        subst hk
        have hfl := filter_ne_of_gt hlk
        have hfr := filter_ne_of_lt hkr
        split <;> rename_i hpop
        · simp [popMin_eq_none hpop, hfl]
        · simpa [hfl, hfr] using (toList_of_popMin hpop).symm

theorem Ordered.put {t : Tree α} (ht : t.Ordered) (key : Int) (value : α) :
    (t.put key value).Ordered := by
  rw [Ordered, toList_put ht]
  exact putEntry_sorted ht

theorem Ordered.remove {t : Tree α} (ht : t.Ordered) (key : Int) : (t.remove key).Ordered := by
  rw [Ordered, toList_remove ht]
  exact ht.filter _

/-- **`Get` on an ordered tree finds exactly the entries of its in-order list.** -/
theorem get_eq_some_iff {t : Tree α} (ht : t.Ordered) {key : Int} {value : α} :
    t.get key = some value ↔ (key, value) ∈ t.toList := by
  induction t with
  | nil => simp [get]
  | node l k v r ihl ihr =>
      obtain ⟨hl, hr, hlk, hkr⟩ := ordered_node.1 ht
      have hnl : key ≥ k → (key, value) ∉ l.toList := fun h hm => by
        have := hlk _ hm; omega
      have hnr : key ≤ k → (key, value) ∉ r.toList := fun h hm => by
        have := hkr _ hm; omega
      simp only [get, toList_node, List.mem_append, List.mem_cons, Prod.mk.injEq]
      split_ifs with h1 h2
      · simp [ihl hl, hnr h1.le, h1.ne]
      · simp [ihr hr, hnl h2.le, h2.ne']
      · have hk : key = k := by omega
        subst hk
        simp [hnl le_rfl, hnr le_rfl, eq_comm]

theorem get_put {t : Tree α} (ht : t.Ordered) (key key' : Int) (value : α) :
    (t.put key value).get key' = if key' = key then some value else t.get key' := by
  ext w
  simp only [Option.mem_def, get_eq_some_iff (ht.put key value), toList_put ht, mem_putEntry ht,
    Prod.mk.injEq]
  split_ifs with h
  · simpa [h] using eq_comm
  · simp [h, get_eq_some_iff ht]

theorem get_remove {t : Tree α} (ht : t.Ordered) (key key' : Int) :
    (t.remove key).get key' = if key' = key then none else t.get key' := by
  ext w
  simp only [Option.mem_def, get_eq_some_iff (ht.remove key), toList_remove ht, List.mem_filter]
  split_ifs with h
  · simp [h]
  · simp [h, get_eq_some_iff ht]

theorem get_isSome_iff {t : Tree α} (ht : t.Ordered) {key : Int} :
    (t.get key).isSome ↔ key ∈ t.toList.map Prod.fst := by
  rw [Option.isSome_iff_exists]
  simp [get_eq_some_iff ht]

/-- `Put` grows a tree by one unless the key was already there. -/
theorem size_put {t : Tree α} (ht : t.Ordered) (key : Int) (value : α) :
    (t.put key value).size + (if key ∈ t.toList.map Prod.fst then 1 else 0) = t.size + 1 := by
  rw [size_eq_length, size_eq_length, toList_put ht]
  exact length_putEntry ht

end Tree

end LogCache
