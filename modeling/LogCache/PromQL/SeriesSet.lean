import LogCache.PromQL.Querier
import Mathlib.Data.List.Dedup
import Mathlib.Data.List.Sort

/-!
# The series of a series-set builder

`seriesSetBuilder.add` files a sample under `getSeriesID` of its tag map, in a map keyed by
that id, and `buildSeriesSet` returns one series per entry of the map. So a builder groups the
samples by series id, not by tag map: over any sequence of adds, its series are one per series
id, labelled with the first tag map added under that id and holding the samples added under it
in order (`buildSeriesSet_addAll`).

`getSeriesID` joins `-key-value` over the sorted keys with no escaping. On tag maps whose keys
and values have no `-` it is exact: two such maps get one id when they are the same map
(`getSeriesID_eq_iff`). Two tag maps with a `-` in a key or a value can share an id:
`{a: "b-c"}` and `{"a-b": "c"}` both give `-a-b-c`, and their samples end up in one series
under the first map's labels (`buildSeriesSet_merges_colliding_tags`).
-/

namespace LogCache

namespace PromQL

/-- A sequence of `add` calls, as `Select` makes them for the envelopes it keeps. -/
def SeriesSetBuilder.addAll (b : SeriesSetBuilder) (adds : List (Tags × Sample)) :
    SeriesSetBuilder :=
  adds.foldl (fun b x => b.add x.1 x.2) b

/-- The samples added under the series id `id`, in order. -/
def samplesOf (id : String) (adds : List (Tags × Sample)) : List Sample :=
  adds.filterMap fun x => if getSeriesID x.1 = id then some x.2 else none

/-- The tag map first added under the series id `id`. -/
def firstTags (id : String) (adds : List (Tags × Sample)) : Option Tags :=
  (adds.find? fun x => getSeriesID x.1 = id).map (·.1)

/-! ### One `add`, then a sequence -/

theorem lookup_add (b : SeriesSetBuilder) (tags : Tags) (s : Sample) (id : String) :
    (b.add tags s).data.lookup id =
      if getSeriesID tags = id then
        some ⟨((b.data.lookup id).map (·.tags)).getD tags,
          ((b.data.lookup id).map (·.samples)).getD [] ++ [s]⟩
      else b.data.lookup id := by
  by_cases h : getSeriesID tags = id
  · subst h
    cases hd : b.data.lookup (getSeriesID tags) <;> simp [SeriesSetBuilder.add, hd]
  · simp [SeriesSetBuilder.add, AList.lookup_insert_ne (Ne.symm h), h]

/-- A sequence of adds appends to a series already there the samples added under its id, and
    creates a missing one with the first tag map added under its id. -/
theorem lookup_addAll (b : SeriesSetBuilder) (adds : List (Tags × Sample)) (id : String) :
    (b.addAll adds).data.lookup id =
      match b.data.lookup id with
      | some d => some ⟨d.tags, d.samples ++ samplesOf id adds⟩
      | none => (firstTags id adds).map fun tags => ⟨tags, samplesOf id adds⟩ := by
  induction adds generalizing b with
  | nil => cases h : b.data.lookup id <;> simp [SeriesSetBuilder.addAll, samplesOf, firstTags, h]
  | cons x adds ih =>
      rw [SeriesSetBuilder.addAll, List.foldl_cons, ← SeriesSetBuilder.addAll, ih, lookup_add]
      by_cases h : getSeriesID x.1 = id <;> cases hd : b.data.lookup id <;>
        simp [h, hd, samplesOf, firstTags, List.find?_cons]

theorem lookup_addAll_newSeriesBuilder (adds : List (Tags × Sample)) (id : String) :
    (newSeriesBuilder.addAll adds).data.lookup id =
      (firstTags id adds).map fun tags => ⟨tags, samplesOf id adds⟩ := by
  rw [lookup_addAll]
  rfl

theorem firstTags_isSome (id : String) (adds : List (Tags × Sample)) :
    (firstTags id adds).isSome ↔ id ∈ adds.map fun x => getSeriesID x.1 := by
  simp [firstTags]

theorem dlookup_map_sigma {β : Type} (f : String → β) (ks : List String) (k : String) :
    (ks.map fun k => (⟨k, f k⟩ : Σ _ : String, β)).dlookup k =
      if k ∈ ks then some (f k) else none := by
  induction ks with
  | nil => rfl
  | cons k' ks ih =>
      by_cases h : k = k'
      · subst h; simp [List.dlookup_cons_eq]
      · rw [List.map_cons, List.dlookup_cons_ne _ _ h, ih]
        simp [h]

/-! ### The series set -/

/-- **One series per series id**: over any sequence of adds from `newSeriesBuilder`, the series
    of `buildSeriesSet` are, up to order, one per series id of an added tag map, labelled with
    the first tag map added under that id and holding the samples added under it, in order. -/
theorem buildSeriesSet_addAll (adds : List (Tags × Sample)) :
    (newSeriesBuilder.addAll adds).buildSeriesSet.Perm
      ((adds.map fun x => getSeriesID x.1).dedup.map fun id =>
        ⟨convertToLabels ((firstTags id adds).getD ∅), samplesOf id adds⟩) := by
  have hperm : (newSeriesBuilder.addAll adds).data.entries.Perm
      ((adds.map fun x => getSeriesID x.1).dedup.map fun id =>
        (⟨id, ⟨(firstTags id adds).getD ∅, samplesOf id adds⟩⟩ : Σ _ : String, SeriesData)) := by
    refine List.lookup_ext (AList.nodupKeys _) ?_ fun id d => ?_
    · simpa [List.NodupKeys, List.keys, Function.comp_def] using List.nodup_dedup _
    · rw [← AList.lookup, lookup_addAll_newSeriesBuilder, dlookup_map_sigma]
      have hmem := firstTags_isSome id adds
      cases hf : firstTags id adds with
      | none =>
          have hid : id ∉ adds.map fun x => getSeriesID x.1 := by simpa [hf] using hmem
          simp [hid]
      | some tags => simp [hmem.1 (by rw [hf]; rfl)]
  simpa [SeriesSetBuilder.buildSeriesSet, Function.comp_def] using
    hperm.map fun kv => (⟨convertToLabels kv.2.tags, kv.2.samples⟩ : Series)

/-! ### When series ids separate tag maps -/

/-- No key and no value of the tag map contains `-`. -/
def dashFree (tags : Tags) : Bool :=
  tags.entries.all fun kv => decide ('-' ∉ kv.1.data) && decide ('-' ∉ kv.2.data)

/-- The characters of a series id built from key-value pairs: `-key-value` per pair. -/
def idChars (ps : List (String × String)) : List Char :=
  ps.flatMap fun p => '-' :: (p.1.data ++ '-' :: p.2.data)

theorem idChars_cons (p : String × String) (ps : List (String × String)) :
    idChars (p :: ps) = '-' :: (p.1.data ++ '-' :: (p.2.data ++ idChars ps)) := by
  simp [idChars]

theorem idChars_head (ps : List (String × String)) : ∀ c ∈ (idChars ps).head?, c = '-' := by
  cases ps <;> simp [idChars]

theorem foldl_seriesID_data (g : String → String) (ks : List String) (init : String) :
    (ks.foldl (fun seriesID k => seriesID ++ "-" ++ k ++ "-" ++ g k) init).data =
      init.data ++ idChars (ks.map fun k => (k, g k)) := by
  induction ks generalizing init with
  | nil => simp [idChars]
  | cons k ks ih => rw [List.foldl_cons, ih, List.map_cons, idChars_cons]; simp

theorem getSeriesID_data (tags : Tags) :
    (getSeriesID tags).data =
      idChars (tags.keys.mergeSort.map fun k => (k, (tags.lookup k).getD "")) :=
  foldl_seriesID_data _ _ _

/-- Two words without `-`, each followed by nothing or by `-`, that make the same list are the
    same word followed by the same rest. -/
theorem append_dash_cancel {a b x y : List Char} (ha : '-' ∉ a) (hb : '-' ∉ b)
    (hx : ∀ c ∈ x.head?, c = '-') (hy : ∀ c ∈ y.head?, c = '-') (h : a ++ x = b ++ y) :
    a = b ∧ x = y := by
  induction a generalizing b with
  | nil =>
      cases b with
      | nil => exact ⟨rfl, h⟩
      | cons c b =>
          subst h
          exact absurd (hx c rfl ▸ List.mem_cons_self c b) hb
  | cons c a ih =>
      cases b with
      | nil =>
          subst h
          exact absurd (hy c rfl ▸ List.mem_cons_self c a) ha
      | cons c' b =>
          rw [List.cons_append, List.cons_append] at h
          obtain ⟨rfl, hrest⟩ := List.cons.inj h
          obtain ⟨rfl, rfl⟩ := ih (fun h' => ha (.tail _ h')) (fun h' => hb (.tail _ h')) hrest
          exact ⟨rfl, rfl⟩

/-- **The series id characters are injective on pairs without `-`.** -/
theorem idChars_inj {ps qs : List (String × String)}
    (hp : ∀ p ∈ ps, '-' ∉ p.1.data ∧ '-' ∉ p.2.data)
    (hq : ∀ q ∈ qs, '-' ∉ q.1.data ∧ '-' ∉ q.2.data) (h : idChars ps = idChars qs) :
    ps = qs := by
  induction ps generalizing qs with
  | nil =>
      cases qs with
      | nil => rfl
      | cons q qs => simp [idChars] at h
  | cons p ps ih =>
      cases qs with
      | nil => simp [idChars] at h
      | cons q qs =>
          rw [idChars_cons, idChars_cons] at h
          have hp₀ := hp p (.head _)
          have hq₀ := hq q (.head _)
          obtain ⟨h₁, h₂⟩ := append_dash_cancel hp₀.1 hq₀.1 (by simp) (by simp) (List.cons.inj h).2
          obtain ⟨h₃, h₄⟩ := append_dash_cancel hp₀.2 hq₀.2 (idChars_head ps) (idChars_head qs)
            (List.cons.inj h₂).2
          rw [Prod.ext (String.ext h₁) (String.ext h₃),
            ih (fun p hp' => hp p (.tail _ hp')) (fun q hq' => hq q (.tail _ hq')) h₄]

theorem dashFree_pairs {tags : Tags} (h : dashFree tags) :
    ∀ p ∈ tags.keys.mergeSort.map (fun k => (k, (tags.lookup k).getD "")),
      '-' ∉ p.1.data ∧ '-' ∉ p.2.data := by
  simp only [List.mem_map]
  rintro _ ⟨k, hk, rfl⟩
  obtain ⟨v, hv⟩ := Option.isSome_iff_exists.1
    (AList.lookup_isSome.2 (AList.mem_keys.2 ((List.mergeSort_perm _ _).mem_iff.1 hk)))
  have hmem : (⟨k, v⟩ : Σ _ : String, String) ∈ tags.entries := AList.mem_lookup_iff.1 hv
  simp only [dashFree, List.all_eq_true, Bool.and_eq_true, decide_eq_true_eq] at h
  rw [hv]
  exact h _ hmem

theorem sorted_mergeSort_keys (tags : Tags) : tags.keys.mergeSort.Sorted (· ≤ ·) := by
  have := @List.sorted_mergeSort String (fun a b => decide (a ≤ b))
    (fun _ _ _ h₁ h₂ => by simp only [decide_eq_true_eq] at *; exact le_trans h₁ h₂)
    (fun a b => by simpa using le_total a b) tags.keys
  exact this.imp fun h => by simpa using h

/-- **Series ids separate tag maps without `-`**: two tag maps whose keys and values contain
    no `-` have the same series id exactly when they are the same map. -/
theorem getSeriesID_eq_iff {t₁ t₂ : Tags} (h₁ : dashFree t₁) (h₂ : dashFree t₂) :
    getSeriesID t₁ = getSeriesID t₂ ↔ ∀ k, t₁.lookup k = t₂.lookup k := by
  constructor
  · intro h k
    have hpairs := idChars_inj (dashFree_pairs h₁) (dashFree_pairs h₂)
      (by rw [← getSeriesID_data, ← getSeriesID_data, h])
    have hkeys : t₁.keys.mergeSort = t₂.keys.mergeSort := by
      simpa [List.map_map, Function.comp_def] using congrArg (List.map Prod.fst) hpairs
    rw [hkeys] at hpairs
    have hmem : k ∈ t₁ ↔ k ∈ t₂ := by
      rw [AList.mem_keys, AList.mem_keys, ← (List.mergeSort_perm t₁.keys _).mem_iff,
        ← (List.mergeSort_perm t₂.keys _).mem_iff, hkeys]
    by_cases hk : k ∈ t₁
    · have hv := (Prod.mk.inj (List.map_inj_left.1 hpairs k
        (by rw [← hkeys, (List.mergeSort_perm _ _).mem_iff]; exact AList.mem_keys.1 hk))).2
      obtain ⟨v₁, hv₁⟩ := Option.isSome_iff_exists.1 (AList.lookup_isSome.2 hk)
      obtain ⟨v₂, hv₂⟩ := Option.isSome_iff_exists.1 (AList.lookup_isSome.2 (hmem.1 hk))
      rw [hv₁, hv₂] at hv ⊢
      exact congrArg some hv
    · rw [AList.lookup_eq_none.2 hk, AList.lookup_eq_none.2 (mt hmem.2 hk)]
  · intro h
    have hperm : t₁.keys.Perm t₂.keys := (List.perm_ext_iff_of_nodup (AList.keys_nodup _)
      (AList.keys_nodup _)).2 fun k => by
        rw [← AList.mem_keys, ← AList.mem_keys, ← AList.lookup_isSome, ← AList.lookup_isSome, h]
    have hkeys : t₁.keys.mergeSort = t₂.keys.mergeSort :=
      List.eq_of_perm_of_sorted (((List.mergeSort_perm _ _).trans hperm).trans
        (List.mergeSort_perm _ _).symm) (sorted_mergeSort_keys t₁) (sorted_mergeSort_keys t₂)
    simp only [getSeriesID, hkeys, h]

theorem getSeriesID_eq_iff_tags :
    dashFree (AList.insert "a" "1" ∅) = true ∧ dashFree (AList.insert "a" "2" ∅) = true ∧
      (getSeriesID (AList.insert "a" "1" ∅) = getSeriesID (AList.insert "a" "2" ∅) ↔
        ∀ k, (AList.insert "a" "1" ∅ : Tags).lookup k = (AList.insert "a" "2" ∅ : Tags).lookup k) :=
  ⟨by decide, by decide, getSeriesID_eq_iff (by decide) (by decide)⟩

/-! ### Colliding series ids -/

/-- `add` with the series id of its tag map given. -/
theorem add_eq_of_getSeriesID {b : SeriesSetBuilder} {tags : Tags} {id : String}
    (h : getSeriesID tags = id) (s : Sample) :
    b.add tags s = ⟨b.data.insert id
      { (b.data.lookup id).getD ⟨tags, []⟩ with
        samples := ((b.data.lookup id).getD ⟨tags, []⟩).samples ++ [s] }⟩ := by
  subst h
  rfl

theorem getSeriesID_a_bc : getSeriesID (AList.insert "a" "b-c" ∅) = "-a-b-c" := by
  simp [getSeriesID, AList.keys_insert, AList.lookup, AList.singleton_entries]

theorem getSeriesID_ab_c : getSeriesID (AList.insert "a-b" "c" ∅) = "-a-b-c" := by
  simp [getSeriesID, AList.keys_insert, AList.lookup, AList.singleton_entries]

/-- **Distinct tag maps can share a series id**: `{a: "b-c"}` and `{"a-b": "c"}` both have the
    id `-a-b-c`, so a builder given a sample under each returns one series, labelled `a = b-c`,
    holding both samples. -/
theorem buildSeriesSet_merges_colliding_tags :
    getSeriesID (AList.insert "a" "b-c" ∅) = getSeriesID (AList.insert "a-b" "c" ∅) ∧
      (AList.insert "a" "b-c" ∅ : Tags).lookup "a" ≠ (AList.insert "a-b" "c" ∅ : Tags).lookup "a" ∧
      ((newSeriesBuilder.addAll [(AList.insert "a" "b-c" ∅, ⟨1, 1⟩),
          (AList.insert "a-b" "c" ∅, ⟨2, 2⟩)]).buildSeriesSet.map
        fun ser => (ser.labels, ser.samples.map (·.t))) = [([⟨"a", "b-c"⟩], [1, 2])] := by
  refine ⟨getSeriesID_a_bc.trans getSeriesID_ab_c.symm, by decide, ?_⟩
  simp only [SeriesSetBuilder.addAll, List.foldl, add_eq_of_getSeriesID getSeriesID_a_bc,
    add_eq_of_getSeriesID getSeriesID_ab_c]
  decide

end PromQL

end LogCache
