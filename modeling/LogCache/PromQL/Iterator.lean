import LogCache.PromQL.Select
import LogCache.PromQL.SeriesSet

/-!
# Reading the series set

The Prometheus engine reads what `Select` returns through two cursors. `concreteSeriesSet`
walks the series: its cursor starts at `0`, `Next` moves it on and `At` reads the series before
it. `concreteSeriesIterator` walks the samples of one series: its cursor starts at `-1`, `Next`
moves it on, `At` reads the sample under it, and `Seek(t)` puts it on the first sample at or after
`t`, found by Go's `sort.Search`.

`sort.Search` is a binary search, right only for a predicate that is false and then true
(`search_spec`). So `Seek` is right only on samples in time order; there it lands on the first
sample at or after `t` from wherever the cursor was, also behind it (`seek_eq`), and reading on
from there gives the samples at or after `t`, in order (`seekRead_eq`).

The samples of a series are in time order when the batch the `DataReader` returned is in
timestamp order: the loop over the batch keeps its order within each series, and truncating a
time to the interval and dividing it by a millisecond keep the order of times. Truncating keeps
it only where `UnixNano` does not wrap (`truncate_mono`): a time less than the interval above
the least `int64` may be rounded down below it and wrap to a time near the greatest. So for
every such batch with no such time, the engine reads back every series `Select` built, and
`Seek(t)` on each finds exactly its samples at or after `t` (`select_read`).
-/

namespace LogCache

namespace PromQL

/-! ### `sort.Search` -/

/-- Go's `sort.Search(n, f)`: a binary search of `[0, n)` for the first index at which `f`
    holds, `n` when it holds at none. `h` is `int(uint(i+j) >> 1)`, which is `(i + j) / 2` for
    the indices here. -/
def search (n : Nat) (f : Nat → Bool) : Nat :=
  go 0 n
where
  /-- The loop `for i < j`: `f` is false below `i` and true from `j` on. -/
  go (i j : Nat) : Nat :=
    if i < j then
      let h := (i + j) / 2
      if !f h then go (h + 1) j else go i h
    else i
  termination_by j - i

/-- `f` is false and then true on `[0, n)`, as `sort.Search` requires. -/
def Partitioned (n : Nat) (f : Nat → Bool) : Prop :=
  ∀ a b, a ≤ b → b < n → f a → f b

section Search

variable {n : Nat} {f : Nat → Bool}

/-- The loop keeps its invariant: `f` is false below `i` and true from `j` to `n`. -/
theorem search_go_spec (hf : Partitioned n f) (i j : Nat) (hij : i ≤ j) (hjn : j ≤ n)
    (hlo : ∀ k < i, f k = false) (hhi : ∀ k, j ≤ k → k < n → f k = true) :
    search.go f i j ≤ n ∧ (∀ k < search.go f i j, f k = false) ∧
      ∀ k, search.go f i j ≤ k → k < n → f k = true := by
  induction i, j using search.go.induct f with
  | case1 i j hlt h hfh ih =>
      rw [search.go, if_pos hlt, if_pos hfh]
      simp only [Bool.not_eq_true'] at hfh
      refine ih (by omega) hjn (fun k hk => ?_) hhi
      by_contra hk'
      simpa [hfh] using hf k h (by omega) (by omega) (by simpa using hk')
  | case2 i j hlt h hfh ih =>
      rw [search.go, if_pos hlt, if_neg hfh]
      simp only [Bool.not_eq_true', Bool.not_eq_false] at hfh
      exact ih (by omega) (by omega) hlo fun k hk hkn => hf h k hk hkn hfh
  | case3 i j hlt =>
      rw [search.go, if_neg hlt]
      exact ⟨by omega, hlo, fun k hk => hhi k (by omega)⟩

/-- **`sort.Search` finds the boundary**: on a predicate that is false and then true on
    `[0, n)`, it returns the first index where the predicate holds, or `n`. -/
theorem search_spec (hf : Partitioned n f) :
    search n f ≤ n ∧ (∀ k < search n f, f k = false) ∧
      ∀ k, search n f ≤ k → k < n → f k = true :=
  search_go_spec hf 0 n (Nat.zero_le _) le_rfl (fun _ h => absurd h (Nat.not_lt_zero _))
    fun _ h h' => absurd h' (Nat.not_lt.2 h)

end Search

/-! ### The cursors -/

/-- `concreteSeriesIterator`: a cursor into the samples of a series. -/
structure ConcreteSeriesIterator where
  cur : Int
  samples : List Sample

/-- `newConcreteSeriersIterator`: the cursor before the first sample. -/
def newConcreteSeriersIterator (series : Series) : ConcreteSeriesIterator :=
  ⟨-1, series.samples⟩

/-- `concreteSeriesSet`: a cursor over the series; `buildSeriesSet` leaves it at `0`. -/
structure ConcreteSeriesSet where
  cur : Int
  series : List Series

namespace ConcreteSeriesIterator

/-- `Seek`: the cursor goes to `sort.Search` of `samples[n].t >= t`. -/
def seek (c : ConcreteSeriesIterator) (t : Int) : Bool × ConcreteSeriesIterator :=
  let cur := search c.samples.length fun n => c.samples[n]?.any fun s => decide (t ≤ s.t)
  (decide (cur < c.samples.length), { c with cur := cur })

/-- `At`: the time and value of the sample under the cursor; `none` is the index-out-of-range
    panic. -/
def at_ (c : ConcreteSeriesIterator) : Option (Int × Float) :=
  if 0 ≤ c.cur then c.samples[c.cur.toNat]?.map fun s => (s.t, s.v) else none

/-- `Next`. -/
def next (c : ConcreteSeriesIterator) : Bool × ConcreteSeriesIterator :=
  (decide (c.cur + 1 < c.samples.length), { c with cur := c.cur + 1 })

/-- A reader's loop `for it.Next() { it.At() }`, for at most `fuel` passes: the pairs `At`
    returns, `none` when `At` panics or the fuel runs out. -/
def readAll : Nat → ConcreteSeriesIterator → Option (List (Int × Float))
  | 0, _ => none
  | fuel + 1, c =>
      let (ok, c) := c.next
      if ok then c.at_.bind fun p => (readAll fuel c).map (p :: ·) else some []

/-- `Seek(t)`, then, when it found a sample, `At` and the loop over `Next`. -/
def seekRead (c : ConcreteSeriesIterator) (t : Int) (fuel : Nat) :
    Option (List (Int × Float)) :=
  let (ok, c) := c.seek t
  if ok then c.at_.bind fun p => (c.readAll fuel).map (p :: ·) else some []

end ConcreteSeriesIterator

namespace ConcreteSeriesSet

/-- `Next`: the cursor moves on, and there was a series under it. -/
def next (c : ConcreteSeriesSet) : Bool × ConcreteSeriesSet :=
  (decide (c.cur < c.series.length), { c with cur := c.cur + 1 })

/-- `At`: the series before the cursor; `none` is the index-out-of-range panic. -/
def at_ (c : ConcreteSeriesSet) : Option Series :=
  if 1 ≤ c.cur then c.series[(c.cur - 1).toNat]? else none

/-- A reader's loop `for set.Next() { set.At() }`, for at most `fuel` passes. -/
def readAll : Nat → ConcreteSeriesSet → Option (List Series)
  | 0, _ => none
  | fuel + 1, c =>
      let (ok, c) := c.next
      if ok then c.at_.bind fun s => (readAll fuel c).map (s :: ·) else some []

end ConcreteSeriesSet

/-- Samples in time order. -/
def TimeOrdered (samples : List Sample) : Prop :=
  samples.Pairwise fun a b => a.t ≤ b.t

/-- The pair `At` returns for a sample. -/
def Sample.pair (s : Sample) : Int × Float := (s.t, s.v)

/-! ### Reading a series -/

namespace ConcreteSeriesIterator

/-- From the cursor before index `k`, the loop reads the samples from `k` on. -/
theorem readAll_eq (samples : List Sample) (k fuel : Nat) (h : samples.length - k < fuel) :
    readAll fuel ⟨(k : Int) - 1, samples⟩ = some ((samples.drop k).map Sample.pair) := by
  induction fuel generalizing k with
  | zero => omega
  | succ fuel ih =>
      have hcur : (k : Int) - 1 + 1 = ((k + 1 : Nat) : Int) - 1 := by omega
      by_cases hk : k < samples.length
      · have hat : (⟨(k : Int) - 1 + 1, samples⟩ : ConcreteSeriesIterator).at_ =
            some samples[k].pair := by
          simp [at_, List.getElem?_eq_getElem hk, Sample.pair, show (0 : Int) ≤ k by omega]
        simp only [readAll, next, show (k : Int) - 1 + 1 < samples.length by omega,
          decide_True, if_true, hat, Option.some_bind]
        rw [hcur, ih (k + 1) (by omega), List.drop_eq_getElem_cons hk]
        rfl
      · simp [readAll, next, show ¬((k : Int) - 1 + 1 < samples.length) by omega, hk,
          List.drop_of_length_le (Nat.le_of_not_lt hk)]

/-- On samples in time order, the first one at or after `t` starts the samples at or after
    `t`. -/
theorem drop_findIdx_eq_filter {samples : List Sample} (hs : TimeOrdered samples) (t : Int) :
    samples.drop (samples.findIdx fun s => decide (t ≤ s.t)) =
      samples.filter fun s => decide (t ≤ s.t) := by
  induction samples with
  | nil => rfl
  | cons s rest ih =>
      rw [TimeOrdered, List.pairwise_cons] at hs
      by_cases hst : t ≤ s.t
      · rw [List.findIdx_cons, List.filter_cons_of_pos (by simpa using hst),
          List.filter_eq_self.2 fun r hr => by simpa using hst.trans (hs.1 r hr)]
        simp [hst]
      · rw [List.findIdx_cons, List.filter_cons_of_neg (by simpa using hst)]
        simpa [hst] using ih hs.2

/-- The predicate `Seek` searches on is false and then true on samples in time order. -/
theorem partitioned_seek {samples : List Sample} (hs : TimeOrdered samples) (t : Int) :
    Partitioned samples.length fun n => samples[n]?.any fun s => decide (t ≤ s.t) := by
  intro a b hab hb ha
  rcases Nat.lt_or_eq_of_le hab with hab | rfl
  · simp only [List.getElem?_eq_getElem (hab.trans hb), List.getElem?_eq_getElem hb,
      Option.any_some, decide_eq_true_eq] at ha ⊢
    exact ha.trans (List.pairwise_iff_getElem.1 hs a b (hab.trans hb) hb hab)
  · exact ha

/-- `sort.Search` over a list, at a predicate that is false and then true, is `findIdx`. -/
theorem search_eq_findIdx {α : Type} {l : List α} {p : α → Bool}
    (hp : Partitioned l.length fun n => l[n]?.any p) :
    search l.length (fun n => l[n]?.any p) = l.findIdx p := by
  obtain ⟨hle, hlo, hhi⟩ := search_spec hp
  rcases Nat.lt_or_eq_of_le hle with hlt | heq
  · refine ((List.findIdx_eq hlt).2 ⟨?_, fun j hj => ?_⟩).symm
    · simpa [List.getElem?_eq_getElem hlt] using hhi _ le_rfl hlt
    · simpa [List.getElem?_eq_getElem (hj.trans hlt)] using hlo j hj
  · rw [heq, eq_comm, List.findIdx_eq_length]
    intro x hx
    obtain ⟨k, hk, rfl⟩ := List.getElem_of_mem hx
    simpa [List.getElem?_eq_getElem hk] using hlo k (by omega)

/-- **`Seek` on samples in time order**: from any cursor, `Seek(t)` puts the cursor on the
    first sample at or after `t`, and says whether there is one. -/
theorem seek_eq (c : ConcreteSeriesIterator) (t : Int) (hs : TimeOrdered c.samples) :
    c.seek t = (decide (∃ s ∈ c.samples, t ≤ s.t),
      { c with cur := c.samples.findIdx fun s => decide (t ≤ s.t) }) := by
  rw [seek, search_eq_findIdx (partitioned_seek hs t)]
  simp [List.findIdx_lt_length]

/-- **`Seek`, then reading on, gives the samples at or after `t`**: on samples in time order,
    from any cursor, for enough passes. -/
theorem seekRead_eq (c : ConcreteSeriesIterator) (t : Int) (hs : TimeOrdered c.samples)
    (fuel : Nat) (hfuel : c.samples.length ≤ fuel) :
    c.seekRead t fuel = some ((c.samples.filter fun s => decide (t ≤ s.t)).map Sample.pair) := by
  rw [seekRead, seek_eq c t hs, ← drop_findIdx_eq_filter hs]
  by_cases hex : ∃ s ∈ c.samples, t ≤ s.t
  · have hlt : c.samples.findIdx (fun s => decide (t ≤ s.t)) < c.samples.length :=
      List.findIdx_lt_length.2 (by simpa using hex)
    have hcur : ((c.samples.findIdx fun s => decide (t ≤ s.t) : Nat) : Int) =
        ((c.samples.findIdx (fun s => decide (t ≤ s.t)) + 1 : Nat) : Int) - 1 := by omega
    simp only [hex, decide_True, if_true, at_, Int.natCast_nonneg, Int.toNat_natCast,
      List.getElem?_eq_getElem hlt, Option.map_some', Option.some_bind]
    rw [hcur, readAll_eq _ _ _ (by omega), List.drop_eq_getElem_cons hlt]
    rfl
  · have hnil : c.samples.findIdx (fun s => decide (t ≤ s.t)) = c.samples.length :=
      List.findIdx_eq_length.2 fun s hs => by simpa using fun h => hex ⟨s, hs, h⟩
    simp [hex, hnil]

end ConcreteSeriesIterator

namespace ConcreteSeriesSet

/-- From the cursor at `k`, the loop reads the series from `k` on. -/
theorem readAll_eq (series : List Series) (k fuel : Nat) (h : series.length - k < fuel) :
    readAll fuel ⟨k, series⟩ = some (series.drop k) := by
  induction fuel generalizing k with
  | zero => omega
  | succ fuel ih =>
      by_cases hk : k < series.length
      · have hat : (⟨(k : Int) + 1, series⟩ : ConcreteSeriesSet).at_ = some series[k] := by
          simp [at_, List.getElem?_eq_getElem hk, show (1 : Int) ≤ k + 1 by omega]
        simp only [readAll, next, show (k : Int) < series.length by omega, decide_True,
          if_true, hat, Option.some_bind]
        rw [show (k : Int) + 1 = ((k + 1 : Nat) : Int) by omega, ih (k + 1) (by omega),
          List.drop_eq_getElem_cons hk]
        rfl
      · simp [readAll, next, show ¬((k : Int) < series.length) by omega, hk,
          List.drop_of_length_le (Nat.le_of_not_lt hk)]

end ConcreteSeriesSet

/-! ### The series of `Select` are in time order -/

/-- An `int64` time at least `d - 1` above the least `int64` truncates to a multiple of `d`
    that is an `int64` too: `UnixNano` does not wrap it. -/
theorem truncate_of_range {d ns : Int} (hlo : -9223372036854775808 + max (d - 1) 0 ≤ ns)
    (hhi : ns < 9223372036854775808) :
    truncate d ns = if d ≤ 0 then ns else ns - (ns + 62135596800 * 1000000000) % d := by
  have hr : 0 < d → 0 ≤ (ns + 62135596800 * 1000000000) % d ∧
      (ns + 62135596800 * 1000000000) % d < d :=
    fun hd => ⟨Int.emod_nonneg _ hd.ne', Int.emod_lt_of_pos _ hd⟩
  rw [truncate, Int.bmod_def]
  generalize (ns + 62135596800 * 1000000000) % d = r at hr ⊢
  split_ifs <;> omega

/-- At the least `int64`, truncating to the second rounds below it and wraps. -/
example : truncate 1000000000 (-9223372036854775808) = 9223372036709551616 := by decide

/-- `time.Truncate` keeps the order of `int64` times at least `d - 1` above the least
    `int64`. -/
theorem truncate_mono (d : Int) {a b : Int} (ha : -9223372036854775808 + max (d - 1) 0 ≤ a)
    (hb : b < 9223372036854775808) (h : a ≤ b) : truncate d a ≤ truncate d b := by
  rw [truncate_of_range ha (by omega), truncate_of_range (by omega) hb]
  split_ifs with hd
  · exact h
  · have hdiv := Int.ediv_le_ediv (c := d) (by omega)
      (by omega : a + 62135596800 * 1000000000 ≤ b + 62135596800 * 1000000000)
    have := Int.mul_le_mul_of_nonneg_left hdiv (by omega : 0 ≤ d)
    rw [Int.emod_def, Int.emod_def]
    generalize d * ((a + 62135596800 * 1000000000) / d) = x at *
    generalize d * ((b + 62135596800 * 1000000000) / d) = y at *
    omega

/-- Dividing by a positive `int64` keeps the order, rounding toward zero. -/
theorem tdiv_mono {a b : Int} (c : Int) (hc : 0 < c) (h : a ≤ b) : a.tdiv c ≤ b.tdiv c := by
  have hneg : ∀ x, x < 0 → x.tdiv c = -((-x) / c) := fun x hx => by
    rw [← Int.tdiv_eq_ediv (by omega) hc.le, Int.neg_tdiv, Int.neg_neg]
  rcases Int.lt_or_le a 0 with ha | ha
  · rw [hneg a ha]
    rcases Int.lt_or_le b 0 with hb | hb
    · rw [hneg b hb]
      exact Int.neg_le_neg (Int.ediv_le_ediv hc (by omega))
    · rw [Int.tdiv_eq_ediv hb hc.le]
      have := Int.ediv_nonneg (by omega : 0 ≤ -a) hc.le
      have := Int.ediv_nonneg hb hc.le
      omega
  · rw [Int.tdiv_eq_ediv ha hc.le, Int.tdiv_eq_ediv (ha.trans h) hc.le]
    exact Int.ediv_le_ediv hc h

/-- The loop over the batch is a sequence of adds: one per envelope it does not skip. -/
theorem foldl_addEnvelope_eq (l : LogCacheQuerier) (metric : String) (ls : List Label)
    (batch : List Envelope) (b : SeriesSetBuilder) :
    batch.foldl (l.addEnvelope metric ls) b =
      b.addAll (batch.filterMap fun e => (l.envelopeSample metric ls e).map (e.tags, ·)) := by
  induction batch generalizing b with
  | nil => rfl
  | cons e batch ih =>
      rw [List.foldl_cons, ih, List.filterMap_cons, LogCacheQuerier.addEnvelope]
      cases l.envelopeSample metric ls e <;> rfl

/-- The samples filed under one id are some of the samples added, in order. -/
theorem samplesOf_sublist (id : String) (adds : List (Tags × Sample)) :
    (samplesOf id adds).Sublist (adds.map Prod.snd) := by
  induction adds with
  | nil => exact List.Sublist.slnil
  | cons x adds ih =>
      by_cases h : getSeriesID x.1 = id
      · simpa [samplesOf, List.filterMap_cons, h] using ih
      · simpa [samplesOf, List.filterMap_cons, h] using ih.cons x.2

/-- A series of a builder fed by a sequence of adds holds the samples added under its id. -/
theorem mem_buildSeriesSet {adds : List (Tags × Sample)} {ser : Series}
    (h : ser ∈ (newSeriesBuilder.addAll adds).buildSeriesSet) :
    ∃ id, ser.samples = samplesOf id adds := by
  obtain ⟨⟨id, d⟩, hd, rfl⟩ := List.mem_map.1 h
  have hl := lookup_addAll_newSeriesBuilder adds id
  rw [AList.mem_lookup_iff.2 hd] at hl
  obtain ⟨tags, -, hd'⟩ := Option.map_eq_some'.1 hl.symm
  exact ⟨id, by rw [← hd']⟩

/-- **The series of `Select` are in time order when its batch is**: for every querier, every
    matcher list whose last `source_id` value is a non-empty `sourceID`, and every batch in
    timestamp order that the `DataReader` returns for the read of that source, whose times
    truncate without wrapping, `Select` succeeds and the samples of each of its series are in
    time order. -/
theorem select_timeOrdered (l : LogCacheQuerier) (ll : List Matcher) (sourceID : String)
    (hsource : lastValue "source_id" ll = some sourceID) (hne : sourceID ≠ "")
    (batch : List Envelope) (hread : l.dataReader (l.readRequest sourceID) = .ok batch)
    (hsorted : batch.Pairwise fun a b => a.timestamp ≤ b.timestamp)
    (hrange : ∀ e ∈ batch, -9223372036854775808 + max (l.interval - 1) 0 ≤ e.timestamp ∧
      e.timestamp < 9223372036854775808) :
    ∃ set, l.select ll = .ok set ∧ ∀ ser ∈ set, TimeOrdered ser.samples := by
  refine ⟨_, select_of_read l ll hsource hne hread, fun ser hser => ?_⟩
  rw [foldl_addEnvelope_eq] at hser
  obtain ⟨id, hid⟩ := mem_buildSeriesSet hser
  rw [TimeOrdered, hid]
  refine List.Pairwise.sublist (samplesOf_sublist _ _) ?_
  simp only [List.map_filterMap, Option.map_map, Function.comp_def, Option.map_id']
  have htrunc : batch.Pairwise fun a b =>
      truncate l.interval a.timestamp ≤ truncate l.interval b.timestamp :=
    hsorted.imp_of_mem fun ha hb hab => truncate_mono _ (hrange _ ha).1 (hrange _ hb).2 hab
  refine htrunc.filterMap _ fun a b hab s hs s' hs' => ?_
  rw [(envelopeSample_eq_some hs).1, (envelopeSample_eq_some hs').1]
  exact tdiv_mono _ (by decide) hab

/-- **What the engine reads back from `Select`**: for every querier, every matcher list whose
    last `source_id` value is a non-empty `sourceID`, and every batch in timestamp order that
    the `DataReader` returns for the read of that source, whose times are at least the
    interval less a nanosecond above the least `int64` so that truncating them does not wrap,
    `Select` succeeds; the loop over its series set reads back every series it built, in order;
    and on each series, from any cursor, `Seek(t)` and reading on give exactly the series'
    samples at or after `t`, in order. -/
theorem select_read (l : LogCacheQuerier) (ll : List Matcher) (sourceID : String)
    (hsource : lastValue "source_id" ll = some sourceID) (hne : sourceID ≠ "")
    (batch : List Envelope) (hread : l.dataReader (l.readRequest sourceID) = .ok batch)
    (hsorted : batch.Pairwise fun a b => a.timestamp ≤ b.timestamp)
    (hrange : ∀ e ∈ batch, -9223372036854775808 + max (l.interval - 1) 0 ≤ e.timestamp ∧
      e.timestamp < 9223372036854775808) :
    ∃ set, l.select ll = .ok set ∧
      (⟨0, set⟩ : ConcreteSeriesSet).readAll (set.length + 1) = some set ∧
      ∀ ser ∈ set, ∀ (cur t : Int) (fuel : Nat), ser.samples.length ≤ fuel →
        (⟨cur, ser.samples⟩ : ConcreteSeriesIterator).seekRead t fuel =
          some ((ser.samples.filter fun s => decide (t ≤ s.t)).map Sample.pair) := by
  obtain ⟨set, hset, hord⟩ :=
    select_timeOrdered l ll sourceID hsource hne batch hread hsorted hrange
  refine ⟨set, hset, by simpa using ConcreteSeriesSet.readAll_eq set 0 _ (by omega),
    fun ser hser cur t fuel hfuel => ?_⟩
  exact ConcreteSeriesIterator.seekRead_eq ⟨cur, ser.samples⟩ t (hord ser hser) fuel hfuel

theorem select_read_counters :
    let batch : List Envelope :=
      [⟨1, "app", ∅, some (.counter "cpu" 7)⟩, ⟨2, "app", ∅, some (.counter "cpu" 8)⟩]
    let l : LogCacheQuerier := ⟨0, 0, 1, fun _ => .ok batch⟩
    let ll : List Matcher := [⟨.equal, "source_id", "app"⟩, ⟨.equal, "__name__", "cpu"⟩]
    lastValue "source_id" ll = some "app" ∧ "app" ≠ "" ∧
      l.dataReader (l.readRequest "app") = .ok batch ∧
      batch.Pairwise (fun a b => a.timestamp ≤ b.timestamp) ∧
      (∀ e ∈ batch, -9223372036854775808 + max (l.interval - 1) 0 ≤ e.timestamp ∧
        e.timestamp < 9223372036854775808) ∧
      ∃ set, l.select ll = .ok set ∧
        (⟨0, set⟩ : ConcreteSeriesSet).readAll (set.length + 1) = some set ∧
        ∀ ser ∈ set, ∀ (cur t : Int) (fuel : Nat), ser.samples.length ≤ fuel →
          (⟨cur, ser.samples⟩ : ConcreteSeriesIterator).seekRead t fuel =
            some ((ser.samples.filter fun s => decide (t ≤ s.t)).map Sample.pair) :=
  ⟨by decide, by decide, rfl, by decide, by decide,
    select_read _ _ "app" (by decide) (by decide) _ rfl (by decide) (by decide)⟩

end PromQL

end LogCache
