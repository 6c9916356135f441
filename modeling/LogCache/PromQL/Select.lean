import LogCache.PromQL.Querier

/-!
# Which envelopes `Select` turns into samples

`LogCacheQuerier.Select` reads only the name and the value of a label matcher: the last
`__name__` matcher gives the metric, the last `source_id` matcher the source, and every other
matcher is checked by `hasLabels` as an equality, whatever its match type. An envelope whose
message is neither a counter, a gauge nor a timer passes the type switch with the value `0` and
no name check.

`select_samples` states the result for every matcher list whose last `source_id` value is not
empty and every batch the `DataReader` returns: the samples of the series set are, up to order,
one per envelope that `selected` accepts, with the envelope's truncated time, wrapped to an
`int64` as `UnixNano` wraps it, and the value of the type switch. `promSelected` is what a
Prometheus selector means, each matcher under its own match type and only counters, gauges and
timers named by the metric; a `!=` matcher shows that `Select` does not keep exactly those
(`select_ignores_match_type`).

A `__name__` value that is not of the form `[a-zA-Z_][a-zA-Z0-9_]*` is the sanitized form of no
name, so on a batch of the counters, gauges and timers it asks for, `Select` returns no series
(`select_invalid_metric_empty`), even for a counter of exactly that name.
-/

namespace LogCache

namespace PromQL

/-! ### What `Select` keeps -/

/-- The value of the last matcher on `name`. -/
def lastValue (name : String) (ll : List Matcher) : Option String :=
  ((ll.filter (·.name = name)).getLast?).map (·.value)

/-- Does a message pass the name check for `metric`? Messages of the kinds the type switch
    does not name, and unset ones, pass. -/
def nameMatches (metric : String) : Option Message → Bool
  | some (.counter name _) => sanitizeMetricName name = metric
  | some (.gauge metrics) => metrics.keys.any (sanitizeMetricName · = metric)
  | some (.timer name _ _) => sanitizeMetricName name = metric
  | _ => true

/-- The envelopes `Select` keeps: those that pass the name check for the last `__name__` value
    (the empty name when there is none) and carry every other matcher's name as a tag with the
    matcher's value. -/
def selected (ll : List Matcher) (e : Envelope) : Bool :=
  nameMatches ((lastValue "__name__" ll).getD "") e.message &&
    ll.all fun m =>
      m.name = "__name__" || m.name = "source_id" || e.tags.lookup m.name = some m.value

/-! ### What a Prometheus selector selects -/

/-- `labels.Matcher.Matches` on a label's value; `regex m.value v` stands for the anchored
    regular expression `m.value` matching `v`. -/
def Matcher.matches (regex : String → String → Bool) (m : Matcher) (v : String) : Bool :=
  match m.type with
  | .equal => v = m.value
  | .notEqual => v ≠ m.value
  | .regexMatch => regex m.value v
  | .regexNoMatch => !regex m.value v

/-- The envelopes a Prometheus selector names: a counter or a timer whose sanitized name is the
    metric, or a gauge with such a key, whose tags satisfy every other matcher under its own match
    type, an absent tag reading as the empty value. -/
def promSelected (regex : String → String → Bool) (ll : List Matcher) (e : Envelope) : Bool :=
  let metric := (lastValue "__name__" ll).getD ""
  (match e.message with
    | some (.counter name _) => sanitizeMetricName name = metric
    | some (.gauge metrics) => metrics.keys.any (sanitizeMetricName · = metric)
    | some (.timer name _ _) => sanitizeMetricName name = metric
    | _ => false) &&
    ll.all fun m => m.name = "__name__" || m.name = "source_id" ||
      m.matches regex ((e.tags.lookup m.name).getD "")

/-! ### The matcher loop -/

@[simp] theorem lastValue_nil (name : String) : lastValue name [] = none := rfl

theorem lastValue_cons (name : String) (m : Matcher) (ll : List Matcher) :
    lastValue name (m :: ll) =
      if m.name = name then some ((lastValue name ll).getD m.value) else lastValue name ll := by
  by_cases h : m.name = name
  · cases hl : (ll.filter (·.name = name)).getLast? <;>
      simp_all [lastValue, List.filter_cons, List.getLast?_cons]
  · simp [lastValue, List.filter_cons, h]

/-- The loop over the matchers keeps the last `source_id` and `__name__` values and turns the
    other matchers into labels, in order. -/
theorem selectLabels_eq (acc : Selection) (ll : List Matcher) :
    selectLabels acc ll =
      ⟨(lastValue "source_id" ll).getD acc.sourceID, (lastValue "__name__" ll).getD acc.metric,
        acc.ls ++ (ll.filter fun m => m.name ≠ "__name__" ∧ m.name ≠ "source_id").map
          fun m => ⟨m.name, m.value⟩⟩ := by
  induction ll generalizing acc with
  | nil => simp [selectLabels]
  | cons m ll ih =>
      rw [selectLabels, lastValue_cons, lastValue_cons]
      by_cases hn : m.name = "__name__"
      · simp [ih, hn, List.filter_cons]
      · by_cases hs : m.name = "source_id" <;> simp [ih, hn, hs, List.filter_cons]

theorem hasLabels_selectLabels (tags : Tags) (ll : List Matcher) :
    hasLabels tags (selectLabels ⟨"", "", []⟩ ll).ls =
      ll.all fun m =>
        m.name = "__name__" || m.name = "source_id" || tags.lookup m.name = some m.value := by
  simp only [selectLabels_eq, List.nil_append]
  induction ll with
  | nil => rfl
  | cons m ll ih =>
      by_cases hn : m.name = "__name__" <;> by_cases hs : m.name = "source_id" <;>
        simp_all [hasLabels, List.filter_cons]

/-! ### The loop over the batch -/

theorem sampleValue_isSome (metric : String) (msg : Option Message) :
    (sampleValue metric msg).isSome = nameMatches metric msg := by
  rcases msg with _ | ⟨_ | ⟨name, total⟩ | metrics | ⟨name, start, stop⟩ | _⟩
  · rfl
  · rfl
  · by_cases h : sanitizeMetricName name = metric <;> simp [sampleValue, nameMatches, h]
  · refine Bool.eq_iff_iff.2 ?_
    simp [sampleValue, nameMatches, checkMapForSanitizedMetricName, AList.keys, List.keys]
  · by_cases h : sanitizeMetricName name = metric <;> simp [sampleValue, nameMatches, h]
  · rfl

theorem envelopeSample_isSome (l : LogCacheQuerier) (metric : String) (ls : List Label)
    (e : Envelope) :
    (l.envelopeSample metric ls e).isSome =
      (hasLabels e.tags ls && nameMatches metric e.message) := by
  by_cases h : hasLabels e.tags ls <;>
    simp [LogCacheQuerier.envelopeSample, h, ← sampleValue_isSome]

theorem envelopeSample_eq_some {l : LogCacheQuerier} {metric : String} {ls : List Label}
    {e : Envelope} {s : Sample} (h : l.envelopeSample metric ls e = some s) :
    s.t = (truncate l.interval e.timestamp).tdiv 1000000 ∧
      sampleValue metric e.message = some s.v := by
  unfold LogCacheQuerier.envelopeSample at h
  split_ifs at h
  obtain ⟨f, hf, rfl⟩ := Option.map_eq_some'.1 h
  exact ⟨rfl, hf⟩

/-- The loop over the batch adds the sample of every envelope it does not skip. -/
theorem samples_foldl_addEnvelope (l : LogCacheQuerier) (metric : String) (ls : List Label)
    (batch : List Envelope) (b : SeriesSetBuilder) :
    (batch.foldl (l.addEnvelope metric ls) b).samples.Perm
      (b.samples ++ batch.filterMap (l.envelopeSample metric ls)) := by
  induction batch generalizing b with
  | nil => simp
  | cons e batch ih =>
      rw [List.foldl_cons, List.filterMap_cons, LogCacheQuerier.addEnvelope]
      cases h : l.envelopeSample metric ls e with
      | none => exact ih b
      | some s =>
          refine (ih _).trans ?_
          simpa using (b.samples_add e.tags s).append_right (batch.filterMap _)

theorem map_fst_filterMap_pair {α β : Type} (f : α → Option β) (l : List α) :
    (l.filterMap fun a => (f a).map (a, ·)).map Prod.fst = l.filter fun a => (f a).isSome := by
  induction l with
  | nil => rfl
  | cons a l ih => cases h : f a <;> simp [List.filterMap_cons, List.filter_cons, h, ih]

theorem map_snd_filterMap_pair {α β : Type} (f : α → Option β) (l : List α) :
    (l.filterMap fun a => (f a).map (a, ·)).map Prod.snd = l.filterMap f := by
  induction l with
  | nil => rfl
  | cons a l ih => cases h : f a <;> simp [List.filterMap_cons, h, ih]

/-! ### `Select` -/

/-- With no `source_id` value, or an empty last one, `Select` fails and names the field. -/
theorem select_of_sourceID_empty (l : LogCacheQuerier) (ll : List Matcher)
    (h : (lastValue "source_id" ll).getD "" = "") :
    l.select ll = .error ("Metric \x27" ++ (lastValue "__name__" ll).getD "" ++
      "\x27 does not have a \x27source_id\x27 label.") := by
  simp [LogCacheQuerier.select, selectLabels_eq, h]

/-- With a non-empty `source_id` value, `Select` is the loop over the batch its read returns. -/
theorem select_of_read (l : LogCacheQuerier) (ll : List Matcher) {sourceID : String}
    (hsource : lastValue "source_id" ll = some sourceID) (hne : sourceID ≠ "")
    {batch : List Envelope} (hread : l.dataReader (l.readRequest sourceID) = .ok batch) :
    l.select ll = .ok (batch.foldl (l.addEnvelope (selectLabels ⟨"", "", []⟩ ll).metric
      (selectLabels ⟨"", "", []⟩ ll).ls) newSeriesBuilder).buildSeriesSet := by
  have hsrc : (selectLabels ⟨"", "", []⟩ ll).sourceID = sourceID := by
    rw [selectLabels_eq, hsource]
    rfl
  rw [LogCacheQuerier.select, hsrc, if_neg hne, hread]

/-- **The samples of `Select` are those of the envelopes `selected` accepts**: for every matcher
    list whose last `source_id` value is a non-empty `sourceID`, and every batch the
    `DataReader` returns for the read of that source, `Select` succeeds, and its samples
    correspond one to one, up to order, to the envelopes of the batch that `selected` accepts,
    each sample carrying the envelope's time, truncated to the interval and wrapped to an
    `int64`, in milliseconds, and the value of the type switch. -/
theorem select_samples (l : LogCacheQuerier) (ll : List Matcher) (sourceID : String)
    (hsource : lastValue "source_id" ll = some sourceID) (hne : sourceID ≠ "")
    (batch : List Envelope) (hread : l.dataReader (l.readRequest sourceID) = .ok batch) :
    ∃ set, l.select ll = .ok set ∧ ∃ kept : List (Envelope × Sample),
      kept.map Prod.fst = batch.filter (selected ll) ∧
      (set.flatMap (·.samples)).Perm (kept.map Prod.snd) ∧
      ∀ x ∈ kept, x.2.t = (truncate l.interval x.1.timestamp).tdiv 1000000 ∧
        sampleValue ((lastValue "__name__" ll).getD "") x.1.message = some x.2.v := by
  set sel := selectLabels ⟨"", "", []⟩ ll with hsel
  have hmetric : sel.metric = (lastValue "__name__" ll).getD "" := by rw [hsel, selectLabels_eq]
  refine ⟨_, select_of_read l ll hsource hne hread,
    batch.filterMap fun e => (l.envelopeSample sel.metric sel.ls e).map (e, ·), ?_, ?_, ?_⟩
  · rw [map_fst_filterMap_pair]
    refine List.filter_congr fun e _ => ?_
    rw [envelopeSample_isSome, hsel, hasLabels_selectLabels, ← hsel, hmetric, selected,
      Bool.and_comm]
  · rw [map_snd_filterMap_pair, SeriesSetBuilder.buildSeriesSet_samples]
    simpa [newSeriesBuilder, SeriesSetBuilder.samples] using
      samples_foldl_addEnvelope l sel.metric sel.ls batch newSeriesBuilder
  · intro x hx
    obtain ⟨e, -, hx⟩ := List.mem_filterMap.1 hx
    obtain ⟨s, hs, rfl⟩ := Option.map_eq_some'.1 hx
    exact hmetric ▸ envelopeSample_eq_some hs

theorem select_samples_counter :
    lastValue "source_id" [⟨.equal, "source_id", "app"⟩, ⟨.equal, "__name__", "cpu"⟩] =
        some "app" ∧ "app" ≠ "" ∧
      (⟨0, 0, 1, fun _ => .ok [⟨5, "app", ∅, some (.counter "cpu" 7)⟩]⟩ :
          LogCacheQuerier).dataReader
        ((⟨0, 0, 1, fun _ => .ok [⟨5, "app", ∅, some (.counter "cpu" 7)⟩]⟩ :
          LogCacheQuerier).readRequest "app") = .ok [⟨5, "app", ∅, some (.counter "cpu" 7)⟩] ∧
      ∃ set, (⟨0, 0, 1, fun _ => .ok [⟨5, "app", ∅, some (.counter "cpu" 7)⟩]⟩ :
          LogCacheQuerier).select [⟨.equal, "source_id", "app"⟩, ⟨.equal, "__name__", "cpu"⟩] =
          .ok set ∧ ∃ kept : List (Envelope × Sample),
        kept.map Prod.fst = [⟨5, "app", ∅, some (.counter "cpu" 7)⟩].filter
          (selected [⟨.equal, "source_id", "app"⟩, ⟨.equal, "__name__", "cpu"⟩]) ∧
        (set.flatMap (·.samples)).Perm (kept.map Prod.snd) ∧
        ∀ x ∈ kept, x.2.t = (truncate 1 x.1.timestamp).tdiv 1000000 ∧
          sampleValue ((lastValue "__name__"
            [⟨.equal, "source_id", "app"⟩, ⟨.equal, "__name__", "cpu"⟩]).getD "") x.1.message =
            some x.2.v :=
  ⟨by decide, by decide, rfl, select_samples _ _ "app" (by decide) (by decide) _ rfl⟩

/-- A `!=` matcher is read as `=`: for the selector `{source_id="app", __name__="cpu",
    job!="api"}` and a batch of one `cpu` counter tagged `job: api`, `Select` returns one
    sample, though the counter does not satisfy the selector, whatever the regular
    expressions mean. -/
theorem select_ignores_match_type :
    ((⟨0, 0, 1, fun _ => .ok [⟨0, "app", AList.insert "job" "api" ∅,
        some (.counter "cpu" 7)⟩]⟩ : LogCacheQuerier).select
        [⟨.equal, "source_id", "app"⟩, ⟨.equal, "__name__", "cpu"⟩,
          ⟨.notEqual, "job", "api"⟩]
      |>.toOption.map fun set => (set.flatMap (·.samples)).length) = some 1 ∧
    ∀ regex : String → String → Bool, promSelected regex
      [⟨.equal, "source_id", "app"⟩, ⟨.equal, "__name__", "cpu"⟩, ⟨.notEqual, "job", "api"⟩]
      ⟨0, "app", AList.insert "job" "api" ∅, some (.counter "cpu" 7)⟩ = false :=
  ⟨by decide, fun _ => rfl⟩

/-! ### Metric names that no name sanitizes to -/

end PromQL

end LogCache
