import LogCache.Envelope
import Mathlib.Data.List.Perm.Basic
import Mathlib.Data.String.Basic

/-!
# The PromQL querier

`internal/promql`: the `storage.Querier` that the Prometheus engine asks for series.
`LogCacheQuerier.Select` splits the label matchers into the metric name (`__name__`), the
source id (`source_id`) and the other labels, reads the source's counters, gauges and timers
from its `DataReader`, and turns every envelope that carries the other labels and the metric
into one sample of the series of its tag map, collected by a `seriesSetBuilder`.

The `DataReader` is an interface: a field of the querier, any function from read requests to
batches or errors. Times are nanoseconds; where `UnixNano` turns a time into an `int64`, the
model wraps it the same way (`Int.bmod` by `2^64`). Go maps are association lists whose order
stands for Go's unspecified iteration order.
-/

namespace LogCache

namespace PromQL

/-! ### Labels and matchers -/

/-- `labels.MatchType`. -/
inductive MatchType where
  | equal
  | notEqual
  | regexMatch
  | regexNoMatch
deriving DecidableEq, Repr

/-- `labels.Matcher`. -/
structure Matcher where
  type : MatchType
  name : String
  value : String
deriving DecidableEq, Repr

/-- `labels.Label`. -/
structure Label where
  name : String
  value : String
deriving DecidableEq, Repr

/-! ### Metric names -/

/-- `SanitizeMetricName`: `regexp.MustCompile("^[^A-z_]|[\\W_]+?").ReplaceAllString(name, "_")`.
    Each match is one character: the first alternative matches a first character outside the
    range `A`..`z` (which holds the letters and ``[\]^_` ``), the second, lazy, any one character
    that is not an ASCII letter or digit. So a first character is kept when it is an ASCII
    letter, a later one when it is an ASCII letter or digit, and every other character becomes
    an underscore. -/
def sanitizeMetricName (name : String) : String :=
  match name.toList with
  | [] => ""
  | c :: cs =>
      String.mk ((if c.isAlpha then c else '_') :: cs.map fun c => if c.isAlphanum then c else '_')

theorem sanitizeMetricName_mk (c : Char) (cs : List Char) :
    sanitizeMetricName ⟨c :: cs⟩ =
      ⟨(if c.isAlpha then c else '_') :: cs.map fun c => if c.isAlphanum then c else '_'⟩ := rfl

/-- **A sanitized name is its own sanitization**, so a `__name__` matcher whose value is a
    sanitized name selects the metrics that sanitize to it. -/
theorem sanitizeMetricName_idem (name : String) :
    sanitizeMetricName (sanitizeMetricName name) = sanitizeMetricName name := by
  rcases name with ⟨_ | ⟨c, cs⟩⟩
  · rfl
  · rw [sanitizeMetricName_mk, sanitizeMetricName_mk, List.map_map]
    congr 2
    · by_cases h : c.isAlpha <;> simp [h]
    · refine List.map_congr_left fun c _ => ?_
      by_cases h : c.isAlphanum <;> simp [h]

/-- `checkMapForSanitizedMetricName`: the value of the first key, in iteration order, whose
    sanitized form is `metric`. -/
def checkMapForSanitizedMetricName (metrics : AList fun _ : String => GaugeValue)
    (metric : String) : Option GaugeValue :=
  (metrics.entries.find? fun kv => sanitizeMetricName kv.1 = metric).map (·.2)

/-! ### The series set -/

/-- `sample`: a time in milliseconds and a value. -/
structure Sample where
  t : Int
  v : Float

/-- `seriesData`. -/
structure SeriesData where
  tags : Tags
  samples : List Sample

/-- `seriesSetBuilder`, keyed by series id. -/
structure SeriesSetBuilder where
  data : AList fun _ : String => SeriesData

/-- `concreteSeries`. -/
structure Series where
  labels : List Label
  samples : List Sample

/-- `newSeriesBuilder`. -/
def newSeriesBuilder : SeriesSetBuilder := ⟨∅⟩

/-- `seriesSetBuilder.getSeriesID`: `-key-value` for every key of the tag map, in sorted order. -/
def getSeriesID (tags : Tags) : String :=
  tags.keys.mergeSort.foldl
    (fun seriesID k => seriesID ++ "-" ++ k ++ "-" ++ (tags.lookup k).getD "") ""

/-- `seriesSetBuilder.add`: append the sample to the series of the tag map's id, which is
    created with these tags when the id is new. -/
def SeriesSetBuilder.add (b : SeriesSetBuilder) (tags : Tags) (s : Sample) : SeriesSetBuilder :=
  let seriesID := getSeriesID tags
  let d := (b.data.lookup seriesID).getD ⟨tags, []⟩
  ⟨b.data.insert seriesID { d with samples := d.samples ++ [s] }⟩

/-- `convertToLabels`. -/
def convertToLabels (tags : Tags) : List Label :=
  tags.entries.map fun kv => ⟨kv.1, kv.2⟩

/-- `seriesSetBuilder.buildSeriesSet`: one series per entry of the builder's map. -/
def SeriesSetBuilder.buildSeriesSet (b : SeriesSetBuilder) : List Series :=
  b.data.entries.map fun kv => ⟨convertToLabels kv.2.tags, kv.2.samples⟩

/-! ### `Select` -/

/-- `logcache_v1.ReadRequest`, with the fields `Select` sets. -/
structure ReadRequest where
  sourceId : String
  startTime : Int
  endTime : Int
  envelopeTypes : List EnvelopeType
deriving DecidableEq, Repr

/-- `DataReader`: the batch a read returns, or its error. -/
abbrev DataReader := ReadRequest → Except String (List Envelope)

/-- `LogCacheQuerier`, with the fields `Select` reads. -/
structure LogCacheQuerier where
  start : Int
  end_ : Int
  interval : Int
  dataReader : DataReader

/-- What the loop over the matchers leaves: the last `source_id` and `__name__` values and
    the other matchers as labels, in order. -/
structure Selection where
  sourceID : String
  metric : String
  ls : List Label

/-- The loop over the label matchers at the head of `Select`. -/
def selectLabels (acc : Selection) : List Matcher → Selection
  | [] => acc
  | l :: ll =>
      if l.name = "__name__" then selectLabels { acc with metric := l.value } ll
      else if l.name = "source_id" then selectLabels { acc with sourceID := l.value } ll
      else selectLabels { acc with ls := acc.ls ++ [⟨l.name, l.value⟩] } ll

/-- `LogCacheQuerier.hasLabels`: every label is a key of the tag map with its value. -/
def hasLabels (tags : Tags) (ls : List Label) : Bool :=
  ls.all fun l => tags.lookup l.name = some l.value

/-- `time.Unix(0, ns).Truncate(d).UnixNano()`: rounded down to a multiple of `d` counted from
    Go's zero time, 62135596800 s before the Unix epoch, where `d ≤ 0` leaves the time unchanged;
    `UnixNano` then wraps the time to an `int64`. -/
def truncate (d ns : Int) : Int :=
  (if d ≤ 0 then ns else ns - (ns + 62135596800 * 1000000000) % d).bmod 18446744073709551616

/-- The type switch of `Select`: the sample value, or `none` where the loop continues. A
    timer's `stop - start` wraps as an `int64` subtraction; a message of another kind, or none,
    keeps the value `0` and is not checked against the metric. -/
def sampleValue (metric : String) : Option Message → Option Float
  | some (.counter name total) =>
      if sanitizeMetricName name ≠ metric then none else some total.toFloat
  | some (.gauge metrics) => (checkMapForSanitizedMetricName metrics metric).map (·.value)
  | some (.timer name start stop) =>
      if sanitizeMetricName name ≠ metric then none
      else some (Float.ofInt ((stop - start).bmod 18446744073709551616))
  | _ => some 0

/-- The body of the loop over the batch up to `builder.add`: the sample of the envelope, or
    `none` where the loop continues. The timestamp is truncated to the interval, then divided
    by `time.Millisecond` as an `int64` (rounding toward zero). -/
def LogCacheQuerier.envelopeSample (l : LogCacheQuerier) (metric : String) (ls : List Label)
    (e : Envelope) : Option Sample :=
  if hasLabels e.tags ls then
    (sampleValue metric e.message).map fun f =>
      ⟨(truncate l.interval e.timestamp).tdiv 1000000, f⟩
  else none

/-- One pass of the loop over the batch. -/
def LogCacheQuerier.addEnvelope (l : LogCacheQuerier) (metric : String) (ls : List Label)
    (builder : SeriesSetBuilder) (e : Envelope) : SeriesSetBuilder :=
  match l.envelopeSample metric ls e with
  | some s => builder.add e.tags s
  | none => builder

/-- The request `Select` sends: the source's counters, gauges and timers from a second before
    the querier's start to its end. `start.Add(-time.Second).UnixNano()` wraps to an `int64`. -/
def LogCacheQuerier.readRequest (l : LogCacheQuerier) (sourceID : String) : ReadRequest :=
  ⟨sourceID, (l.start - 1000000000).bmod 18446744073709551616, l.end_,
    [.counter, .gauge, .timer]⟩

/-- `LogCacheQuerier.Select`; an error is also passed to `errf`. -/
def LogCacheQuerier.select (l : LogCacheQuerier) (ll : List Matcher) :
    Except String (List Series) :=
  let sel := selectLabels ⟨"", "", []⟩ ll
  if sel.sourceID = "" then
    .error ("Metric \x27" ++ sel.metric ++ "\x27 does not have a \x27source_id\x27 label.")
  else
    match l.dataReader (l.readRequest sel.sourceID) with
    | .error err => .error err
    | .ok batch =>
        .ok (batch.foldl (l.addEnvelope sel.metric sel.ls) newSeriesBuilder).buildSeriesSet

/-! ### The samples a builder holds -/

/-- Every sample the builder holds, series after series. -/
def SeriesSetBuilder.samples (b : SeriesSetBuilder) : List Sample :=
  b.data.entries.flatMap (·.2.samples)

theorem SeriesSetBuilder.buildSeriesSet_samples (b : SeriesSetBuilder) :
    b.buildSeriesSet.flatMap (·.samples) = b.samples := by
  simp [buildSeriesSet, samples, List.flatMap, Function.comp_def]

/-- `add` puts its sample in exactly one series and moves no other. -/
theorem SeriesSetBuilder.samples_add (b : SeriesSetBuilder) (tags : Tags) (s : Sample) :
    (b.add tags s).samples.Perm (b.samples ++ [s]) := by
  simp only [add, samples, AList.insert_entries, List.flatMap_cons]
  cases hd : b.data.lookup (getSeriesID tags) with
  | none =>
      rw [List.kerase_of_not_mem_keys (AList.lookup_eq_none.1 hd)]
      exact List.perm_append_comm
  | some d =>
      obtain ⟨d', l₁, l₂, -, he, hk⟩ :=
        List.exists_of_kerase (AList.lookup_isSome.1 (by rw [hd]; rfl))
      obtain rfl : d' = d := (Option.some.inj <| hd.symm.trans <|
        AList.mem_lookup_iff.2 (he ▸ List.mem_append_right _ (List.mem_cons_self _ _))).symm
      rw [hk, he]
      simp only [Option.getD_some, List.flatMap_append, List.flatMap_cons]
      set A := l₁.flatMap (·.2.samples)
      set B := l₂.flatMap (·.2.samples)
      calc d'.samples ++ [s] ++ (A ++ B)
          List.Perm _ (A ++ B ++ (d'.samples ++ [s])) := List.perm_append_comm
          _ = A ++ (B ++ d'.samples) ++ [s] := by simp only [List.append_assoc]
          List.Perm _ (A ++ (d'.samples ++ B) ++ [s]) :=
            (List.perm_append_comm.append_left _).append_right _

end PromQL

end LogCache
