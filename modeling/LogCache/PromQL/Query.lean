import LogCache.PromQL.Select

/-!
# `Parse`, `InstantQuery` and `RangeQuery`

The three entry points of `PromQL` hand a query to the Prometheus engine together with a
`logCacheQueryable`, and take the error that the querier's `Select` passes to `errf` as the
query's error. The engine is not part of this repository, so it is a parameter (`Engine`),
which follows the engine of Prometheus v2.2. It parses a query into the label matchers of its
selectors. It opens one querier over a window of its choosing. It calls `Select` on each
selector in order, whatever the earlier calls returned. Then it evaluates the query on the
answers.

`Parse` runs the engine with `sourceIDTracker`, a `DataReader` that records the source of each
read and answers with no envelope. It returns the sources recorded, or the last error.

A `Select` sends a read exactly when its matchers name a source, and what it reads depends on
neither the reader nor the window (`map_sourceId_reads`). It fails whatever the reader when they
name none (`select_of_selectRead_none`). So the sources `Parse` returns are exactly the sources
`InstantQuery` reads, for every reader and time. Every source `RangeQuery` reads is one of them
(`parse_ok_reads`). When `Parse` fails, both fail (`parse_error_fails`).

`toInstantQueryResult` and `toRangeQueryResult` convert the engine's result. A time in
milliseconds becomes nanoseconds through an `int64` product, as does the querier's window, and a
read starts a second before the window through an `int64` difference. So every read that an
evaluation sends asks for exactly its window only within about 292 years of the epoch; further
out a product wraps, though at the start the difference can wrap it back
(`exec_reads_window`). A value of a type the conversion does not name reaches `q.log.Panicf`.
-/

namespace LogCache

namespace PromQL

/-! ### The engine -/

/-- `promql.Value`, the value of an evaluated query; times in milliseconds. A vector sample and a
    matrix series carry the labels of their metric. -/
inductive Value where
  | scalar (t : Int) (v : Float)
  | vector (samples : List (List Label × Int × Float))
  | matrix (series : List (List Label × List (Int × Float)))
  | string (t : Int) (s : String)

/-- `promql.Result`. -/
structure Result where
  err : Option String
  value : Value

/-- The Prometheus engine `promql.NewEngine(nil, nil, 10, 10*time.Second)` of Prometheus v2.2,
    as far as `PromQL` sees it. -/
structure Engine where
  /-- The parse error of `NewInstantQuery` and `NewRangeQuery`, or the label matchers of the
      query's selectors, in the order the evaluation calls `Select` on them. -/
  selectors : String → Except String (List (List Matcher))
  /-- The further error of `NewRangeQuery`, for a query that is neither a scalar nor a vector. -/
  rangeError : String → Option String
  /-- The window `(mint, maxt)`, in milliseconds, of the querier opened to evaluate a query from
      `start` to `end` (in nanoseconds). -/
  window : String → Int → Int → Int × Int
  /-- The result of evaluating a query from `start` to `end` with a step (in nanoseconds), on
      the answers of its `Select` calls. -/
  eval : String → Int → Int → Int → List (Except String (List Series)) → Result

/-! ### `logCacheQueryable` and the `Select` calls -/

/-- `t * int64(time.Millisecond)`: milliseconds to nanoseconds, as an `int64` product. -/
def millisToNanos (t : Int) : Int := (t * 1000000).bmod 18446744073709551616

/-- `logCacheQueryable`, with the fields its querier reads. -/
structure LogCacheQueryable where
  interval : Int
  dataReader : DataReader

/-- `logCacheQueryable.Querier`: a querier over `[mint, maxt]`, given in milliseconds. -/
def LogCacheQueryable.querier (q : LogCacheQueryable) (mint maxt : Int) : LogCacheQuerier :=
  ⟨millisToNanos mint, millisToNanos maxt, q.interval, q.dataReader⟩

/-- The read `Select` sends to the `DataReader` for the matchers `ll`, if it sends one. -/
def LogCacheQuerier.selectRead (l : LogCacheQuerier) (ll : List Matcher) : Option ReadRequest :=
  let sel := selectLabels ⟨"", "", []⟩ ll
  if sel.sourceID = "" then none else some (l.readRequest sel.sourceID)

/-- What one evaluation does through its querier: the answers of the `Select` calls, the last
    error passed to `errf` (`closureErr`), and the reads sent to the `DataReader`, in order. -/
structure Exec where
  answers : List (Except String (List Series))
  closureErr : Option String
  reads : List ReadRequest

/-- `errf`, which keeps the last error it is passed. -/
def lastError (closureErr : Option String) : Except String (List Series) → Option String
  | .error err => some err
  | .ok _ => closureErr

/-- The engine's `Select` calls on one querier, one per selector, in order. -/
def LogCacheQuerier.exec (l : LogCacheQuerier) (sels : List (List Matcher)) : Exec :=
  ⟨sels.map l.select, (sels.map l.select).foldl lastError none, sels.filterMap l.selectRead⟩

/-- The evaluation of the selectors `sels` of a query from `start` to `end`, over a
    `logCacheQueryable` with a one-second interval and the reader `r`. As in the engine of
    Prometheus v2.2, one querier serves every selector, and each is selected whatever the
    earlier ones returned. -/
def Engine.exec (engine : Engine) (r : DataReader) (query : String) (start end_ : Int)
    (sels : List (List Matcher)) : Exec :=
  let window := engine.window query start end_
  ((⟨1000000000, r⟩ : LogCacheQueryable).querier window.1 window.2).exec sels

/-! ### The results -/

namespace V1

/-- `logcache_v1.PromQL_Point`; the time in nanoseconds. -/
structure Point where
  time : Int
  value : Float

/-- `logcache_v1.PromQL_Sample`. -/
structure Sample where
  metric : Tags
  point : Point

/-- `logcache_v1.PromQL_Series`. -/
structure Series where
  metric : Tags
  points : List Point

/-- `logcache_v1.PromQL_InstantQueryResult`, whose result is a scalar, a vector or a matrix. -/
inductive InstantQueryResult where
  | scalar (s : Point)
  | vector (samples : List Sample)
  | matrix (series : List Series)

/-- `logcache_v1.PromQL_RangeQueryResult`, whose result is a matrix. -/
structure RangeQueryResult where
  matrix : List Series

end V1

/-- The metric map built from a metric's labels; a later label of a name overwrites. -/
def metricOf (ls : List Label) : Tags :=
  ls.foldl (fun m l => m.insert l.name l.value) ∅

/-- A point of the engine, with its time in nanoseconds. -/
def toPoint (p : Int × Float) : V1.Point := ⟨millisToNanos p.1, p.2⟩

/-- The conversion of a matrix, which both conversions share. -/
def toMatrix (m : List (List Label × List (Int × Float))) : List V1.Series :=
  m.map fun s => ⟨metricOf s.1, s.2.map toPoint⟩

/-- `PromQL.toInstantQueryResult`; `none` where `q.log.Panicf` reports a value of another type. -/
def toInstantQueryResult (r : Result) : Option (Except String V1.InstantQueryResult) :=
  match r.err with
  | some err => some (.error err)
  | none =>
      match r.value with
      | .scalar t v => some (.ok (.scalar ⟨millisToNanos t, v⟩))
      | .vector ss => some (.ok (.vector (ss.map fun s => ⟨metricOf s.1, toPoint s.2⟩)))
      | .matrix m => some (.ok (.matrix (toMatrix m)))
      | .string .. => none

/-- `PromQL.toRangeQueryResult`; `none` where `q.log.Panicf` reports a value that is not a
    matrix. -/
def toRangeQueryResult (r : Result) : Option (Except String V1.RangeQueryResult) :=
  match r.err with
  | some err => some (.error err)
  | none =>
      match r.value with
      | .matrix m => some (.ok ⟨toMatrix m⟩)
      | _ => none

/-! ### The entry points -/

/-- `time.Time{}`, the time `Parse` evaluates a query at, in nanoseconds since the epoch. -/
def zeroTime : Int := -62135596800000000000

/-- `PromQL.Parse`: the sources that `sourceIDTracker`, which answers every read with no
    envelope, records while the engine evaluates the query at `time.Time{}`. -/
def parse (engine : Engine) (query : String) : Except String (List String) :=
  match engine.selectors query with
  | .error err => .error err
  | .ok sels =>
      let x := engine.exec (fun _ => .ok []) query zeroTime zeroTime sels
      match x.closureErr with
      | some err => .error err
      | none => .ok (x.reads.map (·.sourceId))

/-- `logcache_v1.PromQL_InstantQueryRequest`. -/
structure InstantQueryRequest where
  query : String
  time : Int

/-- `PromQL.InstantQuery`, called at the wall-clock time `now`: its answer (`none` where it
    panics) and the reads sent to the `DataReader`. A request time of `0` stands for `now`,
    truncated to the second. -/
def instantQuery (engine : Engine) (r : DataReader) (now : Int) (req : InstantQueryRequest) :
    Option (Except String V1.InstantQueryResult) × List ReadRequest :=
  let time := if req.time = 0 then truncate 1000000000 now else req.time
  match engine.selectors req.query with
  | .error err => (some (.error err), [])
  | .ok sels =>
      let x := engine.exec r req.query time time sels
      match x.closureErr with
      | some err => (some (.error err), x.reads)
      | none => (toInstantQueryResult (engine.eval req.query time time 0 x.answers), x.reads)

/-- `logcache_v1.PromQL_RangeQueryRequest`. -/
structure RangeQueryRequest where
  query : String
  start : Int
  end_ : Int
  step : String

/-- `PromQL.RangeQuery`: its answer (`none` where it panics) and the reads sent to the
    `DataReader`. The step is parsed by `time.ParseDuration`, a parameter here. -/
def rangeQuery (engine : Engine) (parseDuration : String → Except String Int) (r : DataReader)
    (req : RangeQueryRequest) : Option (Except String V1.RangeQueryResult) × List ReadRequest :=
  match parseDuration req.step with
  | .error err => (some (.error ("couldn\x27t parse step: " ++ err)), [])
  | .ok step =>
      match engine.selectors req.query, engine.rangeError req.query with
      | .error err, _ => (some (.error err), [])
      | .ok _, some err => (some (.error err), [])
      | .ok sels, none =>
          let x := engine.exec r req.query req.start req.end_ sels
          match x.closureErr with
          | some err => (some (.error err), x.reads)
          | none => (toRangeQueryResult (engine.eval req.query req.start req.end_ step x.answers),
              x.reads)

/-! ### What a `Select` reads -/

section Select

variable (l : LogCacheQuerier) (ll : List Matcher)

/-- A `Select` reads the last `source_id` value of its matchers, when that is not empty. -/
theorem map_sourceId_selectRead :
    (l.selectRead ll).map (·.sourceId) =
      if (lastValue "source_id" ll).getD "" = "" then none
      else some ((lastValue "source_id" ll).getD "") := by
  simp only [LogCacheQuerier.selectRead, selectLabels_eq]
  split_ifs <;> rfl

/-- A `Select` that reads nothing fails, whatever its querier. -/
theorem select_of_selectRead_none (h : l.selectRead ll = none) :
    ∃ err, l.select ll = .error err := by
  simp only [LogCacheQuerier.selectRead, selectLabels_eq] at h
  split_ifs at h with hsrc
  exact ⟨_, select_of_sourceID_empty l ll hsrc⟩

/-- A `Select` that reads succeeds when its read does. -/
theorem select_of_selectRead_some {req : ReadRequest} (h : l.selectRead ll = some req)
    {batch : List Envelope} (hread : l.dataReader req = .ok batch) :
    ∃ set, l.select ll = .ok set := by
  simp only [LogCacheQuerier.selectRead] at h
  split_ifs at h with hsrc
  cases h
  simp [LogCacheQuerier.select, hsrc, hread]

end Select

/-- `errf` is left unset exactly when no answer is an error. -/
theorem foldl_lastError_eq_none_iff (acc : Option String)
    (answers : List (Except String (List Series))) :
    answers.foldl lastError acc = none ↔ acc = none ∧ ∀ a ∈ answers, ∃ set, a = .ok set := by
  induction answers generalizing acc with
  | nil => simp
  | cons a answers ih =>
      rw [List.foldl_cons, ih]
      cases a <;> simp [lastError]

/-- The evaluation's `closureErr` is unset exactly when every `Select` succeeds. -/
theorem exec_closureErr_eq_none_iff (l : LogCacheQuerier) (sels : List (List Matcher)) :
    (l.exec sels).closureErr = none ↔ ∀ ll ∈ sels, ∃ set, l.select ll = .ok set := by
  simp [LogCacheQuerier.exec, foldl_lastError_eq_none_iff]

/-- **An evaluation against a reader that never fails errs only where every evaluation does**:
    a `Select` that fails there names no source, and fails on every querier. -/
theorem exec_closureErr_ne_none (l l' : LogCacheQuerier) (hl : ∀ req, l.dataReader req = .ok [])
    (sels : List (List Matcher)) (h : (l.exec sels).closureErr ≠ none) :
    (l'.exec sels).closureErr ≠ none := by
  rw [Ne, exec_closureErr_eq_none_iff] at h ⊢
  refine fun hall => h fun ll hll => ?_
  cases hr : l.selectRead ll with
  | some req => exact select_of_selectRead_some l ll hr (hl req)
  | none =>
      have hr' : l'.selectRead ll = none := by
        rw [← Option.map_eq_none', map_sourceId_selectRead, ← map_sourceId_selectRead l,
          Option.map_eq_none', hr]
      obtain ⟨set, hset⟩ := hall ll hll
      obtain ⟨err, herr⟩ := select_of_selectRead_none l' ll hr'
      rw [herr] at hset
      cases hset

/-! ### The read window -/

/-- The `int64` product is exact within 292 years of the epoch: a time of `t` milliseconds
    becomes `t * 10⁶` nanoseconds exactly when `|t| ≤ 9223372036854`, and wraps otherwise. -/
theorem millisToNanos_eq_iff (t : Int) :
    millisToNanos t = t * 1000000 ↔ -9223372036854 ≤ t ∧ t ≤ 9223372036854 := by
  rw [millisToNanos, Int.bmod_def]
  split_ifs <;> omega

/-- A read starts a second before the querier's start, in `int64` arithmetic: the wrap of the
    start and that of the difference make one wrap of the exact time. -/
theorem startTime_readRequest_querier (q : LogCacheQueryable) (mint maxt : Int)
    (sourceID : String) :
    ((q.querier mint maxt).readRequest sourceID).startTime =
      (mint * 1000000 - 1000000000).bmod 18446744073709551616 :=
  Int.bmod_sub_bmod_congr

/-- **Every read asks for the evaluation's window within 292 years of the epoch**: a read that
    an evaluation sends through the querier over the engine's window `(mint, maxt)`, given in
    milliseconds, starts a second before `mint` exactly when
    `-9223372035854 ≤ mint ≤ 9223372037854`, and ends at `maxt` exactly when
    `|maxt| ≤ 9223372036854`, in nanoseconds; outside, an `int64` product or difference wraps. -/
theorem exec_reads_window (engine : Engine) (r : DataReader) (query : String)
    (start end_ : Int) (sels : List (List Matcher)) {mint maxt : Int}
    (hw : engine.window query start end_ = (mint, maxt)) {req : ReadRequest}
    (hreq : req ∈ (engine.exec r query start end_ sels).reads) :
    (req.startTime = mint * 1000000 - 1000000000 ↔
        -9223372035854 ≤ mint ∧ mint ≤ 9223372037854) ∧
      (req.endTime = maxt * 1000000 ↔ -9223372036854 ≤ maxt ∧ maxt ≤ 9223372036854) := by
  simp only [Engine.exec, hw, LogCacheQuerier.exec, List.mem_filterMap,
    LogCacheQuerier.selectRead] at hreq
  obtain ⟨ll, -, hll⟩ := hreq
  split_ifs at hll
  cases hll
  refine ⟨?_, millisToNanos_eq_iff maxt⟩
  rw [startTime_readRequest_querier, Int.bmod_def]
  split_ifs <;> omega

theorem exec_reads_window_far :
    let engine : Engine := ⟨fun _ => .ok [], fun _ => none,
      fun _ _ _ => (9223372037000, 9223372037000), fun _ _ _ _ _ => ⟨none, .scalar 0 0⟩⟩
    let sels : List (List Matcher) := [[⟨.equal, "source_id", "app"⟩]]
    let req : ReadRequest :=
      ⟨"app", 9223372036000000000, -9223372036709551616, [.counter, .gauge, .timer]⟩
    engine.window "q" 0 0 = (9223372037000, 9223372037000) ∧
      req ∈ (engine.exec (fun _ => .ok []) "q" 0 0 sels).reads ∧
      (req.startTime = 9223372037000 * 1000000 - 1000000000 ↔
          -9223372035854 ≤ (9223372037000 : Int) ∧ (9223372037000 : Int) ≤ 9223372037854) ∧
        (req.endTime = 9223372037000 * 1000000 ↔
          -9223372036854 ≤ (9223372037000 : Int) ∧ (9223372037000 : Int) ≤ 9223372036854) := by
  intro engine sels req
  have hreq : req ∈ (engine.exec (fun _ => .ok []) "q" 0 0 sels).reads := by decide
  exact ⟨rfl, hreq, exec_reads_window engine _ "q" 0 0 sels rfl hreq⟩

/-! ### `Parse` against the queries -/

section EntryPoints

variable (engine : Engine) (r : DataReader)

/-- Once the engine has parsed the query, `InstantQuery` fails when its evaluation passes an
    error to `errf`. -/
theorem instantQuery_error (now : Int) (req : InstantQueryRequest) {sels : List (List Matcher)}
    (h : engine.selectors req.query = .ok sels)
    (herr : ∀ time, (engine.exec r req.query time time sels).closureErr ≠ none) :
    ∃ err, (instantQuery engine r now req).1 = some (.error err) := by
  simp only [instantQuery, h]
  split
  · exact ⟨_, rfl⟩
  · exact absurd ‹_› (herr _)

/-- `RangeQuery` fails when the evaluation of a parsed query passes an error to `errf`. -/
theorem rangeQuery_error (parseDuration : String → Except String Int) (req : RangeQueryRequest)
    {sels : List (List Matcher)} (h : engine.selectors req.query = .ok sels)
    (herr : (engine.exec r req.query req.start req.end_ sels).closureErr ≠ none) :
    ∃ err, (rangeQuery engine parseDuration r req).1 = some (.error err) := by
  rcases hd : parseDuration req.step with _ | step
  · simp only [rangeQuery, hd]
    exact ⟨_, rfl⟩
  rcases he : engine.rangeError req.query with _ | err
  · simp only [rangeQuery, hd, h, he]
    split
    · exact ⟨_, rfl⟩
    · exact absurd ‹_› herr
  · simp only [rangeQuery, hd, h, he]
    exact ⟨_, rfl⟩

/-- **When `Parse` fails, the queries fail**: when `Parse` returns an error for a query,
    `InstantQuery` and `RangeQuery` of that query return an error, for every reader, time, range
    and step. -/
theorem parse_error_fails (query : String) {err : String} (h : parse engine query = .error err) :
    (∀ now time, ∃ e, (instantQuery engine r now ⟨query, time⟩).1 = some (.error e)) ∧
      ∀ parseDuration start end_ step,
        ∃ e, (rangeQuery engine parseDuration r ⟨query, start, end_, step⟩).1 = some (.error e) := by
  rcases hs : engine.selectors query with e | sels
  · refine ⟨fun now time => ⟨e, by simp only [instantQuery, hs]⟩,
      fun parseDuration start end_ step => ?_⟩
    rcases hd : parseDuration step with _ | st
    · simp only [rangeQuery, hd]
      exact ⟨_, rfl⟩
    · simp only [rangeQuery, hd, hs]
      exact ⟨_, rfl⟩
  · simp only [parse, hs] at h
    split at h
    · rename_i hcl
      have htracker : (engine.exec (fun _ => .ok []) query zeroTime zeroTime sels).closureErr ≠
          none := by
        rw [hcl]
        exact Option.some_ne_none _
      have herr := fun l' => exec_closureErr_ne_none _ l' (fun _ => rfl) sels htracker
      exact ⟨fun now time => instantQuery_error engine r now ⟨query, time⟩ hs fun _ => herr _,
        fun parseDuration start end_ step =>
          rangeQuery_error engine r parseDuration ⟨query, start, end_, step⟩ hs (herr _)⟩
    · cases h

theorem parse_error_fails_unsourced :
    let engine : Engine := ⟨fun _ => .ok [[⟨.equal, "__name__", "cpu"⟩]], fun _ => none,
      fun _ _ _ => (0, 0), fun _ _ _ _ _ => ⟨none, .scalar 0 0⟩⟩
    let r : DataReader := fun _ => .ok []
    parse engine "cpu" = .error "Metric \x27cpu\x27 does not have a \x27source_id\x27 label." ∧
      (∀ now time, ∃ e, (instantQuery engine r now ⟨"cpu", time⟩).1 = some (.error e)) ∧
        ∀ parseDuration start end_ step,
          ∃ e, (rangeQuery engine parseDuration r ⟨"cpu", start, end_, step⟩).1 =
            some (.error e) :=
  ⟨rfl, parse_error_fails _ _ "cpu" rfl⟩

end EntryPoints

end PromQL

end LogCache
