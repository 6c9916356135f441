import LogCache.Routing.Setup
import LogCache.Store.Query

/-!
# The local node

`New` builds a `LogCache` from its options. Without `WithClustered`, the node list is the node's
own address alone, at index `0`; the source calls this the single bogus address, so that the
node does not route data out but stores all of it. The same holds when `WithClustered` names
node `0` of at most one node. `setupRouting` then registers the local store as the only client,
whatever the dials do (`setupRouting_standalone`). A node index outside the node list, though,
gets no local slot at all, and `localIdx` then names a peer's slot or none
(`setupRouting_index_out_of_range`).

The ingress client at `nodeIndex` is an `IngressClientFunc`. It `Put`s every envelope of a batch
into the local store, under the envelope's source id (`sendLocal`). So on a store fed only
through it, a `Get` of a source returns only envelopes of that source that were sent
(`run_sendLocal_get`).
-/

namespace LogCache

namespace Routing

/-! ### `New` and its options -/

/-- `LogCacheOption`. `WithClustered` also sets the dial options, whose outcome is a parameter
    of `setupRouting`; `WithLogger`, `WithServerOpts` and `WithMetrics` set fields nothing
    modelled reads. -/
inductive LogCacheOption where
  | withLogger
  | withMaxPerSource (size : Int)
  | withAddr (addr : String)
  | withServerOpts
  | withMinimumSize (min : Int)
  | withClustered (nodeIndex : Int) (nodeAddrs : List String)
  | withExternalAddr (addr : String)
  | withMetrics

/-- `LogCache`, with the fields its options set that are not a logger, metrics or options of
    gRPC. -/
structure LogCache where
  maxPerSource : Int
  min : Int
  addr : String
  extAddr : String
  nodeAddrs : List String
  nodeIndex : Int

/-- What an option does to the `LogCache` it configures. -/
def LogCacheOption.apply : LogCacheOption → LogCache → LogCache
  | .withMaxPerSource size, c => { c with maxPerSource := size }
  | .withAddr addr, c => { c with addr := addr }
  | .withMinimumSize min, c => { c with min := min }
  | .withClustered nodeIndex nodeAddrs, c =>
      { c with nodeIndex := nodeIndex, nodeAddrs := nodeAddrs }
  | .withExternalAddr addr, c => { c with extAddr := addr }
  | .withLogger, c | .withServerOpts, c | .withMetrics, c => c

/-- `New`: the defaults, the options in order, and the node's own address as the only node when
    no node list was given. -/
def new (opts : List LogCacheOption) : LogCache :=
  let c := opts.foldl (fun c o => o.apply c) ⟨100000, 500000, ":8080", "", [], 0⟩
  if c.nodeAddrs.length = 0 then { c with nodeAddrs := [c.addr] } else c

/-- Options whose `WithClustered` calls all name node `0` of at most one node keep the node
    list that short and the node index `0`. -/
theorem foldl_apply_single (opts : List LogCacheOption)
    (hopts : ∀ i addrs, .withClustered i addrs ∈ opts → i = 0 ∧ addrs.length ≤ 1) (c : LogCache)
    (hc : c.nodeIndex = 0 ∧ c.nodeAddrs.length ≤ 1) :
    (opts.foldl (fun c o => o.apply c) c).nodeIndex = 0 ∧
      (opts.foldl (fun c o => o.apply c) c).nodeAddrs.length ≤ 1 := by
  induction opts generalizing c with
  | nil => exact hc
  | cons o opts ih =>
      refine ih (fun i addrs h => hopts i addrs (List.mem_cons_of_mem _ h)) _ ?_
      cases o with
      | withClustered i addrs => exact hopts i addrs (List.mem_cons_self _ _)
      | _ => exact hc

/-- **A single node routes nothing out**: when every `WithClustered` option, if any, names node
    `0` of at most one node, `setupRouting` registers the local store as the only
    ingress and egress client, at index `0`, for every outcome of the dials. -/
theorem setupRouting_standalone (opts : List LogCacheOption)
    (hopts : ∀ i addrs, .withClustered i addrs ∈ opts → i = 0 ∧ addrs.length ≤ 1)
    (dialOk : Nat → Bool) :
    setupRouting (new opts).nodeIndex dialOk (new opts).nodeAddrs =
      ⟨[.localStore], [.localStoreReader], 0⟩ := by
  obtain ⟨hindex, hlen⟩ :=
    foldl_apply_single opts hopts ⟨100000, 500000, ":8080", "", [], 0⟩ ⟨rfl, by simp⟩
  have hidx : (new opts).nodeIndex = 0 := by
    simp only [new]
    split_ifs <;> exact hindex
  have hone : ∃ addr, (new opts).nodeAddrs = [addr] := by
    simp only [new]
    split_ifs with h
    · exact ⟨_, rfl⟩
    · exact List.length_eq_one.1 (by omega)
  obtain ⟨addr, haddrs⟩ := hone
  rw [haddrs, hidx]
  rfl

theorem setupRouting_standalone_config :
    (∀ i addrs, LogCacheOption.withClustered i addrs ∈
        [.withAddr ":8080", .withClustered 0 []] → i = 0 ∧ addrs.length ≤ 1) ∧
      setupRouting (new [.withAddr ":8080", .withClustered 0 []]).nodeIndex (fun _ => true)
          (new [.withAddr ":8080", .withClustered 0 []]).nodeAddrs =
        ⟨[.localStore], [.localStoreReader], 0⟩ :=
  ⟨by simp, setupRouting_standalone _ (by simp) _⟩

/-- **A node index outside the node list gets no local slot**: neither slice holds the local
    store's clients, and `localIdx` keeps its zero value, the position of the first peer kept,
    for every outcome of the dials. -/
theorem setupRouting_index_out_of_range (nodeIndex : Int) (nodeAddrs : List String)
    (h : ¬(0 ≤ nodeIndex ∧ nodeIndex < nodeAddrs.length)) (dialOk : Nat → Bool) :
    .localStore ∉ (setupRouting nodeIndex dialOk nodeAddrs).ingressClients ∧
      .localStoreReader ∉ (setupRouting nodeIndex dialOk nodeAddrs).egressClients ∧
      (setupRouting nodeIndex dialOk nodeAddrs).localIdx = 0 := by
  obtain ⟨hin, heg⟩ := @registerAll_clients nodeIndex dialOk 0 nodeAddrs ⟨[], [], 0⟩
  have hne : ∀ x ∈ keptFrom nodeIndex dialOk 0 nodeAddrs, (x.1 : Int) ≠ nodeIndex := by
    intro x hx
    have := List.fst_lt_add_of_mem_enumFrom (List.mem_filter.1 hx).1
    omega
  refine ⟨fun hmem => ?_, fun hmem => ?_, ?_⟩
  · rw [setupRouting, hin, List.nil_append] at hmem
    obtain ⟨x, hx, hslot⟩ := List.mem_map.1 hmem
    simp [ingressSlot, hne x hx] at hslot
  · rw [setupRouting, heg, List.nil_append] at hmem
    obtain ⟨x, hx, hslot⟩ := List.mem_map.1 hmem
    simp [egressSlot, hne x hx] at hslot
  · rw [setupRouting, registerAll_localIdx, if_neg (by simpa using h)]

theorem setupRouting_index_out_of_range_one :
    ¬((0 : Int) ≤ (new [.withClustered 1 ["10.0.0.1:8080"]]).nodeIndex ∧
        (new [.withClustered 1 ["10.0.0.1:8080"]]).nodeIndex <
          (new [.withClustered 1 ["10.0.0.1:8080"]]).nodeAddrs.length) ∧
      .localStore ∉ (setupRouting (new [.withClustered 1 ["10.0.0.1:8080"]]).nodeIndex
        (fun _ => true) (new [.withClustered 1 ["10.0.0.1:8080"]]).nodeAddrs).ingressClients ∧
      .localStoreReader ∉ (setupRouting (new [.withClustered 1 ["10.0.0.1:8080"]]).nodeIndex
        (fun _ => true) (new [.withClustered 1 ["10.0.0.1:8080"]]).nodeAddrs).egressClients ∧
      (setupRouting (new [.withClustered 1 ["10.0.0.1:8080"]]).nodeIndex (fun _ => true)
        (new [.withClustered 1 ["10.0.0.1:8080"]]).nodeAddrs).localIdx = 0 :=
  ⟨by decide, setupRouting_index_out_of_range _ _ (by decide) _⟩

/-! ### The local ingress client -/

/-- The `routing.IngressClientFunc` registered at `nodeIndex`: every envelope of the batch is
    `Put` into the local store under its source id. -/
def sendLocal (s : Store) (batch : List Envelope) : Option Store :=
  s.run (batch.map fun e => (e, e.sourceId))

/-- A sequence of `Send` calls on the local ingress client; `none` once a `Put` panics. -/
def sendLocalAll (s : Store) : List (List Envelope) → Option Store
  | [] => some s
  | batch :: batches => (sendLocal s batch).bind fun s' => sendLocalAll s' batches

theorem run_append (s : Store) (l₁ l₂ : List (Envelope × String)) :
    s.run (l₁ ++ l₂) = (s.run l₁).bind fun s' => s'.run l₂ := by
  induction l₁ generalizing s with
  | nil => rfl
  | cons x l₁ ih =>
      obtain ⟨e, index⟩ := x
      rw [List.cons_append, Store.run, Store.run, Option.bind_assoc]
      simp only [ih]

/-- The sends are the `Put`s of their envelopes, in order, each under its source id. -/
theorem sendLocalAll_eq (s : Store) (batches : List (List Envelope)) :
    sendLocalAll s batches =
      s.run (batches.flatMap fun batch => batch.map fun e => (e, e.sourceId)) := by
  induction batches generalizing s with
  | nil => rfl
  | cons batch batches ih =>
      simp only [sendLocalAll, sendLocal, ih, List.flatMap_cons, run_append]

/-- **A store fed through the local ingress client keeps sources apart**: on a store built by
    `NewStore` with `size ≥ 1` and fed only by `Send` calls on the local ingress client, every
    envelope a `Get` of a source returns, for any range, type filter and limit, has that source
    id and was sent. -/
theorem run_sendLocal_get {size maxPerSource : Int} (hsize : 1 ≤ size)
    (batches : List (List Envelope)) (src : String) (start end_ : Int)
    (envelopeType : Option EnvelopeType) (limit : Int) :
    ∃ s, sendLocalAll (newStore size maxPerSource) batches = some s ∧
      ∀ e ∈ s.get src start end_ envelopeType limit,
        e.sourceId = src ∧ ∃ batch ∈ batches, e ∈ batch := by
  have hv := Store.valid_newStore hsize maxPerSource
  obtain ⟨s, hrun, hs, -⟩ := hv.run (fun _ => True) trivial (fun _ _ _ _ _ _ _ => trivial)
    (batches.flatMap fun batch => batch.map fun e => (e, e.sourceId))
  refine ⟨s, (sendLocalAll_eq _ _).trans hrun, fun e he => ?_⟩
  obtain ⟨x, hx, hxe⟩ := hs.mem_get he
  rcases hv.contents_run hrun x hx with hx | hx
  · simp [Store.contents, newStore] at hx
  · rw [hxe] at hx
    obtain ⟨batch, hbatch, hmem⟩ := List.mem_flatMap.1 hx
    obtain ⟨e', he', heq⟩ := List.mem_map.1 hmem
    simp only [Prod.mk.injEq] at heq
    obtain ⟨rfl, rfl⟩ := heq
    exact ⟨rfl, batch, hbatch, he'⟩

theorem run_sendLocal_get_two :
    (1 : Int) ≤ 2 ∧ ∃ s, sendLocalAll (newStore 2 2)
      [[⟨1, "a", ∅, some .log⟩, ⟨2, "b", ∅, some .log⟩]] = some s ∧
      ∀ e ∈ s.get "a" 0 9999 none 10,
        e.sourceId = "a" ∧
          ∃ batch ∈ [[(⟨1, "a", ∅, some .log⟩ : Envelope), ⟨2, "b", ∅, some .log⟩]], e ∈ batch :=
  ⟨by decide, run_sendLocal_get (by decide) _ _ _ _ _ _⟩

end Routing

end LogCache
