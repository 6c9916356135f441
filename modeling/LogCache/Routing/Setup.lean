import Mathlib.Data.List.Basic

/-!
# The client slices of `setupRouting`

`LogCache.setupRouting` walks `nodeAddrs` and builds the slices `ingressClients` and
`egressClients` that `NewIngressReverseProxy` and `NewEgressReverseProxy` index by node: at
`nodeIndex` the local-store shim and the local store reader, at every other position the
clients of a connection dialled to that position's address. A peer whose `grpc.Dial` fails is
logged and skipped with `continue`, so it gets no slot.

The outcome of each dial is a parameter (`dialOk i`, for the call at position `i`), so the
results hold for every pattern of success and failure. `setupRouting_clients` says what the
loop computes: the slot of each position that was not skipped, in order. The slices are aligned
with the node indices when every peer dial succeeds (`setupRouting_aligned`), and they have
one slot per node exactly when that is so (`setupRouting_length_eq_iff`): one failed dial
shortens both slices and shifts every later slot, the local one included, while `localIdx`
stays `nodeIndex` (`setupRouting_dial_failure_shifts`).
-/

namespace LogCache

namespace Routing

/-- A slot of `ingressClients`. -/
inductive IngressClient where
  /-- `routing.NewBatchedIngressClient(size, interval, logcache_v1.NewIngressClient(conn), c.log)`
      over a connection dialled to `addr`; the interval in nanoseconds. -/
  | batched (size interval : Nat) (addr : String)
  /-- The `routing.IngressClientFunc` that `Put`s every envelope of a batch into the local
      store under its source id. -/
  | localStore
deriving DecidableEq, Repr

/-- A slot of `egressClients`. -/
inductive EgressClient where
  /-- `logcache_v1.NewEgressClient(conn)` over a connection dialled to `addr`. -/
  | remote (addr : String)
  /-- `routing.NewLocalStoreReader(s)`. -/
  | localStoreReader
deriving DecidableEq, Repr

/-- The locals of `setupRouting` that the reverse proxies receive. -/
structure Clients where
  ingressClients : List IngressClient
  egressClients : List EgressClient
  localIdx : Int
deriving DecidableEq, Repr

variable (nodeIndex : Int) (dialOk : Nat → Bool)

/-! ### The registration loop -/

/-- One pass of the loop "Register peers and current node" at position `i`, where `dialOk i`
    says whether `grpc.Dial(addr, c.dialOpts...)` returned without error. -/
def register (r : Clients) (i : Nat) (addr : String) : Clients :=
  if (i : Int) ≠ nodeIndex then
    if dialOk i then
      { r with
        ingressClients := r.ingressClients ++ [.batched 100 250000000 addr]
        egressClients := r.egressClients ++ [.remote addr] }
    else r
  else
    { ingressClients := r.ingressClients ++ [.localStore]
      egressClients := r.egressClients ++ [.localStoreReader]
      localIdx := i }

/-- The loop over `nodeAddrs` from position `i` on. -/
def registerAll : Nat → List String → Clients → Clients
  | _, [], r => r
  | i, addr :: addrs, r => registerAll (i + 1) addrs (register nodeIndex dialOk r i addr)

/-- The slices and local index that `setupRouting` passes to the reverse proxies. -/
def setupRouting (nodeAddrs : List String) : Clients :=
  registerAll nodeIndex dialOk 0 nodeAddrs ⟨[], [], 0⟩

/-! ### What each position is meant to hold -/

/-- Whether position `i` gets a slot: the local node always, a peer when its dial succeeded. -/
def kept (i : Nat) : Bool := (i : Int) = nodeIndex || dialOk i

/-- The ingress client meant for position `i`. -/
def ingressSlot (i : Nat) (addr : String) : IngressClient :=
  if (i : Int) = nodeIndex then .localStore else .batched 100 250000000 addr

/-- The egress client meant for position `i`. -/
def egressSlot (i : Nat) (addr : String) : EgressClient :=
  if (i : Int) = nodeIndex then .localStoreReader else .remote addr

/-- The positions from `i` on that get a slot, with their addresses. -/
def keptFrom (i : Nat) (addrs : List String) : List (Nat × String) :=
  (addrs.enumFrom i).filter fun x => kept nodeIndex dialOk x.1

/-! ### One pass, then the whole loop -/

section Loop

variable {nodeIndex dialOk}

theorem register_ingressClients (r : Clients) (i : Nat) (addr : String) :
    (register nodeIndex dialOk r i addr).ingressClients =
      r.ingressClients ++
        if kept nodeIndex dialOk i then [ingressSlot nodeIndex i addr] else [] := by
  by_cases hi : (i : Int) = nodeIndex <;> by_cases hd : dialOk i <;>
    simp [register, kept, ingressSlot, hi, hd]

theorem register_egressClients (r : Clients) (i : Nat) (addr : String) :
    (register nodeIndex dialOk r i addr).egressClients =
      r.egressClients ++
        if kept nodeIndex dialOk i then [egressSlot nodeIndex i addr] else [] := by
  by_cases hi : (i : Int) = nodeIndex <;> by_cases hd : dialOk i <;>
    simp [register, kept, egressSlot, hi, hd]

theorem register_localIdx (r : Clients) (i : Nat) (addr : String) :
    (register nodeIndex dialOk r i addr).localIdx =
      if (i : Int) = nodeIndex then (i : Int) else r.localIdx := by
  by_cases hi : (i : Int) = nodeIndex <;> by_cases hd : dialOk i <;> simp [register, hi, hd]

theorem keptFrom_cons (i : Nat) (addr : String) (addrs : List String) :
    keptFrom nodeIndex dialOk i (addr :: addrs) =
      (if kept nodeIndex dialOk i then [(i, addr)] else []) ++
        keptFrom nodeIndex dialOk (i + 1) addrs := by
  by_cases h : kept nodeIndex dialOk i <;> simp [keptFrom, List.filter_cons, h]

/-- The loop appends the slot of every position it does not skip, in order. -/
theorem registerAll_clients (i : Nat) (addrs : List String) (r : Clients) :
    (registerAll nodeIndex dialOk i addrs r).ingressClients =
        r.ingressClients ++ (keptFrom nodeIndex dialOk i addrs).map
          (fun x => ingressSlot nodeIndex x.1 x.2) ∧
      (registerAll nodeIndex dialOk i addrs r).egressClients =
        r.egressClients ++ (keptFrom nodeIndex dialOk i addrs).map
          (fun x => egressSlot nodeIndex x.1 x.2) := by
  induction addrs generalizing i r with
  | nil => simp [registerAll, keptFrom]
  | cons addr addrs ih =>
      obtain ⟨hin, heg⟩ := ih (i + 1) (register nodeIndex dialOk r i addr)
      rw [registerAll, hin, heg, register_ingressClients, register_egressClients, keptFrom_cons]
      constructor <;> split_ifs <;> simp

/-- The loop sets `localIdx` to `nodeIndex` when it passes that position. -/
theorem registerAll_localIdx (i : Nat) (addrs : List String) (r : Clients) :
    (registerAll nodeIndex dialOk i addrs r).localIdx =
      if (i : Int) ≤ nodeIndex ∧ nodeIndex < i + addrs.length then nodeIndex
      else r.localIdx := by
  induction addrs generalizing i r with
  | nil => simp only [registerAll, List.length_nil]; split_ifs <;> omega
  | cons addr addrs ih =>
      rw [registerAll, ih, register_localIdx, List.length_cons]
      split_ifs <;> omega

end Loop

/-! ### The slices `setupRouting` builds -/

section Setup

variable {nodeIndex dialOk}

/-- **What `setupRouting` passes to the reverse proxies**, for every dial outcome: the slot of
    each position that was not skipped, in order of position, and `localIdx = nodeIndex` when
    `nodeIndex` is a position of `nodeAddrs`. -/
theorem setupRouting_clients (nodeAddrs : List String) :
    (setupRouting nodeIndex dialOk nodeAddrs).ingressClients =
        (keptFrom nodeIndex dialOk 0 nodeAddrs).map (fun x => ingressSlot nodeIndex x.1 x.2) ∧
      (setupRouting nodeIndex dialOk nodeAddrs).egressClients =
        (keptFrom nodeIndex dialOk 0 nodeAddrs).map (fun x => egressSlot nodeIndex x.1 x.2) ∧
      (setupRouting nodeIndex dialOk nodeAddrs).localIdx =
        if 0 ≤ nodeIndex ∧ nodeIndex < nodeAddrs.length then nodeIndex else 0 := by
  obtain ⟨hin, heg⟩ := @registerAll_clients nodeIndex dialOk 0 nodeAddrs ⟨[], [], 0⟩
  refine ⟨hin, heg, ?_⟩
  rw [setupRouting, registerAll_localIdx]
  simp

/-- Every position is kept exactly when every dial to a peer succeeds. -/
theorem forall_kept_iff (nodeAddrs : List String) :
    (∀ x ∈ nodeAddrs.enum, kept nodeIndex dialOk x.1 = true) ↔
      ∀ i < nodeAddrs.length, (i : Int) ≠ nodeIndex → dialOk i = true := by
  constructor
  · intro h i hi hne
    simpa [kept, hne] using
      h (i, nodeAddrs[i]) (List.mem_iff_getElem?.2 ⟨i, by simp [List.getElem?_enumFrom, hi]⟩)
  · intro h x hx
    have hlt : x.1 < nodeAddrs.length := by simpa using List.fst_lt_add_of_mem_enumFrom hx
    by_cases hx₁ : (x.1 : Int) = nodeIndex <;> simp [kept, hx₁, h _ hlt]

theorem getElem?_map_enum {β : Type} (f : Nat → String → β) (l : List String) (i : Nat) :
    (l.enum.map fun x => f x.1 x.2)[i]? = l[i]?.map (f i) := by
  rw [List.getElem?_map, List.enum, List.getElem?_enumFrom, Option.map_map, Nat.zero_add]
  rfl

/-- **Aligned slices when every peer dial succeeds**: both slices have one slot per node,
    position `i` holds the clients of `nodeAddrs[i]` for `i ≠ nodeIndex` and the local
    shim and reader at `nodeIndex`, and `localIdx = nodeIndex`. -/
theorem setupRouting_aligned (nodeAddrs : List String) (h₀ : 0 ≤ nodeIndex)
    (hlt : nodeIndex < nodeAddrs.length)
    (hall : ∀ i < nodeAddrs.length, (i : Int) ≠ nodeIndex → dialOk i = true) (i : Nat) :
    (setupRouting nodeIndex dialOk nodeAddrs).ingressClients[i]? =
        nodeAddrs[i]?.map (ingressSlot nodeIndex i) ∧
      (setupRouting nodeIndex dialOk nodeAddrs).egressClients[i]? =
        nodeAddrs[i]?.map (egressSlot nodeIndex i) ∧
      (setupRouting nodeIndex dialOk nodeAddrs).localIdx = nodeIndex := by
  obtain ⟨hin, heg⟩ := @registerAll_clients nodeIndex dialOk 0 nodeAddrs ⟨[], [], 0⟩
  have hkept : keptFrom nodeIndex dialOk 0 nodeAddrs = nodeAddrs.enum :=
    List.filter_eq_self.2 ((forall_kept_iff nodeAddrs).2 hall)
  rw [hkept, List.nil_append] at hin heg
  refine ⟨by rw [setupRouting, hin, getElem?_map_enum],
    by rw [setupRouting, heg, getElem?_map_enum], ?_⟩
  rw [setupRouting, registerAll_localIdx]
  simp [h₀, hlt]

theorem setupRouting_aligned_all_dialled :
    (0 : Int) ≤ 1 ∧ (1 : Int) < 2 ∧
      (∀ i : Nat, i < 2 → (i : Int) ≠ 1 → true = true) ∧
      (setupRouting 1 (fun _ => true) ["10.0.0.1:8080", "10.0.0.2:8080"]).ingressClients[0]? =
          (["10.0.0.1:8080", "10.0.0.2:8080"] : List String)[0]?.map (ingressSlot 1 0) ∧
        (setupRouting 1 (fun _ => true) ["10.0.0.1:8080", "10.0.0.2:8080"]).egressClients[0]? =
          (["10.0.0.1:8080", "10.0.0.2:8080"] : List String)[0]?.map (egressSlot 1 0) ∧
        (setupRouting 1 (fun _ => true) ["10.0.0.1:8080", "10.0.0.2:8080"]).localIdx = 1 :=
  ⟨by decide, by decide, fun _ _ _ => rfl,
    setupRouting_aligned _ (by decide) (by decide) (fun _ _ _ => rfl) 0⟩

/-- **One slot per node exactly when every peer dial succeeds**: the ingress slice (and with it
    the egress slice, which has the same length) is as long as `nodeAddrs` if and only if no
    dial to a peer failed. -/
theorem setupRouting_length_eq_iff (nodeAddrs : List String) :
    (setupRouting nodeIndex dialOk nodeAddrs).ingressClients.length = nodeAddrs.length ↔
      ∀ i < nodeAddrs.length, (i : Int) ≠ nodeIndex → dialOk i = true := by
  rw [setupRouting, (registerAll_clients 0 nodeAddrs _).1, List.nil_append, List.length_map,
    keptFrom, ← forall_kept_iff, ← List.filter_length_eq_length, List.enum_length]
  rfl

/-- With two nodes, `nodeIndex = 1` and the dial to the peer failing, both slices hold the
    local clients alone, at position 0, while `localIdx` is 1: the reverse proxies find no
    client at the local index and the peer's position holds the local store. -/
theorem setupRouting_dial_failure_shifts :
    setupRouting 1 (fun _ => false) ["10.0.0.1:8080", "10.0.0.2:8080"] =
      ⟨[.localStore], [.localStoreReader], 1⟩ := by
  decide

end Setup

end Routing

end LogCache
