import LogCache.Envelope
import Mathlib.Data.Multiset.Basic

/-!
# The group manager

`internal/groups`: `Manager` keeps, per group name, the source ids added to the group and the
requesters that read it, each stamped with the time of its last read, and forwards every change
to a `DataStorage`. The storage is an interface, so the model records the calls made on it in
order (`calls`), and the results about it are statements about that log.

A `Read` reads the clock three times: the stamp of its requester, the time each requester is
compared with in the expiry loop, and the default end time (`ReadClock`). Writing to a nil map
panics (`none`). Go maps are association lists; their order stands for Go's iteration order.

Every group in the map has a source id and a requester map, so no `Read` panics
(`run_wellFormed`). The source ids of a group always agree with the `Add` and `Remove` calls
(`run_sourceIDs`), but `RemoveFromGroup` drops the requester map of a group it deletes without
a `RemoveRequester` call, so the storage keeps those requesters registered for a group that no
longer exists (`run_removeFromGroup_keeps_requester`). The other direction holds: the expiry
loop of `Read` takes a requester out of the map exactly when it sends a `RemoveRequester` for
it, so the storage is never asked to drop a requester it was not given, and every requester in
a map has an `AddRequester` of its own (`run_requestersMatched`).
-/

namespace LogCache

namespace Groups

/-- The gRPC status codes the manager returns. -/
inductive Code where
  | invalidArgument
  | notFound
deriving DecidableEq, Repr

/-- A gRPC error: its code and message. -/
structure Status where
  code : Code
  message : String

/-- `logcache.EnvelopeTypes`. -/
inductive EnvelopeTypes where
  | any
  | log
  | counter
  | gauge
  | timer
  | event
deriving DecidableEq, Repr

/-- `Manager.convertEnvelopeType`: `ANY` is no filter. -/
def convertEnvelopeType : EnvelopeTypes → Option EnvelopeType
  | .log => some .log
  | .counter => some .counter
  | .gauge => some .gauge
  | .timer => some .timer
  | .event => some .event
  | .any => none

/-- `groupInfo`; `requesterIDs = none` is a nil map. -/
structure GroupInfo where
  sourceIDs : List String
  requesterIDs : Option (AList fun _ : UInt64 => Int)

/-- A call on the `DataStorage`. -/
inductive Call where
  | get (name : String) (start end_ : Int) (envelopeType : Option EnvelopeType) (limit : Int)
      (requesterID : UInt64)
  | add (name sourceID : String)
  | addRequester (name : String) (requesterID : UInt64)
  | remove (name sourceID : String)
  | removeRequester (name : String) (requesterID : UInt64)

/-- `logcache.GroupReadRequest`, times in Unix nanoseconds. -/
structure GroupReadRequest where
  name : String
  requesterId : UInt64
  startTime : Int
  endTime : Int
  limit : Int
  envelopeType : EnvelopeTypes

/-- The clock readings of one `Read`: the stamp of its requester, the instant the expiry loop
    reads at each requester, and the end time used when the request has none. -/
structure ReadClock where
  stamp : Int
  since : UInt64 → Int
  endTime : Int

/-- `Manager`, with the log of the calls it made on its `DataStorage`. -/
structure Manager where
  m : AList fun _ : String => GroupInfo
  requesterTimeout : Int
  calls : List Call

/-- `NewManager`. -/
def newManager (requesterTimeout : Int) : Manager := ⟨∅, requesterTimeout, []⟩

/-- The expiry loop of `Read`: every requester whose stamp is `timeout` old or more by the clock
    is deleted, with one `RemoveRequester` call each, in the map's order. -/
def expire (name : String) (timeout : Int) (since : UInt64 → Int)
    (ids : AList fun _ : UInt64 => Int) : (AList fun _ : UInt64 => Int) × List Call :=
  (⟨ids.entries.filter (fun x => !decide (timeout ≤ since x.1 - x.2)),
      ids.nodupKeys.sublist (List.filter_sublist _)⟩,
    (ids.entries.filter fun x => decide (timeout ≤ since x.1 - x.2)).map
      fun x => .removeRequester name x.1)

/-- The source ids of the `Add(name, ·)` calls of a log, in order. -/
def added (calls : List Call) (name : String) : List String :=
  calls.filterMap fun
    | .add n sourceID => if n = name then some sourceID else none
    | _ => none

/-- The source ids of the `Remove(name, ·)` calls of a log, in order. -/
def removed (calls : List Call) (name : String) : List String :=
  calls.filterMap fun
    | .remove n sourceID => if n = name then some sourceID else none
    | _ => none

section Log

variable {c₁ c₂ c : List Call} {name n sourceID : String} {r : UInt64}

@[simp] theorem added_append : added (c₁ ++ c₂) name = added c₁ name ++ added c₂ name :=
  List.filterMap_append _ _ _

@[simp] theorem removed_append : removed (c₁ ++ c₂) name = removed c₁ name ++ removed c₂ name :=
  List.filterMap_append _ _ _

@[simp] theorem added_add : added [.add n sourceID] name = if n = name then [sourceID] else [] := by
  by_cases h : n = name <;> simp [added, h]

@[simp] theorem removed_remove :
    removed [.remove n sourceID] name = if n = name then [sourceID] else [] := by
  by_cases h : n = name <;> simp [removed, h]

@[simp] theorem added_remove : added [.remove n sourceID] name = [] := rfl

@[simp] theorem removed_add : removed [.add n sourceID] name = [] := rfl

@[simp] theorem added_addRequester : added (.addRequester n r :: c) name = added c name := rfl

@[simp] theorem removed_addRequester :
    removed (.addRequester n r :: c) name = removed c name := rfl

@[simp] theorem added_get {start end_ limit : Int} {t : Option EnvelopeType} :
    added [.get n start end_ t limit r] name = [] := rfl

@[simp] theorem removed_get {start end_ limit : Int} {t : Option EnvelopeType} :
    removed [.get n start end_ t limit r] name = [] := rfl

@[simp] theorem added_expire (timeout : Int) (since : UInt64 → Int)
    (ids : AList fun _ : UInt64 => Int) : added (expire n timeout since ids).2 name = [] := by
  simp [expire, added, List.filterMap_map, Function.comp_def]

@[simp] theorem removed_expire (timeout : Int) (since : UInt64 → Int)
    (ids : AList fun _ : UInt64 => Int) : removed (expire n timeout since ids).2 name = [] := by
  simp [expire, removed, List.filterMap_map, Function.comp_def]

end Log

/-- How often a log registers a requester of a group. -/
def requesterAdds (calls : List Call) (name : String) (requesterID : UInt64) : Nat :=
  calls.countP fun
    | .addRequester n r => n = name ∧ r = requesterID
    | _ => false

/-- How often a log unregisters a requester of a group. -/
def requesterRemoves (calls : List Call) (name : String) (requesterID : UInt64) : Nat :=
  calls.countP fun
    | .removeRequester n r => n = name ∧ r = requesterID
    | _ => false

section RequesterLog

variable {c₁ c₂ : List Call} {name n : String} {k r : UInt64}

@[simp] theorem requesterAdds_append :
    requesterAdds (c₁ ++ c₂) name k = requesterAdds c₁ name k + requesterAdds c₂ name k :=
  List.countP_append _ _ _

@[simp] theorem requesterRemoves_append :
    requesterRemoves (c₁ ++ c₂) name k =
      requesterRemoves c₁ name k + requesterRemoves c₂ name k :=
  List.countP_append _ _ _

@[simp] theorem requesterAdds_addRequester :
    requesterAdds [.addRequester n r] name k = if n = name ∧ r = k then 1 else 0 := by
  by_cases h : n = name ∧ r = k <;> simp [requesterAdds, h]

@[simp] theorem requesterRemoves_addRequester : requesterRemoves [.addRequester n r] name k = 0 :=
  rfl

@[simp] theorem requesterAdds_add {s : String} : requesterAdds [.add n s] name k = 0 := rfl

@[simp] theorem requesterRemoves_add {s : String} : requesterRemoves [.add n s] name k = 0 := rfl

@[simp] theorem requesterAdds_remove {s : String} : requesterAdds [.remove n s] name k = 0 := rfl

@[simp] theorem requesterRemoves_remove {s : String} : requesterRemoves [.remove n s] name k = 0 :=
  rfl

@[simp] theorem requesterAdds_get {start end_ limit : Int} {t : Option EnvelopeType} :
    requesterAdds [.get n start end_ t limit r] name k = 0 := rfl

@[simp] theorem requesterRemoves_get {start end_ limit : Int} {t : Option EnvelopeType} :
    requesterRemoves [.get n start end_ t limit r] name k = 0 := rfl

@[simp] theorem requesterAdds_expire (timeout : Int) (since : UInt64 → Int)
    (ids : AList fun _ : UInt64 => Int) :
    requesterAdds (expire n timeout since ids).2 name k = 0 := by
  simp [expire, requesterAdds, List.countP_map, Function.comp_def]

theorem requesterRemoves_expire_of_ne (h : n ≠ name) (timeout : Int) (since : UInt64 → Int)
    (ids : AList fun _ : UInt64 => Int) :
    requesterRemoves (expire n timeout since ids).2 name k = 0 := by
  simp [expire, requesterRemoves, List.countP_map, Function.comp_def, h]

/-- Splitting a map's entries by a test: each key is left in the first part, or counted once in
    the second. -/
theorem mem_filter_add_countP {E : List (Sigma fun _ : UInt64 => Int)} (hE : E.NodupKeys)
    (p : (Sigma fun _ : UInt64 => Int) → Bool) (k : UInt64) :
    (decide (k ∈ (E.filter fun x => !p x).keys)).toNat +
      (E.filter p).countP (fun x => decide (x.1 = k)) = (decide (k ∈ E.keys)).toNat := by
  induction E with
  | nil => rfl
  | cons x E ih =>
      rw [List.nodupKeys_cons] at hE
      have ih := ih hE.2
      by_cases hk : x.1 = k
      · subst hk
        have hnot : decide (x.1 ∈ E.keys) = false := by simpa using hE.1
        rw [hnot, Bool.toNat_false] at ih
        cases hx : p x <;> simp only [List.filter_cons, hx, List.countP_cons] <;> simp
        · exact fun a ha _ h => hE.1 (h ▸ List.mem_keys_of_mem ha)
        · omega
      · cases hx : p x <;> simpa [List.filter_cons, hx, List.countP_cons, hk, Ne.symm hk] using ih

/-- The expiry loop takes a requester out of the map exactly when it sends one `RemoveRequester`
    call for it. -/
theorem mem_expire_add_requesterRemoves (timeout : Int) (since : UInt64 → Int)
    (ids : AList fun _ : UInt64 => Int) :
    (decide (k ∈ (expire name timeout since ids).1)).toNat +
      requesterRemoves (expire name timeout since ids).2 name k = (decide (k ∈ ids)).toNat := by
  have hcount : requesterRemoves (expire name timeout since ids).2 name k =
      (ids.entries.filter fun x => decide (timeout ≤ since x.1 - x.2)).countP
        fun x => decide (x.1 = k) := by
    simp only [expire, requesterRemoves, List.countP_map]
    congr
    funext x
    simp
  simp only [hcount, AList.mem_keys]
  exact mem_filter_add_countP ids.nodupKeys _ k

end RequesterLog

theorem toNat_mem_insert {β : Type} (ids : AList fun _ : UInt64 => β) (r k : UInt64) (b : β) :
    (decide (k ∈ ids.insert r b)).toNat =
      (decide (k ∈ ids)).toNat + (decide (k = r ∧ r ∉ ids)).toNat := by
  by_cases hkr : k = r
  · subst hkr
    by_cases hmem : k ∈ ids <;> simp [AList.mem_insert, hmem]
  · simp [AList.mem_insert, hkr]

namespace Manager

/-- `Manager.AddToGroup`. -/
def addToGroup (mgr : Manager) (name sourceId : String) : Except Status Manager :=
  if name = "" ∨ sourceId = "" then
    .error ⟨.invalidArgument, "name and source_id fields are required"⟩
  else if name.utf8ByteSize > 128 ∨ sourceId.utf8ByteSize > 128 then
    .error ⟨.invalidArgument, "name and source_id fields can only be 128 bytes long"⟩
  else
    let gi : GroupInfo :=
      match mgr.m.lookup name with
      | some gi => gi
      | none => ⟨[], some ∅⟩
    .ok { mgr with
      m := mgr.m.insert name { gi with sourceIDs := gi.sourceIDs ++ [sourceId] }
      calls := mgr.calls ++ [.add name sourceId] }

/-- `Manager.RemoveFromGroup`: the first occurrence of the source id goes, with a `Remove` call;
    a group left without source ids is deleted. -/
def removeFromGroup (mgr : Manager) (name sourceId : String) : Manager :=
  match mgr.m.lookup name with
  | none => mgr
  | some a =>
      let a' : GroupInfo := { a with sourceIDs := a.sourceIDs.erase sourceId }
      { mgr with
        m := if a'.sourceIDs.length = 0 then (mgr.m.insert name a').erase name
          else mgr.m.insert name a'
        calls := if sourceId ∈ a.sourceIDs then mgr.calls ++ [.remove name sourceId]
          else mgr.calls }

/-- `Manager.Read`, up to the call of `DataStorage.Get` (whose batch it returns). -/
def read (mgr : Manager) (r : GroupReadRequest) (clock : ReadClock) :
    Option (Except Status Manager) :=
  match mgr.m.lookup r.name with
  | none => some (.error ⟨.notFound, "unknown group name: " ++ r.name⟩)
  | some gi =>
      match gi.requesterIDs with
      | none => none
      | some ids =>
          let calls := if r.requesterId ∈ ids then mgr.calls
            else mgr.calls ++ [.addRequester r.name r.requesterId]
          let (ids, removals) :=
            expire r.name mgr.requesterTimeout clock.since (ids.insert r.requesterId clock.stamp)
          let endTime := if r.endTime = 0 then clock.endTime else r.endTime
          let limit := if r.limit = 0 then 100 else r.limit
          some (.ok { mgr with
            m := mgr.m.insert r.name { gi with requesterIDs := some ids }
            calls := calls ++ removals ++
              [.get r.name r.startTime endTime (convertEnvelopeType r.envelopeType) limit
                r.requesterId] })

/-- `Manager.Group`: the source ids and requester ids of a group, both empty for an unknown
    group. -/
def group (mgr : Manager) (name : String) : List String × List UInt64 :=
  match mgr.m.lookup name with
  | none => ([], [])
  | some a => (a.sourceIDs, (a.requesterIDs.map (·.keys)).getD [])

end Manager

/-- A call on the manager, with the clock readings a `Read` makes. -/
inductive Op where
  | addToGroup (name sourceId : String)
  | removeFromGroup (name sourceId : String)
  | read (r : GroupReadRequest) (clock : ReadClock)
  | group (name : String)

namespace Manager

/-- One call; an error leaves the manager as it was, a panic is `none`. -/
def step (mgr : Manager) : Op → Option Manager
  | .addToGroup name sourceId =>
      match mgr.addToGroup name sourceId with
      | .ok mgr' => some mgr'
      | .error _ => some mgr
  | .removeFromGroup name sourceId => some (mgr.removeFromGroup name sourceId)
  | .read r clock =>
      (mgr.read r clock).map fun
        | .ok mgr' => mgr'
        | .error _ => mgr
  | .group _ => some mgr

/-- A sequence of calls; `none` once one of them panics. -/
def run (mgr : Manager) : List Op → Option Manager
  | [] => some mgr
  | op :: ops => (mgr.step op).bind fun mgr' => mgr'.run ops

/-! ### Every group has a source id and a requester map -/

/-- What every manager reached from `NewManager` satisfies. -/
def WellFormed (mgr : Manager) : Prop :=
  ∀ name gi, mgr.m.lookup name = some gi → gi.sourceIDs ≠ [] ∧ gi.requesterIDs.isSome

variable {mgr : Manager}

theorem wellFormed_newManager (requesterTimeout : Int) :
    (newManager requesterTimeout).WellFormed := by
  simp [WellFormed, newManager]

theorem WellFormed.insert (h : mgr.WellFormed) {mgr' : Manager} {name : String} {gi : GroupInfo}
    (hm : mgr'.m = mgr.m.insert name gi) (hgi : gi.sourceIDs ≠ [] ∧ gi.requesterIDs.isSome) :
    mgr'.WellFormed := by
  intro name' gi' hlook
  rw [hm] at hlook
  by_cases hn : name' = name
  · subst hn
    rw [AList.lookup_insert] at hlook
    cases hlook
    exact hgi
  · exact h _ _ ((AList.lookup_insert_ne hn).symm.trans hlook)

theorem WellFormed.erase_insert (h : mgr.WellFormed) {mgr' : Manager} {name : String}
    {gi : GroupInfo} (hm : mgr'.m = (mgr.m.insert name gi).erase name) : mgr'.WellFormed := by
  intro name' gi' hlook
  rw [hm] at hlook
  by_cases hn : name' = name
  · subst hn
    simp at hlook
  · rw [AList.lookup_erase_ne hn, AList.lookup_insert_ne hn] at hlook
    exact h _ _ hlook

/-- **One call on a well-formed manager returns, and leaves it well formed.** -/
theorem WellFormed.step (h : mgr.WellFormed) (op : Op) :
    ∃ mgr', mgr.step op = some mgr' ∧ mgr'.WellFormed := by
  cases op with
  | addToGroup name sourceId =>
      simp only [Manager.step, Manager.addToGroup]
      split_ifs
      · exact ⟨mgr, rfl, h⟩
      · exact ⟨mgr, rfl, h⟩
      · refine ⟨_, rfl, h.insert rfl ⟨by simp, ?_⟩⟩
        cases hg : mgr.m.lookup name with
        | none => rfl
        | some gi => exact (h _ _ hg).2
  | removeFromGroup name sourceId =>
      simp only [Manager.step, Manager.removeFromGroup]
      cases hg : mgr.m.lookup name with
      | none => exact ⟨mgr, rfl, h⟩
      | some a =>
          refine ⟨_, rfl, ?_⟩
          by_cases hlen : (a.sourceIDs.erase sourceId).length = 0
          · exact h.erase_insert (if_pos hlen)
          · exact h.insert (if_neg hlen) ⟨fun he => hlen (List.length_eq_zero.2 he), (h _ _ hg).2⟩
  | read r clock =>
      simp only [Manager.step, Manager.read]
      cases hg : mgr.m.lookup r.name with
      | none => exact ⟨mgr, rfl, h⟩
      | some gi =>
          obtain ⟨hne, hids⟩ := h _ _ hg
          obtain ⟨ids, hids⟩ := Option.isSome_iff_exists.1 hids
          simp only [hids]
          exact ⟨_, rfl, h.insert rfl ⟨hne, rfl⟩⟩
  | group name => exact ⟨mgr, rfl, h⟩

/-- **A run of calls from a well-formed manager returns**, and leaves it well formed. -/
theorem WellFormed.run (h : mgr.WellFormed) (ops : List Op) :
    ∃ mgr', mgr.run ops = some mgr' ∧ mgr'.WellFormed := by
  induction ops generalizing mgr with
  | nil => exact ⟨mgr, rfl, h⟩
  | cons op ops ih =>
      obtain ⟨mgr₁, h₁, hw₁⟩ := h.step op
      obtain ⟨mgr', h', hw'⟩ := ih hw₁
      exact ⟨mgr', by simp only [Manager.run, h₁, Option.some_bind, h'], hw'⟩

/-- `Read` on a well-formed manager never writes to a nil map. -/
theorem WellFormed.read_isSome (h : mgr.WellFormed) (r : GroupReadRequest) (clock : ReadClock) :
    (mgr.read r clock).isSome := by
  obtain ⟨mgr', hstep, -⟩ := h.step (.read r clock)
  simp only [Manager.step, Option.map_eq_some'] at hstep
  obtain ⟨res, hres, -⟩ := hstep
  rw [hres]
  rfl

/-- On a well-formed manager, `RemoveFromGroup` deletes a group exactly when the source id it
    removes is the group's last. -/
theorem WellFormed.removeFromGroup_lookup (h : mgr.WellFormed) {name sourceId : String}
    {gi : GroupInfo} (hg : mgr.m.lookup name = some gi) :
    (mgr.removeFromGroup name sourceId).m.lookup name = none ↔ gi.sourceIDs = [sourceId] := by
  have hne := (h _ _ hg).1
  simp only [Manager.removeFromGroup, hg]
  by_cases hlen : (gi.sourceIDs.erase sourceId).length = 0
  · rw [if_pos hlen, AList.lookup_erase, List.length_eq_zero] at *
    simp only [true_iff]
    rw [List.erase_eq_nil] at hlen
    exact hlen.resolve_left hne
  · rw [if_neg hlen, AList.lookup_insert]
    simp only [reduceCtorEq, false_iff]
    rintro hs
    exact hlen (by simp [hs])

/-- `RemoveFromGroup` leaves every other group as it was. -/
theorem removeFromGroup_lookup_ne {name sourceId name' : String} (hn : name' ≠ name) :
    (mgr.removeFromGroup name sourceId).m.lookup name' = mgr.m.lookup name' := by
  unfold Manager.removeFromGroup
  split
  · rfl
  · dsimp only
    split_ifs
    · rw [AList.lookup_erase_ne hn, AList.lookup_insert_ne hn]
    · rw [AList.lookup_insert_ne hn]

/-- **Every manager reached from `NewManager` is well formed**: each of its groups has a source
    id and a requester map, so no `Read` writes to a nil map, and `RemoveFromGroup` deletes a
    group exactly when it removes the group's last source id, and no other group. -/
theorem run_wellFormed (requesterTimeout : Int) (ops : List Op) :
    ∃ mgr, (newManager requesterTimeout).run ops = some mgr ∧ mgr.WellFormed ∧
      (∀ r clock, (mgr.read r clock).isSome) ∧
      (∀ name sourceId gi, mgr.m.lookup name = some gi →
        ((mgr.removeFromGroup name sourceId).m.lookup name = none ↔ gi.sourceIDs = [sourceId])) ∧
      ∀ name sourceId name', name' ≠ name →
        (mgr.removeFromGroup name sourceId).m.lookup name' = mgr.m.lookup name' := by
  obtain ⟨mgr, hrun, h⟩ := (wellFormed_newManager requesterTimeout).run ops
  exact ⟨mgr, hrun, h, h.read_isSome, fun _ _ _ hg => h.removeFromGroup_lookup hg,
    fun _ _ _ => removeFromGroup_lookup_ne⟩

/-! ### Agreement with the storage -/

/-- The source ids of a group, none for an unknown group. -/
def sourceIDsOf (mgr : Manager) (name : String) : List String :=
  ((mgr.m.lookup name).map (·.sourceIDs)).getD []

theorem sourceIDsOf_erase_insert (mgr : Manager) {mgr' : Manager} {name : String}
    {gi : GroupInfo} (hm : mgr'.m = (mgr.m.insert name gi).erase name) (name' : String) :
    mgr'.sourceIDsOf name' = if name' = name then [] else mgr.sourceIDsOf name' := by
  unfold sourceIDsOf
  rw [hm]
  split_ifs with hn
  · subst hn
    simp
  · rw [AList.lookup_erase_ne hn, AList.lookup_insert_ne hn]

theorem sourceIDsOf_insert (mgr : Manager) {mgr' : Manager} {name : String} {gi : GroupInfo}
    (hm : mgr'.m = mgr.m.insert name gi) (name' : String) :
    mgr'.sourceIDsOf name' = if name' = name then gi.sourceIDs else mgr.sourceIDsOf name' := by
  unfold sourceIDsOf
  rw [hm]
  split_ifs with hn
  · subst hn
    rw [AList.lookup_insert]
    rfl
  · rw [AList.lookup_insert_ne hn]

/-- The source ids of every group agree with the `Add` and `Remove` calls on the storage. -/
def SourcesAgree (mgr : Manager) : Prop :=
  ∀ name, (mgr.sourceIDsOf name ++ removed mgr.calls name).Perm (added mgr.calls name)

theorem sourcesAgree_newManager (requesterTimeout : Int) :
    (newManager requesterTimeout).SourcesAgree := by
  intro name
  simp [sourceIDsOf, newManager, added, removed]

/-- `AddToGroup` appends the source id to its group, with an `Add` call. -/
theorem addToGroup_ok {name sourceId : String} {mgr' : Manager}
    (h : mgr.addToGroup name sourceId = .ok mgr') (name' : String) :
    mgr'.sourceIDsOf name' =
      (if name' = name then mgr.sourceIDsOf name ++ [sourceId] else mgr.sourceIDsOf name') ∧
    mgr'.calls = mgr.calls ++ [.add name sourceId] := by
  unfold Manager.addToGroup at h
  split_ifs at h
  cases h
  refine ⟨?_, rfl⟩
  rw [sourceIDsOf_insert mgr rfl]
  split_ifs
  · unfold sourceIDsOf
    cases mgr.m.lookup name <;> rfl
  · rfl

/-- `RemoveFromGroup` drops the first occurrence of the source id from its group, with a
    `Remove` call when there was one. -/
theorem removeFromGroup_spec (name sourceId name' : String) :
    (mgr.removeFromGroup name sourceId).sourceIDsOf name' =
      (if name' = name then (mgr.sourceIDsOf name).erase sourceId else mgr.sourceIDsOf name') ∧
    (mgr.removeFromGroup name sourceId).calls = mgr.calls ++
      (if sourceId ∈ mgr.sourceIDsOf name then [.remove name sourceId] else []) := by
  unfold Manager.removeFromGroup
  cases hg : mgr.m.lookup name with
  | none =>
      have : mgr.sourceIDsOf name = [] := by simp [sourceIDsOf, hg]
      refine ⟨?_, by simp [this]⟩
      split_ifs with hn
      · rw [hn, this]
        rfl
      · rfl
  | some a =>
      have ha : mgr.sourceIDsOf name = a.sourceIDs := by simp [sourceIDsOf, hg]
      refine ⟨?_, by simp only [ha]; split_ifs <;> simp⟩
      by_cases hlen : (a.sourceIDs.erase sourceId).length = 0
      · rw [sourceIDsOf_erase_insert mgr (if_pos hlen), ha, List.length_eq_zero.1 hlen]
      · rw [sourceIDsOf_insert mgr (if_neg hlen), ha]

/-- A `Read` that returns changes only the requesters of its group, and adds calls that are
    neither `Add` nor `Remove`. -/
theorem read_ok {r : GroupReadRequest} {clock : ReadClock} {mgr' : Manager}
    (h : mgr.read r clock = some (.ok mgr')) (name' : String) :
    mgr'.sourceIDsOf name' = mgr.sourceIDsOf name' ∧
    added mgr'.calls name' = added mgr.calls name' ∧
    removed mgr'.calls name' = removed mgr.calls name' := by
  unfold Manager.read at h
  cases hg : mgr.m.lookup r.name with
  | none => simp [hg] at h
  | some gi =>
      cases hids : gi.requesterIDs with
      | none => simp [hg, hids] at h
      | some ids =>
          simp only [hg, hids, Option.some.injEq, Except.ok.injEq] at h
          subst h
          refine ⟨?_, ?_, ?_⟩
          · rw [sourceIDsOf_insert mgr rfl]
            split_ifs with hn
            · subst hn
              simp [sourceIDsOf, hg]
            · rfl
          · split_ifs <;> simp
          · split_ifs <;> simp

/-- **Every call keeps the source ids in agreement with the storage.** -/
theorem SourcesAgree.step (hs : mgr.SourcesAgree) {op : Op} {mgr' : Manager}
    (h : mgr.step op = some mgr') : mgr'.SourcesAgree := by
  intro name'
  cases op with
  | addToGroup name sourceId =>
      simp only [Manager.step] at h
      cases hok : mgr.addToGroup name sourceId with
      | error _ =>
          rw [hok] at h
          cases h
          exact hs name'
      | ok mgr₁ =>
          rw [hok] at h
          cases h
          obtain ⟨hsrc, hcalls⟩ := addToGroup_ok hok name'
          rw [hsrc, hcalls, added_append, removed_append, added_add, removed_add, List.append_nil]
          by_cases hn : name' = name
          · subst hn
            rw [if_pos rfl, if_pos rfl, List.append_assoc, List.singleton_append]
            exact List.perm_middle.trans
              (((hs name').cons _).trans (List.perm_append_singleton _ _).symm)
          · rw [if_neg hn, if_neg (Ne.symm hn), List.append_nil]
            exact hs name'
  | removeFromGroup name sourceId =>
      simp only [Manager.step, Option.some.injEq] at h
      subst h
      obtain ⟨hsrc, hcalls⟩ := @removeFromGroup_spec mgr name sourceId name'
      rw [hsrc, hcalls]
      by_cases hn : name' = name
      · subst hn
        by_cases hin : sourceId ∈ mgr.sourceIDsOf name'
        · rw [if_pos rfl, if_pos hin, added_append, removed_append, added_remove, removed_remove,
            if_pos rfl, List.append_nil, ← List.append_assoc]
          exact (List.perm_append_singleton _ _).trans
            (((List.perm_cons_erase hin).symm.append_right _).trans (hs name'))
        · rw [if_pos rfl, if_neg hin, List.append_nil, List.erase_of_not_mem hin]
          exact hs name'
      · rw [if_neg hn]
        split_ifs
        · rw [added_append, removed_append, added_remove, removed_remove, if_neg (Ne.symm hn),
            List.append_nil, List.append_nil]
          exact hs name'
        · rw [List.append_nil]
          exact hs name'
  | read r clock =>
      simp only [Manager.step, Option.map_eq_some'] at h
      obtain ⟨res, hres, rfl⟩ := h
      cases res with
      | error _ => exact hs name'
      | ok mgr₁ =>
          obtain ⟨hsrc, hadd, hrem⟩ := read_ok hres name'
          rw [hsrc, hadd, hrem]
          exact hs name'
  | group name =>
      cases h
      exact hs name'

/-- Agreement holds after every run of calls. -/
theorem SourcesAgree.run (hs : mgr.SourcesAgree) {ops : List Op} {mgr' : Manager}
    (h : mgr.run ops = some mgr') : mgr'.SourcesAgree := by
  induction ops generalizing mgr with
  | nil => cases h; exact hs
  | cons op ops ih =>
      simp only [Manager.run, Option.bind_eq_some] at h
      obtain ⟨mgr₁, h₁, h'⟩ := h
      exact ih (hs.step h₁) h'

/-- **The source ids of every group are the `Add` calls minus the `Remove` calls** on the
    storage, over every run of calls from `NewManager`. -/
theorem run_sourceIDs (requesterTimeout : Int) (ops : List Op) :
    ∃ mgr, (newManager requesterTimeout).run ops = some mgr ∧
      ∀ name, (mgr.sourceIDsOf name : Multiset String) =
        (added mgr.calls name : Multiset String) - removed mgr.calls name := by
  obtain ⟨mgr, hrun, -⟩ := (wellFormed_newManager requesterTimeout).run ops
  refine ⟨mgr, hrun, fun name => ?_⟩
  rw [← Multiset.coe_eq_coe.2 ((sourcesAgree_newManager requesterTimeout).run hrun name),
    ← Multiset.coe_add, add_tsub_cancel_right]

/-! ### Requester registrations -/

/-- Is `requesterID` in the requester map of the group `name`? -/
def hasRequester (mgr : Manager) (name : String) (requesterID : UInt64) : Bool :=
  ((mgr.m.lookup name).bind (·.requesterIDs)).any fun ids => decide (requesterID ∈ ids)

/-- Every `RemoveRequester` call on the storage, and every requester in a group's map, matches
    an `AddRequester` call of its own. -/
def RequestersMatched (mgr : Manager) : Prop :=
  ∀ name requesterID, requesterRemoves mgr.calls name requesterID +
    (mgr.hasRequester name requesterID).toNat ≤ requesterAdds mgr.calls name requesterID

theorem requestersMatched_newManager (requesterTimeout : Int) :
    (newManager requesterTimeout).RequestersMatched := by
  intro name k
  simp [newManager, hasRequester, requesterRemoves, requesterAdds]

theorem hasRequester_insert (mgr : Manager) {mgr' : Manager} {name : String} {gi : GroupInfo}
    (hm : mgr'.m = mgr.m.insert name gi) (name' : String) (k : UInt64) :
    mgr'.hasRequester name' k =
      if name' = name then gi.requesterIDs.any fun ids => decide (k ∈ ids)
      else mgr.hasRequester name' k := by
  unfold hasRequester
  rw [hm]
  split_ifs with hn
  · subst hn
    rw [AList.lookup_insert]
    rfl
  · rw [AList.lookup_insert_ne hn]

theorem hasRequester_erase_insert (mgr : Manager) {mgr' : Manager} {name : String}
    {gi : GroupInfo} (hm : mgr'.m = (mgr.m.insert name gi).erase name) (name' : String)
    (k : UInt64) :
    mgr'.hasRequester name' k = if name' = name then false else mgr.hasRequester name' k := by
  unfold hasRequester
  rw [hm]
  split_ifs with hn
  · subst hn
    simp
  · rw [AList.lookup_erase_ne hn, AList.lookup_insert_ne hn]

/-- A call whose new calls are no requester calls, and which takes requesters out of maps but
    puts none in, keeps every requester matched. -/
theorem RequestersMatched.of_calls (h : mgr.RequestersMatched) {mgr' : Manager} (extra : List Call)
    (hcalls : mgr'.calls = mgr.calls ++ extra)
    (hextra : ∀ name k, requesterAdds extra name k = 0 ∧ requesterRemoves extra name k = 0)
    (hhas : ∀ name k, mgr'.hasRequester name k → mgr.hasRequester name k) :
    mgr'.RequestersMatched := by
  intro name k
  have := h name k
  have hle : (mgr'.hasRequester name k).toNat ≤ (mgr.hasRequester name k).toNat := by
    cases h' : mgr'.hasRequester name k
    · exact Nat.zero_le _
    · simp [hhas name k h']
  simp only [hcalls, requesterAdds_append, requesterRemoves_append, (hextra name k).1,
    (hextra name k).2]
  omega

/-- A `Read` registers its requester with an `AddRequester` call when it is new to the group, and
    drops each expired requester with a `RemoveRequester` call. -/
theorem RequestersMatched.read (h : mgr.RequestersMatched) {r : GroupReadRequest}
    {clock : ReadClock} {mgr' : Manager} (hr : mgr.read r clock = some (.ok mgr')) :
    mgr'.RequestersMatched := by
  unfold Manager.read at hr
  cases hg : mgr.m.lookup r.name with
  | none => simp [hg] at hr
  | some gi =>
      cases hids : gi.requesterIDs with
      | none => simp [hg, hids] at hr
      | some ids =>
          simp only [hg, hids, Option.some.injEq, Except.ok.injEq] at hr
          subst hr
          intro name k
          have hk := h name k
          have hadds : requesterAdds (if r.requesterId ∈ ids then mgr.calls
              else mgr.calls ++ [.addRequester r.name r.requesterId]) name k =
              requesterAdds mgr.calls name k +
                (decide (name = r.name ∧ k = r.requesterId ∧ r.requesterId ∉ ids)).toNat := by
            by_cases hmem : r.requesterId ∈ ids
            · simp [hmem]
            · by_cases hn : name = r.name <;> by_cases hkr : k = r.requesterId <;>
                simp [hmem, hn, hkr, eq_comm]
          have hrems : requesterRemoves (if r.requesterId ∈ ids then mgr.calls
              else mgr.calls ++ [.addRequester r.name r.requesterId]) name k =
              requesterRemoves mgr.calls name k := by
            split_ifs <;> simp
          rw [hasRequester_insert mgr rfl]
          simp only [requesterAdds_append, requesterRemoves_append,
            requesterAdds_get, requesterRemoves_get, requesterAdds_expire, hadds, hrems]
          by_cases hn : name = r.name
          · subst hn
            have hcons := @mem_expire_add_requesterRemoves r.name k
              mgr.requesterTimeout clock.since (ids.insert r.requesterId clock.stamp)
            have hhas : mgr.hasRequester r.name k = decide (k ∈ ids) := by
              simp [hasRequester, hg, hids]
            rw [hhas] at hk
            rw [toNat_mem_insert] at hcons
            simp only [if_true, Option.any_some, true_and] at hadds ⊢
            omega
          · simp only [if_false, requesterRemoves_expire_of_ne (Ne.symm hn), hn, false_and,
              decide_False, Bool.toNat_false] at hadds ⊢
            omega

/-- `RemoveFromGroup` takes requesters out of maps, with the group it deletes, and puts none
    in. -/
theorem hasRequester_removeFromGroup {name sourceId name' : String} {k : UInt64}
    (hk : (mgr.removeFromGroup name sourceId).hasRequester name' k) : mgr.hasRequester name' k := by
  cases hg : mgr.m.lookup name with
  | none => simpa [Manager.removeFromGroup, hg] using hk
  | some a =>
      by_cases hlen : (a.sourceIDs.erase sourceId).length = 0
      · rw [@hasRequester_erase_insert mgr _ name
          { a with sourceIDs := a.sourceIDs.erase sourceId }
          (by simp [Manager.removeFromGroup, hg, hlen])] at hk
        split_ifs at hk
        exact hk
      · rw [@hasRequester_insert mgr _ name { a with sourceIDs := a.sourceIDs.erase sourceId }
          (by simp [Manager.removeFromGroup, hg, hlen])] at hk
        split_ifs at hk with hn
        · subst hn
          simpa [hasRequester, hg] using hk
        · exact hk

/-- **Every call keeps the requesters matched.** -/
theorem RequestersMatched.step (h : mgr.RequestersMatched) {op : Op} {mgr' : Manager}
    (hs : mgr.step op = some mgr') : mgr'.RequestersMatched := by
  cases op with
  | addToGroup name sourceId =>
      simp only [Manager.step] at hs
      cases hok : mgr.addToGroup name sourceId with
      | error _ =>
          rw [hok] at hs
          cases hs
          exact h
      | ok mgr₁ =>
          rw [hok] at hs
          cases hs
          unfold Manager.addToGroup at hok
          split_ifs at hok
          cases hok
          refine h.of_calls _ rfl (fun _ _ => ⟨by simp, by simp⟩) fun name' k hk => ?_
          rw [hasRequester_insert mgr rfl] at hk
          split_ifs at hk with hn
          · subst hn
            cases hg : mgr.m.lookup name' with
            | none => simp [hg] at hk
            | some gi => simpa [hasRequester, hg] using hk
          · exact hk
  | removeFromGroup name sourceId =>
      simp only [Manager.step, Option.some.injEq] at hs
      subst hs
      exact h.of_calls _ (removeFromGroup_spec name sourceId name).2
        (fun _ _ => by split_ifs <;> exact ⟨rfl, rfl⟩) fun _ _ => hasRequester_removeFromGroup
  | read r clock =>
      simp only [Manager.step, Option.map_eq_some'] at hs
      obtain ⟨res, hres, rfl⟩ := hs
      cases res with
      | error _ => exact h
      | ok mgr₁ => exact h.read hres
  | group name =>
      cases hs
      exact h

/-- Every run keeps the requesters matched. -/
theorem RequestersMatched.run (h : mgr.RequestersMatched) {ops : List Op} {mgr' : Manager}
    (hr : mgr.run ops = some mgr') : mgr'.RequestersMatched := by
  induction ops generalizing mgr with
  | nil =>
      cases hr
      exact h
  | cons op ops ih =>
      simp only [Manager.run, Option.bind_eq_some] at hr
      obtain ⟨mgr₁, h₁, h'⟩ := hr
      exact ih (h.step h₁) h'

/-- **The storage is never asked to drop a requester it was not given**: over every run of calls
    from `NewManager`, for every group name and requester id, the `RemoveRequester` calls for the
    requester, plus one while it is in the group's requester map, never outnumber its
    `AddRequester` calls. -/
theorem run_requestersMatched (requesterTimeout : Int) (ops : List Op) :
    ∃ mgr, (newManager requesterTimeout).run ops = some mgr ∧
      ∀ name requesterID, requesterRemoves mgr.calls name requesterID +
        (mgr.hasRequester name requesterID).toNat ≤ requesterAdds mgr.calls name requesterID := by
  obtain ⟨mgr, hrun, -⟩ := (wellFormed_newManager requesterTimeout).run ops
  exact ⟨mgr, hrun, (requestersMatched_newManager requesterTimeout).run hrun⟩

/-- **`RemoveFromGroup` leaves the requesters of a group it deletes registered**: after
    `AddToGroup`, a `Read` and the removal of the group's only source id, the group is gone but
    the storage has seen one `AddRequester` and no `RemoveRequester` for its requester. -/
theorem run_removeFromGroup_keeps_requester :
    ((newManager 1).run [.addToGroup "g" "s", .read ⟨"g", 7, 0, 0, 0, .any⟩ ⟨0, fun _ => 0, 0⟩,
      .removeFromGroup "g" "s"]).map (fun mgr =>
        ((mgr.m.lookup "g").isNone, requesterAdds mgr.calls "g" 7,
          requesterRemoves mgr.calls "g" 7)) = some (true, 1, 0) := by
  decide

end Manager

end Groups

end LogCache
