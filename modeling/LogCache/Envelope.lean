import Mathlib.Data.List.AList

/-!
# Envelopes

The parts of `loggregator_v2.Envelope` that the store, the group manager and the PromQL
querier read: the timestamp, the source id, the tag map and the message, a protobuf
`oneof` that may be unset. Go maps are association lists with distinct keys (`AList`);
their order stands for Go's unspecified iteration order.
-/

namespace LogCache

/-- A Go `map[string]string`. -/
abbrev Tags := AList (fun _ : String => String)

/-- `loggregator_v2.GaugeValue`. -/
structure GaugeValue where
  unit : String
  value : Float

/-- The `oneof` message of an envelope, with the fields the querier reads. -/
inductive Message where
  | log
  | counter (name : String) (total : UInt64)
  | gauge (metrics : AList (fun _ : String => GaugeValue))
  | timer (name : String) (start stop : Int)
  | event

/-- `loggregator_v2.Envelope`; `message = none` is an unset `oneof`. -/
structure Envelope where
  timestamp : Int
  sourceId : String
  tags : Tags
  message : Option Message

/-- The message types a store read may be filtered by (`store.EnvelopeType`, whose
    dynamic type is one of these five pointer types, or `nil` for no filter). -/
inductive EnvelopeType where
  | log
  | counter
  | gauge
  | timer
  | event
deriving DecidableEq, Repr

/-- `Envelope.GetLog() != nil` and its siblings: does the envelope carry a message of the
    given type? -/
def Message.isType : Message → EnvelopeType → Bool
  | .log, .log => true
  | .counter .., .counter => true
  | .gauge _, .gauge => true
  | .timer .., .timer => true
  | .event, .event => true
  | _, _ => false

end LogCache
