import LogCache.Tree
import LogCache.Envelope
import LogCache.Store.Basic
import LogCache.Store.TreeStorage
import LogCache.Store.Invariant
import LogCache.Store.Step
import LogCache.Store.Run
import LogCache.Store.Eviction
import LogCache.Store.Query
import LogCache.Groups.Manager
import LogCache.Auth.CapiClient
import LogCache.Auth.Resources
import LogCache.Routing.Setup
import LogCache.Routing.Local
import LogCache.PromQL.Querier
import LogCache.PromQL.Select
import LogCache.PromQL.SeriesSet
import LogCache.PromQL.Iterator
import LogCache.PromQL.Query
