import Mathlib.Data.List.AList

/-!
# Cached authorization against CAPI

`internal/auth`: `CAPIClient.IsAuthorized` answers `true` at once when `tokenCache` holds the
key `clientToken + sourceId`. Otherwise it asks CAPI whether the token sees an app with that id,
then a service instance, and caches a yes under that key with the time of the answer.
`pruneTokens` sweeps out the entries that are `cacheExpirationInterval` old.

CAPI's answers are arbitrary: each call carries the status CAPI gives for each URL and token
(`none` for a failed request), and the client logs every request it sends with its answer
(`requests`). The cache is sound up to its key (`run_isAuthorized_sound`): a `true` answer
for `(s, t)` rests on a `200 OK` for some pair `(s', t')` with `t' ++ s' = t ++ s`. The key has
no separator, so such a pair need not be `(s, t)` (`isAuthorized_key_collision`).
-/

namespace LogCache

namespace Auth

/-- A request to CAPI: its URL, its `Authorization` header and the status of the answer,
    `none` when the request failed. -/
structure Request where
  url : String
  token : String
  status : Option Nat
deriving DecidableEq

/-- What CAPI answers, by URL and token. -/
abbrev Answers := String → String → Option Nat

/-- `CAPIClient`, with the log of the requests it sent; times in nanoseconds. -/
structure CAPIClient where
  externalCapi : String
  tokenCache : AList fun _ : String => Int
  cacheExpirationInterval : Int
  requests : List Request

/-- `NewCAPIClient`, after its options: `cacheExpirationInterval` is a minute unless
    `WithCacheExpirationInterval` set it. -/
def newCAPIClient (externalCapiAddr : String) (cacheExpirationInterval : Int) : CAPIClient :=
  ⟨externalCapiAddr, ∅, cacheExpirationInterval, []⟩

namespace CAPIClient

/-- `HasApp` and `HasService`: one `GET` of `externalCapi ++ path ++ sourceID` with the token,
    `true` on `200 OK`. -/
def has (c : CAPIClient) (answers : Answers) (path sourceID authToken : String) :
    Bool × CAPIClient :=
  let url := c.externalCapi ++ path ++ sourceID
  let status := answers url authToken
  (decide (status = some 200), { c with requests := c.requests ++ [⟨url, authToken, status⟩] })

/-- `CAPIClient.HasApp`. -/
def hasApp (c : CAPIClient) (answers : Answers) (sourceID authToken : String) :
    Bool × CAPIClient :=
  c.has answers "/v3/apps/" sourceID authToken

/-- `CAPIClient.HasService`. -/
def hasService (c : CAPIClient) (answers : Answers) (sourceID authToken : String) :
    Bool × CAPIClient :=
  c.has answers "/v3/service_instances/" sourceID authToken

/-- `CAPIClient.IsAuthorized`; `now` stamps a new cache entry. `HasService` is asked only when
    `HasApp` said no. -/
def isAuthorized (c : CAPIClient) (answers : Answers) (now : Int)
    (sourceId clientToken : String) : Bool × CAPIClient :=
  if clientToken ++ sourceId ∈ c.tokenCache then (true, c)
  else
    let (app, c) := c.hasApp answers sourceId clientToken
    let (ok, c) := if app then (true, c) else c.hasService answers sourceId clientToken
    if ok then (true, { c with tokenCache := c.tokenCache.insert (clientToken ++ sourceId) now })
    else (false, c)

/-- One sweep of `pruneTokens`: `since k` is the instant the sweep reads at key `k`. -/
def prune (c : CAPIClient) (since : String → Int) : CAPIClient :=
  { c with
    tokenCache :=
      ⟨c.tokenCache.entries.filter fun x =>
          !decide (c.cacheExpirationInterval ≤ since x.1 - x.2),
        c.tokenCache.nodupKeys.sublist (List.filter_sublist _)⟩ }

end CAPIClient

/-- A call on the client: `IsAuthorized` with CAPI's answers, or a sweep of `pruneTokens`. -/
inductive Op where
  | isAuthorized (sourceId clientToken : String) (now : Int) (answers : Answers)
  | prune (since : String → Int)

namespace CAPIClient

/-- One call, its answer dropped. -/
def step (c : CAPIClient) : Op → CAPIClient
  | .isAuthorized sourceId clientToken now answers =>
      (c.isAuthorized answers now sourceId clientToken).2
  | .prune since => c.prune since

/-- A sequence of calls. -/
def run (c : CAPIClient) : List Op → CAPIClient
  | [] => c
  | op :: ops => (c.step op).run ops

/-! ### Soundness up to the key -/

/-- Some logged request for `sourceId` with `token`, to the apps or the service instances
    endpoint, was answered `200 OK`. -/
def Authorized (c : CAPIClient) (sourceId token : String) : Prop :=
  ∃ r ∈ c.requests, r.token = token ∧ r.status = some 200 ∧
    (r.url = c.externalCapi ++ "/v3/apps/" ++ sourceId ∨
      r.url = c.externalCapi ++ "/v3/service_instances/" ++ sourceId)

/-- Every cached key is `token ++ sourceId` for a pair CAPI authorized. -/
def CacheSound (c : CAPIClient) : Prop :=
  ∀ key ∈ c.tokenCache,
    ∃ sourceId token, token ++ sourceId = key ∧ c.Authorized sourceId token

variable {c : CAPIClient}

/-- The log only grows. -/
theorem Authorized.mono {c' : CAPIClient} {sourceId token : String}
    (h : c.Authorized sourceId token)
    (hcapi : c'.externalCapi = c.externalCapi) (hreq : ∀ r ∈ c.requests, r ∈ c'.requests) :
    c'.Authorized sourceId token := by
  obtain ⟨r, hr, h⟩ := h
  exact ⟨r, hreq r hr, hcapi ▸ h⟩

/-- A client that keeps the endpoint and the log, and caches only old keys or keys of
    authorized pairs, keeps the cache sound. -/
theorem CacheSound.extend (hc : c.CacheSound) {c' : CAPIClient}
    (hcapi : c'.externalCapi = c.externalCapi) (hreq : ∀ r ∈ c.requests, r ∈ c'.requests)
    (hcache : ∀ key ∈ c'.tokenCache,
      key ∈ c.tokenCache ∨
        ∃ sourceId token, token ++ sourceId = key ∧ c'.Authorized sourceId token) :
    c'.CacheSound := by
  intro key hkey
  rcases hcache key hkey with hold | hnew
  · obtain ⟨sourceId, token, hk, hauth⟩ := hc key hold
    exact ⟨sourceId, token, hk, hauth.mono hcapi hreq⟩
  · exact hnew

/-- Logging requests and caching the key of a pair they authorize keeps the cache sound. -/
theorem CacheSound.cache (hc : c.CacheSound) (extra : List Request) (now : Int)
    {sourceId clientToken : String}
    (h : Authorized { c with requests := c.requests ++ extra } sourceId clientToken) :
    CacheSound { c with
      requests := c.requests ++ extra
      tokenCache := c.tokenCache.insert (clientToken ++ sourceId) now } :=
  hc.extend rfl (fun _ hr => List.mem_append_left _ hr) fun _ hkey =>
    ((AList.mem_insert _).1 hkey).elim (fun hk => .inr ⟨sourceId, clientToken, hk.symm, h⟩) .inl

/-- `IsAuthorized` on a key it has not cached: the apps request, then the service instances
    request unless the first was answered `200 OK`, and a cache entry on a `200 OK`. -/
theorem isAuthorized_of_not_mem (answers : Answers) (now : Int) {sourceId clientToken : String}
    (hmem : clientToken ++ sourceId ∉ c.tokenCache) :
    c.isAuthorized answers now sourceId clientToken =
      let app : Request := ⟨c.externalCapi ++ "/v3/apps/" ++ sourceId, clientToken,
        answers (c.externalCapi ++ "/v3/apps/" ++ sourceId) clientToken⟩
      let service : Request := ⟨c.externalCapi ++ "/v3/service_instances/" ++ sourceId,
        clientToken, answers (c.externalCapi ++ "/v3/service_instances/" ++ sourceId) clientToken⟩
      if app.status = some 200 then
        (true, { c with
          requests := c.requests ++ [app]
          tokenCache := c.tokenCache.insert (clientToken ++ sourceId) now })
      else if service.status = some 200 then
        (true, { c with
          requests := c.requests ++ [app, service]
          tokenCache := c.tokenCache.insert (clientToken ++ sourceId) now })
      else (false, { c with requests := c.requests ++ [app, service] }) := by
  simp only [isAuthorized, if_neg hmem, hasApp, hasService, has]
  split_ifs <;> simp_all

/-- **`IsAuthorized` keeps the cache sound, and a `true` answer rests on a `200 OK` for a pair
    with the same key**, this call's or one cached before. -/
theorem CacheSound.isAuthorized (hc : c.CacheSound) (answers : Answers) (now : Int)
    (sourceId clientToken : String) :
    let res := c.isAuthorized answers now sourceId clientToken
    res.2.CacheSound ∧ res.2.externalCapi = c.externalCapi ∧
      (∀ r ∈ c.requests, r ∈ res.2.requests) ∧
      (res.1 = true → ∃ s t, t ++ s = clientToken ++ sourceId ∧ res.2.Authorized s t) := by
  by_cases hmem : clientToken ++ sourceId ∈ c.tokenCache
  · rw [CAPIClient.isAuthorized, if_pos hmem]
    exact ⟨hc, rfl, fun _ h => h, fun _ => hc _ hmem⟩
  · rw [isAuthorized_of_not_mem answers now hmem]
    dsimp only
    have hkeep : ∀ extra : List Request, ∀ r ∈ c.requests, r ∈ c.requests ++ extra :=
      fun _ _ hr => List.mem_append_left _ hr
    set app : Request := ⟨c.externalCapi ++ "/v3/apps/" ++ sourceId, clientToken,
      answers (c.externalCapi ++ "/v3/apps/" ++ sourceId) clientToken⟩
    set service : Request := ⟨c.externalCapi ++ "/v3/service_instances/" ++ sourceId,
      clientToken, answers (c.externalCapi ++ "/v3/service_instances/" ++ sourceId) clientToken⟩
    split_ifs with happ hservice
    · have h : Authorized { c with requests := c.requests ++ [app] } sourceId clientToken :=
        ⟨app, List.mem_append_right _ (List.mem_singleton_self _), rfl, happ, .inl rfl⟩
      exact ⟨hc.cache _ now h, rfl, hkeep _, fun _ => ⟨_, _, rfl, h⟩⟩
    · have h : Authorized { c with requests := c.requests ++ [app, service] } sourceId
          clientToken :=
        ⟨service, List.mem_append_right _ (List.mem_cons_of_mem _ (List.mem_singleton_self _)),
          rfl, hservice, .inr rfl⟩
      exact ⟨hc.cache _ now h, rfl, hkeep _, fun _ => ⟨_, _, rfl, h⟩⟩
    · exact ⟨hc.extend rfl (hkeep _) fun _ hkey => .inl hkey, rfl, hkeep _,
        fun h => by cases h⟩

theorem CacheSound.prune (hc : c.CacheSound) (since : String → Int) :
    (c.prune since).CacheSound := by
  intro key hkey
  obtain ⟨v, hv⟩ := List.mem_keys.1 hkey
  exact hc key (List.mem_keys.2 ⟨v, (List.mem_filter.1 hv).1⟩)

theorem cacheSound_newCAPIClient (externalCapiAddr : String) (cacheExpirationInterval : Int) :
    (newCAPIClient externalCapiAddr cacheExpirationInterval).CacheSound := by
  intro key hkey
  simp [newCAPIClient] at hkey

theorem CacheSound.step (hc : c.CacheSound) (op : Op) :
    (c.step op).CacheSound ∧ (c.step op).externalCapi = c.externalCapi := by
  cases op with
  | isAuthorized sourceId clientToken now answers =>
      obtain ⟨h, hcapi, -⟩ := hc.isAuthorized answers now sourceId clientToken
      exact ⟨h, hcapi⟩
  | prune since => exact ⟨hc.prune since, rfl⟩

theorem CacheSound.run (hc : c.CacheSound) (ops : List Op) : (c.run ops).CacheSound := by
  induction ops generalizing c with
  | nil => exact hc
  | cons op ops ih => exact ih (hc.step op).1

/-- **Cached authorization is sound up to its key**: after any calls and sweeps, an
    `IsAuthorized(sourceId, clientToken)` that answers `true` rests on a `200 OK` from the apps
    or the service instances endpoint, to this call or an earlier one, for a pair whose token and
    source id concatenate to `clientToken ++ sourceId`. -/
theorem run_isAuthorized_sound (externalCapiAddr : String) (cacheExpirationInterval : Int)
    (ops : List Op) (answers : Answers) (now : Int) (sourceId clientToken : String) :
    (((newCAPIClient externalCapiAddr cacheExpirationInterval).run ops).isAuthorized answers now
        sourceId clientToken).1 = true →
      ∃ s t, t ++ s = clientToken ++ sourceId ∧
        (((newCAPIClient externalCapiAddr cacheExpirationInterval).run ops).isAuthorized answers
          now sourceId clientToken).2.Authorized s t :=
  (((cacheSound_newCAPIClient _ _).run ops).isAuthorized answers now sourceId clientToken).2.2.2

theorem run_isAuthorized_sound_cached :
    (((newCAPIClient "https://capi" 60000000000).run
        [.isAuthorized "app" "tok" 0 fun _ _ => some 200]).isAuthorized (fun _ _ => some 403) 1
          "app" "tok").1 = true ∧
      ∃ s t, t ++ s = "tok" ++ "app" ∧ (((newCAPIClient "https://capi" 60000000000).run
        [.isAuthorized "app" "tok" 0 fun _ _ => some 200]).isAuthorized (fun _ _ => some 403) 1
          "app" "tok").2.Authorized s t :=
  ⟨by decide, run_isAuthorized_sound _ _ _ _ _ _ _ (by decide)⟩

/-- **The cache key does not separate the token from the source id**: once CAPI authorizes the
    token `"a"` for the source id `"bc"`, the token `"ab"` is authorized for the source id `"c"`
    while CAPI refuses every request, and no request with the token `"ab"` is ever sent. -/
theorem isAuthorized_key_collision :
    (((newCAPIClient "https://capi" 60000000000).isAuthorized (fun _ _ => some 200) 0 "bc"
        "a").2.isAuthorized (fun _ _ => some 403) 1 "c" "ab").1 = true ∧
    ((((newCAPIClient "https://capi" 60000000000).isAuthorized (fun _ _ => some 200) 0 "bc"
        "a").2.isAuthorized (fun _ _ => some 403) 1 "c" "ab").2.requests.all
          fun r => r.token ≠ "ab") = true := by
  decide

end CAPIClient

end Auth

end LogCache
