import LogCache.Auth.CapiClient

/-!
# Listing resources from CAPI

`CAPIClient.GetRelatedSourceIds` and `CAPIClient.AvailableSourceIDs` list apps and service
instances through `doPaginatedResourceRequest`, a Go `for {}` loop that asks CAPI for a page,
appends its resources, and follows the page's `pagination.next.href` until a page has none.
`doResourceRequest` parses that link with `url.Parse` and then overwrites its scheme and host
with the current request's, so every page after the first goes to the host of the first, and
the token in its `Authorization` header goes nowhere else, whatever links CAPI sends
(`paginate_stays_on_host`). Any failed request ends the loop with an error and drops the pages
already read.

`url.Parse` is any parser, and CAPI's answers are arbitrary, by URL and token. The loop ends
only when CAPI sends a page without a link, so it runs on `fuel`: at most `fuel` requests, and
no result when the fuel runs out. The log of the requests is kept in every case.

`GetRelatedSourceIds` maps each app name to the guids of the apps CAPI listed under that name,
in CAPI's order (`getRelatedSourceIds_ok`), and answers every failure with the empty map, as it
answers an empty name list.
-/

namespace LogCache

namespace Auth

/-- `url.URL`, with the parts the client reads and writes; `query` is the `url.Values` that
    `RawQuery` encodes. -/
structure URL where
  scheme : String
  host : String
  path : String
  query : List (String × List String)
deriving DecidableEq

/-- `url.Values.Set`: the key gets the one value. -/
def setQuery (query : List (String × List String)) (key value : String) :
    List (String × List String) :=
  query.filter (·.1 ≠ key) ++ [(key, [value])]

/-- `resource`: an app or a service instance as CAPI lists it. -/
structure Resource where
  guid : String
  name : String
deriving DecidableEq

/-- A decoded page of a resource list: `pagination.next.href` and `resources`. -/
structure Page where
  next : String
  resources : List Resource

/-- What CAPI answers to a `GET` of a URL with a token: the error of `client.Do`, or the status
    code and the body, decoded or with the decoder's error. -/
inductive Response where
  | failed (err : String)
  | status (code : Nat) (body : Except String Page)

/-- The errors of a resource request, by the message each prints:
    `"failed to build ... request: %s"` (`newRequest`),
    `"failed CAPI request (%s) with error: %s"` (`request`, the URL's path and the error),
    `"failed CAPI request (%s) with status: %d (%s)"` (`status`, the path and the code),
    `"failed to decode resource list request (%s): %s"` (`decode`, the path and the error), and
    `"failed to parse URL %s: %s"` (`parseURL`, the link and the error). -/
inductive ResourceError where
  | newRequest (err : String)
  | request (path err : String)
  | status (path : String) (code : Nat)
  | decode (path err : String)
  | parseURL (href err : String)

section Requests

variable (parse : String → Except String URL) (answers : URL → String → Response)

/-- `doResourceRequest`: one page of resources, and the link to the next page, if any, parsed
    and moved to the scheme and host of this request. -/
def doResourceRequest (authToken : String) (url : URL) :
    Except ResourceError (List Resource × Option URL) :=
  match answers url authToken with
  | .failed err => .error (.request url.path err)
  | .status code body =>
      if code ≠ 200 then .error (.status url.path code)
      else
        match body with
        | .error err => .error (.decode url.path err)
        | .ok page =>
            if page.next = "" then .ok (page.resources, none)
            else
              match parse page.next with
              | .error err => .error (.parseURL page.next err)
              | .ok next =>
                  .ok (page.resources, some { next with scheme := url.scheme, host := url.host })

/-- The loop of `doPaginatedResourceRequest` from the request for `url`, with the resources read
    so far, for at most `fuel` requests: its result, `none` when the fuel ran out, and the URLs it
    requested, in order. -/
def paginate (authToken : String) (resources : List Resource) :
    Nat → URL → Option (Except ResourceError (List Resource)) × List URL
  | 0, _ => (none, [])
  | fuel + 1, url =>
      match doResourceRequest parse answers authToken url with
      | .error err => (some (.error err), [url])
      | .ok (page, none) => (some (.ok (resources ++ page)), [url])
      | .ok (page, some next) =>
          let rest := paginate authToken (resources ++ page) fuel next
          (rest.1, url :: rest.2)

/-- `doPaginatedResourceRequest`. -/
def doPaginatedResourceRequest (authToken : String) (fuel : Nat) (url : URL) :
    Option (Except ResourceError (List Resource)) × List URL :=
  paginate parse answers authToken [] fuel url

/-- `sourceIDsForResourceType`: the guids of every resource of the type, `5000` a page. -/
def sourceIDsForResourceType (c : CAPIClient) (resourceType authToken : String) (fuel : Nat) :
    Option (Except ResourceError (List String)) × List URL :=
  match parse (c.externalCapi ++ "/v3/" ++ resourceType) with
  | .error err => (some (.error (.newRequest err)), [])
  | .ok url =>
      let r := doPaginatedResourceRequest parse answers authToken fuel
        { url with query := setQuery url.query "per_page" "5000" }
      (r.1.map (·.map (·.map (·.guid))), r.2)

/-- `CAPIClient.AvailableSourceIDs`: the guids of the apps, then of the service instances; the
    nil slice, here `[]`, when either listing fails. -/
def availableSourceIDs (c : CAPIClient) (authToken : String) (fuel : Nat) :
    Option (List String) × List URL :=
  match sourceIDsForResourceType parse answers c "apps" authToken fuel with
  | (none, urls) => (none, urls)
  | (some (.error _), urls) => (some [], urls)
  | (some (.ok appIDs), urls) =>
      let services := sourceIDsForResourceType parse answers c "service_instances" authToken fuel
      (services.1.map fun
        | .error _ => []
        | .ok serviceIDs => appIDs ++ serviceIDs, urls ++ services.2)

/-- The loop of `GetRelatedSourceIds` over the resources: each guid is appended under its
    resource's name. -/
def guidSets (resources : List Resource) : AList fun _ : String => List String :=
  resources.foldl (fun m r => m.insert r.name ((m.lookup r.name).getD [] ++ [r.guid])) ∅

/-- The request of `GetRelatedSourceIds`: the names, comma-separated, `5000` a page. -/
def relatedAppsURL (url : URL) (appNames : List String) : URL :=
  { url with query :=
      setQuery (setQuery url.query "names" (",".intercalate appNames)) "per_page" "5000" }

/-- `CAPIClient.GetRelatedSourceIds`: the empty map for no names or on any failure. -/
def getRelatedSourceIds (c : CAPIClient) (appNames : List String) (authToken : String)
    (fuel : Nat) : Option (AList fun _ : String => List String) × List URL :=
  if appNames.length = 0 then (some ∅, [])
  else
    match parse (c.externalCapi ++ "/v3/apps") with
    | .error _ => (some ∅, [])
    | .ok url =>
        let r :=
          doPaginatedResourceRequest parse answers authToken fuel (relatedAppsURL url appNames)
        (r.1.map fun
          | .error _ => ∅
          | .ok resources => guidSets resources, r.2)

/-- The resources of the page CAPI answers to a request. -/
def pageResources (authToken : String) (url : URL) : List Resource :=
  match answers url authToken with
  | .status _ (.ok page) => page.resources
  | _ => []

/-! ### One page -/

/-- A page read: the request was answered `200 OK` with a page, and the link, if any, moved to
    this request's scheme and host. -/
theorem doResourceRequest_ok {authToken : String} {url : URL} {page : List Resource}
    {next : Option URL} (h : doResourceRequest parse answers authToken url = .ok (page, next)) :
    (∃ p, answers url authToken = .status 200 (.ok p) ∧ p.resources = page) ∧
      ∀ u ∈ next, u.scheme = url.scheme ∧ u.host = url.host := by
  unfold doResourceRequest at h
  rcases hans : answers url authToken with err | ⟨code, _ | p⟩ <;> simp only [hans] at h
  · cases h
  · split_ifs at h
  · by_cases hcode : code = 200
    · subst hcode
      simp only [ne_eq, not_true_eq_false, if_false] at h
      by_cases hnext : p.next = ""
      · rw [if_pos hnext] at h
        cases h
        exact ⟨⟨p, rfl, rfl⟩, by simp⟩
      · rw [if_neg hnext] at h
        rcases hp : parse p.next with err | next'
        · rw [hp] at h
          cases h
        · rw [hp] at h
          cases h
          exact ⟨⟨p, rfl, rfl⟩, by simp⟩
    · rw [if_pos hcode] at h
      cases h

/-! ### The loop over the pages -/

/-- **The token stays on the first request's host**: every request of the loop goes to the
    scheme and host of its first, whatever links the pages carry, for any number of pages. -/
theorem paginate_stays_on_host (authToken : String) (fuel : Nat) (resources : List Resource)
    (url : URL) :
    ∀ u ∈ (paginate parse answers authToken resources fuel url).2,
      u.scheme = url.scheme ∧ u.host = url.host := by
  induction fuel generalizing resources url with
  | zero => simp [paginate]
  | succ fuel ih =>
      intro u hu
      simp only [paginate] at hu
      split at hu
      · rw [List.mem_singleton.1 hu]
        exact ⟨rfl, rfl⟩
      · rw [List.mem_singleton.1 hu]
        exact ⟨rfl, rfl⟩
      · rename_i page next hnext
        rcases List.mem_cons.1 hu with rfl | hu
        · exact ⟨rfl, rfl⟩
        · obtain ⟨hs, hh⟩ := (doResourceRequest_ok parse answers hnext).2 next rfl
          obtain ⟨hs', hh'⟩ := ih _ _ u hu
          exact ⟨hs'.trans hs, hh'.trans hh⟩

/-- On success the loop returns the resources read so far, then those of every page it
    requested, in order, each answered `200 OK`. -/
theorem paginate_ok (authToken : String) (fuel : Nat) (resources : List Resource) (url : URL)
    {rs : List Resource}
    (h : (paginate parse answers authToken resources fuel url).1 = some (.ok rs)) :
    (∀ u ∈ (paginate parse answers authToken resources fuel url).2,
      ∃ p, answers u authToken = .status 200 (.ok p)) ∧
      rs = resources ++
        (paginate parse answers authToken resources fuel url).2.flatMap
          (pageResources answers authToken) := by
  induction fuel generalizing resources url with
  | zero => simp [paginate] at h
  | succ fuel ih =>
      simp only [paginate] at h ⊢
      split at h
      · cases h
      · rename_i page hpage
        obtain ⟨⟨p, hans, rfl⟩, -⟩ := doResourceRequest_ok parse answers hpage
        cases h
        simp [pageResources, hans]
      · rename_i page next hpage
        obtain ⟨⟨p, hans, rfl⟩, -⟩ := doResourceRequest_ok parse answers hpage
        obtain ⟨hall, hrs⟩ := ih _ _ h
        refine ⟨fun u hu => ?_, by simp [hrs, pageResources, hans]⟩
        rcases List.mem_cons.1 hu with rfl | hu
        · exact ⟨p, hans⟩
        · exact hall u hu

/-! ### The callers -/

/-- Every request of `sourceIDsForResourceType` goes to the scheme and host of the URL built
    from `externalCapi`. -/
theorem sourceIDsForResourceType_on_host (c : CAPIClient) (resourceType authToken : String)
    (fuel : Nat) :
    ∀ u ∈ (sourceIDsForResourceType parse answers c resourceType authToken fuel).2,
      ∃ url, parse (c.externalCapi ++ "/v3/" ++ resourceType) = .ok url ∧
        u.scheme = url.scheme ∧ u.host = url.host := by
  intro u hu
  unfold sourceIDsForResourceType at hu
  split at hu
  · simp at hu
  · rename_i url hurl
    exact ⟨url, hurl, paginate_stays_on_host parse answers authToken fuel []
      { url with query := setQuery url.query "per_page" "5000" } u hu⟩

/-- **The CAPI token goes to no other host**: for every list of names, token, CAPI answers and
    number of pages, every request that `GetRelatedSourceIds` or `AvailableSourceIDs` sends,
    with the token in its `Authorization` header, goes to the scheme and host of a URL built
    from `externalCapi`, whatever links CAPI's pages carry. -/
theorem resourceRequests_stay_on_host (c : CAPIClient) (appNames : List String)
    (authToken : String) (fuel : Nat) :
    (∀ u ∈ (getRelatedSourceIds parse answers c appNames authToken fuel).2,
      ∃ url, parse (c.externalCapi ++ "/v3/apps") = .ok url ∧
        u.scheme = url.scheme ∧ u.host = url.host) ∧
    ∀ u ∈ (availableSourceIDs parse answers c authToken fuel).2,
      ∃ resourceType ∈ ["apps", "service_instances"], ∃ url,
        parse (c.externalCapi ++ "/v3/" ++ resourceType) = .ok url ∧
          u.scheme = url.scheme ∧ u.host = url.host := by
  refine ⟨fun u hu => ?_, fun u hu => ?_⟩
  · unfold getRelatedSourceIds at hu
    split_ifs at hu
    · simp at hu
    · split at hu
      · simp at hu
      · rename_i url hurl
        exact ⟨url, hurl, paginate_stays_on_host parse answers authToken fuel []
          (relatedAppsURL url appNames) u hu⟩
  · have happs := sourceIDsForResourceType_on_host parse answers c "apps" authToken fuel
    have hsvc := sourceIDsForResourceType_on_host parse answers c "service_instances" authToken fuel
    unfold availableSourceIDs at hu
    split at hu <;> rename_i hres
    · exact ⟨"apps", by simp, happs u (by rw [hres]; exact hu)⟩
    · exact ⟨"apps", by simp, happs u (by rw [hres]; exact hu)⟩
    · rcases List.mem_append.1 hu with hu | hu
      · exact ⟨"apps", by simp, happs u (by rw [hres]; exact hu)⟩
      · exact ⟨"service_instances", by simp, hsvc u hu⟩

/-- A page linking to another host: the second request still goes to `capi`. -/
example :
    let parse : String → Except String URL := fun s =>
      .ok ⟨"https", if s = "https://evil/p2" then "evil" else "capi", s, []⟩
    let answers : URL → String → Response := fun u _ =>
      .status 200 (.ok (if u.path = "https://evil/p2" then ⟨"", [⟨"g2", "b"⟩]⟩
        else ⟨"https://evil/p2", [⟨"g1", "a"⟩]⟩))
    (getRelatedSourceIds parse answers (newCAPIClient "https://capi" 0) ["a", "b"] "tok" 2).2.map
      (·.host) = ["capi", "capi"] := by
  decide

/-- The loop of `GetRelatedSourceIds` appends to each name the guids of the resources with that
    name, in order. -/
theorem lookup_foldl_guidSets (resources : List Resource) (m : AList fun _ : String => List String)
    (name : String) :
    (resources.foldl (fun m r => m.insert r.name ((m.lookup r.name).getD [] ++ [r.guid])) m).lookup
        name =
      if m.lookup name = none ∧ name ∉ resources.map (·.name) then none
      else some ((m.lookup name).getD [] ++ (resources.filter (·.name = name)).map (·.guid)) := by
  induction resources generalizing m with
  | nil => cases h : m.lookup name <;> simp [h]
  | cons r resources ih =>
      rw [List.foldl_cons, ih]
      by_cases hr : r.name = name
      · subst hr
        simp [List.filter_cons]
      · simp [AList.lookup_insert_ne (Ne.symm hr), List.filter_cons, hr, Ne.symm hr]

theorem lookup_guidSets (resources : List Resource) (name : String) :
    (guidSets resources).lookup name =
      if name ∈ resources.map (·.name) then
        some ((resources.filter (·.name = name)).map (·.guid))
      else none := by
  rw [guidSets, lookup_foldl_guidSets]
  by_cases h : name ∈ resources.map (·.name) <;> simp [h]

/-- **`GetRelatedSourceIds` groups the apps CAPI listed by name**: for every non-empty list of
    names, token, CAPI answers and number of pages, when the listing of the apps returns, every
    request it sent was answered `200 OK`, the apps are those of its pages in order, and the map
    gives each name the guids of the apps listed under it, in that order, and has no other
    names. -/
theorem getRelatedSourceIds_ok (c : CAPIClient) (appNames : List String) (authToken : String)
    (fuel : Nat) (hne : appNames ≠ []) (url : URL)
    (hurl : parse (c.externalCapi ++ "/v3/apps") = .ok url) (rs : List Resource)
    (hrs : (doPaginatedResourceRequest parse answers authToken fuel
      (relatedAppsURL url appNames)).1 = some (.ok rs)) :
    ∃ m, (getRelatedSourceIds parse answers c appNames authToken fuel).1 = some m ∧
      (∀ u ∈ (getRelatedSourceIds parse answers c appNames authToken fuel).2,
        ∃ p, answers u authToken = .status 200 (.ok p)) ∧
      rs = (getRelatedSourceIds parse answers c appNames authToken fuel).2.flatMap
        (pageResources answers authToken) ∧
      ∀ name, m.lookup name =
        if name ∈ rs.map (·.name) then some ((rs.filter (·.name = name)).map (·.guid))
        else none := by
  have hlen : ¬appNames.length = 0 := fun h => hne (List.length_eq_zero.1 h)
  have hget : getRelatedSourceIds parse answers c appNames authToken fuel =
      (some (guidSets rs), (doPaginatedResourceRequest parse answers authToken fuel
        (relatedAppsURL url appNames)).2) := by
    simp only [getRelatedSourceIds, if_neg hlen, hurl]
    rw [Prod.ext_iff]
    simp [hrs]
  obtain ⟨hall, hcat⟩ := paginate_ok parse answers authToken fuel [] _ hrs
  rw [hget]
  exact ⟨guidSets rs, rfl, hall, by simpa using hcat, lookup_guidSets rs⟩

theorem getRelatedSourceIds_ok_one_page :
    let parse : String → Except String URL := fun s => .ok ⟨"https", "capi", s, []⟩
    let answers : URL → String → Response := fun _ _ =>
      .status 200 (.ok ⟨"", [⟨"g1", "a"⟩, ⟨"g2", "b"⟩, ⟨"g3", "a"⟩]⟩)
    let c := newCAPIClient "https://capi" 0
    let url : URL := ⟨"https", "capi", "https://capi/v3/apps", []⟩
    let rs : List Resource := [⟨"g1", "a"⟩, ⟨"g2", "b"⟩, ⟨"g3", "a"⟩]
    ["a", "b"] ≠ [] ∧ parse (c.externalCapi ++ "/v3/apps") = .ok url ∧
      (doPaginatedResourceRequest parse answers "tok" 1 (relatedAppsURL url ["a", "b"])).1 =
        some (.ok rs) ∧
      ∃ m, (getRelatedSourceIds parse answers c ["a", "b"] "tok" 1).1 = some m ∧
        (∀ u ∈ (getRelatedSourceIds parse answers c ["a", "b"] "tok" 1).2,
          ∃ p, answers u "tok" = .status 200 (.ok p)) ∧
        rs = (getRelatedSourceIds parse answers c ["a", "b"] "tok" 1).2.flatMap
          (pageResources answers "tok") ∧
        ∀ name, m.lookup name =
          if name ∈ rs.map (·.name) then some ((rs.filter (·.name = name)).map (·.guid))
          else none :=
  ⟨by decide, rfl, rfl, getRelatedSourceIds_ok _ _ _ _ _ _ (by decide)
    ⟨"https", "capi", "https://capi/v3/apps", []⟩ rfl _ rfl⟩

end Requests

end Auth

end LogCache
