import RecruitingOs.Domain.Util
import RecruitingOs.Lib.BoundedLoop
import RecruitingOs.Lib.InsertionMap
import RecruitingOs.Outbound.PublicIp
import Mathlib.Data.Rat.Defs

/-!
# Fetching public pages

`SafeHttpClient.fetch` with `resolvePublicHttpTarget` (`src/url.ts`) and `boundedResponse`: a page
is fetched over a chain of redirects.  Every iteration resolves the URL that it is about to ask
for, and connects only to the addresses that were validated there.

What the outside does is a parameter, for each iteration anew: the answer of the resolver, the
response of the transport, how often the connector looks an address up, the chunks of the body and
the read at which the timer aborts it.  The trace of a call has one list of events for each
iteration.
-/

namespace RecruitingOs

open IpText

/-- A parsed URL; `href` is its `toString()`. -/
structure FetchUrl where
  href : String
  protocol : String
  username : String
  password : String
  port : String
  hostname : String
deriving DecidableEq, Repr

/-- The conversions of the platform: `new URL(text, base)`, and `Number(text)` where it is finite. -/
structure Platform where
  parseUrl : String → Option FetchUrl → Option FetchUrl
  number : String → Option ℚ

/-! ### Targets -/

/-- An address that a name stands for. -/
structure AddressRecord where
  address : String
  family : ℕ
deriving DecidableEq, Repr

/-- `PublicHttpTarget`. -/
structure PublicHttpTarget where
  url : FetchUrl
  addresses : List AddressRecord
deriving DecidableEq, Repr

/-- `isIP`. -/
def isIP (text : List Char) : ℕ :=
  if (ipv4 text).isSome then 4 else if (ipv6 text).isSome then 6 else 0

/-- `allowedPort`. -/
def allowedPort (url : FetchUrl) : Bool :=
  url.port = "" ∨ (url.protocol = "http:" ∧ url.port = "80") ∨
    (url.protocol = "https:" ∧ url.port = "443")

/-- The lower-cased host names this machine or its network. -/
def localHost (host : List Char) : Bool :=
  host = "localhost".toList ∨ ".localhost".toList.isSuffixOf host ∨ ".local".toList.isSuffixOf host

/-- `resolvePublicHttpTarget(raw)`; `lookup` is the DNS. -/
def resolvePublicHttpTarget (platform : Platform)
    (lookup : String → Except String (List AddressRecord)) (raw : String) :
    Except String PublicHttpTarget :=
  match platform.parseUrl raw none with
  | none => .error "Invalid URL"
  | some url =>
      let host := url.hostname.toList.map Char.toLower
      if url.protocol ≠ "http:" ∧ url.protocol ≠ "https:" then .error "Only http(s) URLs are allowed"
      else if url.username ≠ "" ∨ url.password ≠ "" then .error "Credentialed URLs are not allowed"
      else if ¬ allowedPort url then .error "Non-standard ports are not allowed"
      else if localHost host then .error "Local hosts are not allowed"
      else
        (if isIP host ≠ 0 then .ok [⟨String.ofList host, isIP host⟩]
          else lookup (String.ofList host)).bind fun records =>
            if records = [] ∨ records.any fun record => ¬ isPublicIp record.address.toList then
              .error "Host resolves to a non-public IP"
            else .ok ⟨url, records⟩

/-! ### Bodies -/

/-- What `reader.read()` answers. -/
inductive Read
  | chunk (bytes : List UInt8)
  | done
  | failed (message : String)

/-- The body of a response: its reads, and the one at which the timer aborts it. -/
structure BodyStream where
  read : ℕ → Read
  abortedAt : ℕ

/-- `Response`, as the transport gives it. -/
structure HttpResponse where
  status : ℕ
  statusText : String
  url : String
  headers : InsertionMap String String
  body : Option BodyStream

/-- `Response`, as the client gives it. -/
structure BoundedResponse where
  status : ℕ
  statusText : String
  url : String
  headers : InsertionMap String String
  body : List UInt8

/-- The loop of `readLimited`, with the reads that are left before the abort. -/
def readChunks (stream : BodyStream) (maxBytes : ℕ) :
    (left index : ℕ) → (chunks : List (List UInt8)) → (length : ℕ) → Except String (List (List UInt8))
  | 0, _, _, _ => .error "Outbound request timed out"
  | left + 1, index, chunks, length =>
      match stream.read index with
      | .done => .ok chunks
      | .failed message => .error message
      | .chunk value =>
          if length + value.length > maxBytes then .error "Response exceeds size limit"
          else readChunks stream maxBytes left (index + 1) (chunks ++ [value]) (length + value.length)

/-- `readLimited(stream, maxBytes)`. -/
def readLimited (stream : Option BodyStream) (maxBytes : ℕ) : Except String (List UInt8) :=
  match stream with
  | none => .ok []
  | some stream => (readChunks stream maxBytes stream.abortedAt 0 [] 0).map List.flatten

/-- `new Response(body, { status })` throws. -/
def refusedStatus (status : ℕ) (body : List UInt8) : Bool :=
  status < 200 ∨ 599 < status ∨ (status ∈ [204, 205, 304] ∧ body ≠ [])

/-- `boundedResponse(response, maxBytes, url)`. -/
def boundedResponse (platform : Platform) (response : HttpResponse) (maxBytes : ℕ)
    (url : Option String) : Except String BoundedResponse :=
  let declared := (response.headers.get? "content-length").elim (some 0) platform.number
  if declared.any fun bytes => (maxBytes : ℚ) < bytes then
    .error "Response exceeds size limit"
  else
    (readLimited response.body maxBytes).bind fun body =>
      if refusedStatus response.status body then .error "Invalid response status"
      else .ok ⟨response.status, response.statusText, url.getD response.url, response.headers, body⟩

/-! ### The client -/

/-- A `SafeHttpClient`, with its defaults. -/
structure SafeHttpClient where
  maxRedirects : ℕ := 5
  maxResponseBytes : ℕ := 2000000
  userAgent : String := "RecruitingOS/0.2 (+campus recruiting aggregator)"

/-- `RequestInit`; `headers` are the entries of `new Headers(init.headers)`. -/
structure FetchInit where
  method : Option String
  headers : List (String × String)

/-- A call of the transport. -/
structure TransportCall where
  url : FetchUrl
  method : String
  headers : InsertionMap String String
  redirect : String

/-- What an iteration does. -/
inductive FetchEvent
  | resolved (raw : String) (target : PublicHttpTarget)
  | requested (call : TransportCall)
  | lookedUp (answer : Except String AddressRecord)
  | closed

/-- What the other side does in an iteration: how often the connector looks an address up, the
answer of the transport, and whether the agent closes. -/
structure Exchange where
  lookups : ℕ
  respond : TransportCall → Except String HttpResponse
  close : Except String Unit

/-- `lookup`, the `nextAddress`-th time. -/
def lookupAddress (target : PublicHttpTarget) (nextAddress : ℕ) : Except String AddressRecord :=
  match target.addresses[nextAddress % target.addresses.length]? with
  | none => .error "No validated public address"
  | some record => .ok record

/-- The headers of a call. -/
def requestHeaders (client : SafeHttpClient) (init : FetchInit) : InsertionMap String String :=
  init.headers.foldl (fun headers entry => headers.set entry.1 entry.2)
    (InsertionMap.empty.set "user-agent" client.userAgent)

/-- The body of the `try`: the URL to go on with, or the response. -/
def answered (platform : Platform) (client : SafeHttpClient) (redirects : ℕ) (current : FetchUrl)
    (response : HttpResponse) : Except String (FetchUrl ⊕ BoundedResponse) :=
  if response.status ∈ [301, 302, 303, 307, 308] then
    match response.headers.get? "location" with
    | none => .error "Redirect response is missing a location"
    | some location =>
        if location = "" then .error "Redirect response is missing a location"
        else if redirects = client.maxRedirects then .error "Too many redirects"
        else
          match platform.parseUrl location (some current) with
          | none => .error "Invalid URL"
          | some next => .ok (.inl next)
  else
    (boundedResponse platform response client.maxResponseBytes (some current.href)).map .inr

/-- `finally`: the agent is closed, and what closing throws replaces the outcome. -/
def settle (outcome : Except String (FetchUrl ⊕ BoundedResponse)) (close : Except String Unit) :
    BoundedLoop.Next FetchUrl (Except String BoundedResponse) :=
  match close, outcome with
  | .error message, _ => .done (.error message)
  | .ok _, .error message => .done (.error message)
  | .ok _, .ok (.inl next) => .again next
  | .ok _, .ok (.inr response) => .done (.ok response)

/-- An iteration of the loop. -/
def fetchRound (platform : Platform) (client : SafeHttpClient)
    (resolver : ℕ → String → Except String PublicHttpTarget) (outside : ℕ → Exchange)
    (method : String) (headers : InsertionMap String String) (redirects : ℕ) (current : FetchUrl) :
    List FetchEvent × BoundedLoop.Next FetchUrl (Except String BoundedResponse) :=
  match resolver redirects current.href with
  | .error message => ([], .done (.error message))
  | .ok target =>
      let exchange := outside redirects
      let call : TransportCall := ⟨current, method, headers, "manual"⟩
      (.resolved current.href target :: .requested call ::
          ((List.range exchange.lookups).map fun n => .lookedUp (lookupAddress target n)) ++ [.closed],
        settle ((exchange.respond call).bind (answered platform client redirects current))
          exchange.close)

/-- `SafeHttpClient.fetch(input, init)`, with the events of every iteration. -/
def safeFetch (platform : Platform) (client : SafeHttpClient)
    (resolver : ℕ → String → Except String PublicHttpTarget) (outside : ℕ → Exchange)
    (input : String) (init : FetchInit) : List (List FetchEvent) × Except String BoundedResponse :=
  let method := (init.method.getD "GET").toUpper
  if method ≠ "GET" ∧ method ≠ "HEAD" then
    ([], .error "Safe public fetch only supports GET and HEAD")
  else
    match platform.parseUrl input none with
    | none => ([], .error "Invalid URL")
    | some current =>
        BoundedLoop.run
          (fetchRound platform client resolver outside method (requestHeaders client init))
          (.error "Too many redirects") (client.maxRedirects + 1) 0 current

/-! ### Targets are public -/

variable {platform : Platform} {client : SafeHttpClient}

/-- **An accepted target** has addresses, and all of them are public. -/
theorem isPublicIp_of_resolve {lookup : String → Except String (List AddressRecord)} {raw : String}
    {target : PublicHttpTarget} (h : resolvePublicHttpTarget platform lookup raw = .ok target) :
    target.addresses ≠ [] ∧ ∀ record ∈ target.addresses, isPublicIp record.address.toList = true := by
  unfold resolvePublicHttpTarget at h
  cases hurl : platform.parseUrl raw none with
  | none =>
      rw [hurl] at h
      cases h
  | some url =>
      rw [hurl] at h
      dsimp only at h
      -- the four checks of the URL
      iterate 4
        split at h
        · cases h
      obtain ⟨records, -, h⟩ := except_bind_eq_ok.mp h
      split at h
      · cases h
      · rename_i hpublic
        obtain ⟨hne, hall⟩ := not_or.mp hpublic
        obtain rfl := Except.ok.inj h
        refine ⟨hne, fun record hrecord => ?_⟩
        by_contra hnot
        exact hall (List.any_eq_true.mpr ⟨record, hrecord, decide_eq_true hnot⟩)

/-! ### Bodies are bounded -/

/-- What is read is no longer than the limit, if it is so before. -/
theorem readChunks_length {stream : BodyStream} {maxBytes left index length : ℕ}
    {chunks result : List (List UInt8)} (hlength : length = chunks.flatten.length)
    (hbound : length ≤ maxBytes) (h : readChunks stream maxBytes left index chunks length = .ok result) :
    result.flatten.length ≤ maxBytes := by
  induction left generalizing index chunks length with
  | zero => cases h
  | succ left ih =>
      unfold readChunks at h
      split at h
      · obtain rfl := Except.ok.inj h
        rwa [← hlength]
      · cases h
      · rename_i value _
        split at h
        · cases h
        · rename_i hlimit
          refine ih ?_ (Nat.le_of_not_lt hlimit) h
          rw [List.flatten_append, List.length_append, ← hlength, List.flatten_singleton]

theorem readLimited_length {stream : Option BodyStream} {maxBytes : ℕ} {body : List UInt8}
    (h : readLimited stream maxBytes = .ok body) : body.length ≤ maxBytes := by
  cases stream with
  | none =>
      obtain rfl := Except.ok.inj h
      exact Nat.zero_le _
  | some stream =>
      cases hread : readChunks stream maxBytes stream.abortedAt 0 [] 0 with
      | error message =>
          rw [readLimited, hread] at h
          cases h
      | ok chunks =>
          rw [readLimited, hread] at h
          obtain rfl := Except.ok.inj h
          exact readChunks_length rfl (Nat.zero_le _) hread

theorem boundedResponse_length {response : HttpResponse} {maxBytes : ℕ} {url : Option String}
    {result : BoundedResponse} (h : boundedResponse platform response maxBytes url = .ok result) :
    result.body.length ≤ maxBytes := by
  unfold boundedResponse at h
  dsimp only at h
  split at h
  · cases h
  · obtain ⟨body, hread, h⟩ := except_bind_eq_ok.mp h
    split at h
    · cases h
    · obtain rfl := Except.ok.inj h
      exact readLimited_length hread

/-! ### Iterations -/

/-- What the resolution of `raw` permits in the rest of its iteration. -/
def Permitted (raw : String) (target : PublicHttpTarget) : FetchEvent → Prop
  | .resolved _ _ => False
  | .requested call =>
      (call.method = "GET" ∨ call.method = "HEAD") ∧ call.url.href = raw ∧ call.redirect = "manual"
  | .lookedUp answer => ∀ record, answer = .ok record → record ∈ target.addresses
  | .closed => True

/-- The events of an iteration: none, or the resolution of a URL and what it permits. -/
def Validated (resolve : String → Except String PublicHttpTarget) (events : List FetchEvent) : Prop :=
  events = [] ∨ ∃ raw target rest, events = .resolved raw target :: rest ∧
    resolve raw = .ok target ∧ ∀ event ∈ rest, Permitted raw target event

/-- The event is a call of the transport. -/
def FetchEvent.isRequest : FetchEvent → Bool
  | .requested _ => true
  | _ => false

variable {resolver : ℕ → String → Except String PublicHttpTarget} {outside : ℕ → Exchange}
  {method : String} {headers : InsertionMap String String}

/-- An address that is looked up was validated. -/
theorem lookupAddress_mem {target : PublicHttpTarget} {nextAddress : ℕ} {record : AddressRecord}
    (h : lookupAddress target nextAddress = .ok record) : record ∈ target.addresses := by
  unfold lookupAddress at h
  split at h
  · cases h
  · rename_i found hfound
    obtain rfl := Except.ok.inj h
    exact List.mem_of_getElem? hfound

/-- **One iteration** does what its resolution permits. -/
theorem fetchRound_validated (hmethod : method = "GET" ∨ method = "HEAD") (redirects : ℕ)
    (current : FetchUrl) : Validated (resolver redirects)
      (fetchRound platform client resolver outside method headers redirects current).1 := by
  unfold fetchRound
  cases hresolve : resolver redirects current.href with
  | error message => exact Or.inl rfl
  | ok target =>
      refine Or.inr ⟨current.href, target, _, List.cons_append, hresolve, fun event hevent => ?_⟩
      obtain hevent | hevent := List.mem_append.mp hevent
      · obtain rfl | hevent := List.mem_cons.mp hevent
        · exact ⟨hmethod, rfl, rfl⟩
        · obtain ⟨n, -, rfl⟩ := List.mem_map.mp hevent
          exact fun record hrecord => lookupAddress_mem hrecord
      · obtain rfl := List.mem_singleton.mp hevent
        trivial

/-- The transport is called at most once. -/
theorem fetchRound_countP (redirects : ℕ) (current : FetchUrl) :
    (fetchRound platform client resolver outside method headers redirects current).1.countP
      FetchEvent.isRequest ≤ 1 := by
  unfold fetchRound
  cases resolver redirects current.href with
  | error message => exact Nat.zero_le 1
  | ok target =>
      have hlookups : ((List.range (outside redirects).lookups).map fun n =>
          FetchEvent.lookedUp (lookupAddress target n)).countP FetchEvent.isRequest = 0 := by
        refine List.countP_eq_zero.mpr fun event hevent => ?_
        obtain ⟨n, -, rfl⟩ := List.mem_map.mp hevent
        exact Bool.false_ne_true
      dsimp only
      rw [List.countP_append, List.countP_cons, List.countP_cons, hlookups]
      exact Nat.le_refl 1

/-- A response that ends the loop is bounded. -/
theorem fetchRound_length {redirects : ℕ} {current : FetchUrl} {result : Except String BoundedResponse}
    (h : (fetchRound platform client resolver outside method headers redirects current).2 =
      .done result) (response : BoundedResponse) (hok : result = .ok response) :
    response.body.length ≤ client.maxResponseBytes := by
  subst hok
  unfold fetchRound at h
  cases hresolve : resolver redirects current.href with
  | error message =>
      rw [hresolve] at h
      cases h
  | ok target =>
      rw [hresolve] at h
      dsimp only at h
      unfold settle at h
      split at h
      · cases h
      · cases h
      · cases h
      · rename_i houtcome
        obtain rfl := Except.ok.inj (BoundedLoop.Next.done.inj h)
        obtain ⟨answer, -, hanswer⟩ := except_bind_eq_ok.mp houtcome
        unfold answered at hanswer
        split at hanswer
        · split at hanswer
          · cases hanswer
          · split at hanswer
            · cases hanswer
            · split at hanswer
              · cases hanswer
              · split at hanswer
                · cases hanswer
                · cases hanswer
        · cases hbounded : boundedResponse platform answer client.maxResponseBytes
              (some current.href) with
          | error message =>
              rw [hbounded] at hanswer
              cases hanswer
          | ok bounded =>
              rw [hbounded] at hanswer
              obtain rfl := Sum.inr.inj (Except.ok.inj hanswer)
              exact boundedResponse_length hbounded

/-! ### The whole call -/

/-- **Every hop is validated.**  Every iteration of a call begins with a resolution, and its
transport call, of the same URL, and its looked up addresses are what that resolution permits; the
transport is called at most once more than there may be redirects, and a response that is returned
is bounded.  Where the resolver is `resolvePublicHttpTarget`, all looked up addresses are public. -/
theorem safeFetch_validated (platform : Platform) (client : SafeHttpClient)
    (resolver : ℕ → String → Except String PublicHttpTarget) (outside : ℕ → Exchange) (input : String)
    (init : FetchInit) :
    (∀ i events, (safeFetch platform client resolver outside input init).1[i]? = some events →
      Validated (resolver i) events ∧
      ∀ lookup, resolver i = resolvePublicHttpTarget platform lookup →
        ∀ record, .lookedUp (.ok record) ∈ events → isPublicIp record.address.toList = true) ∧
    (safeFetch platform client resolver outside input init).1.flatten.countP FetchEvent.isRequest ≤
      client.maxRedirects + 1 ∧
    ∀ response, (safeFetch platform client resolver outside input init).2 = .ok response →
      response.body.length ≤ client.maxResponseBytes := by
  have hpublic : ∀ {i events}, Validated (resolver i) events →
      ∀ lookup, resolver i = resolvePublicHttpTarget platform lookup →
        ∀ record, .lookedUp (.ok record) ∈ events → isPublicIp record.address.toList = true := by
    intro i events hvalid lookup hresolver record hmem
    obtain rfl | ⟨raw, target, rest, rfl, hresolve, hpermitted⟩ := hvalid
    · cases hmem
    · obtain heq | hmem := List.mem_cons.mp hmem
      · cases heq
      · rw [hresolver] at hresolve
        exact (isPublicIp_of_resolve hresolve).2 record (hpermitted _ hmem record rfl)
  unfold safeFetch
  dsimp only
  split
  · refine ⟨fun i events h => ?_, Nat.zero_le _, fun response h => ?_⟩
    · cases h
    · cases h
  · rename_i hmethod
    have hmethod : (init.method.getD "GET").toUpper = "GET" ∨
        (init.method.getD "GET").toUpper = "HEAD" := by
      by_contra hnot
      exact hmethod (not_or.mp hnot)
    cases platform.parseUrl input none with
    | none =>
        refine ⟨fun i events h => ?_, Nat.zero_le _, fun response h => ?_⟩
        · cases h
        · cases h
    | some current =>
        refine ⟨fun i events h => ?_, ?_, ?_⟩
        · have hround := BoundedLoop.run_round (P := fun n events => Validated (resolver n) events)
            (fun n s => fetchRound_validated hmethod n s) h
          rw [Nat.zero_add] at hround
          exact ⟨hround, hpublic hround⟩
        · exact BoundedLoop.run_countP (fun n s => fetchRound_countP n s) _ _ _
        · refine BoundedLoop.run_result (Q := fun result : Except String BoundedResponse =>
            ∀ response, result = .ok response → response.body.length ≤ client.maxResponseBytes)
            ?_ ?_ _ _ _
          · intro response h
            cases h
          · exact fun n s result h response hok => fetchRound_length h response hok

end RecruitingOs
