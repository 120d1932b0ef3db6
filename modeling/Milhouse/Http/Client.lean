import Milhouse.Http.Addresses

/-!
# Milhouse — the bounded HTTP client

`BoundedHttpClient.get` as a run against an environment: what the resolver answers and what the
transport does on each attempt. It returns its result together with the requests it handed to the
transport. `UrlModule` is `urlsplit`, `IpModule` what the client uses of `ipaddress`. A URL text has
no lone surrogate: encoding one raises before anything else happens.

* **`authority_pinned`** — the authority of a rebuilt URL is the literal and the port, whatever the
  rest of the URL was;
* **`getLoop_sent`** — every request of every attempt was built for the first address of a public
  answer of that attempt;
* **`get_connects_to_vetted`** — the same of `get`, for every URL.
-/

namespace Milhouse.Http

structure HttpClientError where
  code : String
  message : String
  deriving DecidableEq, Repr

/-- What leaves a call: a fixed error, or an exception of another kind. -/
inductive Raised where
  | client (e : HttpClientError)
  | other
  deriving DecidableEq, Repr

/-! ## The target -/

/-- A `SplitResult`, with its `port` read. -/
structure SplitResult where
  scheme : String
  path : String
  query : String
  username : Option String
  password : Option String
  hostname : Option String
  port : Option Nat
  deriving DecidableEq, Repr

/-- `urlsplit`; `none` is the `ValueError` of the split or of its `port`. -/
structure UrlModule where
  urlsplit : String → Option SplitResult

/-- A URL is `scheme://netloc/path?query#fragment`: after a netloc, which a hostname is part of, the
path is empty or starts with a slash. -/
structure UrlModule.Documented (urllib : UrlModule) : Prop where
  path_of_hostname : ∀ {url split host}, urllib.urlsplit url = some split →
    split.hostname = some host → split.path.toList = [] ∨ split.path.toList.head? = some '/'

/-- `str.isspace` of one character. -/
def isSpace (c : Char) : Bool :=
  c.toNat ∈ [0x85, 0xA0, 0x1680, 0x2028, 0x2029, 0x202F, 0x205F, 0x3000] ||
    (0x09 ≤ c.toNat && c.toNat ≤ 0x0D) || (0x1C ≤ c.toNat && c.toNat ≤ 0x20) ||
    (0x2000 ≤ c.toNat && c.toNat ≤ 0x200A)

/-- `_has_unsafe_url_character`. -/
def hasUnsafeUrlCharacter (url : String) : Bool :=
  url.toList.any fun c => c.toNat < 0x20 || c.toNat = 0x7F || isSpace c

structure ParsedTarget where
  scheme : String
  host : String
  hostAuthority : String
  port : Nat
  path : String
  deriving DecidableEq, Repr

def maxUrlBytes : Nat := 8192

/-- The port of a scheme. -/
def defaultPort (scheme : String) : Nat := if scheme = "https" then 443 else 80

/-- `host_authority`: a host with a colon is bracketed. -/
def bracketHost (host : String) : String :=
  if ':' ∈ host.toList then "[" ++ host ++ "]" else host

/-- The request path: `split.path or "/"`, and the query. -/
def requestPath (split : SplitResult) : String :=
  let path := if split.path = "" then "/" else split.path
  if split.query = "" then path else path ++ "?" ++ split.query

/-- `_parse_target`. -/
def parseTarget (urllib : UrlModule) (url : String) : Except HttpClientError ParsedTarget := do
  if url = "" ∨ maxUrlBytes < url.utf8ByteSize then
    throw ⟨"MH_HTTP_URL", "a bounded target URL is required"⟩
  if hasUnsafeUrlCharacter url then
    throw ⟨"MH_HTTP_URL", "the target URL contains unsafe characters"⟩
  match urllib.urlsplit url with
  | none => throw ⟨"MH_HTTP_URL", "the target URL is invalid"⟩
  | some split =>
      let scheme := split.scheme.toLower
      if scheme ≠ "http" ∧ scheme ≠ "https" then
        throw ⟨"MH_HTTP_SCHEME", "only http and https targets are permitted"⟩
      if split.username.isSome ∨ split.password.isSome then
        throw ⟨"MH_HTTP_URL", "credentials in the target URL are not permitted"⟩
      match split.hostname with
      | none => throw ⟨"MH_HTTP_URL", "the target URL has no host"⟩
      | some host =>
          if host = "" then throw ⟨"MH_HTTP_URL", "the target URL has no host"⟩
          if !host.toList.all fun c => c.toNat < 0x80 then
            throw ⟨"MH_HTTP_URL",
              "the target host must be ASCII (use punycode for an internationalized name)"⟩
          pure ⟨scheme, host, bracketHost host, split.port.getD (defaultPort scheme),
            requestPath split⟩

/-! ## The pinned request -/

/-- What is handed to the transport: `httpx.Request("GET", url, headers, extensions)`. -/
structure Request where
  url : String
  hostHeader : String
  sniHostname : Option String
  deriving DecidableEq, Repr

section Pinning

variable (ip : IpModule)

/-- `_select_pinned_address`. -/
def selectPinnedAddress (addresses : List String) : Except HttpClientError String :=
  match addresses with
  | [] => .error ⟨"MH_HTTP_RESOLVE", "the target host resolved to no address"⟩
  | first :: _ =>
      if addresses.all (isPublicAddress ip) then
        match ip.ipAddress first with
        | some address => .ok (ip.compressed address)
        -- unreachable: a public text parses
        | none => .error ⟨"MH_HTTP_SSRF_BLOCKED", "the target resolves to a non-public address"⟩
      else .error ⟨"MH_HTTP_SSRF_BLOCKED", "the target resolves to a non-public address"⟩

/-- The literal in a URL: an IPv6 address is bracketed. -/
def urlLiteral (pinned : String) : IpAddress → String
  | .v4 _ => pinned
  | .v6 _ => "[" ++ pinned ++ "]"

/-- `_build_pinned_request` with the extensions of `_probe`; `none` is the `ValueError` of
`ip_address`. -/
def buildPinnedRequest (target : ParsedTarget) (pinned : String) : Option Request :=
  (ip.ipAddress pinned).map fun address =>
    { url := target.scheme ++ "://" ++ urlLiteral pinned address ++ ":" ++ toString target.port ++
        target.path
      hostHeader := if target.port = defaultPort target.scheme then target.hostAuthority
        else target.hostAuthority ++ ":" ++ toString target.port
      sniHostname := if target.scheme = "https" then some target.host else none }

end Pinning

/-! ## The environment -/

/-- What a call into `httpx` raises: a `TimeoutException`, another `HTTPError`, or an exception of
another kind. -/
inductive Fault where
  | timeout
  | httpError
  | other
  deriving DecidableEq, Repr

/-- A response of the transport. Where a fault is `none`, nothing is raised. -/
structure Response where
  status : Nat
  /-- Its `content-length`; `some none` is not a number. -/
  declared : Option (Option Int)
  /-- The lengths of what the transport yields of the body, up to where it ends or faults. -/
  chunks : List Nat
  ending : Option Fault
  /-- What closing it raises. -/
  closing : Option Fault
  deriving DecidableEq, Repr

/-- What `client.send` does with a request. -/
inductive Delivery where
  /-- It raises before there is a response. -/
  | failed (fault : Fault)
  /-- The transport responds. `send` can raise over the response it has: reading its cookies parses
  the URL again, and a `location` that is no URL is a `RemoteProtocolError`. -/
  | answered (response : Response) (refused : Option Fault)
  deriving DecidableEq, Repr

/-- One attempt as the transport sees it. -/
structure Exchange where
  /-- `httpx.Request` and the client can be built. -/
  opens : Bool
  delivery : Delivery
  /-- Leaving the `with` block of the client raises nothing. -/
  exits : Bool
  startedNs : Int
  finishedNs : Int

/-- What the resolver answers and what the transport does, attempt by attempt. -/
structure Environment where
  resolver : Nat → String → Except Raised (List String)
  transport : Nat → Exchange

structure HttpProbeResult where
  statusCode : Nat
  elapsedMs : Nat
  responseBytes : Nat
  deriving DecidableEq, Repr

structure BoundedHttpClient where
  maxResponseBytes : Nat
  maxRetries : Nat
  bounded : 1 ≤ maxResponseBytes ∧ maxResponseBytes ≤ 8 * 1024 * 1024 ∧ maxRetries ≤ 8

/-- A request handed to the transport, and the attempt that handed it. -/
structure Sent where
  attempt : Nat
  request : Request
  deriving DecidableEq, Repr

/-! ## The run -/

def httpTimeout : Raised := .client ⟨"MH_HTTP_TIMEOUT", "the outbound request timed out"⟩
def httpRequestFailed : Raised := .client ⟨"MH_HTTP_REQUEST", "the outbound request failed"⟩
def httpBodyTooLarge : Raised :=
  .client ⟨"MH_HTTP_BODY_TOO_LARGE", "the response body exceeded the byte ceiling"⟩

/-- The two `except` clauses around the sending and around the reading. -/
def Fault.raised : Fault → Raised
  | .timeout => httpTimeout
  | .httpError => httpRequestFailed
  | .other => .other

/-! ### The body -/

def readChunkBytes : Nat := 8192

/-- `ByteChunker.decode` over the chunks of the transport, with `held` bytes in its buffer: the
full pieces it yields, and what its buffer holds after them. -/
def decodeChunks : Nat → List Nat → List Nat × Nat
  | held, [] => ([], held)
  | held, chunk :: chunks =>
      let (pieces, left) := decodeChunks ((held + chunk) % readChunkBytes) chunks
      (List.replicate ((held + chunk) / readChunkBytes) readChunkBytes ++ pieces, left)

/-- What `response.iter_raw(8192)` yields: full pieces, and at the end of the body, which a stream
that faults does not reach, what is left. -/
def Response.pieces (response : Response) : List Nat :=
  let (pieces, left) := decodeChunks 0 response.chunks
  if response.ending = none ∧ left ≠ 0 then pieces ++ [left] else pieces

section Run

variable (ip : IpModule) (client : BoundedHttpClient) (env : Environment)

/-- The chunk loop of `_drain_capped`, and whether the response is closed after it: `iter_raw`
closes it behind the last piece, within the `try`. -/
def drainChunks (response : Response) : Nat → List Nat → Except Raised Nat × Bool
  | total, [] =>
      match response.ending, response.closing with
      | some fault, _ => (.error fault.raised, false)
      | none, some fault => (.error fault.raised, true)
      | none, none => (.ok total, true)
  | total, piece :: pieces =>
      if client.maxResponseBytes < total + piece then (.error httpBodyTooLarge, false)
      else drainChunks response (total + piece) pieces

/-- `_drain_capped`. -/
def drainCapped (response : Response) : Except Raised Nat × Bool :=
  let oversize := match response.declared with
    | some (some bytes) => decide ((client.maxResponseBytes : Int) < bytes)
    | _ => false
  if oversize then (.error httpBodyTooLarge, false)
  else drainChunks client response 0 response.pieces

/-- The reading of `_probe`, with its `finally`: an exception of `response.close()` takes the place
of what was raised, outside of every `except` clause. -/
def readBody (response : Response) : Except Raised Nat :=
  let (size, closed) := drainCapped client response
  if closed || response.closing.isNone then size else .error .other

/-- The `with` block of `_probe`, from the sending on. -/
def Exchange.result (exchange : Exchange) : Except Raised HttpProbeResult :=
  let result := match exchange.delivery with
    | .failed fault => .error fault.raised
    | .answered _ (some fault) => .error fault.raised
    | .answered response none =>
        (readBody client response).map fun size => ⟨response.status,
          ((exchange.finishedNs - exchange.startedNs) / 1000000).toNat, size⟩
  if exchange.exits then result else .error .other

/-! ### The attempts -/

/-- `_resolve`. -/
def resolve (attempt : Nat) (hostname : String) : Except Raised (List String) :=
  match env.resolver attempt hostname with
  | .ok addresses => .ok addresses
  | .error (.client e) => .error (.client e)
  | .error .other =>
      .error (.client ⟨"MH_HTTP_RESOLVE", "the target host could not be resolved"⟩)

/-- `_probe`: its result, and the request if one was handed to the transport. -/
def probe (attempt : Nat) (target : ParsedTarget) (pinned : String) :
    Except Raised HttpProbeResult × List Sent :=
  let exchange := env.transport attempt
  match buildPinnedRequest ip target pinned with
  | none => (.error .other, [])
  | some request =>
      if !exchange.opens then (.error .other, [])
      else (exchange.result client, [⟨attempt, request⟩])

/-- Only a transport fault is retried. -/
def isRetried : Raised → Bool
  | .client e => e.code = "MH_HTTP_REQUEST"
  | .other => false

/-- The loop of `get`, from attempt `attempt` on with `remaining` retries left. -/
def getLoop (target : ParsedTarget) : Nat → Nat → Except Raised HttpProbeResult × List Sent
  | attempt, remaining =>
      match resolve env attempt target.host with
      | .error e => (.error e, [])
      | .ok addresses =>
          match selectPinnedAddress ip addresses with
          | .error e => (.error (.client e), [])
          | .ok pinned =>
              let (result, sent) := probe ip client env attempt target pinned
              match result, remaining with
              | .ok r, _ => (.ok r, sent)
              | .error e, 0 => (.error e, sent)
              | .error e, remaining + 1 =>
                  if isRetried e then
                    let (result, more) := getLoop target (attempt + 1) remaining
                    (result, sent ++ more)
                  else (.error e, sent)
  termination_by structural _ remaining => remaining

/-- `BoundedHttpClient.get`. -/
def BoundedHttpClient.get (urllib : UrlModule) (url : String) (timeoutSeconds : Int)
    (verifyTls : Bool) : Except Raised HttpProbeResult × List Sent :=
  if !verifyTls then
    (.error (.client ⟨"MH_HTTP_TLS_REQUIRED", "TLS verification cannot be disabled"⟩), [])
  else if !(1 ≤ timeoutSeconds && timeoutSeconds ≤ 300) then
    (.error (.client ⟨"MH_HTTP_TIMEOUT_BUDGET",
      "a bounded positive request timeout is required"⟩), [])
  else match parseTarget urllib url with
    | .error e => (.error (.client e), [])
    | .ok target => getLoop ip client env target 1 client.maxRetries

end Run

/-! ## What a request must show -/

/-- Whether a character ends an authority. -/
def endsAuthority (c : Char) : Bool := c = '/' || c = '?' || c = '#'

/-- The authority of a URL: what stands between `//` and the next `/`, `?` or `#`. -/
def authority (url : String) : Option String :=
  match url.toList.dropWhile (· ≠ ':') with
  | ':' :: '/' :: '/' :: rest =>
      some (String.ofList (rest.takeWhile fun c => !endsAuthority c))
  | _ => none

/-- A request for the first address of an answer of its own attempt, all of it public. Its
authority is the literal of that address and the target's port; its `Host` and its SNI name are the
host `urlsplit` reports. -/
def Vetted (ip : IpModule) (urllib : UrlModule) (env : Environment) (url : String) (sent : Sent) :
    Prop :=
  ∃ split host first rest address,
    urllib.urlsplit url = some split ∧ split.hostname = some host ∧
    env.resolver sent.attempt host = .ok (first :: rest) ∧
    (∀ text ∈ first :: rest, PublicText ip text) ∧
    ip.ipAddress first = some address ∧ ip.ipAddress (ip.compressed address) = some address ∧
    authority sent.request.url = some (urlLiteral (ip.compressed address) address ++ ":" ++
      toString (split.port.getD (defaultPort split.scheme.toLower))) ∧
    sent.request.hostHeader = bracketHost host ++
      (if split.port.getD (defaultPort split.scheme.toLower) = defaultPort split.scheme.toLower
        then "" else ":" ++ toString (split.port.getD (defaultPort split.scheme.toLower))) ∧
    sent.request.sniHostname = if split.scheme.toLower = "https" then some host else none

section Safety

variable {ip : IpModule} {urllib : UrlModule} {client : BoundedHttpClient} {env : Environment}
  {url : String} {target : ParsedTarget}

/-- What a parsed target repeats of the split. -/
theorem parseTarget_ok (h : parseTarget urllib url = .ok target) :
    ∃ split host, urllib.urlsplit url = some split ∧ split.hostname = some host ∧
      (split.scheme.toLower = "http" ∨ split.scheme.toLower = "https") ∧
      target = ⟨split.scheme.toLower, host, bracketHost host,
        split.port.getD (defaultPort split.scheme.toLower), requestPath split⟩ := by
  unfold parseTarget at h
  simp only [bind, Except.bind, throw, throwThe, MonadExceptOf.throw, pure, Except.pure] at h
  split at h
  · cases h
  · split at h
    · cases h
    · split at h
      · cases h
      · rename_i split hsplit
        split at h
        · cases h
        · rename_i hscheme
          split at h
          · cases h
          · split at h
            · cases h
            · rename_i host hhost
              split at h
              · cases h
              · split at h
                · cases h
                · obtain rfl := Except.ok.inj h
                  refine ⟨split, host, hsplit, hhost, ?_, rfl⟩
                  by_contra hneither
                  exact hscheme (not_or.mp hneither)

/-- The request path starts with a slash. -/
theorem requestPath_slash {split : SplitResult}
    (h : split.path.toList = [] ∨ split.path.toList.head? = some '/') :
    ∃ rest, (requestPath split).toList = '/' :: rest := by
  have hpath : ∃ rest, (if split.path = "" then "/" else split.path).toList = '/' :: rest := by
    split
    · exact ⟨[], rfl⟩
    · rename_i hne
      rcases h with h | h
      · exact absurd (String.toList_eq_nil_iff.mp h) hne
      · obtain ⟨rest, hrest⟩ := List.head?_eq_some_iff.mp h
        exact ⟨rest, hrest⟩
  obtain ⟨rest, hrest⟩ := hpath
  unfold requestPath
  simp only
  split
  · exact ⟨rest, hrest⟩
  · refine ⟨rest ++ "?".toList ++ split.query.toList, ?_⟩
    rw [String.toList_append, String.toList_append, hrest]
    rfl

theorem not_endsAuthority_of_isAddressChar {c : Char} (h : isAddressChar c = true) :
    endsAuthority c = false := by
  unfold endsAuthority
  simp only [Bool.or_eq_false_iff, decide_eq_false_iff_not]
  refine ⟨⟨?_, ?_⟩, ?_⟩
  all_goals
    rintro rfl
    revert h
    decide

/-- No character of a literal ends an authority. -/
theorem urlLiteral_chars {pinned : String} {address : IpAddress}
    (h : ∀ c ∈ pinned.toList, isAddressChar c = true) :
    ∀ c ∈ (urlLiteral pinned address).toList, endsAuthority c = false := by
  intro c hc
  cases address with
  | v4 a => exact not_endsAuthority_of_isAddressChar (h c hc)
  | v6 a =>
      simp only [urlLiteral, String.toList_append, List.mem_append] at hc
      rcases hc with (hc | hc) | hc
      · obtain rfl := List.mem_singleton.mp hc
        rfl
      · exact not_endsAuthority_of_isAddressChar (h c hc)
      · obtain rfl := List.mem_singleton.mp hc
        rfl

theorem port_chars (port : Nat) : ∀ c ∈ (toString port).toList, endsAuthority c = false := by
  intro c hc
  have hdigit : c.isDigit = true := by
    rw [show (toString port).toList = Nat.toDigits 10 port from Nat.toList_repr] at hc
    exact Nat.isDigit_of_mem_toDigits (by decide) (by decide) hc
  exact not_endsAuthority_of_isAddressChar (by simp [isAddressChar, hdigit])

/-- **The authority of the rebuilt URL** is the literal and the port: the path, which starts with a
slash, ends it. -/
theorem authority_pinned {scheme literal path : String} {port : Nat} {rest : List Char}
    (hscheme : scheme = "http" ∨ scheme = "https")
    (hliteral : ∀ c ∈ literal.toList, endsAuthority c = false)
    (hpath : path.toList = '/' :: rest) :
    authority (scheme ++ "://" ++ literal ++ ":" ++ toString port ++ path) =
      some (literal ++ ":" ++ toString port) := by
  have hdrop : (scheme ++ "://" ++ literal ++ ":" ++ toString port ++ path).toList.dropWhile
      (· ≠ ':') = ':' :: '/' :: '/' ::
        ((literal ++ ":" ++ toString port).toList ++ '/' :: rest) := by
    simp only [String.toList_append, hpath, List.append_assoc]
    rcases hscheme with rfl | rfl <;> rfl
  have hhost : ∀ c ∈ (literal ++ ":" ++ toString port).toList, (!endsAuthority c) = true := by
    intro c hc
    simp only [String.toList_append, List.mem_append] at hc
    rcases hc with (hc | hc) | hc
    · rw [hliteral c hc]
      rfl
    · obtain rfl := List.mem_singleton.mp hc
      rfl
    · rw [port_chars port c hc]
      rfl
  unfold authority
  rw [hdrop]
  simp only
  rw [List.takeWhile_append_of_pos hhost, List.takeWhile_cons_of_neg (by decide), List.append_nil,
    String.ofList_toList]

/-- A pinned address is the compressed form of the first of a public answer. -/
theorem selectPinnedAddress_ok (hip : ip.Documented) {addresses : List String} {pinned : String}
    (h : selectPinnedAddress ip addresses = .ok pinned) :
    ∃ first rest address, addresses = first :: rest ∧
      (∀ text ∈ addresses, PublicText ip text) ∧ ip.ipAddress first = some address ∧
      pinned = ip.compressed address := by
  unfold selectPinnedAddress at h
  split at h
  · cases h
  · rename_i first rest
    split at h
    · rename_i hall
      split at h
      · rename_i address haddress
        obtain rfl := Except.ok.inj h
        refine ⟨first, rest, address, rfl, fun text htext => ?_, haddress, rfl⟩
        exact (isPublicAddress_iff hip).mp (List.all_eq_true.mp hall text htext)
      · cases h
    · cases h

theorem resolve_ok {attempt : Nat} {host : String} {addresses : List String}
    (h : resolve env attempt host = .ok addresses) :
    env.resolver attempt host = .ok addresses := by
  unfold resolve at h
  split at h
  · rename_i answer hanswer
    rw [hanswer, ← Except.ok.inj h]
  · cases h
  · cases h

/-- **One attempt** hands over at most the request it built. -/
theorem probe_sent {attempt : Nat} {pinned : String} {sent : Sent}
    (h : sent ∈ (probe ip client env attempt target pinned).2) :
    sent.attempt = attempt ∧ buildPinnedRequest ip target pinned = some sent.request := by
  unfold probe at h
  simp only at h
  split at h
  · cases h
  · rename_i request hrequest
    split at h
    · cases h
    · obtain rfl := List.mem_singleton.mp h
      exact ⟨rfl, hrequest⟩

/-- **Every attempt** resolves, vets and pins again: what the loop hands over was built for an
address selected from the answer of its own attempt. -/
theorem getLoop_sent {attempt remaining : Nat} {sent : Sent}
    (h : sent ∈ (getLoop ip client env target attempt remaining).2) :
    ∃ addresses pinned, env.resolver sent.attempt target.host = .ok addresses ∧
      selectPinnedAddress ip addresses = .ok pinned ∧
      buildPinnedRequest ip target pinned = some sent.request := by
  induction remaining generalizing attempt with
  -- On the last attempt only this probe can have sent anything.
  | zero =>
      unfold getLoop at h
      split at h
      · cases h
      · rename_i addresses hresolve
        split at h
        · cases h
        · rename_i pinned hpinned
          have hsent : sent ∈ (probe ip client env attempt target pinned).2 := by
            revert h
            generalize probe ip client env attempt target pinned = outcome
            obtain ⟨result, all⟩ := outcome
            cases result <;> exact id
          obtain ⟨rfl, hbuilt⟩ := probe_sent hsent
          exact ⟨addresses, pinned, resolve_ok hresolve, hpinned, hbuilt⟩
  | succ remaining ih =>
      unfold getLoop at h
      split at h
      · cases h
      · rename_i addresses hresolve
        split at h
        · cases h
        · rename_i pinned hpinned
          -- On an earlier one the request is of this probe or of an attempt after it.
          have hsent : sent ∈ (probe ip client env attempt target pinned).2 ∨
              sent ∈ (getLoop ip client env target (attempt + 1) remaining).2 := by
            revert h
            generalize probe ip client env attempt target pinned = outcome
            obtain ⟨result, all⟩ := outcome
            cases result with
            | ok r => exact Or.inl
            | error e =>
                simp only
                split
                · exact List.mem_append.mp
                · exact Or.inl
          rcases hsent with hsent | hsent
          · obtain ⟨rfl, hbuilt⟩ := probe_sent hsent
            exact ⟨addresses, pinned, resolve_ok hresolve, hpinned, hbuilt⟩
          · exact ih hsent

/-- **The client connects only to vetted addresses**: for every URL, resolver and transport, each
request handed over is for the first address of a public answer of its own attempt. -/
theorem get_connects_to_vetted (hip : ip.Documented) (hurllib : urllib.Documented)
    (timeoutSeconds : Int) (verifyTls : Bool)
    (hscope : ∀ attempt host answer, env.resolver attempt host = .ok answer →
      ∀ text ∈ answer, '%' ∉ text.toList) :
    ∀ sent ∈ (client.get ip env urllib url timeoutSeconds verifyTls).2,
      Vetted ip urllib env url sent := by
  intro sent hsent
  unfold BoundedHttpClient.get at hsent
  split at hsent
  · cases hsent
  · split at hsent
    · cases hsent
    · split at hsent
      · cases hsent
      · rename_i target htarget
        obtain ⟨split, host, hsplit, hhost, hscheme, rfl⟩ := parseTarget_ok htarget
        obtain ⟨addresses, pinned, hanswer, hpinned, hbuilt⟩ := getLoop_sent hsent
        obtain ⟨first, rest, address, rfl, hpublic, haddress, rfl⟩ :=
          selectPinnedAddress_ok hip hpinned
        have hunscoped : '%' ∉ first.toList :=
          hscope _ _ _ hanswer first List.mem_cons_self
        have hparses := hip.compressed_parses haddress hunscoped
        have hchars := hip.compressed_chars haddress hunscoped
        obtain ⟨tail, htail⟩ := requestPath_slash (hurllib.path_of_hostname hsplit hhost)
        unfold buildPinnedRequest at hbuilt
        rw [hparses, Option.map_some] at hbuilt
        have hrequest := (Option.some.inj hbuilt).symm
        refine ⟨split, host, first, rest, address, hsplit, hhost, hanswer, hpublic, haddress,
          hparses, ?_, ?_, ?_⟩
        · rw [hrequest]
          exact authority_pinned hscheme (urlLiteral_chars hchars) htail
        · rw [hrequest]
          simp only
          split
          · rw [String.append_empty]
          · rw [String.append_assoc]
        · rw [hrequest]

end Safety

/-! ## One probe -/

/-- `ipaddress` on one IPv4 text. -/
def sampleIp : IpModule where
  ipAddress text := if text = "93.184.216.34" then some (.v4 ⟨1572395042, by decide⟩) else none
  compressed _ := "93.184.216.34"
  isLoopback address := match address with
    | .v4 _ => false
    | .v6 a => a.value = 1
  isPrivate _ := false
  isLinkLocal _ := false
  isReserved _ := false
  isMulticast _ := false
  isUnspecified address := match address with
    | .v4 _ => false
    | .v6 a => a.value = 0
  isGlobal _ := true

theorem sampleIp_documented : sampleIp.Documented where
  compressed_parses h _ := by
    simp only [sampleIp] at h ⊢
    split at h
    · exact h
    · cases h
  compressed_chars _ _ := by
    show ∀ c ∈ "93.184.216.34".toList, isAddressChar c = true
    exact List.all_eq_true.mp (by decide)
  unspecified h := by simp [sampleIp, h]
  loopback h := by simp [sampleIp, h]

def sampleUrl : String := "https://example.com:8443/health?probe=@evil"

/-- `urlsplit` on one URL. -/
def sampleUrllib : UrlModule where
  urlsplit url := if url = sampleUrl then
      some ⟨"https", "/health", "probe=@evil", none, none, some "example.com", some 8443⟩
    else none

theorem sampleUrllib_documented : sampleUrllib.Documented where
  path_of_hostname h _ := by
    simp only [sampleUrllib] at h
    split at h
    · obtain rfl := Option.some.inj h
      exact Or.inr (by decide)
    · cases h

/-- The first connection fails and the second is answered. -/
def sampleEnv : Environment where
  resolver _ _ := .ok ["93.184.216.34"]
  transport attempt :=
    ⟨true, if attempt = 1 then .failed .httpError else .answered ⟨200, none, [], none, none⟩ none,
      true, 0, 0⟩

def sampleClient : BoundedHttpClient := ⟨65536, 1, by decide⟩

/-- The retry is vetted like the first attempt. -/
theorem get_connects_to_vetted_retry : Vetted sampleIp sampleUrllib sampleEnv sampleUrl
    ⟨2, "https://93.184.216.34:8443/health?probe=@evil", "example.com:8443",
      some "example.com"⟩ := by
  refine @get_connects_to_vetted _ _ sampleClient _ _ sampleIp_documented
    sampleUrllib_documented 5 true ?_ _ ?_
  · intro attempt host answer h text htext
    obtain rfl := Except.ok.inj h
    obtain rfl := List.mem_singleton.mp htext
    decide
  · decide +kernel

end Milhouse.Http
